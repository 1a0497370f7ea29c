import Bifferboard.Biffnor.Bounds
import Bifferboard.Biffnor.OnNor

/-!
# Where the chunks of the kernel are

`EON_ChunkToSector` rotates the chunks by three places, over the config block.
Chunks never overlap, a chunk that does not start a sector lies behind the
chunk before it (`next_chunk`), and starting a sector erases no chunk with a
smaller number (`earlier_chunk_outside`). On a NOR chip, `bufferWrite_nor` and
`biffkernelRead_nor` say what the two directions do in these terms.
-/

namespace Bifferboard
open Nor

section
variable {fm : Flashmap}

/-- The chunks are rotated by three places. -/
theorem chunkToSector_eq (sized : fm.Sized) {k : Nat} (inside : k < fm.chunkCount) :
    eonChunkToSector fm k = if k < fm.chunkCount - 3 then k + 3 else k - (fm.chunkCount - 3) := by
  have lower := sized.lower
  have upper := sized.upper
  exact eonChunkToSector_eq fm (by omega) (by omega) inside

theorem chunkToSector_lt (sized : fm.Sized) {k : Nat} (inside : k < fm.chunkCount) :
    eonChunkToSector fm k < fm.chunkCount := by
  have lower := sized.lower
  rw [chunkToSector_eq sized inside]
  split <;> omega

/-- The flash offset of a chunk does not wrap. -/
theorem chunkSect_eq_mul (sized : fm.Sized) {k : Nat} (inside : k < fm.chunkCount) :
    chunkSect fm k = eonChunkToSector fm k * 0x2000 := by
  have upper := sized.upper
  have sector := chunkToSector_lt sized inside
  apply Nat.mod_eq_of_lt
  omega

theorem chunkSect_eq (sized : fm.Sized) {k : Nat} (inside : k < fm.chunkCount) :
    chunkSect fm k = if k < fm.chunkCount - 3 then (k + 3) * 0x2000
      else (k - (fm.chunkCount - 3)) * 0x2000 := by
  rw [chunkSect_eq_mul sized inside, chunkToSector_eq sized inside, ite_mul]

theorem chunkSect_aligned (sized : fm.Sized) {k : Nat} (inside : k < fm.chunkCount) :
    chunkSect fm k % 0x2000 = 0 := by
  rw [chunkSect_eq_mul sized inside]
  omega

theorem chunkSect_le (sized : fm.Sized) {k : Nat} (inside : k < fm.chunkCount) :
    chunkSect fm k + 0x2000 ≤ fm.kernelSize := by
  have size := sized.kernelSize_eq
  have sector := chunkToSector_lt sized inside
  rw [chunkSect_eq_mul sized inside]
  omega

end

section
variable (g : Geometry)

theorem boundary_config_end : flashmapIsboundary g.toFlashmap 0x6000 = true := by
  obtain rfl | rfl | rfl := g.cases
  · decide
  · decide
  · decide

theorem boundary_zero : flashmapIsboundary g.toFlashmap 0 = true := by
  obtain rfl | rfl | rfl := g.cases
  · decide
  · decide
  · decide

theorem first_chunk_boundary : flashmapIsboundary g.toFlashmap (chunkSect g.toFlashmap 0) = true := by
  have lower := g.sized.lower
  rw [chunkSect_eq g.sized (by omega), if_pos (by omega)]
  exact boundary_config_end g

theorem chunk_le_stop {k : Nat} (inside : k < g.chunkCount) :
    chunkSect g.toFlashmap k + 0x2000 ≤ g.layout.stop (chunkSect g.toFlashmap k) := by
  have bound := chunkSect_le g.sized inside
  have size := g.sized.size_eq
  have step := g.stop_step (chunkSect_aligned g.sized inside) (by omega)
  split at step
  · have := g.layout.lt_stop (chunkSect g.toFlashmap k + 0x2000)
    omega
  · omega

/-- A chunk that does not start a sector lies behind the chunk before it, in
the same sector. -/
theorem next_chunk {k : Nat} (inside : k + 1 < g.chunkCount)
    (within : flashmapIsboundary g.toFlashmap (chunkSect g.toFlashmap (k + 1)) = false) :
    chunkSect g.toFlashmap (k + 1) = chunkSect g.toFlashmap k + 0x2000 ∧
      g.layout.stop (chunkSect g.toFlashmap k) = g.layout.stop (chunkSect g.toFlashmap (k + 1)) := by
  have sized := g.sized
  have lower := sized.lower
  have next : chunkSect g.toFlashmap (k + 1) = chunkSect g.toFlashmap k + 0x2000 := by
    by_cases wraps : k + 1 = g.chunkCount - 3
    · have zero : chunkSect g.toFlashmap (k + 1) = 0 := by
        rw [chunkSect_eq sized inside, if_neg (by omega)]
        omega
      rw [zero, boundary_zero g] at within
      cases within
    · rw [chunkSect_eq sized inside, chunkSect_eq sized (Nat.lt_of_succ_lt inside)]
      split
      · rw [if_pos (by omega)]
        omega
      · rw [if_neg (by omega)]
        omega
  have bound := chunkSect_le sized inside
  have size := sized.size_eq
  have step := g.stop_step (chunkSect_aligned sized (Nat.lt_of_succ_lt inside)) (by omega)
  rw [← next, if_pos ⟨by omega, within⟩] at step
  exact ⟨next, step⟩

/-- Starting a sector erases no chunk written earlier. -/
theorem earlier_chunk_outside {j k : Nat} (earlier : j < k) (inside : k < g.chunkCount) :
    chunkSect g.toFlashmap j + 0x2000 ≤ chunkSect g.toFlashmap k ∨
      g.layout.stop (chunkSect g.toFlashmap k) ≤ chunkSect g.toFlashmap j := by
  have sized := g.sized
  have lower := sized.lower
  have j_eq := chunkSect_eq sized (Nat.lt_trans earlier inside)
  have k_eq := chunkSect_eq sized inside
  by_cases wrapped : j < g.chunkCount - 3 ∧ ¬ k < g.chunkCount - 3
  · right
    rw [if_pos wrapped.1] at j_eq
    rw [if_neg wrapped.2] at k_eq
    have low := g.stop_le_boundary (a := chunkSect g.toFlashmap k) (b := 0x6000) (by omega)
      (boundary_config_end g)
    omega
  · left
    rw [j_eq, k_eq]
    split
    · rw [if_pos (by omega)]
      omega
    · rw [if_neg (by omega)]
      omega

end

/-! ## Flushing and reading on a NOR chip -/

section
variable (g : Geometry) (t : Timing)

/-- A flush into the kernel area. -/
theorem bufferWrite_nor {f : File Chip} (ready : f.world.hw.Ready)
    (inside : flushChunk f.priv.filepos < g.chunkCount) :
    let f' := bufferWrite (g.part t).bus g.toFlashmap f
    let dest := chunkSect g.toFlashmap (flushChunk f.priv.filepos)
    let count := 2 * (f.priv.writeBufferPos / 2)
    f'.priv = writeBufferReset f.priv ∧ f'.world.hw.Ready ∧
      f'.world.hw.mem =
        (prepared g.toFlashmap f.world.hw.mem dest).programBytes dest count f.priv.writeBuffer ∧
      programmedBytes f'.world.trace =
        programmedBytes f.world.trace ++ placed dest count f.priv.writeBuffer := by
  intro f' dest count
  have bound := chunkSect_le g.sized inside
  have short := f.priv.writeBufferPos_le
  obtain ⟨ready', mem, trace⟩ := flashWriteChunk_nor g t f.priv.writeBuffer (w := flushNoted f)
    ready (show dest + f.priv.writeBufferPos ≤ g.kernelSize by omega)
  rw [← bufferWrite_world] at ready' mem trace
  refine ⟨rfl, ready', mem, trace.trans ?_⟩
  simp [flushNoted, programmedBytes, Event.bytes, count]

/-- The chunk of the file position ends up in the read buffer. -/
theorem bufferRead_nor {f : File Chip} (ready : f.world.hw.Ready) :
    (bufferRead (g.part t).bus g.toFlashmap f).world.hw = f.world.hw ∧ ∀ i < 0x2000,
      (bufferRead (g.part t).bus g.toFlashmap f).priv.readBuffer i =
        f.world.hw.mem (chunkSect g.toFlashmap (f.priv.filepos / 0x2000) + i) := by
  have loaded := readRangeFrom_shows
    (w := f.world.note (.printk ("BIFFKERNEL: Reading chunk " ++ fmtD (f.priv.filepos / 0x2000) ++ "\n")))
    (ready.shows (g.part t)) (0x2000 / 4) (chunkSect g.toFlashmap (f.priv.filepos / 0x2000)) 0
    f.priv.readBuffer
  simp only [bufferRead, eonReadRange, loaded]
  refine ⟨rfl, fun i inside => ?_⟩
  rw [if_pos (by omega)]
  rfl

/-- Reading leaves the chip as it was. -/
theorem biffkernelRead_hw (remaining : Nat) (f : File Chip) (ready : f.world.hw.Ready) :
    (biffkernelRead (g.part t).bus g.toFlashmap remaining f).2.world.hw = f.world.hw := by
  fun_induction biffkernelRead (g.part t).bus g.toFlashmap remaining f with
  | case1 => rfl
  | case2 => rfl
  | case3 remaining f _ more readpos loaded toread data rest ih =>
    have hw : loaded.world.hw = f.world.hw := (bufferRead_nor g t ready).1
    exact (ih (hw ▸ ready)).trans hw

/-- The flash offset of a position in the kernel. -/
def location (fm : Flashmap) (pos : Nat) : Nat := chunkSect fm (pos / 0x2000) + pos % 0x2000

/-- A read returns the bytes at the locations of its positions, up to the end
of the kernel area. -/
theorem biffkernelRead_nor (remaining : Nat) (f : File Chip) (ready : f.world.hw.Ready) :
    (biffkernelRead (g.part t).bus g.toFlashmap remaining f).1 =
      (List.range (min remaining (g.kernelSize - f.priv.filepos))).map
        fun i => f.world.hw.mem (location g.toFlashmap (f.priv.filepos + i)) := by
  have multiple := g.sized.kernelSize_eq
  fun_induction biffkernelRead (g.part t).bus g.toFlashmap remaining f with
  | case1 f => simp
  | case2 remaining f _ stop => simp [Nat.sub_eq_zero_of_le stop]
  | case3 remaining f _ more readpos loaded toread data rest ih =>
    obtain ⟨hw, buffer⟩ := bufferRead_nor g t ready
    have hw' : loaded.world.hw = f.world.hw := hw
    have tail : rest.1 = (List.range (min (remaining - toread)
        (g.kernelSize - (f.priv.filepos + toread)))).map
          fun i => f.world.hw.mem (location g.toFlashmap (f.priv.filepos + toread + i)) := by
      rw [← hw']
      exact ih (hw' ▸ ready)
    have total : min remaining (g.kernelSize - f.priv.filepos) =
        toread + min (remaining - toread) (g.kernelSize - (f.priv.filepos + toread)) := by omega
    rw [tail, total, List.range_add, List.map_append, List.map_map]
    refine congrArg₂ _ (List.map_congr_left fun i inside => ?_) (List.map_congr_left fun i _ => ?_)
    · have short := List.mem_range.mp inside
      have chunk : (f.priv.filepos + i) / 0x2000 = f.priv.filepos / 0x2000 := by omega
      have offset : (f.priv.filepos + i) % 0x2000 = readpos + i := by omega
      rw [location, chunk, offset]
      exact buffer _ (by omega)
    · rw [Function.comp, Nat.add_assoc]

end

end Bifferboard
