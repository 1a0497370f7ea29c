import Bifferboard.Biffnor.Sequential

/-!
# Which sectors a session touches

A flush writes to one chunk and erases at most the sector that the chunk starts. Over
a session that only writes, everything outside the sectors of the bytes written stays
as it was, and so does the configuration block, which is the last chunk.
-/

namespace Bifferboard
open Nor

/-- The erase sector of `x` holds none of the first `n` bytes of the kernel. -/
def Spared (g : Geometry) (n x : Nat) : Prop :=
  ∀ p < n, ¬ (g.layout.start x ≤ location g.toFlashmap p ∧ location g.toFlashmap p < g.layout.stop x)

theorem Spared.mono {g : Geometry} {n k x : Nat} (h : Spared g n x) (fewer : k ≤ n) : Spared g k x :=
  fun p before => h p (Nat.lt_of_lt_of_le before fewer)

/-- Sectors do not overlap. -/
theorem Geometry.start_le_of_stop (g : Geometry) {a x : Nat} (inside : x < g.size) (above : a ≤ x)
    (below : x < g.layout.stop a) : g.layout.start x ≤ a := by
  have sa := g.span a (by omega)
  have sx := g.span x inside
  omega

/-- Where the chunks start. -/
theorem location_chunk (fm : Flashmap) (k : Nat) : location fm (k * 0x2000) = chunkSect fm k := by
  rw [location, Nat.mul_div_cancel k (by decide), Nat.mul_mod_left, Nat.add_zero]

section
variable {g : Geometry} (t : Timing)

/-- A flush changes nothing outside the sector of its chunk. -/
theorem bufferWrite_spared {f : File Chip} (ready : f.world.hw.Ready) {k n x : Nat}
    (chunk : flushChunk f.priv.filepos = k) (inside : k < g.chunkCount) (first : k * 0x2000 < n)
    (within : x < g.size) (spared : Spared g n x) :
    (bufferWrite (g.part t).bus g.toFlashmap f).world.hw.mem x = f.world.hw.mem x := by
  obtain ⟨-, -, mem, -⟩ := bufferWrite_nor g t ready (by rw [chunk]; exact inside)
  have reach := chunk_le_stop g inside
  have short := f.priv.writeBufferPos_le
  have outside : x < chunkSect g.toFlashmap k ∨ g.layout.stop (chunkSect g.toFlashmap k) ≤ x := by
    by_contra touched
    rw [not_or, Nat.not_lt, Nat.not_le] at touched
    have other := spared (k * 0x2000) first
    rw [location_chunk] at other
    exact other ⟨g.start_le_of_stop within touched.1 touched.2,
      Nat.lt_of_le_of_lt touched.1 (g.layout.lt_stop x)⟩
  rw [mem, chunk, Mem.programBytes_frame _ _ _ _ (by omega), prepared]
  split
  · exact Mem.erase_frame _ outside
  · rfl

namespace Written
variable {d : List Byte} {f : File Chip}

theorem push_spared (h : Written g d f) (b : Byte) (short : d.length < g.kernelSize) {x : Nat}
    (within : x < g.size) (spared : Spared g (d.length + 1) x) :
    (Bifferboard.push (g.part t).bus g.toFlashmap f b).world.hw.mem x = f.world.hw.mem x := by
  unfold Bifferboard.push
  dsimp only
  by_cases full : (f.priv.copyIn [b]).writeBufferPos = 0x2000
  · obtain ⟨chunk, inside⟩ := h.full_chunk b short full
    rw [if_pos full]
    exact bufferWrite_spared t (f := ⟨f.priv.copyIn [b], f.world⟩) h.ready chunk inside (by omega)
      within spared
  · rw [if_neg full]

theorem foldl_push_spared (h : Written g d f) (xs : List Byte)
    (short : d.length + xs.length ≤ g.kernelSize) {x : Nat} (within : x < g.size)
    (spared : Spared g (d.length + xs.length) x) :
    (xs.foldl (Bifferboard.push (g.part t).bus g.toFlashmap) f).world.hw.mem x =
      f.world.hw.mem x := by
  induction xs generalizing d f with
  | nil => rfl
  | cons b xs ih =>
    rw [List.length_cons] at short spared
    have next := h.push t b (by omega)
    have length : (d ++ [b]).length = d.length + 1 := List.length_append
    rw [List.foldl_cons, ih next (by omega) (spared.mono (by omega))]
    exact h.push_spared t b (by omega) within (spared.mono (by omega))

theorem release_spared (h : Written g d f) (short : d.length ≤ g.kernelSize) {x : Nat}
    (within : x < g.size) (spared : Spared g d.length x) :
    (biffkernelRelease (g.part t).bus g.toFlashmap f).2.hw.mem x = f.world.hw.mem x := by
  have fill := h.fill
  by_cases empty : f.priv.writeBufferPos = 0
  · rw [release_empty _ _ _ empty]
  · obtain ⟨chunk, inside⟩ := h.last_chunk short empty
    rw [release_buffered _ _ _ empty]
    exact bufferWrite_spared t h.ready chunk inside (by omega) within spared

end Written

/-- The configuration block is in a sector of its own, that of the last chunk. -/
theorem config_spared {n : Nat} (short : n ≤ (g.chunkCount - 1) * 0x2000) {x : Nat} (lower : 0x4000 ≤ x)
    (upper : x < 0x6000) : Spared g n x := by
  have count := g.sized.lower
  have kernel := g.sized.kernelSize_eq
  have size := g.sized.size_eq
  have sector := g.span x (by omega)
  intro p before
  have place := chunkSect_eq g.sized (k := p / 0x2000) (by omega)
  rw [location, place]
  split
  · omega
  · omega

end

/-- However the bytes are cut into calls, a session from `open` to `release` leaves
every sector alone that holds none of them. -/
theorem sectors_spared (g : Geometry) (t : Timing) (mem : Mem) (calls : List (List Byte))
    (short : calls.flatten.length ≤ g.kernelSize) :
    (∀ x < g.size, Spared g calls.flatten.length x →
      (session (g.part t).bus g.toFlashmap (calls.map .write) ⟨idleChip mem, []⟩).hw.mem x = mem x) ∧
    (calls.flatten.length ≤ (g.chunkCount - 1) * 0x2000 → ∀ x, 0x4000 ≤ x → x < 0x6000 →
      (session (g.part t).bus g.toFlashmap (calls.map .write) ⟨idleChip mem, []⟩).hw.mem x =
        mem x) := by
  have unchanged (x : Nat) (within : x < g.size) (spared : Spared g calls.flatten.length x) :
      (session (g.part t).bus g.toFlashmap (calls.map .write) ⟨idleChip mem, []⟩).hw.mem x = mem x := by
    have fresh : Written g [] (openOn mem) := .fresh mem []
    have written := fresh.foldl_push t calls.flatten (by simpa using short)
    rw [session_writes g t mem calls short, written.release_spared t short within spared]
    exact fresh.foldl_push_spared t calls.flatten (by simpa using short) within (by simpa using spared)
  refine ⟨unchanged, fun before x lower upper => ?_⟩
  have count := g.sized.lower
  have kernel := g.sized.kernelSize_eq
  have size := g.sized.size_eq
  exact unchanged x (by omega) (config_spared before lower upper)

/-- A kernel of two bytes over zeros leaves the configuration block. -/
theorem config_block_kept : [[0x12#8, 0x34#8]].flatten.length ≤ Geometry.en640.kernelSize ∧
    (session (Geometry.en640.part .instant).bus Geometry.en640.toFlashmap
      ([[0x12#8, 0x34#8]].map .write) ⟨idleChip fun _ => 0#8, []⟩).hw.mem 0x4000 = 0#8 := by
  have short : [[0x12#8, 0x34#8]].flatten.length ≤ Geometry.en640.kernelSize := by decide
  exact ⟨short, (sectors_spared Geometry.en640 .instant (fun _ => 0#8) [[0x12#8, 0x34#8]] short).2
    (by decide) 0x4000 (by decide) (by decide)⟩

end Bifferboard
