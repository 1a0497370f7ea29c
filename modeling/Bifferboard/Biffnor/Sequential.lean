import Bifferboard.Biffnor.Report
import Bifferboard.Biffnor.Chunks

/-!
# Sequential sessions

A session that only writes, on a NOR chip. Programming clears bits and never
sets any, so a chunk comes out right only if it was erased before. The
invariant `Flashed` says where that is so: the chunks written so far hold
their data, and unless the next chunk starts a sector, the rest of its sector
is still erased. `Written` adds the handle to it, and `Written.push` takes it
through one byte.
-/

namespace Bifferboard
open Nor

/-! ## The flash -/

/-- The first `n` chunks hold `data`, and the next one can be written. -/
structure Flashed (g : Geometry) (data : Nat → Byte) (n : Nat) (mem : Mem) : Prop where
  chunks : ∀ k < n, ∀ i < 0x2000, mem (chunkSect g.toFlashmap k + i) = data (k * 0x2000 + i)
  frontier : n < g.chunkCount →
    flashmapIsboundary g.toFlashmap (chunkSect g.toFlashmap n) = false →
    mem.Blank (chunkSect g.toFlashmap n) (g.layout.stop (chunkSect g.toFlashmap n))

namespace Flashed
variable {g : Geometry} {data : Nat → Byte} {n : Nat} {mem : Mem}

theorem initial (mem : Mem) : Flashed g data 0 mem where
  chunks k none := absurd none (Nat.not_lt_zero k)
  frontier _ within := by
    rw [first_chunk_boundary g] at within
    cases within

theorem congr {data' : Nat → Byte} (h : Flashed g data n mem)
    (same : ∀ p < n * 0x2000, data p = data' p) : Flashed g data' n mem where
  chunks k written i inside := by
    rw [h.chunks k written i inside]
    exact same _ (by omega)
  frontier := h.frontier

/-- What is left of the sector is erased once it has been prepared. -/
theorem prepared_blank (h : Flashed g data n mem) (inside : n < g.chunkCount) :
    (prepared g.toFlashmap mem (chunkSect g.toFlashmap n)).Blank (chunkSect g.toFlashmap n)
      (g.layout.stop (chunkSect g.toFlashmap n)) := by
  unfold prepared
  split
  · exact mem.erase_blank _ _
  · rename_i within
    exact h.frontier inside (by simpa using within)

/-- Preparing the sector keeps the chunks written so far. -/
theorem prepared_chunks (h : Flashed g data n mem) (inside : n < g.chunkCount) {k i : Nat}
    (written : k < n) (hi : i < 0x2000) :
    prepared g.toFlashmap mem (chunkSect g.toFlashmap n) (chunkSect g.toFlashmap k + i) =
      data (k * 0x2000 + i) := by
  have apart := earlier_chunk_outside g written inside
  rw [← h.chunks k written i hi]
  unfold prepared
  split
  · exact mem.erase_frame (by omega)
  · rfl

/-- Distinct chunks do not overlap. -/
theorem chunk_apart {j k : Nat} (earlier : j < k) (inside : k < g.chunkCount) :
    chunkSect g.toFlashmap j + 0x2000 ≤ chunkSect g.toFlashmap k ∨
      chunkSect g.toFlashmap k + 0x2000 ≤ chunkSect g.toFlashmap j := by
  have apart := earlier_chunk_outside g earlier inside
  have := chunk_le_stop g inside
  omega

/-- A whole chunk more. -/
theorem step (h : Flashed g data n mem) (inside : n < g.chunkCount) (buffer : Nat → Byte)
    (same : ∀ i < 0x2000, buffer i = data (n * 0x2000 + i)) :
    Flashed g data (n + 1) ((prepared g.toFlashmap mem (chunkSect g.toFlashmap n)).programBytes
      (chunkSect g.toFlashmap n) 0x2000 buffer) := by
  have blank := h.prepared_blank inside
  have reach := chunk_le_stop g inside
  constructor
  · intro k written i hi
    rcases Nat.lt_succ_iff_lt_or_eq.mp written with earlier | rfl
    · have apart := chunk_apart (g := g) earlier inside
      rw [Mem.programBytes_frame _ _ _ _ (by omega)]
      exact h.prepared_chunks inside earlier hi
    · rw [Mem.programBytes_erased _ _ _ _ (by omega) (by omega) (blank _ (by omega) (by omega)),
        Nat.add_sub_cancel_left]
      exact same i hi
  · intro more within
    obtain ⟨next, stop⟩ := next_chunk g more within
    intro x lo hi
    rw [Mem.programBytes_frame _ _ _ _ (by omega)]
    exact blank x (by omega) (by omega)

end Flashed

/-! ## The handle -/

/-- The state after the bytes `d` have been written from the start. -/
structure Written (g : Geometry) (d : List Byte) (f : File Chip) : Prop where
  filepos : f.priv.filepos = d.length
  fill : f.priv.writeBufferPos = d.length % 0x2000
  buffer : ∀ i, f.priv.writeBuffer i = d.getD (d.length / 0x2000 * 0x2000 + i) 0xff#8
  ready : f.world.hw.Ready
  flashed : Flashed g (d.getD · 0xff#8) (d.length / 0x2000) f.world.hw.mem

theorem getD_concat (d : List Byte) (b : Byte) (i : Nat) :
    (d ++ [b]).getD i 0xff#8 = if i = d.length then b else d.getD i 0xff#8 := by
  simp only [List.getD_eq_getElem?_getD]
  by_cases last : i = d.length
  · rw [if_pos last, last, List.getElem?_concat_length]
    rfl
  · rw [if_neg last]
    by_cases before : i < d.length
    · rw [List.getElem?_append_left before]
    · rw [List.getElem?_eq_none (by simp; omega), List.getElem?_eq_none (by omega)]

namespace Written
variable {g : Geometry} {d : List Byte} {f : File Chip}

theorem fresh (mem : Mem) (trace : List Event) : Written g [] ⟨.fresh, ⟨idleChip mem, trace⟩⟩ where
  filepos := rfl
  fill := rfl
  buffer _ := rfl
  ready := idleChip_ready mem
  flashed := .initial mem

/-- One more byte in the buffer. -/
theorem copyIn_buffer (h : Written g d f) (b : Byte) (i : Nat) :
    (f.priv.copyIn [b]).writeBuffer i = (d ++ [b]).getD (d.length / 0x2000 * 0x2000 + i) 0xff#8 := by
  have fill := h.fill
  rw [f.priv.copyIn_byte_writeBuffer b (by omega), getD_concat]
  by_cases here : i = f.priv.writeBufferPos
  · rw [if_pos here, if_pos (by omega)]
  · rw [if_neg here, if_neg (by omega)]
    exact h.buffer i

theorem copyIn_filepos (h : Written g d f) (b : Byte) :
    (f.priv.copyIn [b]).filepos = d.length + 1 := by
  have fill := h.fill
  rw [f.priv.copyIn_byte_filepos b (by omega), h.filepos]

theorem copyIn_writeBufferPos (h : Written g d f) (b : Byte) :
    (f.priv.copyIn [b]).writeBufferPos = d.length % 0x2000 + 1 := by
  have fill := h.fill
  rw [f.priv.copyIn_byte_writeBufferPos b (by omega), fill]

/-- The chunk of a buffer that one more byte fills. -/
theorem full_chunk (h : Written g d f) (b : Byte) (short : d.length < g.kernelSize)
    (full : (f.priv.copyIn [b]).writeBufferPos = 0x2000) :
    flushChunk (f.priv.copyIn [b]).filepos = d.length / 0x2000 ∧ d.length / 0x2000 < g.chunkCount := by
  have size := g.sized.kernelSize_eq
  have upper := g.sized.upper
  rw [h.copyIn_writeBufferPos] at full
  rw [flushChunk, h.copyIn_filepos, if_pos (by omega)]
  omega

/-- The chunk of what is left in the buffer at the end. -/
theorem last_chunk (h : Written g d f) (short : d.length ≤ g.kernelSize)
    (some : f.priv.writeBufferPos ≠ 0) :
    flushChunk f.priv.filepos = d.length / 0x2000 ∧ d.length / 0x2000 < g.chunkCount := by
  have size := g.sized.kernelSize_eq
  have fill := h.fill
  rw [flushChunk, h.filepos, if_neg (by omega)]
  omega

/-- The invariant goes through one byte, and through the flush it may cause. -/
theorem push (t : Timing) (h : Written g d f) (b : Byte) (short : d.length < g.kernelSize) :
    Written g (d ++ [b]) (push (g.part t).bus g.toFlashmap f b) := by
  have size := g.sized.kernelSize_eq
  have fill := h.fill
  have length : (d ++ [b]).length = d.length + 1 := by simp
  have filepos := h.copyIn_filepos b
  have pos := h.copyIn_writeBufferPos b
  have old : Flashed g ((d ++ [b]).getD · 0xff#8) (d.length / 0x2000) f.world.hw.mem := by
    apply h.flashed.congr
    intro p before
    rw [getD_concat, if_neg (by omega)]
  unfold Bifferboard.push
  dsimp only
  by_cases full : (f.priv.copyIn [b]).writeBufferPos = 0x2000
  · obtain ⟨chunk, inside⟩ := h.full_chunk b short full
    have next : (d.length + 1) / 0x2000 = d.length / 0x2000 + 1 := by omega
    obtain ⟨priv, ready, mem, -⟩ := bufferWrite_nor g t (f := ⟨f.priv.copyIn [b], f.world⟩) h.ready
      (by rw [chunk]; exact inside)
    rw [if_pos full]
    constructor
    · rw [priv, length]
      exact filepos
    · rw [priv, length]
      change 0 = _
      omega
    · intro i
      rw [priv, length, next, getD_concat, if_neg (by omega), List.getD_eq_getElem?_getD,
        List.getElem?_eq_none (by omega)]
      rfl
    · exact ready
    · rw [length, next, mem, chunk, full]
      apply old.step inside
      intro i _
      exact h.copyIn_buffer b i
  · have same : (d.length + 1) / 0x2000 = d.length / 0x2000 := by omega
    rw [if_neg full]
    constructor
    · rw [length]
      exact filepos
    · rw [length, pos]
      omega
    · intro i
      rw [length, same]
      exact h.copyIn_buffer b i
    · exact h.ready
    · rw [length, same]
      exact old

theorem foldl_push (t : Timing) (h : Written g d f) (xs : List Byte)
    (short : d.length + xs.length ≤ g.kernelSize) :
    Written g (d ++ xs) (xs.foldl (Bifferboard.push (g.part t).bus g.toFlashmap) f) := by
  induction xs generalizing d f with
  | nil =>
    rw [List.append_nil]
    exact h
  | cons b xs ih =>
    rw [List.length_cons] at short
    have rest := ih (h.push t b (by omega)) (by simp; omega)
    rw [List.append_assoc] at rest
    exact rest

end Written

/-! ## Cutting the data into calls -/

section
variable {σ : Type} (B : Bus σ) {fm : Flashmap}

/-- Calls that fit, on any hardware: they return their full counts and leave
what pushing all their bytes leaves. -/
theorem runOps_writes (sized : fm.Sized) (calls : List (List Byte)) (f : File σ)
    (aligned : f.priv.filepos % 0x2000 = f.priv.writeBufferPos)
    (short : f.priv.filepos + calls.flatten.length ≤ fm.kernelSize) :
    runOps B fm (calls.map .write) f = calls.flatten.foldl (push B fm) f ∧
      (callReturns B fm (calls.map .write) f).map Prod.snd =
        calls.map fun ubuf => (ubuf.length : Int) := by
  induction calls generalizing f with
  | nil => exact ⟨rfl, rfl⟩
  | cons ubuf calls ih =>
    rw [List.flatten_cons, List.length_append] at short
    have fill : f.priv.writeBufferPos < 0x2000 := by omega
    have left := room_aligned sized (c := f.priv.cursor) (by change f.priv.filepos ≤ _; omega) aligned
    have fits : ubuf.length ≤ room fm f.priv.cursor := by
      rw [left]
      change _ ≤ _ - f.priv.filepos
      omega
    have call : (FileOp.write ubuf).call B fm f = ((ubuf.length : Int), ubuf.foldl (push B fm) f) := by
      simp only [FileOp.call, biffkernelWrite_eq B fm ubuf f fill]
      rw [if_pos fits, List.take_of_length_le fits]
    have pushed := foldl_push_cursor B fm ubuf f fill
    have filepos : (ubuf.foldl (push B fm) f).priv.filepos = _ := congrArg Cursor.filepos pushed
    have fill' : (ubuf.foldl (push B fm) f).priv.writeBufferPos = _ := congrArg Cursor.fill pushed
    dsimp only at filepos fill'
    obtain ⟨run, returns⟩ := ih (ubuf.foldl (push B fm) f) (by omega) (by omega)
    constructor
    · rw [List.map_cons, List.flatten_cons, List.foldl_append, ← run]
      change runOps B fm _ ((FileOp.write ubuf).call B fm f).2 = _
      rw [call]
    · rw [List.map_cons, callReturns, List.map_cons, List.map_cons, call, returns]

end

section
variable (g : Geometry) (t : Timing)

/-- A fresh handle on a chip with contents `mem`. -/
def openOn (mem : Mem) : File Chip := ⟨.fresh, ⟨idleChip mem, []⟩⟩

/-- Writing `d` from the start, however it is cut: every call returns its full
count, every whole chunk is in its place, and the state reached does not
depend on the cut. -/
theorem sequential_writes (mem : Mem) (d : List Byte) (short : d.length ≤ g.kernelSize)
    (calls : List (List Byte)) (cut : calls.flatten = d) :
    (callReturns (g.part t).bus g.toFlashmap (calls.map .write) (openOn mem)).map Prod.snd =
      calls.map (fun ubuf => (ubuf.length : Int)) ∧
    (∀ k < d.length / 0x2000, ∀ i < 0x2000,
      (runOps (g.part t).bus g.toFlashmap (calls.map .write) (openOn mem)).world.hw.mem
        (eonChunkToSector g.toFlashmap k * 0x2000 + i) = d.getD (k * 0x2000 + i) 0xff#8) ∧
    ∀ calls' : List (List Byte), calls'.flatten = d →
      runOps (g.part t).bus g.toFlashmap (calls'.map .write) (openOn mem) =
        runOps (g.part t).bus g.toFlashmap (calls.map .write) (openOn mem) := by
  have same (calls : List (List Byte)) (cut : calls.flatten = d) :=
    runOps_writes (g.part t).bus g.sized calls (openOn mem) rfl
      (by rw [cut]; exact (Nat.zero_add _).symm ▸ short)
  obtain ⟨run, returns⟩ := same calls cut
  have written := (Written.fresh (g := g) mem []).foldl_push t d (by simpa using short)
  rw [List.nil_append] at written
  refine ⟨returns, ?_, ?_⟩
  · intro k whole i inside
    have size := g.sized.kernelSize_eq
    rw [run, cut, ← chunkSect_eq_mul g.sized (by omega)]
    exact written.flashed.chunks k whole i inside
  · intro calls' cut'
    rw [run, (same calls' cut').1, cut, cut']

/-- A chunk and two bytes, in two calls or in one, over zeros. -/
theorem sequential_writes_chunk :
    let halves := [List.replicate 0x1001 0x12#8, List.replicate 0x1001 0x12#8]
    (callReturns (Geometry.en640.part .instant).bus Geometry.en640.toFlashmap (halves.map .write)
      (openOn fun _ => 0#8)).map Prod.snd = [0x1001, 0x1001] ∧
    (∀ i < 0x2000, (runOps (Geometry.en640.part .instant).bus Geometry.en640.toFlashmap
      (halves.map .write) (openOn fun _ => 0#8)).world.hw.mem
        (eonChunkToSector Geometry.en640.toFlashmap 0 * 0x2000 + i) = 0x12#8) ∧
    runOps (Geometry.en640.part .instant).bus Geometry.en640.toFlashmap
        ([List.replicate 0x2002 0x12#8].map .write) (openOn fun _ => 0#8) =
      runOps (Geometry.en640.part .instant).bus Geometry.en640.toFlashmap (halves.map .write)
        (openOn fun _ => 0#8) := by
  intro halves
  have cut : halves.flatten = List.replicate 0x2002 0x12#8 := by
    simp only [halves, List.flatten_cons, List.flatten_nil, List.append_nil,
      List.replicate_append_replicate]
  have length : (List.replicate 0x2002 0x12#8).length = 0x2002 := List.length_replicate
  obtain ⟨returns, chunk, same⟩ := sequential_writes Geometry.en640 .instant (fun _ => 0#8)
    (List.replicate 0x2002 0x12#8) (by rw [length]; decide) halves cut
  refine ⟨?_, fun i inside => ?_, same _ (List.append_nil _)⟩
  · rw [returns]
    simp only [halves, List.map_cons, List.map_nil, List.length_replicate]
    rfl
  · rw [chunk 0 (by rw [length]; decide) i inside, Nat.zero_mul, Nat.zero_add,
      List.getD_replicate _ (by omega)]

end

/-! ## Reading back -/

/-- After the release every byte is in its place, except that the last byte of
data of odd length was never programmed. -/
theorem Written.release {g : Geometry} (t : Timing) {d : List Byte} {f : File Chip} (h : Written g d f)
    (short : d.length ≤ g.kernelSize) :
    (biffkernelRelease (g.part t).bus g.toFlashmap f).2.hw.Ready ∧ ∀ p < d.length,
      (biffkernelRelease (g.part t).bus g.toFlashmap f).2.hw.mem (location g.toFlashmap p) =
        if p = d.length - 1 ∧ d.length % 2 = 1 then 0xff#8 else d.getD p 0xff#8 := by
  have size := g.sized.kernelSize_eq
  have fill := h.fill
  by_cases empty : f.priv.writeBufferPos = 0
  · rw [release_empty _ _ _ empty]
    refine ⟨h.ready, fun p before => ?_⟩
    rw [if_neg (by omega), location, h.flashed.chunks _ (by omega) _ (Nat.mod_lt _ (by decide)),
      show p / 0x2000 * 0x2000 + p % 0x2000 = p by omega]
  · obtain ⟨chunk, inside⟩ := h.last_chunk short empty
    obtain ⟨-, ready, mem, -⟩ := bufferWrite_nor g t h.ready (by rw [chunk]; exact inside)
    have blank := h.flashed.prepared_blank inside
    have reach := chunk_le_stop g inside
    rw [release_buffered _ _ _ empty]
    refine ⟨ready, fun p before => ?_⟩
    rw [mem, chunk, location]
    by_cases earlier : p / 0x2000 < d.length / 0x2000
    · have apart := Flashed.chunk_apart (g := g) earlier inside
      rw [Mem.programBytes_frame _ _ _ _ (by omega), if_neg (by omega),
        h.flashed.prepared_chunks inside earlier (Nat.mod_lt _ (by decide)),
        show p / 0x2000 * 0x2000 + p % 0x2000 = p by omega]
    · have last : p / 0x2000 = d.length / 0x2000 := by omega
      rw [last]
      by_cases programmed : p % 0x2000 < 2 * (f.priv.writeBufferPos / 2)
      · rw [Mem.programBytes_erased _ _ _ _ (by omega) (by omega) (blank _ (by omega) (by omega)),
          Nat.add_sub_cancel_left, h.buffer, if_neg (by omega),
          show d.length / 0x2000 * 0x2000 + p % 0x2000 = p by omega]
      · rw [Mem.programBytes_frame _ _ _ _ (by omega), if_pos (by omega)]
        exact blank _ (by omega) (by omega)

/-- A list that agrees with `d` except for a last byte `0xff` at odd length. -/
theorem map_range_eq_iff (d : List Byte) :
    ((List.range d.length).map fun i =>
      if i = d.length - 1 ∧ d.length % 2 = 1 then 0xff#8 else d.getD i 0xff#8) = d ↔
      d.length % 2 = 0 ∨ d.getLast? = some 0xff#8 := by
  constructor
  · intro eq
    by_cases even : d.length % 2 = 0
    · exact .inl even
    · right
      rw [List.getLast?_eq_getElem?, ← eq]
      simp only [List.length_map, List.length_range, List.getElem?_map]
      rw [List.getElem?_range (by omega), Option.map_some, if_pos ⟨rfl, by omega⟩]
  · intro cases_
    apply List.ext_getElem?
    intro i
    by_cases inside : i < d.length
    · rw [List.getElem?_map, List.getElem?_range inside, Option.map_some, List.getD_eq_getElem?_getD,
        List.getElem?_eq_getElem inside, Option.getD_some]
      split
      · rename_i last
        rcases cases_ with even | ff
        · omega
        · rw [List.getLast?_eq_getElem?, ← last.1, List.getElem?_eq_getElem inside] at ff
          exact ff.symm
      · rfl
    · rw [List.getElem?_eq_none (by simp; omega), List.getElem?_eq_none (by omega)]

section
variable (g : Geometry) (t : Timing)

/-- A session that only writes is its bytes one by one, and the release. -/
theorem session_writes (mem : Mem) (calls : List (List Byte))
    (short : calls.flatten.length ≤ g.kernelSize) :
    session (g.part t).bus g.toFlashmap (calls.map .write) ⟨idleChip mem, []⟩ =
      (biffkernelRelease (g.part t).bus g.toFlashmap
        (calls.flatten.foldl (push (g.part t).bus g.toFlashmap) (openOn mem))).2 := by
  have run := (runOps_writes (g.part t).bus g.sized calls (openOn mem) rfl
    ((Nat.zero_add _).symm ▸ short)).1
  rw [session, ← run]
  rfl

/-- What a kernel that has been flashed reads back as. -/
theorem read_back (mem : Mem) (d : List Byte) (short : d.length ≤ g.kernelSize)
    (calls : List (List Byte)) (cut : calls.flatten = d) :
    (biffkernelRead (g.part t).bus g.toFlashmap d.length ⟨.fresh,
      session (g.part t).bus g.toFlashmap (calls.map .write) ⟨idleChip mem, []⟩⟩).1 =
      (List.range d.length).map fun i =>
        if i = d.length - 1 ∧ d.length % 2 = 1 then 0xff#8 else d.getD i 0xff#8 := by
  have written := (Written.fresh (g := g) mem []).foldl_push t d (by simpa using short)
  rw [List.nil_append] at written
  obtain ⟨ready, bytes⟩ := written.release t short
  have left := session_writes g t mem calls (by rwa [cut])
  rw [cut] at left
  have whole : min d.length (g.kernelSize - KernelFpPrivate.fresh.filepos) = d.length :=
    Nat.min_eq_left short
  rw [left, biffkernelRead_nor g t _ _ ready, whole]
  apply List.map_congr_left
  intro i inside
  have start : KernelFpPrivate.fresh.filepos + i = i := Nat.zero_add i
  rw [start]
  exact bytes i (List.mem_range.mp inside)

/-- A kernel that has been flashed reads back as it was, exactly when its
length is even or its last byte is `0xff`. -/
theorem read_back_iff (mem : Mem) (d : List Byte) (short : d.length ≤ g.kernelSize)
    (calls : List (List Byte)) (cut : calls.flatten = d) :
    (biffkernelRead (g.part t).bus g.toFlashmap d.length ⟨.fresh,
      session (g.part t).bus g.toFlashmap (calls.map .write) ⟨idleChip mem, []⟩⟩).1 = d ↔
      d.length % 2 = 0 ∨ d.getLast? = some 0xff#8 := by
  rw [read_back g t mem d short calls cut]
  exact map_range_eq_iff d

theorem read_back_even :
    [0x12#8, 0x34#8].length ≤ Geometry.en640.kernelSize ∧
    (biffkernelRead (Geometry.en640.part .instant).bus Geometry.en640.toFlashmap 2 ⟨.fresh,
      session (Geometry.en640.part .instant).bus Geometry.en640.toFlashmap
        ([[0x12#8, 0x34#8]].map .write) ⟨idleChip fun _ => 0#8, []⟩⟩).1 = [0x12#8, 0x34#8] :=
  ⟨by decide, (read_back_iff Geometry.en640 .instant (fun _ => 0#8) [0x12#8, 0x34#8] (by decide)
    [[0x12#8, 0x34#8]] rfl).mpr (.inl rfl)⟩

/-- A kernel of one zero byte does not read back: `len/2` is 0 and nothing is
programmed. -/
theorem read_back_odd_lost :
    (biffkernelRead (Geometry.en640.part .instant).bus Geometry.en640.toFlashmap 1 ⟨.fresh,
      session (Geometry.en640.part .instant).bus Geometry.en640.toFlashmap
        ([[0x00#8]].map .write) ⟨idleChip fun _ => 0xff#8, []⟩⟩).1 ≠ [0x00#8] := by
  have read := read_back Geometry.en640 .instant (fun _ => 0xff#8) [0x00#8] (by decide) [[0x00#8]] rfl
  intro same
  exact absurd (read.symm.trans same) (by decide)

end

end Bifferboard
