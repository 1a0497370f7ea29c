import Bifferboard.Biffnor.Cursor

/-!
# The file position and the end of the kernel area

`biffkernel_write` compares the file position with the end of the kernel area
before it fills up its buffer, and not with what it is about to copy. As long
as the buffer starts on a chunk boundary the two agree. `Cursor.Fits` is the
exact condition on a call: the sessions whose calls all meet it are those that
never leave the kernel area.
-/

namespace Bifferboard
open Nor

/-- What a call may add to the trace: flushes from positions `q` it moves
over, and what `flash_write_chunk` may do. -/
def Event.Moves (fm : Flashmap) (start stop : Nat) (e : Event) : Prop :=
  (∃ q, start < q ∧ q ≤ stop ∧ e = .flush (flushChunk q)) ∨ e.Within fm fm.kernelSize

theorem Event.Moves.mono {fm : Flashmap} {a b a' b' : Nat} {e : Event} (h : e.Moves fm a b)
    (start : a' ≤ a) (stop : b ≤ b') : e.Moves fm a' b' := by
  rcases h with ⟨q, lo, hi, rfl⟩ | inside
  · exact .inl ⟨q, Nat.lt_of_le_of_lt start lo, Nat.le_trans hi stop, rfl⟩
  · exact .inr inside

section
variable {σ : Type} (B : Bus σ) (fm : Flashmap)

theorem bufferRead_grows (f : File σ) :
    Grows (fun e => ∃ text, e = .printk text) f.world (bufferRead B fm f).world := by
  have noted : Grows (fun e => ∃ text, e = .printk text) f.world
      (f.world.note (.printk ("BIFFKERNEL: Reading chunk " ++ fmtD (f.priv.filepos / 0x2000) ++ "\n"))) :=
    (Grows.same rfl).note ⟨_, rfl⟩
  refine noted.trans (.same ?_)
  simp only [bufferRead, eonReadRange]
  exact readRangeFrom_trace B _ _ _ _ _

theorem biffkernelRead_grows (remaining : Nat) (f : File σ) :
    Grows (fun e => ∃ text, e = .printk text) f.world (biffkernelRead B fm remaining f).2.world := by
  fun_induction biffkernelRead B fm remaining f with
  | case1 => exact .same rfl
  | case2 => exact .same rfl
  | case3 remaining f _ more readpos loaded toread data rest ih =>
    exact (bufferRead_grows B fm f).trans ih

theorem biffkernelSeek_grows (offset whence : Int) (f : File σ) :
    Grows (fun e => ∃ text, e = .printk text) f.world (biffkernelSeek B fm offset whence f).2.world := by
  unfold biffkernelSeek
  cases seekTarget fm f.priv.filepos offset whence with
  | none => exact .same rfl
  | some newpos =>
    have noted : Grows (fun e => ∃ text, e = .printk text) f.world (f.world.note (.printk
        ("BIFFKERNEL: Seeking to (" ++ fmtX (newpos % 2 ^ 64).toNat ++ ")\n"))) :=
      (Grows.same rfl).note ⟨_, rfl⟩
    dsimp only
    by_cases negative : newpos < 0
    · rw [if_pos negative]
      exact noted
    · rw [if_neg negative]
      exact noted.trans (bufferRead_grows B fm _)

theorem chunkSect_lt (chunk : Nat) : chunkSect fm chunk < 2 ^ 32 :=
  Nat.mod_lt _ (Nat.two_pow_pos 32)

variable {fm}

/-- Whatever the hardware answers, a flush notes its chunk and commands nothing
outside the kernel area. -/
theorem bufferWrite_grows (sized : fm.Sized) (f : File σ) (positive : 0 < f.priv.writeBufferPos) :
    Grows (fun e => e = .flush (flushChunk f.priv.filepos) ∨ e.Within fm fm.kernelSize) f.world
      (bufferWrite B fm f).world := by
  have noted : Grows (fun e => e = .flush (flushChunk f.priv.filepos) ∨ e.Within fm fm.kernelSize)
      f.world (flushNoted f) := ((Grows.same rfl).note (.inr trivial)).note (.inl rfl)
  have written := flashWriteChunk_grows B fm sized (asShorts f.priv.writeBuffer) (flushNoted f)
    (chunkSect_lt fm (flushChunk f.priv.filepos)) positive f.priv.writeBufferPos_le
  rw [bufferWrite_world]
  exact noted.trans (written.mono fun e inside => .inr inside)

theorem bufferWrite_flushes (sized : fm.Sized) (f : File σ) (positive : 0 < f.priv.writeBufferPos) :
    Event.flush (flushChunk f.priv.filepos) ∈ (bufferWrite B fm f).world.trace := by
  obtain ⟨new, eq, -⟩ := flashWriteChunk_grows B fm sized (asShorts f.priv.writeBuffer) (flushNoted f)
    (chunkSect_lt fm (flushChunk f.priv.filepos)) positive f.priv.writeBufferPos_le
  rw [bufferWrite_world, eq]
  simp [flushNoted]

theorem push_grows (sized : fm.Sized) (f : File σ) (b : Byte) (h : f.priv.writeBufferPos < 0x2000) :
    Grows (Event.Moves fm f.priv.filepos (f.priv.filepos + 1)) f.world (push B fm f b).world := by
  rw [push]
  dsimp only
  split
  · rename_i full
    refine (bufferWrite_grows B sized ⟨f.priv.copyIn [b], f.world⟩ (by dsimp only; omega)).mono ?_
    rintro e (rfl | inside)
    · exact .inl ⟨f.priv.filepos + 1, Nat.lt_succ_self _, Nat.le_refl _, by
        rw [f.priv.copyIn_byte_filepos b h]⟩
    · exact .inr inside
  · exact .same rfl

theorem foldl_push_grows (sized : fm.Sized) (xs : List Byte) (f : File σ)
    (h : f.priv.writeBufferPos < 0x2000) :
    Grows (Event.Moves fm f.priv.filepos (f.priv.filepos + xs.length)) f.world
      (xs.foldl (push B fm) f).world := by
  induction xs generalizing f with
  | nil => exact .same rfl
  | cons b xs ih =>
    have filepos := push_filepos B fm f b h
    have fill := push_fill B fm f b h
    have rest := ih (push B fm f b) (by omega)
    rw [List.foldl_cons, List.length_cons]
    refine ((push_grows B sized f b h).mono ?_).trans (rest.mono ?_)
    · intro e moves
      exact moves.mono (Nat.le_refl _) (by omega)
    · intro e moves
      exact moves.mono (by omega) (by omega)

/-- Whatever the hardware answers, a call flushes only from positions it has
moved over, and commands nothing outside the kernel area. -/
theorem call_grows (sized : fm.Sized) (op : FileOp) (f : File σ) (h : f.priv.writeBufferPos < 0x2000) :
    Grows (Event.Moves fm f.priv.filepos (op.call B fm f).2.priv.filepos) f.world
      (op.call B fm f).2.world := by
  have printed : ∀ a b, ∀ e : Event, (∃ text, e = .printk text) → e.Moves fm a b := by
    rintro a b e ⟨text, rfl⟩
    exact .inr trivial
  cases op with
  | read count => exact (biffkernelRead_grows B fm count f).mono (printed _ _)
  | seek offset whence => exact (biffkernelSeek_grows B fm offset whence f).mono (printed _ _)
  | write ubuf =>
    have pushed := foldl_push_cursor B fm (ubuf.take (room fm f.priv.cursor)) f h
    have filepos : ((ubuf.take (room fm f.priv.cursor)).foldl (push B fm) f).priv.filepos = _ :=
      congrArg Cursor.filepos pushed
    have grown := foldl_push_grows B sized (ubuf.take (room fm f.priv.cursor)) f h
    simp only [FileOp.call, biffkernelWrite_eq B fm ubuf f h]
    by_cases fits : ubuf.length ≤ room fm f.priv.cursor
    · rw [if_pos fits]
      exact filepos.symm ▸ grown
    · rw [if_neg fits]
      exact filepos.symm ▸ grown.note (.inr trivial)

end

/-! ## Staying inside -/

/-- Between calls: not past the end, and the buffer not full. -/
structure Cursor.Inside (fm : Flashmap) (c : Cursor) : Prop where
  filepos_le : c.filepos ≤ fm.kernelSize
  fill_lt : c.fill < 0x2000

/-- The bytes of a write end inside the kernel area, or the buffer starts on a
chunk boundary, so that it is full when the end is reached. -/
def Cursor.Fits (fm : Flashmap) (c : Cursor) : FileOp → Prop
  | .write ubuf => fm.kernelSize ≤ c.filepos ∨ c.filepos + ubuf.length ≤ fm.kernelSize ∨
      c.filepos % 0x2000 = c.fill
  | _ => True

/-- In an aligned state there is room exactly up to the end. -/
theorem room_aligned {fm : Flashmap} (sized : fm.Sized) {c : Cursor} (inside : c.filepos ≤ fm.kernelSize)
    (aligned : c.filepos % 0x2000 = c.fill) : room fm c = fm.kernelSize - c.filepos := by
  have multiple := sized.kernelSize_eq
  unfold room
  split
  · omega
  · omega

theorem room_unaligned {fm : Flashmap} (sized : fm.Sized) {c : Cursor} (inside : c.filepos < fm.kernelSize)
    (fill : c.fill < 0x2000) (unaligned : c.filepos % 0x2000 ≠ c.fill) :
    fm.kernelSize - c.filepos < room fm c := by
  have multiple := sized.kernelSize_eq
  unfold room
  rw [if_neg (by omega)]
  omega

/-- A call stays inside exactly when it fits. -/
theorem Cursor.after_inside_iff {fm : Flashmap} (sized : fm.Sized) {c : Cursor} (inside : c.Inside fm)
    (op : FileOp) : (c.after fm op).Inside fm ↔ c.Fits fm op := by
  obtain ⟨bound, fill⟩ := inside
  have fill' : (c.after fm op).fill < 0x2000 := after_fill_lt fill op
  cases op with
  | read count =>
    refine ⟨fun _ => trivial, fun _ => ⟨?_, fill'⟩⟩
    simp only [after]
    split
    · exact bound
    · exact Nat.min_le_right _ _
  | seek offset whence =>
    refine ⟨fun _ => trivial, fun _ => ⟨?_, fill'⟩⟩
    rcases c.after_seek_cases fm offset whence with stays | ⟨pos, within, moved⟩
    · rwa [stays]
    · rwa [moved]
  | write ubuf =>
    by_cases full : fm.kernelSize ≤ c.filepos
    · have none : room fm c = 0 := by rw [room, if_pos full]
      refine ⟨fun _ => .inl full, fun _ => ⟨?_, fill'⟩⟩
      simp only [after, none, Nat.min_zero, Nat.add_zero]
      exact bound
    · by_cases aligned : c.filepos % 0x2000 = c.fill
      · have left := room_aligned sized bound aligned
        refine ⟨fun _ => .inr (.inr aligned), fun _ => ⟨?_, fill'⟩⟩
        simp only [after, left]
        omega
      · have more := room_unaligned sized (Nat.lt_of_not_le full) fill aligned
        constructor
        · rintro ⟨landed, -⟩
          simp only [after] at landed
          exact .inr (.inl (by omega))
        · rintro (h | short | h)
          · exact absurd h full
          · refine ⟨?_, fill'⟩
            simp only [after]
            omega
          · exact absurd h aligned

theorem flushChunk_lt {fm : Flashmap} (sized : fm.Sized) {q : Nat} (positive : 0 < q)
    (bound : q ≤ fm.kernelSize) : flushChunk q < fm.chunkCount := by
  have multiple := sized.kernelSize_eq
  have upper := sized.upper
  unfold flushChunk
  split
  · omega
  · omega

/-- What is buffered has been moved over. -/
theorem Cursor.after_fill_le {fm : Flashmap} {c : Cursor} (h : c.fill ≤ c.filepos) (op : FileOp) :
    (c.after fm op).fill ≤ (c.after fm op).filepos := by
  cases op with
  | read count =>
    simp only [after]
    split
    · exact h
    · dsimp only
      omega
  | write ubuf =>
    have := Nat.mod_le (c.fill + min ubuf.length (room fm c)) 0x2000
    simp only [after]
    omega
  | seek offset whence =>
    rcases c.after_seek_cases fm offset whence with stays | ⟨pos, -, moved⟩
    · rwa [stays]
    · rw [moved]
      exact Nat.zero_le _

section
variable {σ : Type} (B : Bus σ) {fm : Flashmap} {hw : σ}

/-- Every state between the calls of a session is inside, and so is every
chunk that is flushed, the one on release included. -/
structure StaysInside (fm : Flashmap) (ops : List FileOp) (hw : σ) : Prop where
  states : ∀ pre, pre <+: ops → (runOps B fm pre ⟨.fresh, ⟨hw, []⟩⟩).priv.cursor.Inside fm
  flushes : ∀ chunk, Event.flush chunk ∈ (session B fm ops ⟨hw, []⟩).trace → chunk < fm.chunkCount

/-- Moving inside the kernel area flushes only chunks of it. -/
theorem Event.Moves.chunk_lt (sized : fm.Sized) {start stop chunk : Nat} (bound : stop ≤ fm.kernelSize)
    (h : (Event.flush chunk).Moves fm start stop) : chunk < fm.chunkCount := by
  rcases h with ⟨q, lo, hi, eq⟩ | inside
  · cases eq
    exact flushChunk_lt sized (by omega) (by omega)
  · exact absurd inside id

def FlushesBelow (limit : Nat) (e : Event) : Prop := ∀ chunk, e = .flush chunk → chunk < limit

theorem Event.Moves.flushesBelow (sized : fm.Sized) {start stop : Nat} (bound : stop ≤ fm.kernelSize)
    {e : Event} (h : e.Moves fm start stop) : FlushesBelow fm.chunkCount e := by
  rintro chunk rfl
  exact h.chunk_lt sized bound

/-- A run of calls that all fit. -/
theorem runOps_inside (sized : fm.Sized) (ops : List FileOp) (f : File σ)
    (inside : f.priv.cursor.Inside fm) (fits : Cursor.Meets fm (Cursor.Fits fm) f.priv.cursor ops) :
    (runOps B fm ops f).priv.cursor.Inside fm ∧
      Grows (FlushesBelow fm.chunkCount) f.world (runOps B fm ops f).world := by
  induction ops generalizing f with
  | nil => exact ⟨inside, .same rfl⟩
  | cons op ops ih =>
    obtain ⟨first, rest⟩ := fits
    have step := call_cursor B sized op f inside.fill_lt
    have next : (op.call B fm f).2.priv.cursor.Inside fm := by
      rw [step]
      exact (Cursor.after_inside_iff sized inside op).mpr first
    have grown := (call_grows B sized op f inside.fill_lt).mono
      fun e moves => moves.flushesBelow sized next.filepos_le
    rw [← step] at rest
    obtain ⟨last, others⟩ := ih _ next rest
    exact ⟨last, grown.trans others⟩

theorem Cursor.Meets.of_append {C : Cursor → FileOp → Prop} {c : Cursor} {pre post : List FileOp}
    (h : Cursor.Meets fm C c (pre ++ post)) : Cursor.Meets fm C c pre := by
  induction pre generalizing c with
  | nil => trivial
  | cons op pre ih => exact ⟨h.1, ih h.2⟩

/-- If every state of a run is inside, every call of it fits. -/
theorem meets_of_states (sized : fm.Sized) (ops : List FileOp) (f : File σ)
    (states : ∀ pre, pre <+: ops → (runOps B fm pre f).priv.cursor.Inside fm) :
    Cursor.Meets fm (Cursor.Fits fm) f.priv.cursor ops := by
  induction ops generalizing f with
  | nil => trivial
  | cons op ops ih =>
    have inside : f.priv.cursor.Inside fm := states [] List.nil_prefix
    have step := call_cursor B sized op f inside.fill_lt
    have next : (op.call B fm f).2.priv.cursor.Inside fm := states [op] (by simp)
    refine ⟨?_, ?_⟩
    · rw [step] at next
      exact (Cursor.after_inside_iff sized inside op).mp next
    · rw [← step]
      apply ih
      intro pre before
      exact states (op :: pre) (List.cons_prefix_cons.mpr ⟨rfl, before⟩)

/-- What is buffered has been moved over, in every state of a run. -/
theorem Cursor.run_fill_le {c : Cursor} (h : c.fill ≤ c.filepos) (ops : List FileOp) :
    (c.run fm ops).fill ≤ (c.run fm ops).filepos := by
  induction ops generalizing c with
  | nil => exact h
  | cons op ops ih => exact ih (after_fill_le h op)

theorem fresh_inside : KernelFpPrivate.fresh.cursor.Inside fm := ⟨Nat.zero_le _, Nat.zero_lt_succ _⟩

/-- The release flushes from the last position, if at all. -/
theorem release_grows (sized : fm.Sized) (f : File σ) :
    Grows (fun e => f.priv.writeBufferPos ≠ 0 ∧ e = .flush (flushChunk f.priv.filepos) ∨
      e.Within fm fm.kernelSize) f.world (biffkernelRelease B fm f).2 := by
  unfold biffkernelRelease
  dsimp only
  split
  · rename_i buffered
    refine (bufferWrite_grows B sized f (Nat.pos_of_ne_zero buffered)).mono ?_
    rintro e (rfl | inside)
    · exact .inl ⟨buffered, rfl⟩
    · exact .inr inside
  · exact .same rfl

theorem release_flushes (sized : fm.Sized) (f : File σ) (buffered : f.priv.writeBufferPos ≠ 0) :
    Event.flush (flushChunk f.priv.filepos) ∈ (biffkernelRelease B fm f).2.trace := by
  rw [release_buffered B fm f buffered]
  exact bufferWrite_flushes B sized f (Nat.pos_of_ne_zero buffered)

/-- The calls of a session keep the handle inside the kernel area, and flush
chunks of it only, exactly when they all fit. -/
theorem staysInside_iff (g : Geometry) (ops : List FileOp) (hw : σ) :
    StaysInside B g.toFlashmap ops hw ↔
      Cursor.Meets g.toFlashmap (Cursor.Fits g.toFlashmap) ⟨0, 0⟩ ops := by
  have sized := g.sized
  constructor
  · intro stays
    exact meets_of_states B sized ops _ stays.states
  · intro fits
    have at_fresh : Cursor.Meets g.toFlashmap (Cursor.Fits g.toFlashmap)
      KernelFpPrivate.fresh.cursor ops := fits
    obtain ⟨last, grown⟩ := runOps_inside B sized ops ⟨.fresh, ⟨hw, []⟩⟩ fresh_inside at_fresh
    constructor
    · rintro pre ⟨post, rfl⟩
      exact (runOps_inside B sized pre _ fresh_inside at_fresh.of_append).1
    · have run := runOps_cursor B sized ops ⟨.fresh, ⟨hw, []⟩⟩ (Nat.zero_lt_succ _)
      have moved : (runOps B g.toFlashmap ops ⟨.fresh, ⟨hw, []⟩⟩).priv.cursor.fill ≤
          (runOps B g.toFlashmap ops ⟨.fresh, ⟨hw, []⟩⟩).priv.cursor.filepos := by
        rw [run]
        exact Cursor.run_fill_le (Nat.le_refl 0) ops
      have released := (release_grows B sized (runOps B g.toFlashmap ops ⟨.fresh, ⟨hw, []⟩⟩)).mono
          (Q := FlushesBelow g.chunkCount) (by
        rintro e (⟨buffered, rfl⟩ | inside)
        · rintro chunk ⟨⟩
          exact flushChunk_lt sized (Nat.lt_of_lt_of_le (Nat.pos_of_ne_zero buffered) moved)
            last.filepos_le
        · rintro chunk rfl
          exact absurd inside id)
      intro chunk flushed
      exact (grown.trans released).all (by simp) _ flushed chunk rfl

/-- Two bytes written one byte before the end of the 8 MB part's kernel area. -/
def overshoot : List FileOp := [.seek 0x7effff 0, .write [0#8, 0#8]]

theorem overshoot_cursor (hw : σ) :
    (runOps B Geometry.en640.toFlashmap overshoot ⟨.fresh, ⟨hw, []⟩⟩).priv.cursor =
      ⟨Geometry.en640.kernelSize + 1, 2⟩ := by
  have landed : Cursor.run Geometry.en640.toFlashmap ⟨0, 0⟩ overshoot =
    ⟨Geometry.en640.kernelSize + 1, 2⟩ := by decide
  rw [← landed]
  exact runOps_cursor B Geometry.en640.sized overshoot ⟨.fresh, ⟨hw, []⟩⟩ (Nat.zero_lt_succ _)

/-- The position leaves the kernel area, and the release flushes chunk 1016 of
1016, which is mapped to sector 3, where the kernel starts. -/
theorem overshoot_wraps :
    (runOps Bus.silent Geometry.en640.toFlashmap overshoot ⟨.fresh, ⟨(), []⟩⟩).priv.filepos =
      Geometry.en640.kernelSize + 1 ∧
    Event.flush Geometry.en640.chunkCount ∈
      (session Bus.silent Geometry.en640.toFlashmap overshoot ⟨(), []⟩).trace ∧
    eonChunkToSector Geometry.en640.toFlashmap Geometry.en640.chunkCount = 3 ∧
    ¬ StaysInside Bus.silent Geometry.en640.toFlashmap overshoot () := by
  have stopped := overshoot_cursor Bus.silent ()
  have filepos := congrArg Cursor.filepos stopped
  have fill : KernelFpPrivate.writeBufferPos _ = 2 := congrArg Cursor.fill stopped
  have flushed := release_flushes Bus.silent Geometry.en640.sized
    (runOps Bus.silent Geometry.en640.toFlashmap overshoot ⟨.fresh, ⟨(), []⟩⟩)
    (by rw [fill]; decide)
  have chunk : flushChunk (runOps Bus.silent Geometry.en640.toFlashmap overshoot
      ⟨.fresh, ⟨(), []⟩⟩).priv.cursor.filepos = Geometry.en640.chunkCount := by
    rw [stopped]
    decide
  refine ⟨filepos, chunk ▸ flushed, by decide, ?_⟩
  intro stays
  have inside := (stays.states overshoot List.prefix_rfl).filepos_le
  rw [stopped] at inside
  exact Nat.not_succ_le_self _ inside

end

end Bifferboard
