import Bifferboard.Biffnor.Trace

/-!
# Where a handle stands

The file position and the fill of the write buffer evolve without the
hardware having a say (`call_cursor`), so what a sequence of calls does to
them is a matter of the calls alone.
-/

namespace Bifferboard
open Nor

/-- What a call does to the two positions. -/
def Cursor.after (fm : Flashmap) (c : Cursor) : FileOp → Cursor
  | .read count => if fm.kernelSize ≤ c.filepos then c
    else { c with filepos := min (c.filepos + count) fm.kernelSize }
  | .write ubuf =>
    let accepted := min ubuf.length (room fm c)
    ⟨c.filepos + accepted, (c.fill + accepted) % 0x2000⟩
  | .seek offset whence =>
    match seekTarget fm c.filepos offset whence with
    | none => c
    | some target => if target < 0 then c else ⟨min target.toNat fm.kernelSize, 0⟩

def Cursor.run (fm : Flashmap) (c : Cursor) (ops : List FileOp) : Cursor := ops.foldl (·.after fm) c

/-- A seek changes nothing, or goes to a place inside with an empty buffer. -/
theorem Cursor.after_seek_cases (fm : Flashmap) (c : Cursor) (offset whence : Int) :
    c.after fm (.seek offset whence) = c ∨
      ∃ pos ≤ fm.kernelSize, c.after fm (.seek offset whence) = ⟨pos, 0⟩ := by
  simp only [after]
  split
  · exact .inl rfl
  · split
    · exact .inl rfl
    · exact .inr ⟨_, Nat.min_le_right _ _, rfl⟩

theorem Cursor.after_fill_lt {fm : Flashmap} {c : Cursor} (h : c.fill < 0x2000) (op : FileOp) :
    (c.after fm op).fill < 0x2000 := by
  cases op with
  | read count => simp only [after]; split <;> exact h
  | write ubuf => exact Nat.mod_lt _ (by decide)
  | seek offset whence =>
    rcases c.after_seek_cases fm offset whence with stays | ⟨pos, -, moved⟩
    · rwa [stays]
    · rw [moved]
      exact Nat.zero_lt_succ _

theorem Cursor.after_read_fill {fm : Flashmap} (c : Cursor) (count : Nat) :
    (c.after fm (.read count)).fill = c.fill := by
  simp only [after]
  split <;> rfl

theorem Cursor.le_after_read {fm : Flashmap} (c : Cursor) (inside : c.filepos ≤ fm.kernelSize)
    (count : Nat) : c.filepos ≤ (c.after fm (.read count)).filepos := by
  simp only [after]
  split
  · exact Nat.le_refl _
  · exact Nat.le_min.mpr ⟨Nat.le_add_right _ _, inside⟩

theorem Cursor.after_seek {fm : Flashmap} {c : Cursor} {offset whence target : Int}
    (found : seekTarget fm c.filepos offset whence = some target) (positive : ¬ target < 0) :
    c.after fm (.seek offset whence) = ⟨min target.toNat fm.kernelSize, 0⟩ := by
  simp only [after, found, if_neg positive]

/-- Every step of the sequence meets `C`, judged where the step starts. -/
def Cursor.Meets (fm : Flashmap) (C : Cursor → FileOp → Prop) : Cursor → List FileOp → Prop
  | _, [] => True
  | c, op :: ops => C c op ∧ Meets fm C (c.after fm op) ops

section
variable {σ : Type} (B : Bus σ) (fm : Flashmap)

theorem push_cursor (f : File σ) (b : Byte) (h : f.priv.writeBufferPos < 0x2000) :
    (push B fm f b).priv.cursor =
      ⟨f.priv.filepos + 1, (f.priv.writeBufferPos + 1) % 0x2000⟩ := by
  have fill := f.priv.copyIn_byte_writeBufferPos b h
  have filepos := f.priv.copyIn_byte_filepos b h
  rw [push]
  dsimp only
  by_cases full : (f.priv.copyIn [b]).writeBufferPos = 0x2000
  · rw [if_pos full, ← fill, full, Nat.mod_self, ← filepos]
    rfl
  · rw [if_neg full, ← filepos, Nat.mod_eq_of_lt (by omega), ← fill]
    rfl

theorem push_filepos (f : File σ) (b : Byte) (h : f.priv.writeBufferPos < 0x2000) :
    (push B fm f b).priv.filepos = f.priv.filepos + 1 :=
  congrArg Cursor.filepos (push_cursor B fm f b h)

theorem push_fill (f : File σ) (b : Byte) (h : f.priv.writeBufferPos < 0x2000) :
    (push B fm f b).priv.writeBufferPos = (f.priv.writeBufferPos + 1) % 0x2000 :=
  congrArg Cursor.fill (push_cursor B fm f b h)

theorem foldl_push_cursor (xs : List Byte) (f : File σ) (h : f.priv.writeBufferPos < 0x2000) :
    (xs.foldl (push B fm) f).priv.cursor =
      ⟨f.priv.filepos + xs.length, (f.priv.writeBufferPos + xs.length) % 0x2000⟩ := by
  induction xs generalizing f with
  | nil =>
    simp only [List.foldl_nil, List.length_nil, Nat.add_zero, KernelFpPrivate.cursor]
    rw [Nat.mod_eq_of_lt h]
  | cons b xs ih =>
    have filepos := push_filepos B fm f b h
    have fill := push_fill B fm f b h
    rw [List.foldl_cons, ih _ (by omega), filepos, fill, List.length_cons, Cursor.mk.injEq]
    omega

@[simp] theorem bufferRead_cursor (f : File σ) :
    (bufferRead B fm f).priv.cursor = f.priv.cursor := rfl

theorem biffkernelRead_buffer (remaining : Nat) (f : File σ) :
    (biffkernelRead B fm remaining f).2.priv.writeBuffer = f.priv.writeBuffer := by
  fun_induction biffkernelRead B fm remaining f with
  | case1 => rfl
  | case2 => rfl
  | case3 remaining f _ more readpos loaded toread data rest ih => exact ih

variable {fm}

theorem biffkernelRead_cursor (sized : fm.Sized) (remaining : Nat) (f : File σ) :
    (biffkernelRead B fm remaining f).2.priv.cursor = f.priv.cursor.after fm (.read remaining) := by
  have multiple := sized.kernelSize_eq
  fun_induction biffkernelRead B fm remaining f with
  | case1 f =>
    simp only [Cursor.after]
    by_cases stop : fm.kernelSize ≤ f.priv.cursor.filepos
    · rw [if_pos stop]
    · rw [if_neg stop, Nat.add_zero, Nat.min_eq_left (Nat.le_of_not_le stop)]
  | case2 remaining f _ stop =>
    have stop' : fm.kernelSize ≤ f.priv.cursor.filepos := stop
    simp only [Cursor.after, if_pos stop']
  | case3 remaining f _ more readpos loaded toread data rest ih =>
    have same := bufferRead_cursor B fm f
    have filepos : loaded.priv.filepos = f.priv.filepos := congrArg Cursor.filepos same
    have fill : loaded.priv.writeBufferPos = f.priv.writeBufferPos := congrArg Cursor.fill same
    have inside : ¬ fm.kernelSize ≤ f.priv.cursor.filepos := more
    rw [ih]
    simp only [Cursor.after, if_neg inside]
    simp only [KernelFpPrivate.cursor, filepos, fill]
    by_cases stop : fm.kernelSize ≤ f.priv.filepos + toread
    · rw [if_pos stop, Cursor.mk.injEq]
      omega
    · rw [if_neg stop, Cursor.mk.injEq]
      omega

/-- The cursor after a call is a function of the cursor before it. -/
theorem call_cursor (sized : fm.Sized) (op : FileOp) (f : File σ) (h : f.priv.writeBufferPos < 0x2000) :
    (op.call B fm f).2.priv.cursor = f.priv.cursor.after fm op := by
  cases op with
  | read count => exact biffkernelRead_cursor B sized count f
  | write ubuf =>
    have accepted : (ubuf.take (room fm f.priv.cursor)).length =
        min ubuf.length (room fm f.priv.cursor) := by rw [List.length_take, Nat.min_comm]
    have pushed := foldl_push_cursor B fm (ubuf.take (room fm f.priv.cursor)) f h
    rw [accepted] at pushed
    simp only [FileOp.call, biffkernelWrite_eq B fm ubuf f h]
    split
    · exact pushed
    · exact pushed
  | seek offset whence =>
    have bound := sized.upper
    have size := sized.kernelSize_eq
    simp only [FileOp.call, biffkernelSeek, Cursor.after]
    change _ = match seekTarget fm f.priv.filepos offset whence with
      | none => _
      | some target => _
    cases seekTarget fm f.priv.filepos offset whence with
    | none => rfl
    | some target =>
      simp only
      by_cases negative : target < 0
      · rw [if_pos negative, if_pos negative]
      · rw [if_neg negative, if_neg negative]
        simp only [KernelFpPrivate.cursor, writeBufferReset, bufferRead, Cursor.mk.injEq, and_true]
        split <;> omega

theorem runOps_cursor (sized : fm.Sized) (ops : List FileOp) (f : File σ)
    (h : f.priv.writeBufferPos < 0x2000) :
    (runOps B fm ops f).priv.cursor = f.priv.cursor.run fm ops := by
  induction ops generalizing f with
  | nil => rfl
  | cons op ops ih =>
    have step := call_cursor B sized op f h
    have fill : (op.call B fm f).2.priv.writeBufferPos < 0x2000 := by
      change (op.call B fm f).2.priv.cursor.fill < 0x2000
      rw [step]
      exact Cursor.after_fill_lt h op
    change (runOps B fm ops (op.call B fm f).2).priv.cursor = _
    rw [ih _ fill, step]
    rfl

end

end Bifferboard
