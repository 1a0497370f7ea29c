import Bifferboard.Biffnor.Kernel

/-!
# Writing one byte at a time

`biffkernel_write` copies blocks. `push` is what it does to a single byte, and
`biffkernelWrite_eq` shows that a call is the pushes of the bytes it accepts:
those that `room` allows. How the data is cut into calls then only matters
where a call runs out of room.
-/

namespace Bifferboard
open Nor

@[ext] theorem KernelFpPrivate.ext {p q : KernelFpPrivate} (h₁ : p.filepos = q.filepos)
    (h₂ : p.readBuffer = q.readBuffer) (h₃ : p.writeBuffer = q.writeBuffer)
    (h₄ : p.writeBufferPos = q.writeBufferPos) : p = q := by
  cases p
  cases q
  simp_all

namespace KernelFpPrivate

theorem toCopy_add (p : KernelFpPrivate) (xs : List Byte) (n : Nat) :
    p.toCopy (xs.length + n) = p.toCopy xs.length + (p.copyIn xs).toCopy n := by
  simp only [toCopy, copyIn_writeBufferPos]
  omega

/-- Copying two blocks is copying them as one. -/
theorem copyIn_append (p : KernelFpPrivate) (xs ys : List Byte) :
    p.copyIn (xs ++ ys) = (p.copyIn xs).copyIn ys := by
  have total := p.toCopy_add xs ys.length
  apply KernelFpPrivate.ext
  · simp only [copyIn_filepos, List.length_append, total, Nat.add_assoc]
  · rfl
  · funext i
    rw [copyIn_writeBuffer, copyIn_writeBuffer, copyIn_writeBuffer, List.length_append, total,
      copyIn_writeBufferPos]
    by_cases first : p.writeBufferPos ≤ i ∧ i < p.writeBufferPos + p.toCopy xs.length
    · have inside : i - p.writeBufferPos < xs.length := by
        obtain ⟨lo, hi⟩ := first
        simp only [toCopy] at hi
        omega
      have outer : p.writeBufferPos ≤ i ∧
          i < p.writeBufferPos + (p.toCopy xs.length + (p.copyIn xs).toCopy ys.length) := by omega
      rw [if_pos first, if_pos outer, if_neg (by omega), List.getD_eq_getElem?_getD,
        List.getD_eq_getElem?_getD, List.getElem?_append_left inside]
    · rw [if_neg first]
      by_cases second : p.writeBufferPos + p.toCopy xs.length ≤ i ∧
          i < p.writeBufferPos + p.toCopy xs.length + (p.copyIn xs).toCopy ys.length
      · have whole : p.toCopy xs.length = xs.length := by
          obtain ⟨lo, hi⟩ := second
          simp only [toCopy, copyIn_writeBufferPos] at lo hi ⊢
          omega
        rw [if_pos second, if_pos (by omega), List.getD_eq_getElem?_getD,
          List.getD_eq_getElem?_getD, List.getElem?_append_right (by omega), whole, Nat.sub_add_eq]
      · rw [if_neg second, if_neg (by omega)]
  · simp only [copyIn_writeBufferPos, List.length_append, total, Nat.add_assoc]

theorem copyIn_nil (p : KernelFpPrivate) : p.copyIn [] = p := by
  have none : p.toCopy 0 = 0 := Nat.min_eq_right (Nat.zero_le _)
  apply KernelFpPrivate.ext
  · simp only [copyIn_filepos, List.length_nil, none, Nat.add_zero]
  · rfl
  · funext i
    rw [copyIn_writeBuffer, List.length_nil, none, if_neg (by omega)]
  · simp only [copyIn_writeBufferPos, List.length_nil, none, Nat.add_zero]

/-- A block that fits is copied whole. -/
theorem toCopy_fits (p : KernelFpPrivate) {n : Nat} (h : p.writeBufferPos + n ≤ 0x2000) :
    p.toCopy n = n := by
  simp only [toCopy]
  omega

section
variable (p : KernelFpPrivate) (b : Byte) (h : p.writeBufferPos < 0x2000)
include h

/-! One byte, where the buffer has a place for it. -/

theorem copyIn_byte_filepos : (p.copyIn [b]).filepos = p.filepos + 1 := by
  rw [copyIn_filepos, p.toCopy_fits h, List.length_singleton]

theorem copyIn_byte_writeBufferPos : (p.copyIn [b]).writeBufferPos = p.writeBufferPos + 1 := by
  rw [copyIn_writeBufferPos, p.toCopy_fits h, List.length_singleton]

theorem copyIn_byte_writeBuffer (i : Nat) :
    (p.copyIn [b]).writeBuffer i = if i = p.writeBufferPos then b else p.writeBuffer i := by
  rw [copyIn_writeBuffer, p.toCopy_fits h, List.length_singleton]
  by_cases here : i = p.writeBufferPos
  · rw [if_pos (by omega), if_pos here, here, Nat.sub_self]
    rfl
  · rw [if_neg (by omega), if_neg here]

end

/-- Only what fits in the buffer matters. -/
theorem copyIn_take (p : KernelFpPrivate) (xs : List Byte) :
    p.copyIn (xs.take (0x2000 - p.writeBufferPos)) = p.copyIn xs := by
  have full (ys : List Byte) (h : xs.drop (0x2000 - p.writeBufferPos) = ys) (ne : ys ≠ []) :
      (p.copyIn (xs.take (0x2000 - p.writeBufferPos))).toCopy ys.length = 0 := by
    have bound := p.writeBufferPos_le
    have longer : 0x2000 - p.writeBufferPos < xs.length := by
      apply Nat.lt_of_not_le
      intro short
      exact ne (h ▸ List.drop_eq_nil_of_le short)
    simp only [toCopy, copyIn_writeBufferPos, List.length_take]
    omega
  have split := p.copyIn_append (xs.take (0x2000 - p.writeBufferPos))
    (xs.drop (0x2000 - p.writeBufferPos))
  rw [List.take_append_drop] at split
  rw [split]
  cases h : xs.drop (0x2000 - p.writeBufferPos) with
  | nil => rw [copyIn_nil]
  | cons y ys =>
    have none := full _ h (by simp)
    apply KernelFpPrivate.ext
    · rw [copyIn_filepos _ (y :: ys), none, Nat.add_zero]
    · rfl
    · funext i
      rw [copyIn_writeBuffer _ (y :: ys), none, if_neg (by omega)]
    · rw [copyIn_writeBufferPos _ (y :: ys), none, Nat.add_zero]

end KernelFpPrivate

/-- The two positions of a handle, which no hardware answer influences. -/
structure Cursor where
  filepos : Nat
  fill : Nat
  deriving DecidableEq, Repr

def KernelFpPrivate.cursor (priv : KernelFpPrivate) : Cursor := ⟨priv.filepos, priv.writeBufferPos⟩

section
variable {σ : Type} (B : Bus σ) (fm : Flashmap)

/-- The world `buffer_write` hands to `flash_write_chunk`. -/
def flushNoted (f : File σ) : World σ :=
  (f.world.note (.printk (flushText f.priv))).note (.flush (flushChunk f.priv.filepos))

theorem File.world_of_eq {f : File σ} {p : KernelFpPrivate} {w : World σ} (h : f = ⟨p, w⟩) :
    f.world = w := by
  rw [h]

theorem bufferWrite_world (f : File σ) :
    (bufferWrite B fm f).world = (flashWriteChunk B fm (asShorts f.priv.writeBuffer)
      (chunkSect fm (flushChunk f.priv.filepos)) f.priv.writeBufferPos (flushNoted f)).2 :=
  File.world_of_eq (p := writeBufferReset f.priv) rfl

theorem release_buffered (f : File σ) (h : f.priv.writeBufferPos ≠ 0) :
    (biffkernelRelease B fm f).2 = (bufferWrite B fm f).world := if_pos h

theorem release_empty (f : File σ) (h : f.priv.writeBufferPos = 0) :
    (biffkernelRelease B fm f).2 = f.world := if_neg (not_not_intro h)

/-- Accepting one byte: buffer it, and flush the buffer if that fills it. -/
def push (f : File σ) (b : Byte) : File σ :=
  let filled : File σ := ⟨f.priv.copyIn [b], f.world⟩
  if filled.priv.writeBufferPos = 0x2000 then bufferWrite B fm filled else filled

/-- How many bytes `biffkernel_write` accepts at most: it looks at the file
position only before it fills up the buffer. -/
def room (c : Cursor) : Nat :=
  if fm.kernelSize ≤ c.filepos then 0
  else 0x2000 - c.fill + (fm.kernelSize - (c.filepos + (0x2000 - c.fill)) + 0x1fff) / 0x2000 * 0x2000

/-- The message of a write that runs past the end. -/
def pastEnd : Event :=
  .printk ("BIFFKERNEL: Attempt to write past end of flash kernel area (" ++ fmtX fm.kernelSize
    ++ ")\n")

theorem push_partial (f : File σ) (b : Byte) (h : f.priv.writeBufferPos + 1 < 0x2000) :
    push B fm f b = ⟨f.priv.copyIn [b], f.world⟩ := by
  have fill := f.priv.copyIn_byte_writeBufferPos b (by omega)
  exact if_neg (by dsimp only; omega)

/-- Bytes that do not fill the buffer only go into it. -/
theorem foldl_push_partial (xs : List Byte) (f : File σ)
    (h : f.priv.writeBufferPos + xs.length < 0x2000) :
    xs.foldl (push B fm) f = ⟨f.priv.copyIn xs, f.world⟩ := by
  induction xs generalizing f with
  | nil => rw [List.foldl_nil, f.priv.copyIn_nil]
  | cons b xs ih =>
    rw [List.length_cons] at h
    have fill := f.priv.copyIn_byte_writeBufferPos b (by omega)
    rw [List.foldl_cons, push_partial B fm f b (by omega), ih _ (by dsimp only; omega),
      ← KernelFpPrivate.copyIn_append, List.singleton_append]

/-- Bytes that fill the buffer exactly are flushed with it. -/
theorem foldl_push_full (xs : List Byte) (f : File σ) (ne : xs ≠ [])
    (h : f.priv.writeBufferPos + xs.length = 0x2000) :
    xs.foldl (push B fm) f = bufferWrite B fm ⟨f.priv.copyIn xs, f.world⟩ := by
  have full : (f.priv.copyIn xs).writeBufferPos = 0x2000 := by
    rw [KernelFpPrivate.copyIn_writeBufferPos, f.priv.toCopy_fits (by omega), h]
  obtain rfl | ⟨ys, b, rfl⟩ := List.eq_nil_or_concat' xs
  · exact absurd rfl ne
  rw [List.length_append, List.length_singleton] at h
  rw [List.foldl_append, foldl_push_partial B fm ys f (by omega), List.foldl_cons,
    List.foldl_nil, push]
  simp only [← KernelFpPrivate.copyIn_append, full, ↓reduceIte]

/-- Filling up the buffer uses up that much room. -/
theorem room_step {c : Cursor} (inside : c.filepos < fm.kernelSize) :
    room fm c = 0x2000 - c.fill + room fm ⟨c.filepos + (0x2000 - c.fill), 0⟩ := by
  simp only [room]
  rw [if_neg (by omega)]
  split <;> omega

section
variable (count : Nat) {ubuf : List Byte} {f : File σ}

/-- The loop stops at the end of the kernel area. -/
theorem writeLoop_stop (more : ubuf ≠ []) (stop : fm.kernelSize ≤ f.priv.filepos) :
    writeLoop B fm count ubuf f =
      (if count = ubuf.length then -ENOSPC else (count : Int) - ubuf.length,
        ⟨f.priv, f.world.note (pastEnd fm)⟩) := by
  rw [writeLoop, if_neg more, if_pos stop]
  dsimp only
  split <;> rfl

/-- What does not fill the buffer stays in it. -/
theorem writeLoop_short (more : ubuf ≠ []) (inside : ¬ fm.kernelSize ≤ f.priv.filepos)
    (short : f.priv.writeBufferPos + ubuf.length < 0x2000) :
    writeLoop B fm count ubuf f = ((count : Int), ⟨f.priv.copyIn ubuf, f.world⟩) := by
  have whole := f.priv.toCopy_fits (Nat.le_of_lt short)
  have unfilled : (f.priv.copyIn ubuf).writeBufferPos ≠ 0x2000 := by
    rw [KernelFpPrivate.copyIn_writeBufferPos, whole]
    omega
  rw [writeLoop, if_neg more, if_neg inside]
  dsimp only
  rw [if_neg unfilled, whole, List.drop_length, writeLoop, if_pos rfl]

/-- What fills the buffer is flushed before the loop goes on. -/
theorem writeLoop_fill (more : ubuf ≠ []) (inside : ¬ fm.kernelSize ≤ f.priv.filepos)
    (copied : f.priv.toCopy ubuf.length = 0x2000 - f.priv.writeBufferPos) :
    writeLoop B fm count ubuf f = writeLoop B fm count (ubuf.drop (0x2000 - f.priv.writeBufferPos))
      (bufferWrite B fm ⟨f.priv.copyIn ubuf, f.world⟩) := by
  have bound := f.priv.writeBufferPos_le
  have filled : (f.priv.copyIn ubuf).writeBufferPos = 0x2000 := by
    rw [KernelFpPrivate.copyIn_writeBufferPos, copied]
    omega
  rw [writeLoop, if_neg more, if_neg inside]
  dsimp only
  rw [if_pos filled, copied]

end

/-- The loop accepts what there is room for, byte by byte, and reports the
rest. -/
theorem writeLoop_eq (count : Nat) (ubuf : List Byte) (f : File σ)
    (partly : f.priv.writeBufferPos < 0x2000) :
    writeLoop B fm count ubuf f =
      let f' := (ubuf.take (room fm f.priv.cursor)).foldl (push B fm) f
      if ubuf.length ≤ room fm f.priv.cursor then ((count : Int), f')
      else (if count = ubuf.length - room fm f.priv.cursor then -ENOSPC
        else (count : Int) - (ubuf.length - room fm f.priv.cursor : Nat),
          ⟨f'.priv, f'.world.note (pastEnd fm)⟩) := by
  generalize len : ubuf.length = n
  induction n using Nat.strongRecOn generalizing ubuf f with
  | ind n ih =>
    by_cases empty : ubuf = []
    · subst empty
      subst len
      simp [writeLoop]
    have positive : 0 < ubuf.length := List.length_pos_iff.mpr empty
    by_cases stop : fm.kernelSize ≤ f.priv.filepos
    · have none : room fm f.priv.cursor = 0 := if_pos stop
      have more : ¬ n ≤ 0 := by omega
      rw [writeLoop_stop B fm count empty stop, none, len]
      exact (if_neg more).symm
    by_cases short : f.priv.writeBufferPos + ubuf.length < 0x2000
    · have fits : ubuf.length ≤ room fm f.priv.cursor := by
        have inside : ¬ fm.kernelSize ≤ f.priv.cursor.filepos := stop
        rw [room, if_neg inside]
        simp only [KernelFpPrivate.cursor]
        omega
      rw [writeLoop_short B fm count empty stop short, List.take_of_length_le fits,
        foldl_push_partial B fm ubuf f short, if_pos (len ▸ fits)]
    · have copied : f.priv.toCopy ubuf.length = 0x2000 - f.priv.writeBufferPos := by
        simp only [KernelFpPrivate.toCopy]
        omega
      have head := foldl_push_full B fm (ubuf.take (0x2000 - f.priv.writeBufferPos)) f
        (by simp [empty]; omega) (by rw [List.length_take]; omega)
      rw [f.priv.copyIn_take] at head
      have step : room fm f.priv.cursor = 0x2000 - f.priv.writeBufferPos +
          room fm (bufferWrite B fm ⟨f.priv.copyIn ubuf, f.world⟩).priv.cursor := by
        rw [room_step fm (c := f.priv.cursor) (Nat.lt_of_not_le stop)]
        simp only [KernelFpPrivate.cursor, bufferWrite, writeBufferReset,
          KernelFpPrivate.copyIn_filepos, copied]
      rw [writeLoop_fill B fm count empty stop copied,
        ih (n - (0x2000 - f.priv.writeBufferPos)) (by omega) _
          (bufferWrite B fm ⟨f.priv.copyIn ubuf, f.world⟩) (Nat.zero_lt_succ _)
          (by rw [List.length_drop, len]),
        step, List.take_add, List.foldl_append, head]
      generalize room fm (bufferWrite B fm ⟨f.priv.copyIn ubuf, f.world⟩).priv.cursor = r
      by_cases fits : n - (0x2000 - f.priv.writeBufferPos) ≤ r
      · rw [if_pos fits, if_pos (by omega)]
      · have more : ¬ n ≤ 0x2000 - f.priv.writeBufferPos + r := by omega
        rw [if_neg fits, if_neg more, Nat.sub_add_eq]

/-- A call accepts the bytes there is room for and returns their number, or
`-ENOSPC` if it can accept none of them. -/
theorem biffkernelWrite_eq (ubuf : List Byte) (f : File σ) (partly : f.priv.writeBufferPos < 0x2000) :
    biffkernelWrite B fm ubuf f =
      let f' := (ubuf.take (room fm f.priv.cursor)).foldl (push B fm) f
      if ubuf.length ≤ room fm f.priv.cursor then ((ubuf.length : Int), f')
      else (if room fm f.priv.cursor = 0 then -ENOSPC else (room fm f.priv.cursor : Int),
        ⟨f'.priv, f'.world.note (pastEnd fm)⟩) := by
  rw [biffkernelWrite, writeLoop_eq B fm ubuf.length ubuf f partly]
  dsimp only
  by_cases fits : ubuf.length ≤ room fm f.priv.cursor
  · rw [if_pos fits, if_pos fits]
  · rw [if_neg fits, if_neg fits]
    by_cases none : room fm f.priv.cursor = 0
    · rw [if_pos none, if_pos (by omega)]
    · have accepted : (ubuf.length : Int) - (ubuf.length - room fm f.priv.cursor : Nat) =
        (room fm f.priv.cursor : Int) := by omega
      rw [if_neg none, if_neg (by omega), accepted]

/-- A write that does not fill the buffer. -/
theorem call_write_partial (ubuf : List Byte) (f : File σ) (fits : ubuf.length ≤ room fm f.priv.cursor)
    (short : f.priv.writeBufferPos + ubuf.length < 0x2000) :
    ((FileOp.write ubuf).call B fm f).2 = ⟨f.priv.copyIn ubuf, f.world⟩ := by
  simp only [FileOp.call, biffkernelWrite_eq B fm ubuf f (Nat.lt_of_le_of_lt (Nat.le_add_right _ _) short)]
  rw [if_pos fits, List.take_of_length_le fits]
  exact foldl_push_partial B fm ubuf f short

end

end Bifferboard
