import Bifferboard.Config.Numbers

/-!
# URL decoding in the heating controller

`decode` of `main.cpp` turns the query string into the message for the display.

The terminator is written one byte too far: `dest` is already behind the last byte when it is
moved on once more. So the message is followed by whatever was in the buffer.

An escape is skipped without a look at what is skipped. If the string ends in the middle of one,
its terminator is skipped too.
-/

namespace Bifferboard.Heating
open Nor Config

/-! ## decode -/

/-- What was done to the two arrays. If it did not return, the source array was left. -/
structure Call where
  dest : Mem
  reads : List Nat
  writes : List Nat
  returned : Bool

/-- The call went on, after a byte was written. -/
def Call.after (reads : List Nat) (write : Nat) (later : Call) : Call :=
  { later with reads := reads ++ later.reads, writes := write :: later.writes }

/-- `if(sscanf(src+1, "%2x", &code) != 1) code = '?';`. White space is not part of the width. -/
def escaped (f : Scanf) (text : List Byte) : Byte :=
  match f.number ((text.dropWhile isSpace).take 2) with
  | some n => (f.stored n).setWidth 8
  | none => 0x3f#8

/-- The loop of `decode`, where the pointers have got to `i` and `j`, and the source array goes
on with `src`. `sscanf` may read up to the end of the string. -/
def decodeFrom (f : Scanf) (src : List Byte) (i j : Nat) (dest : Mem) : Call :=
  match src with
  | [] => ⟨dest, [i], [], false⟩
  | c :: rest =>
    if c = 0#8 then ⟨dest.store (j + 1) [0#8], [i], [j + 1], true⟩
    else if c = 0x2b#8 then
      (decodeFrom f rest (i + 1) (j + 1) (dest.store j [0x20#8])).after [i] j
    else if c = 0x25#8 then
      let text := rest.takeWhile (· ≠ 0#8)
      let scanned := List.range' (i + 1) (text.length + 1)
      if 0#8 ∈ rest then
        (decodeFrom f (rest.drop 2) (i + 3) (j + 1) (dest.store j [escaped f text])).after
          (i :: scanned) j
      else ⟨dest, i :: scanned, [], false⟩
    else (decodeFrom f rest (i + 1) (j + 1) (dest.store j [c])).after [i] j
termination_by src.length
decreasing_by all_goals simp only [List.length_cons, List.length_drop]; omega

def decode (f : Scanf) (src : List Byte) (dest : Mem) : Call := decodeFrom f src 0 0 dest

section
variable (f : Scanf) {c : Byte} (rest : List Byte) (i j : Nat) (dest : Mem)

theorem decodeFrom_nul : decodeFrom f (0#8 :: rest) i j dest =
    ⟨dest.store (j + 1) [0#8], [i], [j + 1], true⟩ := by
  rw [decodeFrom, if_pos rfl]

theorem decodeFrom_plain (nonzero : c ≠ 0#8) (plain : c ≠ 0x25#8) :
    decodeFrom f (c :: rest) i j dest =
      (decodeFrom f rest (i + 1) (j + 1)
        (dest.store j [if c = 0x2b#8 then 0x20#8 else c])).after [i] j := by
  rw [decodeFrom, if_neg nonzero, if_neg plain]
  split <;> rfl

theorem decodeFrom_escape {rest : List Byte} (terminated : 0#8 ∈ rest) :
    decodeFrom f (0x25#8 :: rest) i j dest =
      (decodeFrom f (rest.drop 2) (i + 3) (j + 1)
        (dest.store j [escaped f (rest.takeWhile (· ≠ 0#8))])).after
          (i :: List.range' (i + 1) ((rest.takeWhile (· ≠ 0#8)).length + 1)) j := by
  rw [decodeFrom, if_neg (by decide), if_neg (by decide), if_pos rfl, if_pos terminated]

/-- The byte where the source pointer is will be read. -/
theorem mem_reads (src : List Byte) : i ∈ (decodeFrom f src i j dest).reads := by
  rw [decodeFrom.eq_def]
  split
  · simp
  · simp only [Call.after]
    split_ifs <;> simp

end

/-! ## What is read and written -/

/-- Two more bytes follow every `%` that is looked at. -/
def Complete (s : List Byte) : Prop :=
  match s with
  | [] => True
  | c :: s => if c = 0x25#8 then 2 ≤ s.length ∧ Complete (s.drop 2) else Complete s
termination_by s.length
decreasing_by all_goals simp only [List.length_cons, List.length_drop]; omega

section
variable (f : Scanf) {s : List Byte} (junk : List Byte)

theorem takeWhile_terminated (nonzero : 0#8 ∉ s) :
    (s ++ 0#8 :: junk).takeWhile (· ≠ 0#8) = s := by
  rw [List.takeWhile_append_of_pos, List.takeWhile_cons_of_neg (by simp), List.append_nil]
  intro c member
  simpa using ne_of_mem_of_not_mem member nonzero

theorem decodeFrom_whole_escape (i j : Nat) (dest : Mem) (nonzero : 0#8 ∉ s) (long : 2 ≤ s.length) :
    decodeFrom f (0x25#8 :: (s ++ 0#8 :: junk)) i j dest =
      (decodeFrom f (s.drop 2 ++ 0#8 :: junk) (i + 3) (j + 1) (dest.store j [escaped f s])).after
        (i :: List.range' (i + 1) (s.length + 1)) j := by
  rw [decodeFrom_escape f i j dest (by simp), takeWhile_terminated junk nonzero,
    List.drop_append_of_le_length long]

/-- The string is left exactly if it ends in the middle of an escape. -/
theorem reads_inside_iff (i j : Nat) (dest : Mem) (nonzero : 0#8 ∉ s) :
    (∀ r ∈ (decodeFrom f (s ++ 0#8 :: junk) i j dest).reads, r ≤ i + s.length) ↔ Complete s := by
  fun_induction Complete s generalizing i j dest with
  | case1 => simp [decodeFrom_nul]
  | case2 s ih =>
    have tail : 0#8 ∉ s := List.not_mem_of_not_mem_cons nonzero
    by_cases long : 2 ≤ s.length
    · have later := ih (i + 3) (j + 1) (dest.store j [escaped f s])
        fun member => tail (List.mem_of_mem_drop member)
      have same : i + 3 + (s.drop 2).length = i + (s.length + 1) := by
        rw [List.length_drop]
        omega
      rw [same] at later
      rw [List.cons_append, decodeFrom_whole_escape f junk i j dest tail long, ← later]
      simp only [Call.after, List.forall_mem_append, List.length_cons, long, true_and]
      refine and_iff_right fun r member => ?_
      rcases List.mem_cons.mp member with rfl | scanned
      · omega
      · have text := List.mem_range'_1.mp scanned
        omega
    · -- the escape is cut short: the pointer moves on to `i + 3`, and the string ended before
      rw [List.cons_append, decodeFrom_escape f i j dest (by simp)]
      simp only [long, false_and, iff_false]
      intro inside
      have read := inside (i + 3) (List.mem_append_right _ (mem_reads f _ _ _ _))
      rw [List.length_cons] at read
      omega
  | case3 c s plain ih =>
    have head : c ≠ 0#8 := (List.ne_of_not_mem_cons nonzero).symm
    have later := ih (i + 1) (j + 1) (dest.store j [if c = 0x2b#8 then 0x20#8 else c])
      (List.not_mem_of_not_mem_cons nonzero)
    have same : i + 1 + s.length = i + (s.length + 1) := by omega
    rw [same] at later
    rw [List.cons_append, decodeFrom_plain f _ i j dest head plain, ← later]
    simp only [Call.after, List.forall_mem_append, List.length_cons]
    refine and_iff_right fun r member => ?_
    obtain rfl := List.mem_singleton.mp member
    omega

/-- What is written: one byte after the other, and the terminator behind the next one. -/
theorem writes_eq (i j : Nat) (dest : Mem) (nonzero : 0#8 ∉ s) (complete : Complete s) :
    ∃ n, (decodeFrom f (s ++ 0#8 :: junk) i j dest).writes = List.range' j n ++ [j + n + 1] ∧
      (decodeFrom f (s ++ 0#8 :: junk) i j dest).returned = true ∧
      n ≤ s.length ∧ (n = s.length ↔ 0x25#8 ∉ s) := by
  have next (j n : Nat) : j :: (List.range' (j + 1) n ++ [j + 1 + n + 1]) =
      List.range' j (n + 1) ++ [j + (n + 1) + 1] := by
    simp [List.range'_succ, Nat.add_right_comm, Nat.add_assoc]
  fun_induction Complete s generalizing i j dest with
  | case1 => exact ⟨0, by simp [decodeFrom_nul]⟩
  | case2 s ih =>
    obtain ⟨long, complete⟩ := complete
    have tail : 0#8 ∉ s := List.not_mem_of_not_mem_cons nonzero
    obtain ⟨n, written, returned, bound, -⟩ := ih (i + 3) (j + 1) (dest.store j [escaped f s])
      (fun member => tail (List.mem_of_mem_drop member)) complete
    rw [List.length_drop] at bound
    rw [List.cons_append, decodeFrom_whole_escape f junk i j dest tail long]
    refine ⟨n + 1, ?_, returned, ?_, iff_of_false ?_ fun absent => absent List.mem_cons_self⟩
    · rw [← next, ← written]
      rfl
    · rw [List.length_cons]
      omega
    · rw [List.length_cons]
      omega
  | case3 c s plain ih =>
    have head : c ≠ 0#8 := (List.ne_of_not_mem_cons nonzero).symm
    obtain ⟨n, written, returned, bound, full⟩ :=
      ih (i + 1) (j + 1) (dest.store j [if c = 0x2b#8 then 0x20#8 else c])
        (List.not_mem_of_not_mem_cons nonzero) complete
    rw [List.cons_append, decodeFrom_plain f _ i j dest head plain]
    refine ⟨n + 1, ?_, returned, by simpa using bound, ?_⟩
    · rw [← next, ← written]
      rfl
    · simp [full, Ne.symm plain]

end

/-- Nothing behind the terminating NUL is read, and not more is written than there was to read,
exactly if the string does not end in the middle of an escape. The bytes written are not always
the first ones: only a string with an escape leaves room for the misplaced terminator. -/
theorem decode_inside_iff (f : Scanf) (s junk : List Byte) (dest : Mem) (nonzero : 0#8 ∉ s) :
    let out := decode f (s ++ 0#8 :: junk) dest
    ((∀ i ∈ out.reads, i ≤ s.length) ∧ out.writes.length ≤ s.length + 1 ↔ Complete s) ∧
      (Complete s → out.returned = true ∧ ((∀ j ∈ out.writes, j ≤ s.length) ↔ 0x25#8 ∈ s)) := by
  have reads := reads_inside_iff f junk 0 0 dest nonzero
  have writes := writes_eq f junk 0 0 dest nonzero
  simp only [decode, Nat.zero_add] at reads writes ⊢
  refine ⟨?_, fun complete => ?_⟩
  · rw [reads]
    refine and_iff_left_of_imp fun complete => ?_
    obtain ⟨n, written, -, bound, -⟩ := writes complete
    rw [written, List.length_append, List.length_range', List.length_singleton]
    omega
  · obtain ⟨n, written, returned, bound, full⟩ := writes complete
    rw [written]
    refine ⟨returned, fun inside => ?_, fun escape j member => ?_⟩
    · by_contra absent
      have last := inside (n + 1) (List.mem_append_right _ (List.mem_singleton.mpr rfl))
      have all := full.mpr absent
      omega
    · have short : n ≠ s.length := fun same => full.mp same escape
      rcases List.mem_append.mp member with early | last
      · have bytes := List.mem_range'_1.mp early
        omega
      · have terminator := List.mem_singleton.mp last
        omega

/-- A string with an escape that is no number. -/
theorem whole_escape_inside :
    Complete [0x61#8, 0x25#8, 0x7a#8, 0x7a#8] ∧
    ∀ i ∈ (decode ⟨false, fun _ => 0#32⟩ ([0x61#8, 0x25#8, 0x7a#8, 0x7a#8] ++ [0#8])
      fun _ => 0#8).reads, i ≤ 4 := by
  have complete : Complete [0x61#8, 0x25#8, 0x7a#8, 0x7a#8] := by simp [Complete]
  exact ⟨complete, ((decode_inside_iff ⟨false, fun _ => 0#32⟩ _ [] (fun _ => 0#8)
    (by decide)).1.mpr complete).1⟩

/-- Of a single `%`, what is behind the terminator is decoded. -/
theorem single_percent_outside :
    let out := decode ⟨false, fun _ => 0#32⟩ ([0x25#8] ++ 0#8 :: [0x41#8, 0x42#8, 0#8]) fun _ => 0#8
    3 ∈ out.reads ∧ out.writes = [0, 1, 3] := by
  simp [decode, decodeFrom, Call.after]

/-! ## What is decoded -/

/-- The form encodings of a string. -/
inductive Encodes : List Byte → List Byte → Prop
  | nil : Encodes [] []
  | space {s e : List Byte} : Encodes s e → Encodes (0x20#8 :: s) (0x2b#8 :: e)
  | escape {h l : Byte} {a b : Nat} {s e : List Byte} : hexDigit h = some a → hexDigit l = some b →
      Encodes s e → Encodes (BitVec.ofNat 8 (16 * a + b) :: s) (0x25#8 :: h :: l :: e)
  | plain {c : Byte} {s e : List Byte} : c ≠ 0x20#8 → c ≠ 0x2b#8 → c ≠ 0x25#8 →
      Encodes s e → Encodes (c :: s) (c :: e)

/-- The string at an address. -/
def CString (m : Mem) (a : Nat) (s : List Byte) : Prop :=
  0#8 ∉ s ∧ m.load a (s.length + 1) = s ++ [0#8]

/-- A digit is small, no white space and no terminator. -/
theorem digit_plain : ∀ c : Byte, (hexDigit c).isSome → (hexDigit c).getD 0 < 16 ∧
    isSpace c = false ∧ c ≠ 0#8 := by decide

theorem escaped_digits (f : Scanf) {h l : Byte} {a b : Nat} (high : hexDigit h = some a)
    (low : hexDigit l = some b) (rest : List Byte) :
    escaped f (h :: l :: rest) = BitVec.ofNat 8 (16 * a + b) := by
  obtain ⟨smallH, space, -⟩ := digit_plain h (by simp [high])
  obtain ⟨smallL, -, -⟩ := digit_plain l (by simp [low])
  simp only [high, low, Option.getD_some] at smallH smallL
  have spelled : Numeral.Spells hexDigit 16 [h, l] (16 * a + b) :=
    ⟨[a, b], by simp, by simp [high, low], by simp [Numeral.value]⟩
  have number : f.number [h, l] = some ((16 * a + b : Nat) : Int) :=
    number_signed f (.plain (.plain spelled))
  have fits : (16 * a + b : Nat) < 0x100000000 := by omega
  rw [escaped, List.dropWhile_cons_of_neg (by simp [space])]
  simp only [List.take_succ_cons, List.take_zero, number, Scanf.stored, Int.natAbs_natCast, fits, if_true]
  rw [BitVec.ofInt_natCast, BitVec.setWidth_ofNat_of_le (by decide)]

section
variable {s e : List Byte}

theorem Encodes.nonzero (h : Encodes s e) (nonzero : 0#8 ∉ s) : 0#8 ∉ e := by
  induction h with
  | nil => exact nonzero
  | space _ ih => simpa using ih (List.not_mem_of_not_mem_cons nonzero)
  | escape high low _ ih =>
    have first := (digit_plain _ (Option.isSome_of_eq_some high)).2.2
    have second := (digit_plain _ (Option.isSome_of_eq_some low)).2.2
    simpa [first.symm, second.symm] using ih (List.not_mem_of_not_mem_cons nonzero)
  | plain _ _ _ _ ih =>
    have head := List.ne_of_not_mem_cons nonzero
    simpa [head] using ih (List.not_mem_of_not_mem_cons nonzero)

/-- The string is written, and the terminator is written behind the next byte. -/
theorem decodeFrom_encodes (f : Scanf) (h : Encodes s e) (nonzero : 0#8 ∉ s) (junk : List Byte)
    (i j : Nat) (dest : Mem) : (decodeFrom f (e ++ 0#8 :: junk) i j dest).returned = true ∧
      (decodeFrom f (e ++ 0#8 :: junk) i j dest).dest =
        (dest.store j s).store (j + s.length + 1) [0#8] := by
  have next (c : Byte) (s : List Byte) (j : Nat) (dest : Mem) :
      ((dest.store j [c]).store (j + 1) s).store (j + 1 + s.length + 1) [0#8] =
        (dest.store j (c :: s)).store (j + (c :: s).length + 1) [0#8] := by
    have stored : (dest.store j [c]).store (j + 1) s = dest.store j (c :: s) :=
      dest.store_append j [c] s
    have place : j + 1 + s.length = j + (c :: s).length := by simp only [List.length_cons]; omega
    rw [stored, place]
  induction h generalizing i j dest with
  | nil => simp [decodeFrom_nul]
  | @space s e _ ih =>
    rw [← next, List.cons_append, decodeFrom_plain f _ i j dest (by decide) (by decide)]
    exact ih (List.not_mem_of_not_mem_cons nonzero) (i + 1) (j + 1) _
  | @escape h l a b s e high low encodes ih =>
    have tail := List.not_mem_of_not_mem_cons ((Encodes.escape high low encodes).nonzero nonzero)
    have whole := decodeFrom_whole_escape f junk i j dest tail (by simp)
    rw [escaped_digits f high low] at whole
    rw [← next, List.cons_append, whole]
    exact ih (List.not_mem_of_not_mem_cons nonzero) (i + 3) (j + 1) _
  | @plain c s e space plus percent _ ih =>
    have head : c ≠ 0#8 := (List.ne_of_not_mem_cons nonzero).symm
    rw [← next, List.cons_append, decodeFrom_plain f _ i j dest head percent, if_neg plus]
    exact ih (List.not_mem_of_not_mem_cons nonzero) (i + 1) (j + 1) _

end

theorem decode_load (f : Scanf) {s e : List Byte} (encodes : Encodes s e) (nonzero : 0#8 ∉ s)
    (junk : List Byte) (dest : Mem) :
    (decode f (e ++ 0#8 :: junk) dest).dest.load 0 (s.length + 1) = s ++ [dest s.length] := by
  have text : ((dest.store 0 s).store (0 + s.length + 1) [0#8]).load 0 s.length = s := by
    refine Eq.trans (Mem.load_congr fun i inside => ?_) (dest.load_store 0 s)
    exact Mem.store_frame _ (.inl (by omega))
  have behind : (dest.store 0 s).store (0 + s.length + 1) [0#8] (0 + s.length) = dest s.length := by
    rw [Mem.store_frame _ (.inl (Nat.lt_succ_self _)), Mem.store_frame _ (.inr (Nat.le_refl _)),
      Nat.zero_add]
  rw [decode, (decodeFrom_encodes f encodes nonzero junk 0 0 dest).2, Mem.load_add, text,
    Mem.load_succ, behind]
  rfl

/-- What is at `dest` afterwards is the string that was encoded, exactly if the buffer held a
zero where its terminator should go. -/
theorem decode_exact_iff (f : Scanf) (s e junk : List Byte) (dest : Mem) (nonzero : 0#8 ∉ s)
    (encodes : Encodes s e) :
    let out := decode f (e ++ 0#8 :: junk) dest
    out.returned = true ∧ CString out.dest 0 s ↔ dest s.length = 0#8 := by
  have returned := (decodeFrom_encodes f encodes nonzero junk 0 0 dest).1
  simp only [CString, decode_load f encodes nonzero, nonzero, not_false_eq_true, true_and]
  simp [decode, returned]

/-- `a+%62` is decoded in a buffer that was cleared. -/
theorem cleared_buffer_exact :
    Encodes [0x61#8, 0x20#8, 0x62#8] [0x61#8, 0x2b#8, 0x25#8, 0x36#8, 0x32#8] ∧
    CString (decode ⟨false, fun _ => 0#32⟩ ([0x61#8, 0x2b#8, 0x25#8, 0x36#8, 0x32#8] ++ [0#8])
      fun _ => 0#8).dest 0 [0x61#8, 0x20#8, 0x62#8] := by
  have encodes : Encodes [0x61#8, 0x20#8, 0x62#8] [0x61#8, 0x2b#8, 0x25#8, 0x36#8, 0x32#8] :=
    .plain (by decide) (by decide) (by decide)
      (.space (@Encodes.escape 0x36#8 0x32#8 6 2 _ _ rfl rfl .nil))
  have exact := decode_exact_iff ⟨false, fun _ => 0#32⟩ _ _ [] (fun _ => 0#8) (by decide) encodes
  exact ⟨encodes, (exact.mpr rfl).2⟩

/-- In a buffer full of stars, `a` is followed by one of them. -/
theorem used_buffer_inexact :
    Encodes [0x61#8] [0x61#8] ∧
    ¬ CString (decode ⟨false, fun _ => 0#32⟩ ([0x61#8] ++ [0#8]) fun _ => 0x2a#8).dest 0 [0x61#8] := by
  have encodes : Encodes [0x61#8] [0x61#8] := .plain (by decide) (by decide) (by decide) .nil
  refine ⟨encodes, fun string => ?_⟩
  have loaded := decode_load ⟨false, fun _ => 0#32⟩ encodes (by decide) [] fun _ => 0x2a#8
  exact absurd (loaded.symm.trans string.2) (by decide)

end Bifferboard.Heating
