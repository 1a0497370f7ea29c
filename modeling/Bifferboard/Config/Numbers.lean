import Bifferboard.Config.Readers
import Bifferboard.Numeral.Digits

/-!
# What a value denotes

`setval` reads a number with `sscanf(val, "%x", &v)` into an `int` and stores it in a field
of 32 or 16 bits, and `render` prints the field. Choices and the command line are shown as
they were given. A number is, if nothing follows it, it is not negative and it fits its field.
-/

namespace Bifferboard.Config
open Nor Upload

/-! ## sscanf -/

/-- What C libraries do differently: whether `0x` without digits is 0 or no number, and
what is stored for a number that does not fit in 32 bits. -/
structure Scanf where
  bare : Bool
  overflow : Int → Dword

def hexDigit (c : Byte) : Option Nat :=
  if 0x30#8 ≤ c ∧ c ≤ 0x39#8 then some (c.toNat - 0x30)
  else if 0x61#8 ≤ c ∧ c ≤ 0x66#8 then some (c.toNat - 0x57)
  else if 0x41#8 ≤ c ∧ c ≤ 0x46#8 then some (c.toNat - 0x37)
  else none

namespace Scanf
variable (f : Scanf)

/-- A number without its sign. It may have a prefix of its own. -/
def magnitude (s : List Byte) : Option Nat :=
  if s.take 2 = ascii "0x" ∨ s.take 2 = ascii "0X" then
    match Numeral.read hexDigit 16 (s.drop 2) with
    | some n => some n
    | none => if f.bare then some 0 else none
  else Numeral.read hexDigit 16 s

/-- The number that `"%x"` reads. What follows it is not looked at. -/
def number (s : List Byte) : Option Int :=
  let s := s.dropWhile isSpace
  if s.head? = some 0x2d#8 then (f.magnitude s.tail).map fun n : Nat => -(n : Int)
  else if s.head? = some 0x2b#8 then (f.magnitude s.tail).map Nat.cast
  else (f.magnitude s).map Nat.cast

/-- What is stored in the `int`. -/
def stored (n : Int) : Dword := if n.natAbs < 0x100000000 then BitVec.ofInt 32 n else f.overflow n

def lib (md5 : Md5) : Lib where
  md5 := md5
  sscanfHex s := (f.number s).map f.stored

end Scanf

/-! ## Numbers as they are written -/

/-- Hexadecimal digits, maybe with a prefix, and nothing after them. -/
inductive Unsigned : List Byte → Nat → Prop
  | plain {s : List Byte} {n : Nat} : Numeral.Spells hexDigit 16 s n → Unsigned s n
  | marked {s : List Byte} {n : Nat} : Numeral.Spells hexDigit 16 s n → Unsigned (ascii "0x" ++ s) n
  | capital {s : List Byte} {n : Nat} : Numeral.Spells hexDigit 16 s n → Unsigned (ascii "0X" ++ s) n

/-- A hexadecimal number, maybe with a sign and white space before it. -/
inductive Signed : List Byte → Int → Prop
  | plain {s : List Byte} {n : Nat} : Unsigned s n → Signed s n
  | plus {s : List Byte} {n : Nat} : Unsigned s n → Signed (0x2b#8 :: s) n
  | minus {s : List Byte} {n : Nat} : Unsigned s n → Signed (0x2d#8 :: s) (-n)
  | blank {c : Byte} {s : List Byte} {n : Int} : isSpace c = true → Signed s n → Signed (c :: s) n

/-- A setting denotes the number that is written after its `0x`. -/
def Denotes (s : List Byte) (n : Int) : Prop := ∃ t, s = ascii "0x" ++ t ∧ Signed t n

/-- `shown` denotes the same setting as `s`. -/
def SameSetting (s shown : List Byte) : Param → Prop
  | .choice _ | .cmndline => shown = s
  | .loadaddress | .kernelmax => ∃ n, Denotes s n ∧ Denotes shown n

/-- How far the numbers go that a field holds. -/
def Param.limit : Param → Option Nat
  | .choice _ | .cmndline => none
  | .loadaddress => some 0x100000000
  | .kernelmax => some 0x10000

/-- What is given for a number is one, and fits its field. -/
def Holds (s : List Byte) (p : Param) : Prop :=
  ∀ limit, p.limit = some limit → ∃ n, Denotes s n ∧ 0 ≤ n ∧ n < limit

/-! ## Reading what is written -/

/-- A digit is no white space and no sign. -/
theorem hexDigit_plain : ∀ c : Byte, (hexDigit c).isSome →
    isSpace c = false ∧ c ≠ 0x2d#8 ∧ c ≠ 0x2b#8 := by decide +kernel

section
variable (f : Scanf) {s : List Byte}

theorem magnitude_unsigned {n : Nat} (h : Unsigned s n) : f.magnitude s = some n := by
  cases h with
  | plain spelled =>
    have other {c : Byte} (letter : hexDigit c = none) : c ∉ s := by
      intro member
      obtain ⟨d, found⟩ := spelled.digit member
      rw [letter] at found
      cases found
    rw [Scanf.magnitude, if_neg, spelled.read_eq]
    rintro (marked | marked)
    · exact other (by decide) (List.mem_of_mem_take (marked ▸ (by decide : 0x78#8 ∈ ascii "0x")))
    · exact other (by decide) (List.mem_of_mem_take (marked ▸ (by decide : 0x58#8 ∈ ascii "0X")))
  | @marked s _ spelled =>
    have prefixed : (ascii "0x" ++ s).drop 2 = s := List.drop_left' rfl
    rw [Scanf.magnitude, if_pos (.inl (List.take_left' rfl)), prefixed, spelled.read_eq]
  | @capital s _ spelled =>
    have prefixed : (ascii "0X" ++ s).drop 2 = s := List.drop_left' rfl
    rw [Scanf.magnitude, if_pos (.inr (List.take_left' rfl)), prefixed, spelled.read_eq]

/-- A number starts with a digit. -/
theorem Unsigned.head {n : Nat} (h : Unsigned s n) :
    ∃ c rest, s = c :: rest ∧ (hexDigit c).isSome := by
  cases h with
  | plain spelled =>
    obtain ⟨c, rest, rfl⟩ := List.exists_cons_of_ne_nil spelled.ne_nil
    obtain ⟨d, found⟩ := spelled.digit (List.mem_cons_self ..)
    exact ⟨c, rest, rfl, by rw [found]; rfl⟩
  | marked _ => exact ⟨0x30#8, _, rfl, by decide⟩
  | capital _ => exact ⟨0x30#8, _, rfl, by decide⟩

theorem number_cons {c : Byte} (space : isSpace c = false) : f.number (c :: s) =
    if c = 0x2d#8 then (f.magnitude s).map fun n : Nat => -(n : Int)
    else if c = 0x2b#8 then (f.magnitude s).map Nat.cast
    else (f.magnitude (c :: s)).map Nat.cast := by
  have kept : (c :: s).dropWhile isSpace = c :: s := List.dropWhile_cons_of_neg (by simp [space])
  simp only [Scanf.number, kept, List.head?_cons, Option.some.injEq, List.tail_cons]

/-- What is written is what `"%x"` reads. -/
theorem number_signed {n : Int} (h : Signed s n) : f.number s = some n := by
  induction h with
  | plain digits =>
    obtain ⟨c, rest, rfl, first⟩ := digits.head
    obtain ⟨space, minus, plus⟩ := hexDigit_plain c first
    rw [number_cons f space, if_neg minus, if_neg plus, magnitude_unsigned f digits]
    rfl
  | plus digits =>
    rw [number_cons f (by decide), if_neg (by decide), if_pos rfl, magnitude_unsigned f digits]
    rfl
  | minus digits =>
    rw [number_cons f (by decide), if_pos rfl, magnitude_unsigned f digits]
    rfl
  | @blank c s _ space _ ih =>
    have skipped : (c :: s).dropWhile isSpace = s.dropWhile isSpace :=
      List.dropWhile_cons_of_pos space
    rw [← ih, Scanf.number, skipped, Scanf.number]

end

/-- A text denotes one number at most. -/
theorem Denotes.unique {s : List Byte} {m n : Int} (h : Denotes s m) (h' : Denotes s n) : m = n := by
  obtain ⟨t, rfl, first⟩ := h
  obtain ⟨t', same, second⟩ := h'
  obtain rfl := List.append_cancel_left same
  exact Option.some.inj ((number_signed ⟨false, fun _ => 0#32⟩ first).symm.trans
    (number_signed ⟨false, fun _ => 0#32⟩ second))

/-! ## Numbers that are shown -/

def symbol (c : Char) : Byte := BitVec.ofNat 8 c.toNat

theorem hexDigit_symbol : ∀ d < 16, hexDigit (symbol d.digitChar) = some d := by decide

theorem hex_eq (n : Nat) : hex n = ascii "0x" ++ (Nat.toDigits 16 n).map symbol := by
  have digits : ascii (String.ofList (Nat.toDigits 16 n)) = (Nat.toDigits 16 n).map symbol := by
    rw [ascii, String.toList_ofList]
    rfl
  rw [hex, digits]

theorem denotes_hex (n : Nat) : Denotes (hex n) n :=
  ⟨_, hex_eq n, .plain (.plain (Numeral.spells_toDigits (by decide) hexDigit_symbol n))⟩

/-! ## Numbers that are stored -/

section
variable (f : Scanf) (n : Int)

theorem stored_small (small : n.natAbs < 0x100000000) :
    (f.stored n).toNat = (n % 0x100000000).toNat := by
  rw [Scanf.stored, if_pos small, BitVec.toNat_ofInt]
  rfl

theorem stored_eq_iff : n = (f.stored n).toNat ↔ 0 ≤ n ∧ n < (0x100000000 : Nat) := by
  have bound := (f.stored n).isLt
  by_cases small : n.natAbs < 0x100000000
  · have value := stored_small f n small
    omega
  · omega

theorem stored_low_eq_iff :
    n = ((f.stored n).setWidth 16).toNat ↔ 0 ≤ n ∧ n < (0x10000 : Nat) := by
  rw [BitVec.toNat_setWidth]
  by_cases small : n.natAbs < 0x100000000
  · have value := stored_small f n small
    omega
  · omega

end

/-! ## What setval accepts -/

section
variable {f : Scanf} {md5 : Md5} {val : List Byte} {g g' : Mem}

/-- A number that has been accepted: if nothing else is written, it is the one that
the text denotes. -/
theorem scanHex_eq_some {v : Dword} (scanned : scanHex (f.lib md5) val = some v) :
    ∃ n, (∀ n', Denotes val n' → n' = n) ∧ v = f.stored n := by
  rw [scanHex, Option.ite_none_right_eq_some] at scanned
  obtain ⟨-, read⟩ := scanned
  obtain ⟨n, number, rfl⟩ := Option.map_eq_some_iff.mp read
  refine ⟨n, ?_, rfl⟩
  rintro n' ⟨t, rfl, written⟩
  rw [show (ascii "0x" ++ t).drop 2 = t from rfl, number_signed f written] at number
  exact Option.some.inj number

/-- The number shown is the one that was given if it has been stored as it is. -/
theorem number_shown {n : Int} {m limit : Nat} {p : Param} (given : ∀ n', Denotes val n' → n' = n)
    (width : p.limit = some limit) (fits : n = m ↔ 0 ≤ n ∧ n < limit) :
    (∃ n, Denotes val n ∧ Denotes (hex m) n) ↔ Holds val p := by
  constructor
  · rintro ⟨n', denoted, shown⟩ limit' width'
    obtain rfl := Option.some.inj (width.symm.trans width')
    obtain rfl := given n' denoted
    exact ⟨n', denoted, fits.mp (shown.unique (denotes_hex m))⟩
  · intro holds
    obtain ⟨n', denoted, inside⟩ := holds limit width
    obtain rfl := given n' denoted
    exact ⟨n', denoted, fits.mpr inside ▸ denotes_hex m⟩

theorem setval_loadaddress (done : setval (f.lib md5) .loadaddress val g = some g') :
    ∃ n, (∀ n', Denotes val n' → n' = n) ∧ g'.dword 8 = f.stored n := by
  obtain ⟨values, set, same⟩ := setval_values done
  obtain ⟨v, scanned, rfl⟩ := Option.map_eq_some_iff.mp set
  obtain ⟨n, given, rfl⟩ := scanHex_eq_some scanned
  refine ⟨n, given, Mem.dword_of_load ?_⟩
  rw [Mem.load_congr fun i inside => same (8 + i) (by omega)]
  exact g.load_store 8 (dwordBytes (f.stored n))

theorem setval_kernelmax (done : setval (f.lib md5) .kernelmax val g = some g') :
    ∃ n, (∀ n', Denotes val n' → n' = n) ∧ g'.word 1036 = (f.stored n).setWidth 16 := by
  obtain ⟨values, set, same⟩ := setval_values done
  obtain ⟨v, scanned, rfl⟩ := Option.map_eq_some_iff.mp set
  obtain ⟨n, given, rfl⟩ := scanHex_eq_some scanned
  refine ⟨n, given, ?_⟩
  rw [Mem.word, same 1036 (by decide), same (1036 + 1) (by decide)]
  exact g.word_storeWord 1036 _

/-- A choice is shown by the name it was set by. -/
theorem render_choice {lib : Lib} {c : Choice} (done : setval lib (.choice c) val g = some g') :
    render g' (.choice c) = val := by
  obtain ⟨v, found, value⟩ := setval_choice done
  obtain ⟨inside, named, -⟩ := List.findIdx?_eq_some_iff_getElem.mp found
  have same : setvalNames c = renderNames c := by cases c <;> rfl
  rw [render, value, ← same, List.getD_eq_getElem _ _ inside]
  exact (of_decide_eq_true named).symm

theorem render_cmndline {lib : Lib} (nulFree : 0#8 ∉ val)
    (done : setval lib .cmndline val g = some g') : render g' .cmndline = val := by
  obtain ⟨values, set, same⟩ := setval_values done
  obtain ⟨short, rfl⟩ := setField_cmndline set
  have unchanged : ∀ i < 1024, g' (12 + i) = g.store 12 (val ++ [0#8]) (12 + i) :=
    fun i inside => same _ (by omega)
  rw [render, Mem.text_congr unchanged, g.text_copied nulFree short]

end

/-- What has been set is shown as what was given, except for texts that are no number or
none that fits. -/
theorem accepted_shown_iff (f : Scanf) (md5 : Md5) (c : Call) (g g' : Mem)
    (done : setval (f.lib md5) c.index c.val g = some g') :
    SameSetting c.val (render g' c.index) c.index ↔ Holds c.val c.index := by
  obtain ⟨index, val, nulFree⟩ := c
  have unlimited {p : Param} (free : p.limit = none) : Holds val p := by
    intro limit width
    rw [free] at width
    cases width
  dsimp only at done ⊢
  cases index with
  | choice c => exact iff_of_true (render_choice done) (unlimited rfl)
  | cmndline => exact iff_of_true (render_cmndline nulFree done) (unlimited rfl)
  | loadaddress =>
    obtain ⟨n, given, value⟩ := setval_loadaddress done
    rw [SameSetting, render, value]
    exact number_shown given rfl (stored_eq_iff f n)
  | kernelmax =>
    obtain ⟨n, given, value⟩ := setval_kernelmax done
    rw [SameSetting, render, value]
    exact number_shown given rfl (stored_low_eq_iff f n)

/-- A library that stores 0 for what does not fit. -/
def plainScanf : Scanf := ⟨false, fun _ => 0#32⟩

theorem sixteen_sectors_shown : ∃ g',
    setval (plainScanf.lib plainLib.md5) .kernelmax (ascii "0x10") (fun _ => 0#8) = some g' ∧
      SameSetting (ascii "0x10") (render g' .kernelmax) .kernelmax := by
  have given : Denotes (ascii "0x10") 16 := denotes_hex 16
  refine ⟨_, rfl, ?_⟩
  apply (accepted_shown_iff plainScanf plainLib.md5 ⟨.kernelmax, ascii "0x10", by decide⟩ _ _
    rfl).mpr
  intro limit width
  obtain rfl := Option.some.inj width
  exact ⟨16, given, by decide, by decide⟩

/-- The first number of sectors that does not fit is shown as none. -/
theorem sectors_shown_as_none : ∃ g',
    setval (plainScanf.lib plainLib.md5) .kernelmax (ascii "0x10000") (fun _ => 0#8) = some g' ∧
      render g' .kernelmax = ascii "0x0" ∧
      ¬ SameSetting (ascii "0x10000") (render g' .kernelmax) .kernelmax := by
  have given : Denotes (ascii "0x10000") 0x10000 := denotes_hex 0x10000
  obtain ⟨g', done⟩ : ∃ g', setval (plainScanf.lib plainLib.md5) .kernelmax (ascii "0x10000")
    (fun _ => 0#8) = some g' := ⟨_, rfl⟩
  obtain ⟨n, only, value⟩ := setval_kernelmax done
  obtain rfl := only _ given
  have zero : g'.word 1036 = 0#16 := value
  refine ⟨g', done, ?_, ?_⟩
  · rw [render, zero]
    decide
  · rw [SameSetting, render, zero]
    rintro ⟨n, denoted, shown⟩
    have wrong := (given.unique denoted).trans (shown.unique (denotes_hex 0))
    exact absurd wrong (by decide)

end Bifferboard.Config
