import Mathlib.Data.List.Basic
import Mathlib.Data.List.Induction

/-!
# Numerals at the start of a string

`digit` says which symbols are digits and what they stand for. A number is read from the
digits that a string starts with, the highest first.

* `leading`: these digits;
* `value`: the number that digits stand for;
* `read`: the two together, `none` if there is no digit;
* `Spells`: a string is a number and nothing else;
* `spells_toDigits`: what `Nat.toDigits` has written spells the number;
* `padded_toDigits`: what is written for the number of some digits, filled up with zeros, are
  these digits.
-/

namespace Numeral
variable {α : Type}

/-- The digits that a string starts with. -/
def leading (digit : α → Option Nat) : List α → List Nat
  | [] => []
  | c :: s =>
    match digit c with
    | some d => d :: leading digit s
    | none => []

/-- The number that digits stand for, the highest first. -/
def value (b : Nat) (ds : List Nat) : Nat := ds.foldl (fun n d => b * n + d) 0

/-- The number that a string starts with. -/
def read (digit : α → Option Nat) (b : Nat) (s : List α) : Option Nat :=
  match leading digit s with
  | [] => none
  | d :: ds => some (value b (d :: ds))

/-- The string consists of the digits of `n`. -/
def Spells (digit : α → Option Nat) (b : Nat) (s : List α) (n : Nat) : Prop :=
  ∃ ds, ds ≠ [] ∧ s.map digit = ds.map some ∧ value b ds = n

theorem leading_of_map {digit : α → Option Nat} {s : List α} {ds : List Nat}
    (known : s.map digit = ds.map some) : leading digit s = ds := by
  induction s generalizing ds with
  | nil => rw [List.map_eq_nil_iff.mp known.symm, leading]
  | cons c s ih =>
    cases ds with
    | nil => exact absurd known (List.cons_ne_nil _ _)
    | cons d ds =>
      obtain ⟨first, rest⟩ := List.cons.inj known
      simp only [leading, first, ih rest]

theorem Spells.read_eq {digit : α → Option Nat} {b n : Nat} {s : List α} (h : Spells digit b s n) :
    read digit b s = some n := by
  obtain ⟨ds, nonempty, known, rfl⟩ := h
  obtain ⟨d, ds, rfl⟩ := List.exists_cons_of_ne_nil nonempty
  rw [read, leading_of_map known]

theorem Spells.digit {digit : α → Option Nat} {b n : Nat} {s : List α} (h : Spells digit b s n)
    {c : α} (member : c ∈ s) : ∃ d, digit c = some d := by
  obtain ⟨ds, -, known, -⟩ := h
  obtain ⟨d, -, found⟩ := List.mem_map.mp (known ▸ List.mem_map_of_mem (f := digit) member)
  exact ⟨d, found.symm⟩

theorem Spells.ne_nil {digit : α → Option Nat} {b n : Nat} {s : List α} (h : Spells digit b s n) :
    s ≠ [] := by
  obtain ⟨ds, nonempty, known, -⟩ := h
  rintro rfl
  exact nonempty (List.map_eq_nil_iff.mp known.symm)

theorem value_concat (b : Nat) (ds : List Nat) (d : Nat) :
    value b (ds ++ [d]) = b * value b ds + d := by
  rw [value, List.foldl_append]
  rfl

theorem leading_map {digit : α → Option Nat} {sym : Nat → α} {ds : List Nat}
    (known : ∀ d ∈ ds, digit (sym d) = some d) : leading digit (ds.map sym) = ds := by
  apply leading_of_map
  rw [List.map_map]
  exact List.map_congr_left known

/-- What `Nat.toDigits` writes. -/
theorem toDigits_eq {b : Nat} (base : 1 < b) (n : Nat) :
    ∃ d ds, Nat.toDigits b n = (d :: ds).map Nat.digitChar ∧ (∀ d' ∈ d :: ds, d' < b) ∧
      value b (d :: ds) = n := by
  induction n using Nat.strongRecOn with
  | ind n ih =>
    by_cases small : n < b
    · refine ⟨n, [], Nat.toDigits_of_lt_base small, ?_, ?_⟩
      · simpa using small
      · simp [value]
    · have less : n / b < n := Nat.div_lt_self (by omega) base
      obtain ⟨d, ds, written, digits, number⟩ := ih (n / b) less
      refine ⟨d, ds ++ [n % b], ?_, ?_, ?_⟩
      · rw [Nat.toDigits_of_base_le base (by omega), written, ← List.cons_append, List.map_append]
        rfl
      · intro d' member
        rw [← List.cons_append, List.mem_append] at member
        rcases member with earlier | last
        · exact digits d' earlier
        · rw [List.mem_singleton.mp last]
          exact Nat.mod_lt n (by omega)
      · rw [← List.cons_append, value_concat, number]
        exact Nat.div_add_mod n b

/-- A numeral spells the number it was written for. -/
theorem spells_toDigits {digit : α → Option Nat} {sym : Char → α} {b : Nat} (base : 1 < b)
    (known : ∀ d < b, digit (sym d.digitChar) = some d) (n : Nat) :
    Spells digit b ((Nat.toDigits b n).map sym) n := by
  obtain ⟨d, ds, written, digits, number⟩ := toDigits_eq base n
  refine ⟨d :: ds, List.cons_ne_nil d ds, ?_, number⟩
  rw [written, List.map_map, List.map_map]
  exact List.map_congr_left fun d' member => known d' (digits d' member)

theorem padded_toDigits {b : Nat} (base : 1 < b) {ds : List Nat} (nonempty : ds ≠ [])
    (digits : ∀ d ∈ ds, d < b) :
    List.replicate (ds.length - (Nat.toDigits b (value b ds)).length) '0' ++
      Nat.toDigits b (value b ds) = ds.map Nat.digitChar := by
  induction ds using List.reverseRecOn with
  | nil => exact absurd rfl nonempty
  | append_singleton ds d ih =>
    have last : d < b := digits d (List.mem_append_right _ List.mem_cons_self)
    have others : ∀ d' ∈ ds, d' < b := fun d' member => digits d' (List.mem_append_left _ member)
    rw [value_concat, List.map_append, List.length_append]
    by_cases first : ds = []
    · subst first
      simp [value, Nat.toDigits_of_lt_base last]
    · have earlier := ih first others
      by_cases zero : value b ds = 0
      · rw [zero, Nat.toDigits_zero] at earlier
        rw [zero, Nat.mul_zero, Nat.zero_add, Nat.toDigits_of_lt_base last, ← earlier]
        have longer := List.length_pos_of_ne_nil first
        simp [← List.replicate_succ', show ds.length - 1 + 1 = ds.length by omega]
      · have large : b ≤ b * value b ds + d :=
          Nat.le_add_right_of_le (Nat.le_mul_of_pos_right b (Nat.pos_of_ne_zero zero))
        have quotient : (b * value b ds + d) / b = value b ds := by
          rw [Nat.mul_add_div (by omega), Nat.div_eq_of_lt last, Nat.add_zero]
        have remainder : (b * value b ds + d) % b = d := by
          rw [Nat.mul_add_mod, Nat.mod_eq_of_lt last]
        rw [Nat.toDigits_of_base_le base large, quotient, remainder, ← earlier, List.length_append]
        simp

end Numeral
