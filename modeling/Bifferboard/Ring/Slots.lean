import Mathlib.Data.Nat.ModEq
import Mathlib.Data.List.Basic
import Mathlib.Logic.Function.Basic

/-!
# Rings of slots

A ring has `n` slots. A producer fills them in turn and a consumer empties them in
turn, each looking only at the slot it has come to. `Holds n history done slots`
says that of the items in `history` the first `done` have left the ring, and that
the slots hold the others:

* `Holds.push` and `Holds.pop`: what the two parties do keeps it;
* `Holds.room`: a slot that the producer finds empty is one the consumer is done with;
* `Holds.drained`: a slot that the consumer finds empty is one the producer has yet to fill;
* `Holds.get`: what is found in a slot is the item whose turn it is.
-/

namespace Slots

/-- Two numbers of one window of `n` that fall on one slot are the same. -/
theorem slot_injective {n base j k : Nat} (lowJ : base ≤ j) (highJ : j < base + n) (lowK : base ≤ k)
    (highK : k < base + n) (same : j % n = k % n) : j = k := by
  have close : j - base ≡ k - base [MOD n] := by
    apply Nat.ModEq.add_left_cancel' base
    rw [Nat.add_sub_cancel' lowJ, Nat.add_sub_cancel' lowK]
    exact same
  have equal : j - base = k - base := close.eq_of_lt_of_lt (by omega) (by omega)
  omega

/-- Every slot is that of some number of a window. -/
theorem exists_slot {n j : Nat} (base : Nat) (inside : j < n) :
    ∃ k, base ≤ k ∧ k < base + n ∧ k % n = j := by
  have split := Nat.div_add_mod base n
  have small := Nat.mod_lt base (Nat.lt_of_le_of_lt (Nat.zero_le j) inside)
  by_cases early : base % n ≤ j
  · refine ⟨n * (base / n) + j, by omega, by omega, ?_⟩
    rw [Nat.mul_add_mod, Nat.mod_eq_of_lt inside]
  · refine ⟨n * (base / n) + n + j, by omega, by omega, ?_⟩
    rw [← Nat.mul_succ, Nat.mul_add_mod, Nat.mod_eq_of_lt inside]

/-- One more item of a list, after the first ones. -/
theorem prefix_snoc {α : Type} {taken items : List α} {x : α} (before : taken <+: items)
    (next : items[taken.length]? = some x) : taken ++ [x] <+: items := by
  obtain ⟨rest, rfl⟩ := before
  rw [List.getElem?_append_right (Nat.le_refl _), Nat.sub_self] at next
  cases rest with
  | nil => cases next
  | cons first rest =>
    cases next
    exact ⟨rest, List.append_assoc ..⟩

/-- The first `done` items are through, and the slots hold the rest. -/
structure Holds {α : Type} (n : Nat) (history : List α) (done : Nat)
    (slots : Nat → Option α) : Prop where
  lower : done ≤ history.length
  upper : history.length ≤ done + n
  window : ∀ k, done ≤ k → k < done + n → slots (k % n) = history[k]?

namespace Holds
variable {α : Type} {n done : Nat} {history : List α} {slots : Nat → Option α}

theorem start {slots : Nat → Option α} (empty : ∀ j < n, slots j = none) :
    Holds n [] 0 slots := by
  refine ⟨Nat.le_refl 0, Nat.zero_le _, ?_⟩
  intro k _ inside
  rw [Nat.zero_add] at inside
  rw [Nat.mod_eq_of_lt inside, List.getElem?_nil]
  exact empty k inside

theorem congr (h : Holds n history done slots) (positive : 0 < n) {slots' : Nat → Option α}
    (same : ∀ j < n, slots' j = slots j) : Holds n history done slots' := by
  refine ⟨h.lower, h.upper, ?_⟩
  intro k low high
  rw [same _ (Nat.mod_lt k positive)]
  exact h.window k low high

/-- An item found in a slot, at its turn, is the one that was put there. -/
theorem get (h : Holds n history done slots) {k : Nat} {x : α} (low : done ≤ k) (high : k < done + n)
    (found : slots (k % n) = some x) : history[k]? = some x := by
  rw [← h.window k low high]
  exact found

/-- If the next slot is empty, the ring is not full. -/
theorem room (h : Holds n history done slots) (positive : 0 < n)
    (free : slots (history.length % n) = none) : history.length < done + n := by
  apply Nat.lt_of_le_of_ne h.upper
  intro full
  have oldest := h.window done (Nat.le_refl done) (by omega)
  rw [full, Nat.add_mod_right, oldest, List.getElem?_eq_none_iff] at free
  omega

/-- If the oldest slot is empty, all items are through. -/
theorem drained (h : Holds n history done slots) (positive : 0 < n) (empty : slots (done % n) = none) :
    done = history.length := by
  rw [h.window done (Nat.le_refl done) (by omega), List.getElem?_eq_none_iff] at empty
  exact Nat.le_antisymm h.lower empty

theorem drained_iff (h : Holds n history done slots) (positive : 0 < n) :
    slots (done % n) = none ↔ done = history.length := by
  refine ⟨h.drained positive, ?_⟩
  intro through
  rw [h.window done (Nat.le_refl done) (by omega), List.getElem?_eq_none (by omega)]

theorem room_iff (h : Holds n history done slots) (positive : 0 < n) :
    slots (history.length % n) = none ↔ history.length < done + n := by
  refine ⟨h.room positive, ?_⟩
  intro below
  rw [h.window history.length h.lower below, List.getElem?_eq_none (Nat.le_refl _)]

/-- When all items are through, all slots are empty. -/
theorem empty (h : Holds n history history.length slots) {j : Nat} (inside : j < n) :
    slots j = none := by
  obtain ⟨k, low, high, rfl⟩ := exists_slot history.length inside
  rw [h.window k low high, List.getElem?_eq_none low]

theorem push (h : Holds n history done slots) (positive : 0 < n)
    (free : slots (history.length % n) = none) (x : α) :
    Holds n (history ++ [x]) done (Function.update slots (history.length % n) (some x)) := by
  have room := h.room positive free
  have lower := h.lower
  refine ⟨?_, ?_, ?_⟩
  · rw [List.length_append]
    omega
  · rw [List.length_append]
    exact room
  · intro k low high
    by_cases last : k = history.length
    · rw [last, Function.update_self, List.getElem?_concat_length]
    · have other : k % n ≠ history.length % n :=
        fun same => last (slot_injective low high lower room same)
      rw [Function.update_of_ne other, h.window k low high]
      by_cases before : k < history.length
      · rw [List.getElem?_append_left before]
      · rw [List.getElem?_eq_none (by omega), List.getElem?_eq_none]
        rw [List.length_append, List.length_singleton]
        omega

theorem pop (h : Holds n history done slots) (positive : 0 < n)
    (filled : slots (done % n) ≠ none) :
    Holds n history (done + 1) (Function.update slots (done % n) none) := by
  have upper := h.upper
  have oldest := h.window done (Nat.le_refl done) (by omega)
  have more : done < history.length := by
    apply Nat.lt_of_not_le
    intro through
    apply filled
    rw [oldest, List.getElem?_eq_none through]
  refine ⟨more, by omega, ?_⟩
  intro k low high
  by_cases last : k = done + n
  · rw [last, Nat.add_mod_right, Function.update_self, List.getElem?_eq_none upper]
  · have other : k % n ≠ done % n := by
      intro same
      have low' : done ≤ k := by omega
      have equal := slot_injective low' (by omega) (Nat.le_refl done) (by omega) same
      omega
    rw [Function.update_of_ne other]
    exact h.window k (by omega) (by omega)

end Holds

end Slots
