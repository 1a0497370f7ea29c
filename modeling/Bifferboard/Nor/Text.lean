import Bifferboard.Nor.Memory

/-!
# Strings in fields of a fixed size

A field holds a string that ends at its first NUL. What comes after the NUL may
be left over from a longer string. `Field m a size len extent` says where the
string ends, and where the last byte is that is not NUL.

* `Field.padded`: a field that has only NULs behind its string;
* `Field.text_eq`: reading up to the first NUL yields `len` bytes;
* `text_copied`: a string that is copied with its NUL is read back;
* `Field.copy`: what a shorter or longer string leaves when it is copied in;
* `padTo_eq`: the loop that makes a string as long as its field.
-/

namespace Nor

/-- `while len(s) < n: s += c`. -/
def padTo (n : Nat) (c : Byte) (s : List Byte) : List Byte :=
  if s.length < n then padTo n c (s ++ [c]) else s
termination_by n - s.length
decreasing_by
  rw [List.length_append, List.length_singleton]
  omega

theorem padTo_eq (n : Nat) (c : Byte) (s : List Byte) :
    padTo n c s = s ++ List.replicate (n - s.length) c := by
  induction left : n - s.length generalizing s with
  | zero => rw [padTo, if_neg (by omega), List.replicate_zero, List.append_nil]
  | succ k ih =>
    have less : n - (s ++ [c]).length = k := by
      rw [List.length_append, List.length_singleton]
      omega
    rw [padTo, if_pos (by omega), ih _ less, List.append_assoc, List.replicate_succ]
    rfl

end Nor

namespace Nor.Mem

structure Field (m : Mem) (a size len extent : Nat) : Prop where
  text : ∀ i < len, m (a + i) ≠ 0#8
  terminated : m (a + len) = 0#8
  within : len < size
  lower : len ≤ extent
  upper : extent ≤ size
  last : ∀ i, extent = i + 1 → m (a + i) ≠ 0#8
  rest : ∀ i, extent ≤ i → i < size → m (a + i) = 0#8

/-- The string in a field, up to its first NUL. -/
def text (m : Mem) (a size : Nat) : List Byte := (m.load a size).takeWhile fun b => b ≠ 0#8

theorem text_congr {m m' : Mem} {a size : Nat} (same : ∀ i < size, m' (a + i) = m (a + i)) :
    m'.text a size = m.text a size := by
  rw [text, text, load_congr same]

/-- The first NUL ends the string. -/
theorem text_of_terminated {m : Mem} {a size len : Nat} (text : ∀ i < len, m (a + i) ≠ 0#8)
    (terminated : m (a + len) = 0#8) (within : len < size) : m.text a size = m.load a len := by
  obtain ⟨more, rfl⟩ := Nat.exists_eq_add_of_lt within
  have start : ∀ b ∈ m.load a len, decide (b ≠ 0#8) = true := by
    intro b member
    obtain ⟨i, inside, rfl⟩ := List.mem_map.mp member
    exact decide_eq_true (text i (List.mem_range.mp inside))
  rw [Mem.text, Nat.add_assoc, load_add, load_succ, terminated, List.takeWhile_append_of_pos start,
    List.takeWhile_cons_of_neg (by decide), List.append_nil]

/-! ## Copying a string with its NUL -/

section
variable (m : Mem) {a : Nat} {xs : List Byte}

theorem copied_nul : m.store a (xs ++ [0#8]) (a + xs.length) = 0#8 := by
  rw [m.store_inside (by simp), List.getD_append_right _ _ _ _ (Nat.le_refl _), Nat.sub_self]
  rfl

theorem copied_ne_nul (nulFree : 0#8 ∉ xs) {i : Nat} (inside : i < xs.length) :
    m.store a (xs ++ [0#8]) (a + i) ≠ 0#8 := by
  rw [m.store_inside (by simp; omega), List.getD_append _ _ _ _ inside,
    List.getD_eq_getElem _ _ inside]
  intro nul
  exact nulFree (nul ▸ List.getElem_mem inside)

/-- What was copied is the string, whatever was there before. -/
theorem text_copied (nulFree : 0#8 ∉ xs) {size : Nat} (short : xs.length < size) :
    (m.store a (xs ++ [0#8])).text a size = xs := by
  have slice := m.load_store_slice a (k := 0) (n := xs.length)
    (show 0 + xs.length ≤ (xs ++ [0#8]).length by simp)
  rw [text_of_terminated (fun i => m.copied_ne_nul nulFree) m.copied_nul short]
  rwa [List.drop_zero, List.take_left' rfl] at slice

end

namespace Field
variable {m m' : Mem} {a size len extent : Nat}

/-- Only NULs behind the string. -/
theorem padded (text : ∀ i < len, m (a + i) ≠ 0#8) (within : len < size)
    (rest : ∀ i, len ≤ i → i < size → m (a + i) = 0#8) : m.Field a size len len := by
  refine ⟨text, rest len (Nat.le_refl _) within, within, Nat.le_refl _, Nat.le_of_lt within, ?_, rest⟩
  intro i last
  exact text i (by omega)

theorem congr (h : m.Field a size len extent) (same : ∀ i < size, m' (a + i) = m (a + i)) :
    m'.Field a size len extent := by
  have within := h.within
  have upper := h.upper
  refine ⟨?_, ?_, within, h.lower, upper, ?_, ?_⟩
  · intro i inside
    rw [same i (by omega)]
    exact h.text i inside
  · rw [same len within]
    exact h.terminated
  · intro i last
    rw [same i (by omega)]
    exact h.last i last
  · intro i low high
    rw [same i high]
    exact h.rest i low high

theorem text_eq (h : m.Field a size len extent) : m.text a size = m.load a len :=
  text_of_terminated h.text h.terminated h.within

/-- A string without NULs, copied with its NUL at the end. What is left of the
old one shows unless the new one covers it. -/
theorem copy (h : m.Field a size len extent) {xs : List Byte} (nulFree : 0#8 ∉ xs)
    (short : xs.length < size) : (m.store a (xs ++ [0#8])).Field a size xs.length
      (if extent ≤ xs.length + 1 then xs.length else extent) := by
  have length : (xs ++ [0#8]).length = xs.length + 1 := by
    rw [List.length_append, List.length_singleton]
  have text : ∀ i < xs.length, m.store a (xs ++ [0#8]) (a + i) ≠ 0#8 :=
    fun i => m.copied_ne_nul nulFree
  have terminated : m.store a (xs ++ [0#8]) (a + xs.length) = 0#8 := m.copied_nul
  have beyond : ∀ i, xs.length < i → m.store a (xs ++ [0#8]) (a + i) = m (a + i) := by
    intro i outside
    exact m.store_frame (by omega)
  have upper := h.upper
  by_cases covered : extent ≤ xs.length + 1
  · rw [if_pos covered]
    apply padded text short
    intro i low high
    by_cases here : i = xs.length
    · rw [here, terminated]
    · rw [beyond i (by omega)]
      exact h.rest i (by omega) high
  · rw [if_neg covered]
    refine ⟨text, terminated, short, by omega, upper, ?_, ?_⟩
    · intro i last
      rw [beyond i (by omega)]
      exact h.last i last
    · intro i low high
      rw [beyond i (by omega)]
      exact h.rest i low high

end Field

end Nor.Mem
