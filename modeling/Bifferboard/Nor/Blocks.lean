import Mathlib.Order.Bounds.Basic
import Bifferboard.Nor.Chip

/-!
# The blocks of a layout

A layout lists erase regions. Here its blocks are laid out one after the other from address 0
on, and compared with what `Layout.start` and `Layout.stop` say of an address.

* `exists_unique_block`: the blocks partition the device;
* `mem_starts_iff`: the starts of blocks are the addresses that are their own start;
* `start_isGreatest`, `stop_isLeast`: the block of an address starts at the last start up to
  it, and ends at the next one or at the end of the device.
-/

namespace Nor.Layout

/-- How many bytes the regions take. -/
def total : Layout → Nat
  | [] => 0
  | (count, size) :: rest => count * size + total rest

/-- The blocks from `base` on, each with its start and its end. -/
def blocksFrom : Layout → Nat → List (Nat × Nat)
  | [], _ => []
  | (count, size) :: rest, base =>
    (List.range count).map (fun i => (base + i * size, base + i * size + size)) ++
      blocksFrom rest (base + count * size)

def blocks (l : Layout) : List (Nat × Nat) := l.blocksFrom 0

def starts (l : Layout) : List Nat := l.blocks.map Prod.fst

/-- Inside of a block. -/
theorem spanFrom_of_mem {l : Layout} {base : Nat} {b : Nat × Nat} (member : b ∈ l.blocksFrom base)
    {a : Nat} (lower : b.1 ≤ a) (upper : a < b.2) :
    base ≤ a ∧ a < base + l.total ∧ l.spanFrom base a = b := by
  induction l generalizing base with
  | nil => cases member
  | cons region rest ih =>
    obtain ⟨count, size⟩ := region
    simp only [blocksFrom, List.mem_append, List.mem_map, List.mem_range] at member
    simp only [total, spanFrom]
    rcases member with ⟨i, inside, rfl⟩ | later
    · have room : i * size + size ≤ count * size := by
        rw [← Nat.succ_mul]
        exact Nat.mul_le_mul_right size inside
      have index : (a - base) / size = i :=
        Nat.div_eq_of_lt_le (by dsimp only at *; omega) (by rw [Nat.succ_mul]; dsimp only at *; omega)
      dsimp only at lower upper
      rw [if_pos (by omega), index]
      exact ⟨by omega, by omega, rfl⟩
    · obtain ⟨above, below, span⟩ := ih later
      rw [if_neg (by omega)]
      exact ⟨by omega, by omega, span⟩

/-- Every address of the device is in a block. -/
theorem spanFrom_mem {l : Layout} {base a : Nat} (lower : base ≤ a) (upper : a < base + l.total) :
    l.spanFrom base a ∈ l.blocksFrom base := by
  induction l generalizing base with
  | nil =>
    simp only [total] at upper
    omega
  | cons region rest ih =>
    obtain ⟨count, size⟩ := region
    simp only [total] at upper
    simp only [spanFrom, blocksFrom, List.mem_append, List.mem_map, List.mem_range]
    split
    · next inside =>
      have few : (a - base) / size < count := Nat.div_lt_of_lt_mul (by rw [Nat.mul_comm]; omega)
      exact .inl ⟨_, few, rfl⟩
    · exact .inr (ih (by omega) (by omega))

theorem blocksFrom_positive {l : Layout} (sized : ∀ r ∈ l, 0 < r.2) {base : Nat} {b : Nat × Nat}
    (member : b ∈ l.blocksFrom base) : b.1 < b.2 := by
  induction l generalizing base with
  | nil => cases member
  | cons region rest ih =>
    simp only [blocksFrom, List.mem_append, List.mem_map, List.mem_range] at member
    rcases member with ⟨i, -, rfl⟩ | later
    · exact Nat.lt_add_of_pos_right (sized region List.mem_cons_self)
    · exact ih (fun r other => sized r (List.mem_cons_of_mem _ other)) later

section
variable (l : Layout)

theorem mem_blocks {a : Nat} (inside : a < l.total) : (l.start a, l.stop a) ∈ l.blocks :=
  spanFrom_mem (Nat.zero_le a) (by omega)

theorem eq_of_mem_blocks {b : Nat × Nat} (member : b ∈ l.blocks) {a : Nat} (lower : b.1 ≤ a)
    (upper : a < b.2) : a < l.total ∧ b = (l.start a, l.stop a) := by
  obtain ⟨-, inside, span⟩ := spanFrom_of_mem member lower upper
  exact ⟨by omega, span.symm⟩

/-- The blocks partition the device. -/
theorem exists_unique_block (a : Nat) :
    a < l.total ↔ ∃! b, b ∈ l.blocks ∧ b.1 ≤ a ∧ a < b.2 := by
  constructor
  · intro inside
    refine ⟨(l.start a, l.stop a), ⟨l.mem_blocks inside, l.start_le a, l.lt_stop a⟩, ?_⟩
    rintro b ⟨member, lower, upper⟩
    exact (l.eq_of_mem_blocks member lower upper).2
  · rintro ⟨b, ⟨member, lower, upper⟩, -⟩
    exact (l.eq_of_mem_blocks member lower upper).1

theorem start_eq {a x : Nat} (inside : a < l.total) (lower : l.start a ≤ x) (upper : x < l.stop a) :
    x < l.total ∧ l.start x = l.start a ∧ l.stop x = l.stop a := by
  obtain ⟨below, same⟩ := l.eq_of_mem_blocks (l.mem_blocks inside) lower upper
  simp only [Prod.mk.injEq] at same
  exact ⟨below, same.1.symm, same.2.symm⟩

theorem start_start {a : Nat} (inside : a < l.total) : l.start (l.start a) = l.start a := by
  have upper := l.lt_stop a
  have lower := l.start_le a
  exact (l.start_eq inside (Nat.le_refl _) (by omega)).2.1

section
variable (sized : ∀ r ∈ l, 0 < r.2)
include sized

theorem mem_blocks_iff (a stop : Nat) :
    (a, stop) ∈ l.blocks ↔ (a < l.total ∧ l.start a = a) ∧ stop = l.stop a := by
  constructor
  · intro member
    obtain ⟨inside, same⟩ :=
      l.eq_of_mem_blocks member (Nat.le_refl _) (blocksFrom_positive sized member)
    simp only [Prod.mk.injEq] at same
    exact ⟨⟨inside, same.1.symm⟩, same.2⟩
  · rintro ⟨⟨inside, same⟩, rfl⟩
    have member := l.mem_blocks inside
    rwa [same] at member

theorem mem_starts_iff (a : Nat) : a ∈ l.starts ↔ a < l.total ∧ l.start a = a := by
  simp [starts, l.mem_blocks_iff sized]

omit sized in
theorem stop_le_total {a : Nat} (inside : a < l.total) : l.stop a ≤ l.total := by
  have upper := l.lt_stop a
  have lower := l.start_le a
  have last := (l.start_eq inside (x := l.stop a - 1) (by omega) (by omega)).1
  omega

/-- A block ends at the next start, or at the end of the device. -/
theorem stop_isLeast {a : Nat} (inside : a < l.total) :
    IsLeast {x | (x ∈ l.starts ∨ x = l.total) ∧ l.start a < x} (l.stop a) := by
  have upper := l.lt_stop a
  have lower := l.start_le a
  refine ⟨⟨?_, by omega⟩, ?_⟩
  · by_cases last : l.stop a = l.total
    · exact .inr last
    · have below := l.stop_le_total inside
      refine .inl ((l.mem_starts_iff sized _).mpr ⟨by omega, ?_⟩)
      -- otherwise the byte before the end is in both blocks
      by_contra other
      have before := l.start_le (l.stop a)
      have after := l.lt_stop (l.stop a)
      have here := l.start_eq inside (x := l.stop a - 1) (by omega) (by omega)
      have there := l.start_eq (a := l.stop a) (x := l.stop a - 1) (by omega) (by omega) (by omega)
      omega
  · rintro x ⟨start | rfl, above⟩
    · obtain ⟨-, own⟩ := (l.mem_starts_iff sized x).mp start
      by_contra early
      have same := (l.start_eq inside (x := x) (by omega) (by omega)).2.1
      omega
    · exact l.stop_le_total inside

/-- It starts at the last start that is not behind the address. -/
theorem start_isGreatest {a : Nat} (inside : a < l.total) :
    IsGreatest {x | x ∈ l.starts ∧ x ≤ a} (l.start a) := by
  have upper := l.lt_stop a
  have lower := l.start_le a
  refine ⟨⟨(l.mem_starts_iff sized _).mpr ⟨by omega, l.start_start inside⟩, lower⟩, ?_⟩
  rintro x ⟨start, below⟩
  obtain ⟨-, own⟩ := (l.mem_starts_iff sized x).mp start
  by_contra later
  have same := (l.start_eq inside (x := x) (by omega) (by omega)).2.1
  omega

end

end

end Nor.Layout
