import Bifferboard.Emulator.Driver
import Bifferboard.Nor.Blocks

/-!
# The sectors of the 8 MB part, three times

The kernel driver knows the sectors by `flashmap_isboundary`, the emulator erases by
`ADDR_TO_SECBASE` and `ADDR_TO_SECLEN`, and it tells Linux about them in the erase regions of
its CFI table. All three mean the same blocks.
-/

namespace Bifferboard
open Nor

/-- An entry of the CFI table. -/
def cfiEntry (i : Nat) : Nat := (gCfi.getD i 0).toNat

/-- Erase region `i`: one block more than its record counts, of 256 times the size it gives. -/
def cfiRegion (i : Nat) : Nat × Nat :=
  (cfiEntry (0x2d + 4 * i) + 256 * cfiEntry (0x2e + 4 * i) + 1,
    256 * (cfiEntry (0x2f + 4 * i) + 256 * cfiEntry (0x30 + 4 * i)))

def cfiLayout : Layout := (List.range (cfiEntry 0x2c)).map cfiRegion

def cfiSize : Nat := 2 ^ cfiEntry 0x27

theorem cfiLayout_eq : cfiLayout = Geometry.en640.layout := by decide

theorem cfiLayout_total : cfiLayout.total = cfiSize := by decide

theorem cfiLayout_sized : ∀ r ∈ cfiLayout, 0 < r.2 := by decide

/-- The driver's sector starts are the block starts of the CFI table. -/
theorem isboundary_iff_starts (a : Nat) :
    flashmapIsboundary Geometry.en640.toFlashmap a = true ↔ a ∈ cfiLayout.starts := by
  have whole : Geometry.en640.size = cfiSize := by decide
  rw [Geometry.isboundary_iff, cfiLayout.mem_starts_iff cfiLayout_sized, cfiLayout_total,
    cfiLayout_eq, whole]

/-- The emulator's sector is the block of the CFI table. -/
theorem cfiLayout_sector {a : Nat} (inside : a < cfiSize) :
    cfiLayout.start a = addrToSecbase a ∧ cfiLayout.stop a = addrToSecbase a + addrToSeclen a := by
  rw [cfiLayout_eq]
  exact en640_sector inside

/-- The driver, the emulator and the CFI table agree on the sectors. -/
theorem sector_maps_agree :
    (∀ a < 0x800000,
      (flashmapIsboundary Geometry.en640.toFlashmap a = true ↔ addrToSecbase a = a) ∧
      (addrToSecbase a = a ↔ a ∈ cfiLayout.starts) ∧
      IsLeast {x | (x ∈ cfiLayout.starts ∨ x = cfiSize) ∧ addrToSecbase a < x}
        (addrToSecbase a + addrToSeclen a) ∧
      IsGreatest {x | flashmapIsboundary Geometry.en640.toFlashmap x = true ∧ x ≤ a}
        (addrToSecbase a) ∧
      ∀ b ∈ cfiLayout.blocks, b.1 ≤ a → a < b.2 →
        ∀ s : En29lv640, s.eraseSector a = { s with backing := s.backing.erase b.1 b.2 }) ∧
    ∀ a, a < cfiSize ↔ ∃! b, b ∈ cfiLayout.blocks ∧ b.1 ≤ a ∧ a < b.2 := by
  refine ⟨?_, ?_⟩
  · intro a inside
    obtain ⟨start, stop⟩ := cfiLayout_sector (a := a) inside
    have within : a < cfiLayout.total := cfiLayout_total ▸ inside
    have own : addrToSecbase a = a ↔ a ∈ cfiLayout.starts := by
      rw [cfiLayout.mem_starts_iff cfiLayout_sized, start]
      exact (and_iff_right within).symm
    refine ⟨(isboundary_iff_starts a).trans own.symm, own, ?_, ?_, ?_⟩
    · have next := cfiLayout.stop_isLeast cfiLayout_sized within
      rwa [start, stop, cfiLayout_total] at next
    · have last := cfiLayout.start_isGreatest cfiLayout_sized within
      simpa only [isboundary_iff_starts, start] using last
    · intro b member lower upper s
      obtain ⟨-, rfl⟩ := cfiLayout.eq_of_mem_blocks member lower upper
      rw [start, stop]
      rfl
  · rw [← cfiLayout_total]
    exact cfiLayout.exists_unique_block

end Bifferboard
