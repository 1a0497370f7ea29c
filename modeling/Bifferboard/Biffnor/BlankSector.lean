import Bifferboard.Biffnor.PlainFile
import Bifferboard.Nor.Blocks

/-!
# Finding blank sectors

`flashmap_iserased` does not know how long a sector is. It asks after every 8 KB whether the
next sector starts, or the device ends. This finds the end of every sector, and nothing behind
it is read.
-/

namespace Bifferboard
open Nor

section
variable {σ : Type} (B : Bus σ)

/-- On the recorded device the scan does what it does without the record, and reads inside of
its 8 KB. -/
theorem iserasedChunk_recorded (words addr : Nat) (s : σ) (log : List (Nat × Nat))
    (trace : List Event) :
    ∃ reads, (∀ r ∈ reads, r.1 + r.2 ≤ addr + 4 * words) ∧
      iserasedChunk B.recorded words addr ⟨(s, log), trace⟩ =
        ((iserasedChunk B words addr ⟨s, trace⟩).1,
          ⟨((iserasedChunk B words addr ⟨s, trace⟩).2.hw, log ++ reads),
            (iserasedChunk B words addr ⟨s, trace⟩).2.trace⟩) := by
  induction words generalizing addr s log with
  | zero => exact ⟨[], by simp, by simp [iserasedChunk]⟩
  | succ words ih =>
    by_cases erased : (B.read32 s addr).1 ≠ 0xffffffff#32
    · refine ⟨[(addr, 4)], fun r member => ?_, ?_⟩
      · obtain rfl := List.mem_singleton.mp member
        dsimp only
        omega
      · simp [iserasedChunk, readFlash32Fast, Bus.recorded, erased]
    · obtain ⟨reads, inside, scanned⟩ := ih (addr + 4) (B.read32 s addr).2 (log ++ [(addr, 4)])
      refine ⟨(addr, 4) :: reads, ?_, ?_⟩
      · intro r member
        rcases List.mem_cons.mp member with rfl | later
        · dsimp only
          omega
        · have bound := inside r later
          omega
      · have plain : iserasedChunk B (words + 1) addr ⟨s, trace⟩ =
            iserasedChunk B words (addr + 4) ⟨(B.read32 s addr).2, trace⟩ := if_neg erased
        rw [List.append_cons, plain]
        exact (if_neg erased).trans scanned

/-- The scan of a sector reads inside of the device. -/
theorem iserasedSector_recorded {fm : Flashmap} (whole : fm.size % 0x2000 = 0) {addr : Nat}
    (aligned : addr % 0x2000 = 0) (s : σ) (log : List (Nat × Nat)) (trace : List Event) :
    ∃ reads, ReadsInside fm reads ∧
      iserasedSector B.recorded fm addr ⟨(s, log), trace⟩ =
        ((iserasedSector B fm addr ⟨s, trace⟩).1,
          ⟨((iserasedSector B fm addr ⟨s, trace⟩).2.hw, log ++ reads),
            (iserasedSector B fm addr ⟨s, trace⟩).2.trace⟩) := by
  -- The scan ends at the device's end or at a boundary, whichever it meets first.
  generalize left : fm.size - addr = n
  induction n using Nat.strongRecOn generalizing addr s log trace with
  | ind n ih =>
    rw [iserasedSector, iserasedSector]
    by_cases inside : addr < fm.size
    · simp only [if_pos inside]
      obtain ⟨reads, bound, scanned⟩ := iserasedChunk_recorded B (0x2000 / 4) addr s log trace
      have within : ReadsInside fm reads := by
        intro r member
        have limit := bound r member
        omega
      generalize iserasedChunk B (0x2000 / 4) addr ⟨s, trace⟩ = out at scanned ⊢
      obtain ⟨blank, s', trace'⟩ := out
      rw [scanned]
      cases blank with
      | false => exact ⟨reads, within, by simp⟩
      | true =>
        by_cases stops : flashmapIsboundary fm (addr + 0x2000) = true
        · exact ⟨reads, within, by simp [stops]⟩
        · obtain ⟨later, within', scanned'⟩ := ih (fm.size - (addr + 0x2000)) (by omega)
            (show (addr + 0x2000) % 0x2000 = 0 by omega) s' (log ++ reads) trace' rfl
          refine ⟨reads ++ later, ?_, ?_⟩
          · intro r member
            rcases List.mem_append.mp member with first | second
            · exact within r first
            · exact within' r second
          · simp only [Bool.true_eq_false, if_false, if_neg stops, ← List.append_assoc]
            exact scanned'
    · exact ⟨[], by simp [ReadsInside], by simp [inside]⟩

end

theorem Geometry.layout_total (g : Geometry) : g.layout.total = g.size := by
  obtain rfl | rfl | rfl := g.cases <;> decide

theorem Geometry.layout_sized (g : Geometry) : ∀ r ∈ g.layout, 0 < r.2 := by
  obtain rfl | rfl | rfl := g.cases <;> decide

/-- On a flash with any contents, exactly the starts of blank sectors are found, and only the
device is read. -/
theorem blank_sector_iff (g : Geometry) (t : Timing) (mem : Mem) (addr : Nat) :
    let out := flashmapIserased (g.part t).bus.recorded g.toFlashmap addr ⟨(idleChip mem, []), []⟩
    (out.1 = true ↔ ∃ stop, (addr, stop) ∈ g.layout.blocks ∧ mem.Blank addr stop) ∧
      ReadsInside g.toFlashmap out.2.hw.2 := by
  intro out
  have sector : (∃ stop, (addr, stop) ∈ g.layout.blocks ∧ mem.Blank addr stop) ↔
      flashmapIsboundary g.toFlashmap addr = true ∧ mem.Blank addr (g.layout.stop addr) := by
    simp [g.layout.mem_blocks_iff g.layout_sized, g.layout_total, g.isboundary_iff]
  rw [sector]
  cases boundary : flashmapIsboundary g.toFlashmap addr with
  | false =>
    have skipped : out = (false, ⟨(idleChip mem, []), []⟩) := if_pos boundary
    rw [skipped]
    simp [ReadsInside]
  | true =>
    have whole : g.size % 0x2000 = 0 := by
      have sized := g.sized
      have kernel := sized.kernelSize_eq
      have size := sized.size_eq
      omega
    have aligned : addr % 0x2000 = 0 := by
      obtain ⟨inside, start⟩ := (g.isboundary_iff addr).mp boundary
      have sectors := g.span addr inside
      omega
    have shows : (g.part t).bus.Shows (World.hw ⟨idleChip mem, []⟩) mem :=
      (idleChip_ready mem).shows (g.part t)
    obtain ⟨blank, checked, iff⟩ := flashmapIserased_shows shows g boundary
    obtain ⟨reads, within, scanned⟩ :=
      iserasedSector_recorded (g.part t).bus whole aligned (idleChip mem) [] []
    have unskipped : ¬ flashmapIsboundary g.toFlashmap addr = false := by simp [boundary]
    rw [flashmapIserased, if_neg unskipped] at checked
    have found : out = (blank, ⟨(idleChip mem, reads), []⟩) := by
      rw [checked] at scanned
      exact (if_neg unskipped).trans scanned
    rw [found]
    exact ⟨iff.trans (and_iff_right rfl).symm, within⟩

end Bifferboard
