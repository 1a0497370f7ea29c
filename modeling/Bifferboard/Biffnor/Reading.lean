import Bifferboard.Biffnor.Kernel

/-!
# The driver on a device whose reads show its array

What the reading loops of the driver compute wherever reads show a memory and
change nothing, as they do on a NOR chip that is ready for a command.
-/

namespace Bifferboard
open Nor

section
variable {σ : Type} {B : Bus σ} {w : World σ} {mem : Mem} (shows : B.Shows w.hw mem)
include shows

theorem readFlash_shows (addr : Nat) : readFlash B addr w = (mem addr, w) := by
  rw [readFlash, shows.read8_eq]

theorem readFlash16Fast_shows (addr : Nat) : readFlash16Fast B addr w = (mem.word addr, w) := by
  rw [readFlash16Fast, shows.read16_eq]

theorem readFlash32Fast_shows (addr : Nat) : readFlash32Fast B addr w = (mem.dword addr, w) := by
  rw [readFlash32Fast, shows.read32_eq]

/-- No bit toggles, so there is nothing to wait for. -/
theorem pollStatus_shows (timedOut : Byte → Bool) (addr : Nat) :
    pollStatus (readFlash B addr) timedOut w = (0, w) := by
  unfold pollStatus
  simp only [readFlash_shows shows]
  rw [pollToggle, if_pos rfl]

/-- Verifying only reads. -/
theorem eonVerifyRange_hw (count : Nat) (src : Nat → Word) (dest : Nat) :
    (eonVerifyRange B count src dest w).2.hw = w.hw := by
  induction count generalizing src dest with
  | zero => rfl
  | succ count ih =>
    simp only [eonVerifyRange, readFlash16Fast_shows shows]
    split
    · rfl
    · exact ih _ _

theorem eonVerifyRange_equal (count : Nat) (src : Nat → Word) (dest : Nat)
    (equal : ∀ i < count, mem.word (dest + 2 * i) = src i) :
    eonVerifyRange B count src dest w = (0, w) := by
  induction count generalizing src dest with
  | zero => rfl
  | succ count ih =>
    have first : src 0 = mem.word dest := (equal 0 (Nat.zero_lt_succ _)).symm
    have rest := ih (fun i => src (i + 1)) (dest + 2) (by
      intro i inside
      rw [← equal (i + 1) (by omega)]
      exact congrArg mem.word (by omega))
    simp only [eonVerifyRange, readFlash16Fast_shows shows]
    rw [if_neg (not_not_intro first)]
    exact rest

theorem readRangeFrom_shows (count src i : Nat) (dest : Nat → Byte) :
    readRangeFrom B count src i dest w =
      (fun x => if i ≤ x ∧ x < i + 4 * count then mem (src + (x - i)) else dest x, w) := by
  induction count generalizing src i dest with
  | zero =>
    rw [readRangeFrom, Prod.mk.injEq]
    refine ⟨?_, rfl⟩
    funext x
    rw [if_neg (by omega)]
  | succ count ih =>
    simp only [readRangeFrom, readFlash32Fast_shows shows src]
    rw [ih, Prod.mk.injEq]
    refine ⟨?_, rfl⟩
    funext x
    by_cases first : i ≤ x ∧ x < i + 4
    · rw [if_neg (by omega), if_pos first, if_pos (by omega), Mem.dword_byte _ _ _ (by omega)]
    · by_cases later : i + 4 ≤ x ∧ x < i + 4 + 4 * count
      · rw [if_pos later, if_pos (by omega), show src + 4 + (x - (i + 4)) = src + (x - i) by omega]
      · rw [if_neg later, if_neg first, if_neg (by omega)]

theorem iserasedChunk_shows (words addr : Nat) :
    ∃ blank, iserasedChunk B words addr w = (blank, w) ∧
      (blank = true ↔ mem.Blank addr (addr + 4 * words)) := by
  induction words generalizing addr with
  | zero =>
    refine ⟨true, rfl, fun _ x lo hi => ?_, fun _ => rfl⟩
    omega
  | succ words ih =>
    simp only [iserasedChunk, readFlash32Fast_shows shows addr]
    by_cases first : mem.dword addr = 0xffffffff#32
    · rw [if_neg (not_not_intro first)]
      obtain ⟨blank, eq, iff⟩ := ih (addr + 4)
      refine ⟨blank, eq, iff.trans ⟨fun rest x lo hi => ?_, fun all x lo hi => ?_⟩⟩
      · by_cases head : x < addr + 4
        · exact (Mem.dword_blank_iff _ _).mp first x lo head
        · exact rest x (by omega) (by omega)
      · exact all x (by omega) (by omega)
    · rw [if_pos first]
      refine ⟨false, rfl, fun h => absurd h (by decide), fun all => absurd ?_ first⟩
      exact (Mem.dword_blank_iff _ _).mpr fun x lo hi => all x lo (by omega)

/-- The scan finds out whether the rest of the sector is erased. -/
theorem iserasedSector_shows (g : Geometry) {addr : Nat} (aligned : addr % 0x2000 = 0)
    (inside : addr < g.size) :
    ∃ blank, iserasedSector B g.toFlashmap addr w = (blank, w) ∧
      (blank = true ↔ mem.Blank addr (g.layout.stop addr)) := by
  generalize left : g.size - addr = n
  induction n using Nat.strongRecOn generalizing addr with
  | ind n ih =>
    have sized := g.sized
    have step := g.stop_step aligned inside
    obtain ⟨blank, scanned, iff⟩ := iserasedChunk_shows shows (0x2000 / 4) addr
    rw [iserasedSector, if_pos inside]
    simp only [scanned]
    cases blank with
    | false =>
      refine ⟨false, rfl, fun h => absurd h (by decide), fun all => ?_⟩
      refine iff.mpr fun x lo hi => all x lo ?_
      split at step
      · have := g.layout.lt_stop (addr + 0x2000)
        omega
      · omega
    | true =>
      have chunk := iff.mp rfl
      simp only [Bool.true_eq_false, ↓reduceIte]
      by_cases next : addr + 0x2000 < g.size ∧ flashmapIsboundary g.toFlashmap (addr + 0x2000) = false
      · rw [if_pos next] at step
        obtain ⟨blank, eq, iff'⟩ := ih (g.size - (addr + 0x2000)) (by omega)
          (show (addr + 0x2000) % 0x2000 = 0 by omega) next.1 rfl
        rw [if_neg (by simp [next.2])]
        refine ⟨blank, eq, iff'.trans ⟨fun rest x lo hi => ?_, fun all x lo hi => ?_⟩⟩
        · by_cases head : x < addr + 0x2000
          · exact chunk x lo (by omega)
          · exact rest x (by omega) (by omega)
        · exact all x (by omega) (by omega)
      · rw [if_neg next] at step
        have done : mem.Blank addr (g.layout.stop addr) := by
          rw [step]
          exact chunk
        by_cases boundary : flashmapIsboundary g.toFlashmap (addr + 0x2000) = true
        · rw [if_pos boundary]
          exact ⟨true, rfl, fun _ => done, fun _ => rfl⟩
        · rw [if_neg boundary, iserasedSector, if_neg ?_]
          · exact ⟨true, rfl, fun _ => done, fun _ => rfl⟩
          · intro more
            exact next ⟨more, by simpa using boundary⟩

/-- At the start of a sector, whether it is erased. -/
theorem flashmapIserased_shows (g : Geometry) {dest : Nat}
    (boundary : flashmapIsboundary g.toFlashmap dest = true) :
    ∃ blank, flashmapIserased B g.toFlashmap dest w = (blank, w) ∧
      (blank = true ↔ mem.Blank dest (g.layout.stop dest)) := by
  obtain ⟨inside, start⟩ := (g.isboundary_iff dest).mp boundary
  have aligned : dest % 0x2000 = 0 := by
    have := g.span dest inside
    omega
  obtain ⟨blank, scanned, iff⟩ := iserasedSector_shows shows g aligned inside
  refine ⟨blank, ?_, iff⟩
  rw [flashmapIserased, if_neg (by simp [boundary]), scanned]

end

end Bifferboard
