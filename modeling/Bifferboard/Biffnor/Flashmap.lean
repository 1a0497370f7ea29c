import Bifferboard.Nor.Chip

/-!
# The flash map of the kernel driver

`flashmap_init` picks one of three parts. The last 64 KB of each hold the
bootloader, everything below is the kernel area, cut into 8 KB chunks
(`FLASHMAP_CHUNK_SIZE`, 0x2000). `Flashmap.layout` is the erase sector map
of the part itself; `isboundary_iff` shows that the driver's own notion of a
sector start agrees with it.
-/

namespace Bifferboard
open Nor

/-- The values `flashmap_init` stores. -/
structure Flashmap where
  deviceSize : Nat
  base : Nat
  size : Nat
  kernelSize : Nat
  chunkCount : Nat
  deriving DecidableEq, Repr

/-- The part soldered on the boards this driver is built for. -/
def flashmapGetDetected : Nat := 0x7f1c22cb

def Flashmap.of (deviceSize base size kernelSize : Nat) : Flashmap :=
  ⟨deviceSize, base, size, kernelSize, (size - 0x10000) / 0x2000⟩

/-- `flashmap_init`; `none` is its error return. -/
def flashmapInit (detected : Nat) : Option Flashmap :=
  if detected = 0x7f1c225b then some (.of 1 0xfff00000 0x100000 0xf0000)
  else if detected = 0x7f1c22f9 then some (.of 4 0xffc00000 0x400000 (0x400000 - 0x10000))
  else if detected = 0x7f1c22cb then some (.of 8 0xff800000 0x800000 (0x800000 - 0x10000))
  else none

/-- A flash map that `flashmap_init` has accepted. -/
structure Geometry extends Flashmap where
  selected : ∃ detected, flashmapInit detected = some toFlashmap

/-- The geometry of the 8 MB part, the one `flashmap_get_detected` names. -/
def Geometry.en640 : Geometry := ⟨.of 8 0xff800000 0x800000 0x7f0000, flashmapGetDetected, rfl⟩

def Geometry.en320 : Geometry := ⟨.of 4 0xffc00000 0x400000 0x3f0000, 0x7f1c22f9, rfl⟩

def Geometry.en800 : Geometry := ⟨.of 1 0xfff00000 0x100000 0xf0000, 0x7f1c225b, rfl⟩

theorem Geometry.cases (g : Geometry) : g = .en800 ∨ g = .en320 ∨ g = .en640 := by
  obtain ⟨fm, detected, h⟩ := g
  unfold flashmapInit at h
  split at h
  · cases h; exact .inl rfl
  · split at h
    · cases h; exact .inr (.inl rfl)
    · split at h
      · cases h; exact .inr (.inr rfl)
      · cases h

/-- What every proof about positions needs of a geometry: the kernel area is a
whole number of chunks, and of 64 KB sectors, and ends where the boot sector
starts. -/
structure Flashmap.Sized (fm : Flashmap) : Prop where
  kernelSize_eq : fm.kernelSize = fm.chunkCount * 0x2000
  size_eq : fm.size = fm.kernelSize + 0x10000
  aligned : fm.chunkCount % 8 = 0
  lower : 120 ≤ fm.chunkCount
  upper : fm.chunkCount ≤ 1016

theorem Geometry.sized (g : Geometry) : g.Sized := by
  obtain rfl | rfl | rfl := g.cases <;> exact ⟨by decide, by decide, by decide, by decide, by decide⟩

/-- Return true if `addr` is the start of a sector. Below 64 KB the 1 MB part has
16K:8K:8K:32K, the others 8 KB sectors only. -/
def flashmapIsboundary (fm : Flashmap) (addr : Nat) : Bool :=
  if addr % 0x2000 ≠ 0 then false
  else if fm.size ≤ addr then false
  else if addr = 0 then true
  else if 0x10000 ≤ addr then decide (addr % 0x10000 = 0)
  else if fm.deviceSize = 1 then decide (addr = 0x4000 ∨ addr = 0x6000 ∨ addr = 0x8000)
  else true

theorem isboundary_lt {fm : Flashmap} {a : Nat} (h : flashmapIsboundary fm a = true) : a < fm.size := by
  apply Nat.lt_of_not_le
  intro outside
  unfold flashmapIsboundary at h
  by_cases aligned : a % 0x2000 ≠ 0
  · rw [if_pos aligned] at h
    cases h
  · rw [if_neg aligned, if_pos outside] at h
    cases h

/-- The erase sectors of the part. -/
def Flashmap.layout (fm : Flashmap) : Layout :=
  if fm.deviceSize = 1 then [(1, 0x4000), (2, 0x2000), (1, 0x8000), (15, 0x10000)]
  else [(8, 0x2000), (fm.size / 0x10000 - 1, 0x10000)]

/-- The sectors in closed form. -/
theorem Geometry.span (g : Geometry) (a : Nat) (h : a < g.size) :
    (g.deviceSize = 1 ∧ a < 0x4000 ∧ g.layout.start a = 0 ∧ g.layout.stop a = 0x4000) ∨
    (g.deviceSize = 1 ∧ 0x8000 ≤ a ∧ a < 0x10000 ∧
      g.layout.start a = 0x8000 ∧ g.layout.stop a = 0x10000) ∨
    ((g.deviceSize = 1 → 0x4000 ≤ a ∧ a < 0x8000) ∧ a < 0x10000 ∧
      g.layout.start a = a / 0x2000 * 0x2000 ∧ g.layout.stop a = a / 0x2000 * 0x2000 + 0x2000) ∨
    (0x10000 ≤ a ∧ g.layout.start a = a / 0x10000 * 0x10000 ∧
      g.layout.stop a = a / 0x10000 * 0x10000 + 0x10000) := by
  obtain rfl | rfl | rfl := g.cases
  · simp only [Geometry.en800, Flashmap.of, Flashmap.layout, Layout.start, Layout.stop,
      Layout.spanFrom, ↓reduceIte, true_and, forall_const] at h ⊢
    by_cases h₁ : a < 0x4000
    · rw [if_pos (by omega)]; dsimp only; omega
    · by_cases h₂ : a < 0x8000
      · rw [if_neg (by omega), if_pos (by omega)]; dsimp only; omega
      · by_cases h₃ : a < 0x10000
        · rw [if_neg (by omega), if_neg (by omega), if_pos (by omega)]; dsimp only; omega
        · rw [if_neg (by omega), if_neg (by omega), if_neg (by omega), if_pos (by omega)]
          dsimp only
          omega
  all_goals
    simp only [Geometry.en320, Geometry.en640, Flashmap.of, Flashmap.layout, Layout.start,
      Layout.stop, Layout.spanFrom, Nat.reduceEqDiff, ↓reduceIte, false_and, false_or,
      IsEmpty.forall_iff, true_and] at h ⊢
    by_cases h₁ : a < 0x10000
    · rw [if_pos (by omega)]; dsimp only; omega
    · rw [if_neg (by omega), if_pos (by omega)]; dsimp only; omega

/-- The driver's sector starts are those of the part. -/
theorem Geometry.isboundary_iff (g : Geometry) (a : Nat) :
    flashmapIsboundary g.toFlashmap a = true ↔ a < g.size ∧ g.layout.start a = a := by
  unfold flashmapIsboundary
  by_cases inside : a < g.size
  · have sectors := g.span a inside
    split
    · simp only [Bool.false_eq_true, inside, true_and, false_iff]; omega
    · split
      · omega
      · split
        · simp only [inside, true_and, true_iff]; omega
        · split
          · simp only [decide_eq_true_eq, inside, true_and]; omega
          · split
            · simp only [decide_eq_true_eq, inside, true_and]; omega
            · simp only [inside, true_and, true_iff]; omega
  · constructor
    · intro h; exact absurd (isboundary_lt h) inside
    · intro h; exact absurd h.1 inside

/-- No sector crosses the start of the boot sector. -/
theorem Geometry.stop_le_kernelSize (g : Geometry) {a : Nat} (h : a < g.kernelSize) :
    g.layout.stop a ≤ g.kernelSize := by
  have sized := g.sized
  have sectors := g.span a (by have := sized.size_eq; omega)
  have := sized.kernelSize_eq
  have := sized.aligned
  omega

/-- A sector ends at the next sector start. -/
theorem Geometry.stop_le_boundary (g : Geometry) {a b : Nat} (lt : a < b)
    (h : flashmapIsboundary g.toFlashmap b = true) : g.layout.stop a ≤ b := by
  obtain ⟨inside, eq⟩ := (g.isboundary_iff b).mp h
  have sa := g.span a (by omega)
  have sb := g.span b inside
  omega

/-- Going up in chunks, the sector goes on exactly until the next sector start. -/
theorem Geometry.stop_step (g : Geometry) {a : Nat} (aligned : a % 0x2000 = 0) (h : a < g.size) :
    if a + 0x2000 < g.size ∧ flashmapIsboundary g.toFlashmap (a + 0x2000) = false then
      g.layout.stop a = g.layout.stop (a + 0x2000)
    else g.layout.stop a = a + 0x2000 := by
  have sa := g.span a h
  have sized := g.sized
  have := sized.kernelSize_eq
  have := sized.size_eq
  have := sized.aligned
  split
  · rename_i next
    have sb := g.span _ next.1
    have nb := (g.isboundary_iff (a + 0x2000)).not.mp (by simp [next.2])
    omega
  · rename_i last
    by_cases inside : a + 0x2000 < g.size
    · have sb := g.span _ inside
      have boundary : flashmapIsboundary g.toFlashmap (a + 0x2000) = true := by
        cases hb : flashmapIsboundary g.toFlashmap (a + 0x2000)
        · exact absurd ⟨inside, hb⟩ last
        · rfl
      have := ((g.isboundary_iff _).mp boundary).2
      omega
    · omega

end Bifferboard
