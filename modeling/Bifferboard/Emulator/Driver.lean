import Bifferboard.Emulator.En29lv640
import Bifferboard.Biffnor.OnNor

/-!
# The kernel driver on the emulated chip

The driver's accesses are the byte, word and long accesses of the emulated
EN29LV640. Programming stores its data there and everything is done at once,
so every command leaves the chip in read mode and the status loops end with
their first two reads.
-/

namespace Bifferboard
open Nor

def En29lv640.bus : Bus En29lv640 where
  write8 s a b := s.flashWriteWidth a (b.setWidth 32) .w1
  write16 s a w := s.flashWriteWidth a (w.setWidth 32) .w2
  read8 s a := ((s.flashReadWidth a .w1).setWidth 8, s)
  read16 s a := ((s.flashReadWidth a .w2).setWidth 16, s)
  read32 s a := (s.flashReadWidth a .w4, s)

/-- In read mode reads show the array. -/
theorem En29lv640.shows (mem : Mem) : En29lv640.bus.Shows ⟨mem, .cycleRead⟩ mem where
  read8_eq a := by
    simp [En29lv640.bus, flashReadWidth]
  read16_eq a := by
    simp [En29lv640.bus, flashReadWidth]
  read32_eq a := by
    simp [En29lv640.bus, flashReadWidth]

/-! ## Commands -/

section
variable (mem : Mem) (trace : List Event)

theorem stored_word (addr : Nat) (val : Word) :
    (fun x => if x = addr then Dword.byte (val.setWidth 32) 0
      else if x = addr + 1 then Dword.byte (val.setWidth 32) 1 else mem x) =
      mem.overwrite addr 2 (fun i => if i = 0 then val.lo else val.hi) := by
  have low : Dword.byte (val.setWidth 32) 0 = val.lo := BitVec.extractLsb'_setWidth_of_le (by decide)
  have high : Dword.byte (val.setWidth 32) 1 = val.hi := BitVec.extractLsb'_setWidth_of_le (by decide)
  funext x
  rw [low, high, Mem.overwrite]
  by_cases first : x = addr
  · rw [if_pos first, if_pos (by omega), if_pos (by omega)]
  · by_cases second : x = addr + 1
    · rw [if_neg first, if_pos second, if_pos (by omega), if_neg (by omega)]
    · rw [if_neg first, if_neg second, if_neg (by omega)]

theorem programCommand_emulated (addr : Nat) (val : Word) :
    programCommand En29lv640.bus addr val ⟨⟨mem, .cycleRead⟩, trace⟩ =
      ⟨⟨mem.overwrite addr 2 (fun i => if i = 0 then val.lo else val.hi), .cycleRead⟩,
        trace ++ [.program addr val]⟩ := by
  rw [← stored_word]
  rfl

theorem eraseCommand_emulated (addr : Nat) :
    eraseCommand En29lv640.bus addr ⟨⟨mem, .cycleRead⟩, trace⟩ =
      ⟨⟨mem.erase (addrToSecbase addr) (addrToSecbase addr + addrToSeclen addr), .cycleRead⟩,
        trace ++ [.erase addr]⟩ := rfl

variable (fm : Flashmap)

theorem eonProgramWord_emulated {addr : Nat} (inside : addr < fm.size) (val : Word) :
    eonProgramWord En29lv640.bus fm addr val ⟨⟨mem, .cycleRead⟩, trace⟩ =
      (0, ⟨⟨mem.overwrite addr 2 (fun i => if i = 0 then val.lo else val.hi), .cycleRead⟩,
        trace ++ [.program addr val]⟩) := by
  rw [eonProgramWord, if_neg (Nat.not_le_of_lt inside), programCommand_emulated]
  rw [pollStatus_shows (En29lv640.shows _)]
  rfl

theorem eonEraseSector_emulated {addr : Nat} (inside : addr < fm.size) :
    eonEraseSector En29lv640.bus fm addr ⟨⟨mem, .cycleRead⟩, trace⟩ =
      (0, ⟨⟨mem.erase (addrToSecbase addr) (addrToSecbase addr + addrToSeclen addr), .cycleRead⟩,
        trace ++ [.erase addr]⟩) := by
  rw [eonEraseSector, if_neg (Nat.not_le_of_lt inside), eraseCommand_emulated]
  rw [pollStatus_shows (En29lv640.shows _)]
  rfl

/-! ## Ranges and sectors -/

theorem eonProgramRange_emulated (count : Nat) (buffer : Nat → Byte) {dest : Nat}
    (inside : dest + 2 * count ≤ fm.size) :
    ∃ trace', eonProgramRange En29lv640.bus fm count (asShorts buffer) dest
      ⟨⟨mem, .cycleRead⟩, trace⟩ =
        (0, ⟨⟨mem.overwrite dest (2 * count) buffer, .cycleRead⟩, trace'⟩) := by
  induction count generalizing buffer dest mem trace with
  | zero => exact ⟨trace, by simp [eonProgramRange]⟩
  | succ count ih =>
    have first := eonProgramWord_emulated mem trace fm (show dest < fm.size by omega)
      (asShorts buffer 0)
    have tail : (fun i => asShorts buffer (i + 1)) = asShorts (fun i => buffer (i + 2)) := rfl
    have word : mem.overwrite dest 2
        (fun i => if i = 0 then (asShorts buffer 0).lo else (asShorts buffer 0).hi) =
        mem.overwrite dest 2 buffer := by
      apply Mem.overwrite_congr
      intro i small
      obtain rfl | rfl : i = 0 ∨ i = 1 := by omega
      · exact Word.lo_ofBytes _ _
      · exact Word.hi_ofBytes _ _
    obtain ⟨trace', rest⟩ := ih (mem.overwrite dest 2 buffer)
      (trace ++ [.program dest (asShorts buffer 0)]) (fun i => buffer (i + 2))
      (show dest + 2 + 2 * count ≤ fm.size by omega)
    refine ⟨trace', ?_⟩
    rw [Mem.overwrite_add, show 2 + 2 * count = 2 * (count + 1) by omega] at rest
    rw [word] at first
    simp only [eonProgramRange, first, tail]
    rw [if_neg (by decide)]
    exact rest

end

/-- The sectors of the emulated chip are those of the 8 MB part. -/
theorem en640_sector {a : Nat} (inside : a < Geometry.en640.size) :
    Geometry.en640.layout.start a = addrToSecbase a ∧
      Geometry.en640.layout.stop a = addrToSecbase a + addrToSeclen a := by
  have other : Geometry.en640.deviceSize ≠ 1 := by decide
  unfold addrToSecbase addrToSeclen
  rcases Geometry.en640.span a inside with
    ⟨small, -⟩ | ⟨small, -⟩ | ⟨-, low, start, stop⟩ | ⟨high, start, stop⟩
  · exact absurd small other
  · exact absurd small other
  · rw [if_pos low, if_pos low]
    omega
  · rw [if_neg (by omega), if_neg (by omega)]
    omega

theorem eraseAsNeeded_emulated (mem : Mem) (trace : List Event) (dest : Nat) :
    ∃ trace', eraseAsNeeded En29lv640.bus Geometry.en640.toFlashmap dest ⟨⟨mem, .cycleRead⟩, trace⟩ =
      ⟨⟨prepared Geometry.en640.toFlashmap mem dest, .cycleRead⟩, trace'⟩ := by
  by_cases boundary : flashmapIsboundary Geometry.en640.toFlashmap dest = true
  · obtain ⟨inside, start⟩ := (Geometry.en640.isboundary_iff dest).mp boundary
    obtain ⟨base, stop⟩ := en640_sector inside
    obtain ⟨blank, checked, iff⟩ := flashmapIserased_shows
      (w := (⟨⟨mem, .cycleRead⟩, trace⟩ : World En29lv640)) (En29lv640.shows mem) Geometry.en640 boundary
    rw [prepared, if_pos boundary, eraseAsNeeded, if_pos boundary, checked]
    cases blank with
    | true =>
      rw [(iff.mp rfl).erase_eq]
      exact ⟨trace, rfl⟩
    | false =>
      have erased := eonEraseSector_emulated mem trace Geometry.en640.toFlashmap inside
      rw [← stop, ← base, start] at erased
      refine ⟨trace ++ [.erase dest] ++ [.returned .eraseSector 0], ?_⟩
      simp only [erased, Bool.false_eq_true, ↓reduceIte]
      rfl
  · rw [prepared, if_neg boundary, eraseAsNeeded, if_neg boundary]
    exact ⟨trace, rfl⟩

/-- The words just programmed verify. -/
theorem word_overwrite (mem : Mem) (dest count : Nat) (buffer : Nat → Byte) {i : Nat}
    (inside : i < count) :
    (mem.overwrite dest (2 * count) buffer).word (dest + 2 * i) = asShorts buffer i := by
  have low := mem.overwrite_inside buffer (a := dest) (show 2 * i < 2 * count by omega)
  have high := mem.overwrite_inside buffer (a := dest) (show 2 * i + 1 < 2 * count by omega)
  rw [Mem.word, low, Nat.add_assoc, high]
  rfl

theorem flashWriteChunk_emulated (mem : Mem) (trace : List Event) (buffer : Nat → Byte) {dest len : Nat}
    (inside : dest + len ≤ 0x7f0000) :
    ∃ trace', flashWriteChunk En29lv640.bus Geometry.en640.toFlashmap (asShorts buffer) dest len
        ⟨⟨mem, .cycleRead⟩, trace⟩ =
      (0, ⟨⟨(prepared Geometry.en640.toFlashmap mem dest).overwrite dest (2 * (len / 2)) buffer,
        .cycleRead⟩, trace'⟩) := by
  have allowed : ¬ Geometry.en640.size - 0x10000 < (dest + len) % 2 ^ 32 := by
    change ¬ 0x800000 - 0x10000 < _
    omega
  obtain ⟨trace₁, erased⟩ := eraseAsNeeded_emulated mem trace dest
  obtain ⟨trace₂, programmed⟩ := eonProgramRange_emulated
    (prepared Geometry.en640.toFlashmap mem dest) trace₁ Geometry.en640.toFlashmap (len / 2) buffer
    (show dest + 2 * (len / 2) ≤ 0x800000 by omega)
  generalize prepared Geometry.en640.toFlashmap mem dest = ready at erased programmed ⊢
  have verified (trace₃ : List Event) : eonVerifyRange En29lv640.bus (len / 2) (asShorts buffer) dest
      ⟨⟨ready.overwrite dest (2 * (len / 2)) buffer, .cycleRead⟩, trace₃⟩ =
      (0, ⟨⟨ready.overwrite dest (2 * (len / 2)) buffer, .cycleRead⟩, trace₃⟩) :=
    eonVerifyRange_equal (En29lv640.shows _) _ _ _ fun i small => word_overwrite _ _ _ _ small
  rw [flashWriteChunk, if_neg allowed, erased, programmed]
  simp only [World.note, verified, show ¬ ((0 : Int) < 0) by decide, ↓reduceIte]
  exact ⟨_, rfl⟩

/-- The prepared memory in terms of the chip's own sectors. -/
theorem prepared_en640 (mem : Mem) {dest : Nat} (inside : dest < 0x800000) (x : Nat) :
    prepared Geometry.en640.toFlashmap mem dest x =
      if addrToSecbase dest = dest ∧ dest ≤ x ∧ x < dest + addrToSeclen dest then 0xff#8 else mem x := by
  obtain ⟨base, stop⟩ := en640_sector (show dest < Geometry.en640.size from inside)
  have start := Geometry.en640.isboundary_iff dest
  rw [base] at start
  by_cases begins : addrToSecbase dest = dest
  · rw [begins] at stop
    rw [prepared, if_pos (start.mpr ⟨inside, begins⟩), stop, Mem.erase]
    simp only [begins, true_and]
  · have middle : ¬ flashmapIsboundary Geometry.en640.toFlashmap dest = true :=
      fun boundary => begins (start.mp boundary).2
    rw [prepared, if_neg middle, if_neg fun both => begins both.1]

/-- Writing a chunk works on the emulated chip: the whole words of the buffer
are stored, a sector that the write starts is erased first unless it was, and
the chip is back in read mode. -/
theorem emulated_chunk_written (mem : Mem) (trace : List Event) (buffer : Nat → Byte) (dest len : Nat)
    (inside : dest + len ≤ 0x7f0000) :
    let written := flashWriteChunk En29lv640.bus Geometry.en640.toFlashmap (asShorts buffer) dest len
      ⟨⟨mem, .cycleRead⟩, trace⟩
    let Erases := addrToSecbase dest = dest ∧ ¬ mem.Blank dest (dest + addrToSeclen dest)
    written.1 = 0 ∧ written.2.hw.state = .cycleRead ∧
      (∀ i < 2 * (len / 2), written.2.hw.backing (dest + i) = buffer i) ∧
      ∀ x, ¬ (dest ≤ x ∧ x < dest + 2 * (len / 2)) →
        (Erases ∧ dest ≤ x ∧ x < dest + addrToSeclen dest → written.2.hw.backing x = 0xff#8) ∧
        (¬ (Erases ∧ dest ≤ x ∧ x < dest + addrToSeclen dest) → written.2.hw.backing x = mem x) := by
  intro written Erases
  obtain ⟨trace', eq⟩ := flashWriteChunk_emulated mem trace buffer inside
  have flash : written.2.hw.backing =
      (prepared Geometry.en640.toFlashmap mem dest).overwrite dest (2 * (len / 2)) buffer :=
    congrArg (·.2.hw.backing) eq
  refine ⟨congrArg (·.1) eq, congrArg (·.2.hw.state) eq, ?_, ?_⟩
  · intro i small
    rw [flash]
    exact Mem.overwrite_inside _ buffer small
  · intro x outside
    rw [flash, Mem.overwrite_frame _ buffer (by omega), prepared_en640 mem (by omega)]
    constructor
    · rintro ⟨⟨begins, -⟩, within⟩
      exact if_pos ⟨begins, within⟩
    · intro kept
      by_cases sector : addrToSecbase dest = dest ∧ dest ≤ x ∧ x < dest + addrToSeclen dest
      · have blank : mem.Blank dest (dest + addrToSeclen dest) := by
          apply Classical.byContradiction
          intro stale
          exact kept ⟨⟨sector.1, stale⟩, sector.2⟩
        rw [if_pos sector, blank x sector.2.1 sector.2.2]
      · exact if_neg sector

/-- Three bytes at the start of a chip that is all zeros: the sector is erased, and the third byte
is not stored. -/
theorem emulated_chunk_written_three :
    let flash := (flashWriteChunk En29lv640.bus Geometry.en640.toFlashmap (asShorts fun _ => 0x12#8) 0 3
      ⟨⟨fun _ => 0#8, .cycleRead⟩, []⟩).2.hw.backing
    flash 1 = 0x12#8 ∧ flash 2 = 0xff#8 ∧ flash 0x10000 = 0#8 := by
  obtain ⟨-, -, stored, rest⟩ := emulated_chunk_written (fun _ => 0#8) [] (fun _ => 0x12#8) 0 3 (by decide)
  have stale : ¬ Mem.Blank (fun _ => 0#8) 0 (0 + addrToSeclen 0) := fun blank =>
    absurd (blank 0 (Nat.le_refl _) (by decide)) (by decide)
  refine ⟨?_, ?_, ?_⟩
  · have second := stored 1 (by decide)
    rwa [Nat.zero_add] at second
  · exact (rest 2 (by decide)).1 ⟨⟨by decide, stale⟩, by decide⟩
  · exact (rest 0x10000 (by decide)).2 fun both => absurd both.2.2 (by decide)

end Bifferboard
