import Bifferboard.Emulator.En29lv640

/-!
# The backing file of the emulated flash

`flash_load_image` reads the backing file into `g_backing` when the emulator starts, and
`en29lv640_save_image` writes all but the top 64 KB back over the file. The array is padded
only if `read` has not returned the length of the file, so a file that fits is never padded.
The length is kept in an `int`, where that of a file of 2 GB or more does not fit.
-/

namespace Bifferboard
open Nor

/-- A file length in an `int`. -/
def intLen (n : Nat) : Int := (BitVec.ofNat 32 n).toInt

/-- What is printed, and `g_backing`. -/
structure FlashImage where
  printed : List String
  backing : Mem

/-- `file` is `none` if it cannot be opened. The result is `none` if `memset` would start
before the array. -/
def flashLoadImage (file : Option (List Byte)) (backing : Mem) : Option FlashImage :=
  match file with
  | none => some {
      printed := ["Unable to load flash backing file, setting to 0xff\n"]
      backing := backing.erase 0 flashSize }
  | some contents =>
    let len := intLen contents.length
    let available : Int := flashSize
    let data := contents.take flashSize
    let backing := backing.store 0 data
    if (data.length : Int) ≠ len then
      let truncated := if available < len then ["Truncated over-sized backing file\n"] else []
      if len < available then
        if len < 0 then none
        else some {
          printed := truncated ++
            ["Padding backing file for flash with " ++ toString (available - len) ++ " bytes\n"]
          backing := backing.erase len.toNat flashSize }
      else some ⟨truncated, backing⟩
    else some ⟨[], backing⟩

/-- A `write` over a file keeps what is behind it. -/
def saved (contents : List Byte) (backing : Mem) : List Byte :=
  backing.load 0 flashDevLen ++ contents.drop flashDevLen

/-- What is printed, and the file. Without a file the `write` fails. -/
def en29lv640SaveImage (firmwareName : String) (file : Option (List Byte)) (backing : Mem) :
    List String × Option (List Byte) :=
  match file with
  | none => (["Error writing out flash to backing file " ++ firmwareName ++
      " (only -1 bytes written)\n"], none)
  | some contents => (["Writing out flash to backing file " ++ firmwareName ++ "\n"],
      some (saved contents backing))

/-- The device when the emulator starts: `g_backing` is zero before the file is loaded. -/
def en29lv640Register (file : Option (List Byte)) : Option En29lv640 :=
  (flashLoadImage file fun _ => 0#8).map fun image => ⟨image.backing, .cycleRead⟩

/-! ## Loading -/

theorem intLen_small {n : Nat} (small : n < 0x80000000) : intLen n = n := by
  rw [intLen, BitVec.toInt_eq_toNat_cond, BitVec.toNat_ofNat, Nat.mod_eq_of_lt (by omega),
    if_pos (by omega)]

theorem store_zero (m : Mem) (xs : List Byte) (x : Nat) :
    m.store 0 xs x = if x < xs.length then xs.getD x 0#8 else m x := by
  simp [Mem.store, Mem.overwrite]

section
variable {contents : List Byte} (old : Mem)

/-- A file that fits is not padded. -/
theorem flashLoadImage_short (short : contents.length ≤ flashSize) :
    flashLoadImage (some contents) old = some ⟨[], old.store 0 contents⟩ := by
  have limit : flashSize = 0x800000 := rfl
  have len : intLen contents.length = contents.length := intLen_small (by omega)
  rw [flashLoadImage, List.take_of_length_le short, len]
  exact if_neg (not_not.mpr rfl)

/-- Of a file that does not fit, everything from its length in an `int` on is erased. -/
theorem flashLoadImage_long (long : flashSize < contents.length)
    (positive : 0 ≤ intLen contents.length) :
    ∃ image, flashLoadImage (some contents) old = some image ∧ ∀ x < flashSize, image.backing x =
      if intLen contents.length ≤ x then 0xff#8 else contents.getD x 0#8 := by
  have whole : (contents.take flashSize).length = flashSize :=
    List.length_take_of_le (Nat.le_of_lt long)
  have kept {x : Nat} (inside : x < flashSize) :
      old.store 0 (contents.take flashSize) x = contents.getD x 0#8 := by
    rw [store_zero, whole, if_pos inside, List.getD_eq_getElem?_getD, List.getElem?_take_of_lt inside,
      List.getD_eq_getElem?_getD]
  simp only [flashLoadImage, whole]
  by_cases below : intLen contents.length < flashSize
  · rw [if_pos (by omega), if_pos below, if_neg (by omega)]
    refine ⟨_, rfl, fun x inside => ?_⟩
    dsimp only
    rw [Mem.erase, kept inside]
    split
    · rw [if_pos (by omega)]
    · rw [if_neg (by omega)]
  · have unpadded {x : Nat} (inside : x < flashSize) : old.store 0 (contents.take flashSize) x =
        if intLen contents.length ≤ x then 0xff#8 else contents.getD x 0#8 := by
      rw [kept inside, if_neg (by omega)]
    rw [if_neg below]
    split
    · exact ⟨_, rfl, fun x => unpadded⟩
    · exact ⟨_, rfl, fun x => unpadded⟩

theorem flashLoadImage_negative (long : flashSize < contents.length)
    (negative : intLen contents.length < 0) : flashLoadImage (some contents) old = none := by
  have whole : (contents.take flashSize).length = flashSize :=
    List.length_take_of_le (Nat.le_of_lt long)
  simp only [flashLoadImage, whole]
  rw [if_pos (by omega), if_pos (by omega), if_pos negative]

end

/-- The array holds the start of the file and is erased behind it. -/
def LoadsPadded (contents : List Byte) (old : Mem) : Prop :=
  ∃ image, flashLoadImage (some contents) old = some image ∧
    ∀ x < flashSize, image.backing x = contents.getD x 0xff#8

/-- A file that fits is padded only by what was in the array before. A longer one must be
erased from where its length in an `int` points. -/
theorem load_pads_iff (contents : List Byte) (old : Mem) :
    LoadsPadded contents old ↔
      if contents.length ≤ flashSize then old.Blank contents.length flashSize
      else 0 ≤ intLen contents.length ∧
        Mem.Blank (contents.getD · 0#8) (intLen contents.length).toNat flashSize := by
  have present {x : Nat} (before : x < contents.length) :
      contents.getD x 0xff#8 = contents.getD x 0#8 := by
    rw [List.getD_eq_getElem _ _ before, List.getD_eq_getElem _ _ before]
  by_cases short : contents.length ≤ flashSize
  · rw [if_pos short, LoadsPadded, flashLoadImage_short old short]
    constructor
    · rintro ⟨image, loaded, padded⟩ x low high
      obtain rfl := Option.some.inj loaded
      have value : old.store 0 contents x = contents.getD x 0xff#8 := padded x high
      rw [store_zero, if_neg (by omega), List.getD_eq_default _ _ low] at value
      exact value
    · intro blank
      refine ⟨_, rfl, fun x inside => ?_⟩
      dsimp only
      rw [store_zero]
      split
      · rename_i before
        exact (present before).symm
      · rename_i beyond
        rw [List.getD_eq_default _ _ (by omega)]
        exact blank x (by omega) inside
  · rw [if_neg short]
    by_cases negative : intLen contents.length < 0
    · rw [LoadsPadded, flashLoadImage_negative old (by omega) negative]
      constructor
      · rintro ⟨image, loaded, -⟩
        cases loaded
      · rintro ⟨positive, -⟩
        omega
    · obtain ⟨image, loaded, value⟩ := flashLoadImage_long old (Nat.not_le.mp short) (by omega)
      rw [LoadsPadded, loaded]
      constructor
      · rintro ⟨_, same, padded⟩
        obtain rfl := Option.some.inj same
        refine ⟨by omega, fun x low high => ?_⟩
        have erased := value x high
        rw [padded x high, if_pos (by omega), present (by omega)] at erased
        exact erased
      · rintro ⟨positive, blank⟩
        refine ⟨image, rfl, fun x inside => ?_⟩
        rw [value x inside, present (by omega)]
        split
        · exact (blank x (by omega) inside).symm
        · rfl

/-- An emulator that starts with an empty file reads zeros. -/
theorem empty_file_unpadded : en29lv640Register (some []) = some ⟨fun _ => 0#8, .cycleRead⟩ ∧
    ¬ LoadsPadded [] fun _ => 0#8 := by
  have short : ([] : List Byte).length ≤ flashSize := Nat.zero_le _
  have loaded := flashLoadImage_short (fun _ => 0#8) short
  rw [Mem.store_nil] at loaded
  refine ⟨?_, ?_⟩
  · rw [en29lv640Register, loaded]
    rfl
  · rintro ⟨image, same, padded⟩
    rw [loaded] at same
    obtain rfl := Option.some.inj same
    exact absurd (padded 0 (by decide)) (by decide)

/-! ## Restarting -/

/-- A run on the emulated chip, then a new start with the file that was saved: the array is
as it was at the end of the run. -/
def Survives (firmwareName : String) (contents : List Byte) (ops : List BusOp) : Prop :=
  ∃ s s', en29lv640Register (some contents) = some s ∧
    en29lv640Register
      (en29lv640SaveImage firmwareName (some contents) (runBus ops s).backing).2 = some s' ∧
    ∀ x < flashSize, s'.backing x = (runBus ops s).backing x

section
variable (contents : List Byte) (backing : Mem)

theorem length_saved : (saved contents backing).length = max contents.length flashDevLen := by
  rw [saved, List.length_append, Mem.length_load, List.length_drop]
  omega

theorem saved_low {x : Nat} (low : x < flashDevLen) :
    (saved contents backing).getD x 0#8 = backing x := by
  rw [saved, List.getD_append _ _ _ _ (by rwa [Mem.length_load]), List.getD_eq_getElem _ _
    (by rwa [Mem.length_load])]
  simp [Mem.load]

theorem saved_high {x : Nat} (high : flashDevLen ≤ x) :
    (saved contents backing).getD x 0#8 = contents.getD x 0#8 := by
  rw [saved, List.getD_append_right _ _ _ _ (by rwa [Mem.length_load]), Mem.length_load,
    List.getD_eq_getElem?_getD, List.getElem?_drop, List.getD_eq_getElem?_getD,
    Nat.add_sub_cancel' high]

end

theorem restart_short {contents : List Byte} (short : contents.length ≤ flashSize)
    (firmwareName : String) (ops : List BusOp) : Survives firmwareName contents ops := by
  have window : flashDevLen ≤ flashSize := by decide
  have register {c : List Byte} (fits : c.length ≤ flashSize) :
      en29lv640Register (some c) = some ⟨Mem.store (fun _ => 0#8) 0 c, .cycleRead⟩ := by
    rw [en29lv640Register, flashLoadImage_short _ fits]
    rfl
  refine ⟨_, _, register short, register (c := saved contents _) ?_, fun x inside => ?_⟩
  · rw [length_saved]
    omega
  · dsimp only
    rw [store_zero, length_saved]
    by_cases low : x < flashDevLen
    · rw [if_pos (by omega), saved_low _ _ low]
    · rw [saved_high _ _ (by omega), runBus_top _ _ (by omega)]
      dsimp only
      rw [store_zero]
      by_cases present : x < contents.length
      · rw [if_pos present, if_pos (by omega)]
      · rw [if_neg present, if_neg (by omega)]

theorem register_long {contents : List Byte} (long : flashSize < contents.length)
    (positive : 0 ≤ intLen contents.length) :
    ∃ backing, en29lv640Register (some contents) = some ⟨backing, .cycleRead⟩ ∧
      ∀ x < flashSize, backing x =
        if intLen contents.length ≤ x then 0xff#8 else contents.getD x 0#8 := by
  obtain ⟨image, loaded, value⟩ := flashLoadImage_long (fun _ => 0#8) long positive
  exact ⟨image.backing, by rw [en29lv640Register, loaded]; rfl, value⟩

/-- Both starts of an emulator with a file that does not fit. -/
theorem restart_long {contents : List Byte} (long : flashSize < contents.length)
    (positive : 0 ≤ intLen contents.length) (firmwareName : String) (ops : List BusOp) :
    ∃ backing backing', en29lv640Register (some contents) = some ⟨backing, .cycleRead⟩ ∧
      en29lv640Register (en29lv640SaveImage firmwareName (some contents)
        (runBus ops ⟨backing, .cycleRead⟩).backing).2 = some ⟨backing', .cycleRead⟩ ∧
      ∀ x < flashSize, backing' x =
        if x < flashDevLen ∧ intLen contents.length ≤ x then 0xff#8
        else (runBus ops ⟨backing, .cycleRead⟩).backing x := by
  have window : flashDevLen ≤ flashSize := by decide
  obtain ⟨backing, first, value⟩ := register_long long positive
  generalize end_eq : (runBus ops ⟨backing, .cycleRead⟩).backing = last
  have length : (saved contents last).length = contents.length := by
    rw [length_saved]
    omega
  obtain ⟨backing', second, value'⟩ := @register_long (saved contents last)
    (by rwa [length]) (by rwa [length])
  rw [length] at value'
  refine ⟨backing, backing', first, by rw [end_eq]; exact second, fun x inside => ?_⟩
  rw [value' x inside, end_eq]
  by_cases low : x < flashDevLen
  · rw [saved_low _ _ low]
    by_cases padded : intLen contents.length ≤ x
    · rw [if_pos padded, if_pos ⟨low, padded⟩]
    · rw [if_neg padded, if_neg fun both => padded both.2]
  · rw [saved_high _ _ (by omega), ← value x inside, if_neg fun both => low both.1, ← end_eq,
      runBus_top _ _ (by omega)]

/-- Programs zero into the last byte of the window. -/
def programLast : List BusOp := [
  .write ⟨.w1, 0xaaa, 0xaa#32, by decide, by decide⟩,
  .write ⟨.w1, 0x555, 0x55#32, by decide, by decide⟩,
  .write ⟨.w1, 0xaaa, 0xa0#32, by decide, by decide⟩,
  .write ⟨.w1, 0x7effff, 0x00#32, by decide, by decide⟩]

theorem programLast_backing (backing : Mem) :
    (runBus programLast ⟨backing, .cycleRead⟩).backing 0x7effff = 0#8 := rfl

/-- What is programmed where the file is padded is lost. -/
theorem programLast_lost {contents : List Byte} (long : flashSize < contents.length)
    (low : intLen contents.length < flashDevLen) (firmwareName : String) :
    ¬ Survives firmwareName contents programLast := by
  rintro ⟨s, s', first, second, same⟩
  by_cases positive : 0 ≤ intLen contents.length
  · obtain ⟨backing, backing', register, register', value⟩ :=
      restart_long long positive firmwareName programLast
    obtain rfl := Option.some.inj (register.symm.trans first)
    obtain rfl := Option.some.inj (register'.symm.trans second)
    have limit : flashDevLen = 0x7f0000 := rfl
    have kept := (same 0x7effff (by decide)).trans (programLast_backing backing)
    have erased := (value 0x7effff (by decide)).trans (if_pos ⟨by decide, by omega⟩)
    cases kept.symm.trans erased
  · rw [en29lv640Register, flashLoadImage_negative _ long (by omega)] at first
    cases first

/-- The emulated flash survives a restart after every run, unless the file is so long that
its length in an `int` points below the top 64 KB. -/
theorem restart_survives_iff (firmwareName : String) (contents : List Byte) :
    (∀ ops, Survives firmwareName contents ops) ↔
      contents.length ≤ flashSize ∨ (flashDevLen : Int) ≤ intLen contents.length := by
  constructor
  · intro survives
    by_contra neither
    rw [not_or, Nat.not_le, Int.not_le] at neither
    exact programLast_lost neither.1 neither.2 firmwareName (survives programLast)
  · intro length ops
    by_cases short : contents.length ≤ flashSize
    · exact restart_short short firmwareName ops
    · have far := length.resolve_left short
      obtain ⟨backing, backing', first, second, value⟩ :=
        restart_long (Nat.not_le.mp short) (by omega) firmwareName ops
      refine ⟨_, _, first, second, fun x inside => ?_⟩
      exact (value x inside).trans (if_neg (by omega))

/-- The length of a file of 4 GB is zero in an `int`. -/
theorem huge_file_lost :
    ¬ Survives "flash.img" (List.replicate 0x100000000 0#8) programLast := by
  apply programLast_lost
  · rw [List.length_replicate]
    decide
  · rw [List.length_replicate]
    decide

end Bifferboard
