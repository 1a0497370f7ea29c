import Bifferboard.Biffjtag.Biffjtag

/-!
# Saving and restoring the configuration over JTAG

`biffjtag dumpconfig` reads the configuration block, 0x4000 bytes into the flash.
`biffjtag programconfig` should put it back, but it erases the sector at the very
start of the flash and programs the block there.
-/

namespace Bifferboard
open Nor

section
variable (g : Geometry) (t : Timing) {h : Host Chip}

theorem jtagReadMem8_ready (addr : Nat) (ready : h.hw.Ready) :
    jtagReadMem8 (g.jtagBus t) addr h = (h.hw.mem (addr - g.base), h) := by
  simp only [jtagReadMem8, Flashmap.jtagBus, Bus.mappedAt, Part.bus, ready.respond]

theorem dumpMem_nor (count : Nat) {addr : Nat} (above : g.base ≤ addr) (ready : h.hw.Ready) :
    dumpMem (g.jtagBus t) count addr h = (h.hw.mem.load (addr - g.base) count, h) := by
  induction count generalizing addr with
  | zero => rfl
  | succ count ih =>
    have next : addr + 1 - g.base = addr - g.base + 1 := by omega
    simp only [dumpMem, jtagReadMem8_ready g t addr ready, ih (Nat.le_succ_of_le above), next,
      Mem.load_succ]

theorem dumpBlocks_nor (blocks : Nat) {addr : Nat} (above : g.base ≤ addr) (ready : h.hw.Ready) :
    dumpBlocks (g.jtagBus t) blocks addr h =
      (h.hw.mem.load (addr - g.base) (0x80 * blocks), h) := by
  induction blocks generalizing addr with
  | zero => rfl
  | succ blocks ih =>
    have next : addr + 0x80 - g.base = addr - g.base + 0x80 := by omega
    have split : 0x80 * (blocks + 1) = 0x80 + 0x80 * blocks := by omega
    simp only [dumpBlocks, dumpMem_nor g t 0x80 above ready, ih (Nat.le_add_right_of_le above), next,
      split, Mem.load_add]

/-- What `dumpconfig` puts in front of whatever was in the file. -/
def dumpedConfig (mem : Mem) (file : Option (List Byte)) : List Byte :=
  mem.load 0x4000 0x2000 ++ (file.getD []).drop 0x2000

theorem dumpConfig_nor (ready : h.hw.Ready) :
    (dumpConfig (g.jtagBus t) g.base h).hw = h.hw ∧
    (dumpConfig (g.jtagBus t) g.base h).files "config.bin" =
      some (dumpedConfig h.hw.mem (h.files "config.bin")) := by
  have above : g.base ≤ g.base + 0x4000 := Nat.le_add_right _ _
  have offset : g.base + 0x4000 - g.base = 0x4000 := Nat.add_sub_cancel_left _ _
  have blocks : 0x80 * (0x2000 / 0x80) = 0x2000 := by decide
  simp only [dumpConfig, rdcDump2000, dumpBlocks_nor g t _ above ready, offset, blocks]
  refine ⟨rfl, ?_⟩
  simp [Host.printf, Host.writeFile, dumpedConfig]

/-- The flash after `programconfig` with a file of the right size. -/
def afterProgramConfig (bytes : List Byte) (mem : Mem) : Mem := fun x =>
  if x < 0x2000 then bytes.getD x 0#8 else if x < g.layout.stop 0 then 0xff#8 else mem x

/-- The first sector is one or two blocks long, and the configuration block is
behind it. -/
theorem first_sector : g.layout.start 0 = 0 ∧ 0x2000 ≤ g.layout.stop 0 ∧ g.layout.stop 0 ≤ 0x4000 := by
  obtain rfl | rfl | rfl := g.cases <;> decide

theorem erase_program_config (bytes : List Byte) (mem : Mem) :
    (mem.erase 0 (g.layout.stop 0)).programBytes 0 0x2000 (bytes.getD · 0#8) =
      afterProgramConfig g bytes mem := by
  obtain ⟨-, least, -⟩ := first_sector g
  funext x
  unfold afterProgramConfig
  by_cases inside : x < 0x2000
  · rw [if_pos inside, Mem.programBytes_erased _ _ _ _ (Nat.zero_le x) (by omega)
      (mem.erase_inside (Nat.zero_le x) (by omega)), Nat.sub_zero]
  · rw [if_neg inside, Mem.programBytes_frame _ _ _ _ (by omega)]
    by_cases sector : x < g.layout.stop 0
    · rw [if_pos sector, mem.erase_inside (Nat.zero_le x) sector]
    · rw [if_neg sector, mem.erase_frame (by omega)]

theorem readFile_size (bytes : List Byte) :
    (readFile (some bytes) 0x10000).1 = 0x2000 ↔ bytes.length = 0x2000 := by
  rw [readFile]
  omega

/-- A file of another size is refused. -/
theorem programConfig_refused {bytes : List Byte} (file : h.files "config.bin" = some bytes)
    (size : bytes.length ≠ 0x2000) :
    ∃ h', h'.hw = h.hw ∧
      Returns (fun fuel => programConfig (g.jtagBus t) fuel g.base "config.bin" h) h' := by
  have refused : (readFile (some bytes) 0x10000).1 ≠ 0x2000 := (readFile_size bytes).not.mpr size
  refine ⟨(h.printf "Programming config from config.bin\n").printf
    "config file 'config.bin' is incorrect size (should be 0x2000)\n", rfl, 0, fun fuel _ => ?_⟩
  simp only [programConfig, Host.printf, file, refused, ne_eq, not_false_eq_true, ↓reduceIte]
  rfl

/-- A file of the right size goes to the start of the flash. -/
theorem programConfig_nor {bytes : List Byte} (ready : h.hw.Ready)
    (file : h.files "config.bin" = some bytes) (size : bytes.length = 0x2000) :
    ∃ h' : Host Chip, h'.hw.Ready ∧ h'.hw.mem = afterProgramConfig g bytes h.hw.mem ∧
      h'.files = h.files ∧
      Returns (fun fuel => programConfig (g.jtagBus t) fuel g.base "config.bin" h) h' := by
  obtain ⟨start, least, -⟩ := first_sector g
  have offset : g.base - g.base = 0 := Nat.sub_self _
  have accepted : ¬ (readFile (some bytes) 0x10000).1 ≠ 0x2000 :=
    not_not_intro ((readFile_size bytes).mpr size)
  have whole : (readFile (some bytes) 0x10000).2 = bytes := List.take_of_length_le (by omega)
  let started : Host Chip := h.printf "Programming config from config.bin\n"
  let erased : Host Chip := started.withChip
    (h.hw.programmed (h.hw.mem.erase 0 (g.layout.stop 0)))
  have erase (fuel : Nat) (enough : 0x100000 ≤ fuel) :
      rdcEonSectorErase (g.jtagBus t) fuel g.base started = some erased := by
    have within : g.base - g.base + 1 < g.layout.stop (g.base - g.base) := by
      rw [offset]
      omega
    have done := rdcEonSectorErase_nor g t (h := started) ready within enough
    rwa [offset, start] at done
  have blank : erased.hw.mem.Blank (g.base - g.base + 0) (g.base - g.base + 0 + 2 * 0x1000) := by
    rw [offset]
    intro x lo hi
    exact h.hw.mem.erase_inside lo (by omega)
  have covered : 0x2000 ≤ 0 + 2 * 0x1000 := by decide
  obtain ⟨c, ready', mem, run⟩ := programFrom_nor g t (bytes.getD · 0#8) (h := erased)
    (ready.programmed _) (Nat.le_refl _) covered (by decide) blank
  refine ⟨erased.withChip c, ready', ?_, rfl, 0x100000, ?_⟩
  · rw [← erase_program_config]
    simp only [offset, Nat.zero_add] at mem
    exact mem
  · intro fuel enough
    have printed : started.files "config.bin" = some bytes := file
    simp only [programConfig]
    rw [show h.printf ("Programming config from " ++ "config.bin" ++ "\n") = started from rfl, printed,
      if_neg accepted, whole, erase fuel enough, Option.map_some, run]

/-! ## Both directions -/

/-- `dumpconfig` and then `programconfig` leaves the flash as it was, and
`programconfig` and then `dumpconfig` a file of the right size. -/
structure ConfigInverse (mem : Mem) (files : String → Option (List Byte)) : Prop where
  restores : ∃ h : Host Chip, h.hw.mem = mem ∧
    Returns (fun fuel => programConfig (g.jtagBus t) fuel g.base "config.bin"
      (dumpConfig (g.jtagBus t) g.base ⟨idleChip mem, [], files⟩)) h
  recovers : ∀ bytes, files "config.bin" = some bytes → bytes.length = 0x2000 →
    ∃ h : Host Chip, h.files "config.bin" = some bytes ∧
      Returns (fun fuel => (programConfig (g.jtagBus t) fuel g.base "config.bin"
        ⟨idleChip mem, [], files⟩).map (dumpConfig (g.jtagBus t) g.base)) h

/-- A file that is longer than the block keeps its end, and is not programmed. -/
def TooLong (file : Option (List Byte)) : Prop := 0x2000 < (file.getD []).length

/-- The first sector already has the configuration block at its start, and nothing
else. -/
def ConfigAtStart (mem : Mem) : Prop :=
  (∀ i < 0x2000, mem i = mem (0x4000 + i)) ∧ mem.Blank 0x2000 (g.layout.stop 0)

theorem afterProgramConfig_eq_iff (mem : Mem) :
    afterProgramConfig g (mem.load 0x4000 0x2000) mem = mem ↔ ConfigAtStart g mem := by
  have loaded (i : Nat) (inside : i < 0x2000) :
      (mem.load 0x4000 0x2000).getD i 0#8 = mem (0x4000 + i) := by
    rw [List.getD_eq_getElem?_getD, Mem.load, List.getElem?_map, List.getElem?_range inside]
    rfl
  constructor
  · intro same
    constructor
    · intro i inside
      have here := congrFun same i
      rw [afterProgramConfig, if_pos inside, loaded i inside] at here
      exact here.symm
    · intro x lo hi
      have here := congrFun same x
      rw [afterProgramConfig, if_neg (Nat.not_lt_of_le lo), if_pos hi] at here
      exact here.symm
  · rintro ⟨block, blank⟩
    funext x
    unfold afterProgramConfig
    by_cases inside : x < 0x2000
    · rw [if_pos inside, loaded x inside, block x inside]
    · rw [if_neg inside]
      by_cases sector : x < g.layout.stop 0
      · rw [if_pos sector, blank x (Nat.le_of_not_lt inside) sector]
      · rw [if_neg sector]

/-- Programming does not reach the configuration block. -/
theorem afterProgramConfig_block (bytes : List Byte) (mem : Mem) :
    (afterProgramConfig g bytes mem).load 0x4000 0x2000 = mem.load 0x4000 0x2000 := by
  obtain ⟨-, -, most⟩ := first_sector g
  apply Mem.load_congr
  intro i _
  unfold afterProgramConfig
  rw [if_neg (by omega), if_neg (by omega)]

theorem length_dumpedConfig (mem : Mem) (file : Option (List Byte)) :
    (dumpedConfig mem file).length = 0x2000 ↔ ¬ TooLong file := by
  rw [dumpedConfig, TooLong, List.length_append, Mem.length_load, List.length_drop]
  omega

theorem restores_iff (mem : Mem) (files : String → Option (List Byte)) :
    (∃ h : Host Chip, h.hw.mem = mem ∧
      Returns (fun fuel => programConfig (g.jtagBus t) fuel g.base "config.bin"
        (dumpConfig (g.jtagBus t) g.base ⟨idleChip mem, [], files⟩)) h) ↔
      TooLong (files "config.bin") ∨ ConfigAtStart g mem := by
  obtain ⟨hw, file⟩ := dumpConfig_nor g t (h := ⟨idleChip mem, [], files⟩) (idleChip_ready mem)
  generalize dumpConfig (g.jtagBus t) g.base ⟨idleChip mem, [], files⟩ = dumped at hw file ⊢
  have ready : dumped.hw.Ready := by
    rw [hw]
    exact idleChip_ready mem
  have flash : dumped.hw.mem = mem := congrArg Chip.mem hw
  by_cases long : TooLong (files "config.bin")
  · obtain ⟨h', same, ends⟩ := programConfig_refused g t file
      ((length_dumpedConfig mem _).not.mpr (not_not_intro long))
    exact iff_of_true ⟨h', (congrArg Chip.mem same).trans flash, ends⟩ (.inl long)
  · have short : ((files "config.bin").getD []).drop 0x2000 = [] := by
      apply List.drop_eq_nil_of_le
      exact Nat.le_of_not_lt long
    have block : dumpedConfig mem (files "config.bin") = mem.load 0x4000 0x2000 := by
      rw [dumpedConfig, short, List.append_nil]
    obtain ⟨h', -, mem', -, ends⟩ := programConfig_nor g t ready file
      ((length_dumpedConfig mem _).mpr long)
    rw [flash, idleChip_mem, block] at mem'
    rw [or_iff_right long, ← afterProgramConfig_eq_iff, ← mem']
    constructor
    · rintro ⟨h'', same, ends'⟩
      rw [← ends.unique ends'] at same
      exact same
    · intro same
      exact ⟨h', same, ends⟩

theorem recovers_iff (mem : Mem) (files : String → Option (List Byte)) {bytes : List Byte}
    (file : files "config.bin" = some bytes) (size : bytes.length = 0x2000) :
    (∃ h : Host Chip, h.files "config.bin" = some bytes ∧
      Returns (fun fuel => (programConfig (g.jtagBus t) fuel g.base "config.bin"
        ⟨idleChip mem, [], files⟩).map (dumpConfig (g.jtagBus t) g.base)) h) ↔
      bytes = mem.load 0x4000 0x2000 := by
  obtain ⟨h', ready, mem', kept, ends⟩ := programConfig_nor g t
    (h := ⟨idleChip mem, [], files⟩) (idleChip_ready mem) file size
  have flash : h'.hw.mem = afterProgramConfig g bytes mem := mem'
  have same : h'.files "config.bin" = some bytes := (congrFun kept _).trans file
  have rest : bytes.drop 0x2000 = [] := List.drop_eq_nil_of_le (Nat.le_of_eq size)
  have dumped : (dumpConfig (g.jtagBus t) g.base h').files "config.bin" =
      some (mem.load 0x4000 0x2000) := by
    rw [(dumpConfig_nor g t ready).2, flash, same, dumpedConfig, afterProgramConfig_block,
      Option.getD_some, rest, List.append_nil]
  have both := ends.map (dumpConfig (g.jtagBus t) g.base)
  constructor
  · rintro ⟨h'', again, ends'⟩
    rw [← both.unique ends', dumped] at again
    exact (Option.some.inj again).symm
  · intro block
    refine ⟨_, ?_, both⟩
    rw [dumped, block]

/-- The two commands undo each other exactly if the configuration is at the start
of the flash as well, or the file cannot be programmed, and a file of the right
size has the configuration already. -/
theorem config_inverse_iff (mem : Mem) (files : String → Option (List Byte)) :
    ConfigInverse g t mem files ↔
      (TooLong (files "config.bin") ∨ ConfigAtStart g mem) ∧
      ∀ bytes, files "config.bin" = some bytes → bytes.length = 0x2000 →
        bytes = mem.load 0x4000 0x2000 := by
  constructor
  · intro inverse
    refine ⟨(restores_iff g t mem files).mp inverse.restores, ?_⟩
    intro bytes file size
    exact (recovers_iff g t mem files file size).mp (inverse.recovers bytes file size)
  · rintro ⟨start, block⟩
    refine ⟨(restores_iff g t mem files).mpr start, ?_⟩
    intro bytes file size
    exact (recovers_iff g t mem files file size).mpr (block bytes file size)

end

/-- On a board with a boot sector of zeros and a configuration of ones. -/
theorem config_destroys_start : ¬ ConfigInverse Geometry.en640 .instant
    (fun x => if 0x4000 ≤ x then 1#8 else 0#8) (fun _ => none) := by
  intro inverse
  rcases (restores_iff Geometry.en640 .instant _ _).mp inverse.restores with long | start
  · simp [TooLong] at long
  · exact absurd (start.1 0 (by decide)) (by decide)

end Bifferboard
