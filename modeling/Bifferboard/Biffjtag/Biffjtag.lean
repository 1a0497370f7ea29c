import Bifferboard.Biffjtag.Rdc
import Bifferboard.Biffnor.Boot

/-!
# The `biffjtag` tool

`biffjtag` programs a board from outside. Its `program` command erases the
boot sector before it opens the image, so unlike `/dev/biffboot` it does not
leave the flash alone when the image is missing or short.
-/

namespace Bifferboard
open Nor

/-- `read` of at most `size` bytes of a file: its result, and the bytes. An
`open` that failed shows here. -/
def readFile (file : Option (List Byte)) (size : Nat) : Int × List Byte :=
  match file with
  | none => (-1, [])
  | some bytes => ((min bytes.length size : Nat), bytes.take size)

/-- `write` to a file opened without `O_TRUNC`: what was behind stays. -/
def Host.writeFile {σ : Type} (h : Host σ) (fname : String) (data : List Byte) : Host σ :=
  { h with files := fun name =>
      if name = fname then some (data ++ ((h.files fname).getD []).drop data.length) else h.files name }

/-- `%02x`. -/
def fmt02X (b : Byte) : String := (if b.toNat < 16 then "0" else "") ++ fmtX b.toNat

/-- `*((unsigned short*)&buffer[off])`. -/
def shortAt (buffer : Nat → Byte) (off : Nat) : Word := Word.ofBytes (buffer off) (buffer (off + 1))

section
variable {σ : Type} (B : Bus σ)

/-- The lines of `Help`. The one that says whose program it is may be any. -/
def helpText (banner : String) : List String :=
  ["\n", banner, "\n", "Program to or dump from Bifferboard bootloader flash.\n",
    "Usage: biffjtag program SOURCE_FILE\n", "  or:  biffjtag dump DEST_FILE (dump bootloader)\n",
    "  or:  biffjtag dumpconfig DEST_FILE (config block)\n",
    "  or:  biffjtag mac DEST_FILE (mac address)\n"]

def help (banner : String) (h : Host σ) : Host σ := { h with out := h.out ++ helpText banner }

def dumpBios (fname : String) (h : Host σ) : Host σ :=
  let data := rdcDumpSector B 0xffff0000 (h.printf "Dumping\n")
  (data.2.writeFile fname data.1).printf ("Written " ++ toString data.1.length ++ " bytes to '"
    ++ fname ++ "'\n")

/-- The loop of `DumpAll`: `left` sectors to go, the first `count` are in
`data`. -/
def dumpSectors (addr last : Nat) (fname : String) : (left count : Nat) → List Byte → Host σ → Host σ
  | 0, _, _, h => h
  | left + 1, count, data, h =>
    let sector := rdcDumpSector B (addr + count * 0x10000) h
    let data := data ++ sector.1
    dumpSectors addr last fname left (count + 1) data ((sector.2.writeFile fname data).printf
      ("Written " ++ fmtD (count + 1) ++ "/" ++ fmtD last ++ " sectors to '" ++ fname ++ "'\n"))

def dumpAll (addr : Nat) (fname : String) (h : Host σ) : Host σ :=
  let last := (0xffffff00 - addr) / 0x10000 + 1
  dumpSectors B addr last fname last 0 []
    ((h.writeFile fname []).printf ("Dumping to '" ++ fname ++ "'\n"))

def printMac (mac : List Byte) : String := String.intercalate ":" (mac.map fmt02X)

def dumpMac (base : Nat) (h : Host σ) : Host σ :=
  let data := rdcDump80 B (base + 0x4000 + 1036) h
  let mac := data.1.take 6
  (data.2.writeFile "mac.bin" (mac ++ [0#8, 0#8])).printf ("Detected MAC: " ++ printMac mac ++ "\n")

def dumpConfig (base : Nat) (h : Host σ) : Host σ :=
  let data := rdcDump2000 B (base + 0x4000) h
  (data.2.writeFile "config.bin" data.1).printf "Config written to 'config.bin'\n"

/-- The programming loops of `ProgramConfig` and `ProgramBootloader`. Words
that would stay as they are after an erase are skipped. -/
def programFrom (addr limit : Nat) (buffer : Nat → Byte) (off : Nat) (h : Host σ) : Host σ :=
  if off < limit then
    if shortAt buffer off = 0xffff#16 then programFrom addr limit buffer (off + 2) h
    else
      let res := rdcEonProgram B (addr + off) (shortAt buffer off) h
      if res.1 ≠ 0 then res.2.printf ("Error programming at: " ++ fmtX (addr + off) ++ "\n")
      else programFrom addr limit buffer (off + 2) res.2
  else h
termination_by limit - off

def programConfig (fuel base : Nat) (fname : String) (h : Host σ) : Option (Host σ) :=
  let h := h.printf ("Programming config from " ++ fname ++ "\n")
  let res := readFile (h.files fname) 0x10000
  if res.1 ≠ 0x2000 then
    some (h.printf ("config file '" ++ fname ++ "' is incorrect size (should be 0x2000)\n"))
  else
    (rdcEonSectorErase B fuel base h).map (programFrom B base 0x2000 (res.2.getD · 0#8) 0)

def eraseBootloader (fuel : Nat) (h : Host σ) : Option (Host σ) :=
  rdcEonSectorErase B fuel 0xffff0000 (h.printf "Erasing\n")

def programBootloader (fname : String) (h : Host σ) : Host σ :=
  let h := h.printf ("Programming " ++ fname ++ "\n")
  let res := readFile (h.files fname) 0x10000
  if res.1 ≠ 0x10000 then h.printf "Error reading firmware file\n"
  else programFrom B 0xffff0000 0xffff (res.2.getD · 0#8) 0 h

/-- The name and the base address of a part; `none` is the default case. -/
def knownFlash (ret : Dword) : Option (String × Nat) :=
  if ret = 0x7f1c225b#32 then some ("EN29LV800B", 0xfff00000)
  else if ret = 0x7f1c22f9#32 then some ("EN29LV320B", 0xffc00000)
  else if ret = 0x7f1c22cb#32 then some ("EN29LV640B", 0xff800000)
  else if ret = 0xc2c222cb#32 then some ("MX29LV640B", 0xff800000)
  else none

def manufacturer (h : Host σ) : Nat × Host σ :=
  let ret := rdcDetect B h
  match knownFlash ret.1 with
  | some (f, base) => (base, ret.2.printf ("Detected: " ++ f ++ "\n"))
  | none => (0, (ret.2.printf ("Unknown flash: " ++ fmtX ret.1.toNat ++ "\n")).printf
      "Detected: <UNKNOWN>\n")

/-- What bringing up the link gave: the results of `rdc_init` and
`rdc_bus_control`. -/
structure Link where
  init : Int
  control : Int
  deriving DecidableEq, Repr

def Link.Up (link : Link) : Prop := link.init = 0 ∧ link.control = 0

/-- The commands once the flash is known. -/
def biffjtagCommand (banner : String) (fuel base : Nat) (command fname : String) (h : Host σ) :
    Option (Host σ) :=
  if command = "dump" then some (dumpBios B fname h)
  else if command = "erase" then eraseBootloader B fuel h
  else if command = "program" then (eraseBootloader B fuel h).map (programBootloader B fname)
  else if command = "mac" then some (dumpMac B base h)
  else if command = "dumpconfig" then some (dumpConfig B base h)
  else if command = "programconfig" then programConfig B fuel base "config.bin" h
  else if command = "dumpall" then some (dumpAll B base fname h)
  else some (help banner h)

/-- The exit status, and what is left. -/
def biffjtagMain (banner : String) (fuel : Nat) (link : Link) (argv : List String) (h : Host σ) :
    Option (Int × Host σ) :=
  match argv with
  | [_, command, fname] =>
    if link.init ≠ 0 then some (-1, h.printf "Error: Unable to init JTAG\n\n")
    else if link.control ≠ 0 then
      some (1, h.printf ("Unable to run code (" ++ fmtX (link.control % 2 ^ 32).toNat ++ ")\n"))
    else
      let found := manufacturer B h
      if found.1 = 0 then some (1, found.2)
      else (biffjtagCommand B banner fuel found.1 command fname found.2).map fun h => (0, h)
  | _ => some (-1, help banner (h.printf "Invalid parameters\n"))

end

/-! ## On a NOR chip -/

section
variable (g : Geometry) (t : Timing)

theorem boot_offset : 0xffff0000 - g.base = g.kernelSize := by
  obtain rfl | rfl | rfl := g.cases <;> decide

theorem base_le : g.base ≤ 0xffff0000 := by
  obtain rfl | rfl | rfl := g.cases <;> decide

/-- Over erased words the loop programs the whole buffer, the words it skips
included. -/
theorem programFrom_nor {addr limit off words : Nat} (buffer : Nat → Byte) {h : Host Chip}
    (ready : h.hw.Ready) (above : g.base ≤ addr) (covered : limit ≤ off + 2 * words)
    (tight : off + 2 * words ≤ limit + 1)
    (blank : h.hw.mem.Blank (addr - g.base + off) (addr - g.base + off + 2 * words)) :
    ∃ c : Chip, c.Ready ∧ c.mem = h.hw.mem.programBytes (addr - g.base + off) (2 * words)
        (fun i => buffer (off + i)) ∧
      programFrom (g.jtagBus t) addr limit buffer off h = h.withChip c := by
  induction words generalizing off h with
  | zero =>
    rw [programFrom, if_neg (by omega)]
    exact ⟨h.hw, ready, by simp, rfl⟩
  | succ words ih =>
    have place : addr + off - g.base = addr - g.base + off := by omega
    have lo := blank (addr - g.base + off) (Nat.le_refl _) (by omega)
    have hi := blank (addr - g.base + off + 1) (by omega) (by omega)
    generalize word : shortAt buffer off = val
    have joined (mem : Mem) : (mem.program (addr - g.base + off) val).programBytes
        (addr - g.base + (off + 2)) (2 * words) (fun i => buffer (off + 2 + i)) =
        mem.programBytes (addr - g.base + off) (2 * (words + 1)) (fun i => buffer (off + i)) := by
      have step := mem.programBytes_add_two (addr - g.base + off) (2 * words)
        (fun i => buffer (off + i))
      rw [← word, shortAt, ← Nat.add_assoc, show 2 * (words + 1) = 2 * words + 2 by omega, ← step]
      simp only [Nat.add_zero, Nat.add_assoc, Nat.add_comm 2]
    rw [programFrom, if_pos (by omega), word]
    by_cases skipped : val = 0xffff#16
    · rw [if_pos skipped]
      obtain ⟨c, ready', mem, run⟩ := ih ready (show limit ≤ off + 2 + 2 * words by omega) (by omega)
        (fun x lo hi => blank x (by omega) (by omega))
      refine ⟨c, ready', ?_, run⟩
      rw [mem, ← joined, skipped, Mem.program_ones]
    · have programmed := rdcEonProgram_nor g t val ready (place ▸ lo) (place ▸ hi)
      rw [if_neg skipped, programmed, place, if_neg (not_not_intro rfl)]
      obtain ⟨c, ready', mem, run⟩ := ih
        (h := h.withChip (h.hw.programmed (h.hw.mem.program (addr - g.base + off) val)))
        (ready.programmed _) (show limit ≤ off + 2 + 2 * words by omega) (by omega) (by
          intro x lo hi
          exact (h.hw.mem.program_frame _ val (by omega) (by omega)).trans
            (blank x (by omega) (by omega)))
      refine ⟨c, ready', ?_, run⟩
      rw [mem, ← joined]
      rfl

theorem manufacturer_nor {h : Host Chip} (ready : h.hw.Ready) :
    ∃ text, manufacturer (g.jtagBus t) h = (g.base, h.printf text) := by
  simp only [manufacturer, rdcDetect_nor g t ready]
  obtain rfl | rfl | rfl := g.cases
  · exact ⟨"Detected: EN29LV800B\n", rfl⟩
  · exact ⟨"Detected: EN29LV320B\n", rfl⟩
  · exact ⟨"Detected: EN29LV640B\n", rfl⟩

theorem eraseBootloader_nor {fuel : Nat} {h : Host Chip} (ready : h.hw.Ready) (enough : 0x100000 ≤ fuel) :
    eraseBootloader (g.jtagBus t) fuel h = some ((h.printf "Erasing\n").withChip
      (h.hw.programmed (h.hw.mem.erase g.kernelSize g.size))) := by
  obtain ⟨start, stop⟩ := boot_sector g
  have size := g.sized.size_eq
  have within : 0xffff0000 - g.base + 1 < g.layout.stop (0xffff0000 - g.base) := by
    rw [boot_offset, stop]
    omega
  have erased := rdcEonSectorErase_nor g t (h := h.printf "Erasing\n") ready within enough
  rw [boot_offset, start, stop] at erased
  exact erased

/-- The flash after `biffjtag program`: a file of at least 64 KB is in the boot
sector, otherwise the boot sector is left erased. -/
def afterProgram (fm : Flashmap) (file : Option (List Byte)) (mem : Mem) : Mem :=
  match file with
  | some bytes =>
    if 0x10000 ≤ bytes.length then installed fm bytes mem else mem.erase fm.kernelSize fm.size
  | none => mem.erase fm.kernelSize fm.size

theorem afterProgram_whole (fm : Flashmap) {bytes : List Byte} (mem : Mem)
    (whole : 0x10000 ≤ bytes.length) : afterProgram fm (some bytes) mem = installed fm bytes mem :=
  if_pos whole

theorem afterProgram_short (fm : Flashmap) {bytes : List Byte} (mem : Mem)
    (short : ¬ 0x10000 ≤ bytes.length) :
    afterProgram fm (some bytes) mem = mem.erase fm.kernelSize fm.size :=
  if_neg short

/-- Programming the erased boot sector. -/
theorem programBootloader_nor (fname : String) {h : Host Chip} (ready : h.hw.Ready) {mem : Mem}
    (erased : h.hw.mem = mem.erase g.kernelSize g.size) :
    (programBootloader (g.jtagBus t) fname h).hw.mem =
      afterProgram g.toFlashmap (h.files fname) mem := by
  have size := g.sized.size_eq
  have files : (h.printf ("Programming " ++ fname ++ "\n")).files fname = h.files fname := rfl
  simp only [programBootloader, files]
  cases h.files fname with
  | none => exact erased
  | some bytes =>
    by_cases whole : 0x10000 ≤ bytes.length
    · have offset : 0xffff0000 - g.base + 0 = g.kernelSize := boot_offset g
      obtain ⟨c, ready', flash, run⟩ := programFrom_nor g t
        ((readFile (some bytes) 0x10000).2.getD · 0#8)
        (h := h.printf ("Programming " ++ fname ++ "\n")) ready (base_le g)
        (show 0xffff ≤ 0 + 2 * 0x8000 by decide) (by decide) (by
          rw [offset]
          intro x lo hi
          exact (congrFun erased x).trans (mem.erase_inside lo (by omega)))
      have first (i : Nat) (inside : i < 0x10000) :
          (readFile (some bytes) 0x10000).2.getD (0 + i) 0#8 = bytes.getD i 0#8 := by
        rw [readFile, Nat.zero_add, List.getD_eq_getElem?_getD, List.getElem?_take_of_lt inside,
          List.getD_eq_getElem?_getD]
      have full : ¬ (readFile (some bytes) 0x10000).1 ≠ 0x10000 := by
        rw [readFile]
        omega
      rw [if_neg full, run, afterProgram_whole _ mem whole, Host.withChip_hw, flash, offset,
        ← erase_program_installed, ← erased]
      exact Mem.programBytes_congr _ _ _ first
    · have short : (readFile (some bytes) 0x10000).1 ≠ 0x10000 := by
        rw [readFile]
        omega
      rw [if_pos short, afterProgram_short _ mem whole]
      exact erased

/-- `biffjtag program` comes to an end, and what it leaves. -/
theorem biffjtag_program (mem : Mem) (files : String → Option (List Byte))
    (banner name fname : String) {link : Link} (up : link.Up) :
    ∃ h : Host Chip, h.hw.mem = afterProgram g.toFlashmap (files fname) mem ∧
      Returns (fun fuel => biffjtagMain (g.jtagBus t) banner fuel link [name, "program", fname]
        ⟨idleChip mem, [], files⟩) (0, h) := by
  have ready := idleChip_ready mem
  obtain ⟨text, found⟩ := manufacturer_nor g t (h := ⟨idleChip mem, [], files⟩) ready
  have known : g.base ≠ 0 := by
    obtain rfl | rfl | rfl := g.cases <;> decide
  have flash := programBootloader_nor g t fname
    (h := ((Host.printf ⟨idleChip mem, [], files⟩ text).printf "Erasing\n").withChip
      ((idleChip mem).programmed (mem.erase g.kernelSize g.size))) (ready.programmed _) rfl
  refine ⟨_, flash, 0x100000, ?_⟩
  intro fuel enough
  have erased := eraseBootloader_nor g t (h := Host.printf ⟨idleChip mem, [], files⟩ text) ready enough
  have command : biffjtagCommand (g.jtagBus t) banner fuel g.base "program" fname
      (Host.printf ⟨idleChip mem, [], files⟩ text) =
      (eraseBootloader (g.jtagBus t) fuel (Host.printf ⟨idleChip mem, [], files⟩ text)).map
        (programBootloader (g.jtagBus t) fname) := rfl
  simp only [biffjtagMain, up.1, up.2, found, command, erased, known, ne_eq, not_true_eq_false,
    ↓reduceIte, Option.map_some, Host.printf_hw, idleChip_mem]

/-- Without the link nothing happens to the flash. -/
theorem biffjtag_down {σ : Type} (B : Bus σ) (h : Host σ) (banner name command fname : String)
    {link : Link} (down : ¬ link.Up) : ∃ code h', h'.hw = h.hw ∧
      Returns (fun fuel => biffjtagMain B banner fuel link [name, command, fname] h) (code, h') := by
  by_cases first : link.init = 0
  · have second : link.control ≠ 0 := fun zero => down ⟨first, zero⟩
    refine ⟨1, h.printf ("Unable to run code (" ++ fmtX (link.control % 2 ^ 32).toNat ++ ")\n"), rfl,
      0, fun fuel _ => ?_⟩
    simp only [biffjtagMain, first, second, ne_eq, not_true_eq_false, not_false_eq_true, ↓reduceIte]
  · refine ⟨-1, h.printf "Error: Unable to init JTAG\n\n", rfl, 0, fun fuel _ => ?_⟩
    simp only [biffjtagMain, first, ne_eq, not_false_eq_true, ↓reduceIte]

/-! ## Both ways to a new bootloader -/

/-- A bootloader file of exactly the right size. -/
def Complete (file : Option (List Byte)) : Prop := ∃ bytes, file = some bytes ∧ bytes.length = 0x10000

/-- The boot sector already is what `biffjtag program` leaves there for a file
that is not complete. -/
def NothingToLose (fm : Flashmap) (file : Option (List Byte)) (mem : Mem) : Prop :=
  match file with
  | none => mem.Blank fm.kernelSize fm.size
  | some bytes =>
    if bytes.length < 0x10000 then mem.Blank fm.kernelSize fm.size
    else ∀ i < 0x10000, mem (fm.kernelSize + i) = bytes.getD i 0#8

theorem erase_eq_iff (mem : Mem) (start stop : Nat) : mem.erase start stop = mem ↔ mem.Blank start stop := by
  constructor
  · intro same x lo hi
    rw [← same]
    exact mem.erase_inside lo hi
  · exact Mem.Blank.erase_eq

theorem installed_eq_iff (bytes : List Byte) (mem : Mem) : installed g.toFlashmap bytes mem = mem ↔
    ∀ i < 0x10000, mem (g.kernelSize + i) = bytes.getD i 0#8 := by
  have size := g.sized.size_eq
  constructor
  · intro same i inside
    rw [← same, installed, if_pos (by omega), Nat.add_sub_cancel_left]
  · intro holds
    funext x
    by_cases inside : g.kernelSize ≤ x ∧ x < g.size
    · have here := holds (x - g.kernelSize) (by omega)
      rw [Nat.add_sub_cancel' inside.1] at here
      rw [installed, if_pos inside, here]
    · rw [installed, if_neg inside]

theorem afterProgram_eq_iff (file : Option (List Byte)) (mem : Mem) :
    afterProgram g.toFlashmap file mem = mem ↔ NothingToLose g.toFlashmap file mem := by
  cases file with
  | none => exact erase_eq_iff mem _ _
  | some bytes =>
    rw [NothingToLose]
    by_cases whole : 0x10000 ≤ bytes.length
    · rw [afterProgram_whole _ _ whole, if_neg (Nat.not_lt_of_le whole)]
      exact installed_eq_iff g bytes mem
    · rw [afterProgram_short _ _ whole, if_pos (Nat.lt_of_not_le whole)]
      exact erase_eq_iff mem _ _

/-- An image that is not usable leaves the flash as it was, whichever way it is
supplied: `/dev/biffboot` never touches it, and `biffjtag program` ends without
a change. -/
structure UnusableKept (mem : Mem) (ops : List BootOp) (link : Link) (banner name fname : String)
    (files : String → Option (List Byte)) : Prop where
  biffboot : ¬ Usable (supplied ops) →
    (runBoot (g.part t).bus g.toFlashmap ops (bootOn mem)).2.world.hw.mem = mem
  biffjtag : ¬ Complete (files fname) → ∃ code h, h.hw.mem = mem ∧
    Returns (fun fuel => biffjtagMain (g.jtagBus t) banner fuel link [name, "program", fname]
      ⟨idleChip mem, [], files⟩) (code, h)

/-- `/dev/biffboot` always keeps the flash. `biffjtag program` erases before it
reads, so it does only if it never gets that far, the file is complete, or
there was nothing to lose. -/
theorem unusable_kept_iff (mem : Mem) (ops : List BootOp) (link : Link) (banner name fname : String)
    (files : String → Option (List Byte)) :
    UnusableKept g t mem ops link banner name fname files ↔
      ¬ link.Up ∨ Complete (files fname) ∨ NothingToLose g.toFlashmap (files fname) mem := by
  constructor
  · intro kept
    by_cases up : link.Up
    · right
      by_cases complete : Complete (files fname)
      · exact .inl complete
      · right
        obtain ⟨code, h, same, ends⟩ := kept.biffjtag complete
        obtain ⟨h', flash, ends'⟩ := biffjtag_program g t mem files banner name fname up
        obtain ⟨-, rfl⟩ := Prod.mk.inj (ends.unique ends')
        exact (afterProgram_eq_iff g _ mem).mp (flash.symm.trans same)
    · exact .inl up
  · intro harmless
    constructor
    · intro unusable
      rw [runBoot_flash t mem ops, if_neg unusable]
    · intro incomplete
      by_cases up : link.Up
      · have nothing : NothingToLose g.toFlashmap (files fname) mem := by
          rcases harmless with down | complete | nothing
          · exact absurd up down
          · exact absurd complete incomplete
          · exact nothing
        obtain ⟨h, flash, ends⟩ := biffjtag_program g t mem files banner name fname up
        exact ⟨0, h, flash.trans ((afterProgram_eq_iff g _ mem).mpr nothing), ends⟩
      · obtain ⟨code, h, same, ends⟩ := biffjtag_down (g.jtagBus t) ⟨idleChip mem, [], files⟩ banner
          name "program" fname up
        exact ⟨code, h, congrArg Chip.mem same, ends⟩

/-- With no file of that name the boot sector of a working board is erased. -/
theorem missing_file_erases :
    (∀ banner : String, ∃ h, h.hw.mem Geometry.en640.kernelSize = 0xff#8 ∧
      Returns (fun fuel => biffjtagMain (Geometry.en640.jtagBus .instant) banner fuel ⟨0, 0⟩
        ["biffjtag", "program", "biffboot.bin"] ⟨idleChip fun _ => 0#8, [], fun _ => none⟩) (0, h)) ∧
    ∀ banner : String, ¬ UnusableKept Geometry.en640 .instant (fun _ => 0#8) [] ⟨0, 0⟩ banner "biffjtag"
      "biffboot.bin" fun _ => none := by
  have erases (banner : String) : ∃ h, h.hw.mem Geometry.en640.kernelSize = 0xff#8 ∧
      Returns (fun fuel => biffjtagMain (Geometry.en640.jtagBus .instant) banner fuel ⟨0, 0⟩
        ["biffjtag", "program", "biffboot.bin"] ⟨idleChip fun _ => 0#8, [], fun _ => none⟩) (0, h) := by
    obtain ⟨h, flash, ends⟩ := biffjtag_program Geometry.en640 .instant (fun _ => 0#8) (fun _ => none)
      banner "biffjtag" "biffboot.bin" (show Link.Up ⟨0, 0⟩ from ⟨rfl, rfl⟩)
    refine ⟨h, ?_, ends⟩
    rw [flash]
    exact Mem.erase_inside (fun _ => 0#8) (Nat.le_refl _) (kernelSize_lt_size Geometry.en640)
  refine ⟨erases, fun banner kept => ?_⟩
  obtain ⟨h, erased, ends⟩ := erases banner
  obtain ⟨code, h', same, ends'⟩ := kept.biffjtag (by rintro ⟨bytes, none, -⟩; cases none)
  obtain ⟨-, rfl⟩ := Prod.mk.inj (ends.unique ends')
  rw [same] at erased
  exact absurd erased (by decide)

/-- A good image is written exactly, both ways and however it is cut into
calls, and nothing below the boot sector changes. -/
theorem good_image_installed (mem : Mem) (b : List Byte) (whole : b.length = 0x10000) :
    (sanityCheck (b.getD · 0#8) = true → ∀ calls : List (List Byte), calls.flatten = b →
      (runBoot (g.part t).bus g.toFlashmap (calls.map .write) (bootOn mem)).1 =
        calls.map (fun ubuf => (ubuf.length : Int)) ∧
      (runBoot (g.part t).bus g.toFlashmap (calls.map .write) (bootOn mem)).2.world.hw.mem =
        installed g.toFlashmap b mem) ∧
    (∀ (link : Link) (banner name fname : String) (files : String → Option (List Byte)), link.Up →
      files fname = some b → ∃ h, h.hw.mem = installed g.toFlashmap b mem ∧
        Returns (fun fuel => biffjtagMain (g.jtagBus t) banner fuel link [name, "program", fname]
          ⟨idleChip mem, [], files⟩) (0, h)) ∧
    (∀ i < 0x10000, installed g.toFlashmap b mem (g.kernelSize + i) = b.getD i 0#8) ∧
    ∀ x < g.kernelSize, installed g.toFlashmap b mem x = mem x := by
  have size := g.sized.size_eq
  refine ⟨?_, ?_, ?_, ?_⟩
  · rintro sane calls rfl
    have fits : ([] : List Byte).length + calls.flatten.length ≤ 0x10000 := by
      rw [whole]
      decide
    have image : supplied (calls.map .write) = calls.flatten := supply_writes [] calls fits
    refine ⟨runBoot_returns _ _ Held.fresh calls ⟨whole, sane⟩, ?_⟩
    rw [runBoot_flash t mem, image, if_pos ⟨whole, sane⟩]
  · intro link banner name fname files up file
    obtain ⟨h, flash, ends⟩ := biffjtag_program g t mem files banner name fname up
    rw [file, afterProgram_whole _ _ (Nat.le_of_eq whole.symm)] at flash
    exact ⟨h, flash, ends⟩
  · intro i inside
    rw [installed, if_pos (by omega), Nat.add_sub_cancel_left]
  · intro x below
    rw [installed, if_neg (by omega)]

/-- In one call, over zeros. -/
theorem bareBiffboot_installed :
    (runBoot (Geometry.en640.part .instant).bus Geometry.en640.toFlashmap
      [.write ((List.range 0x10000).map bareBiffboot)] (bootOn fun _ => 0#8)).2.world.hw.mem =
      installed Geometry.en640.toFlashmap ((List.range 0x10000).map bareBiffboot) fun _ => 0#8 := by
  obtain ⟨whole, sane⟩ := bareBiffboot_usable
  generalize (List.range 0x10000).map bareBiffboot = b at whole sane ⊢
  exact ((good_image_installed Geometry.en640 .instant (fun _ => 0#8) b whole).1 sane [b]
    List.flatten_singleton).2

end

end Bifferboard
