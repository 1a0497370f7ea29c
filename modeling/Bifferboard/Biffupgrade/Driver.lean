import Bifferboard.Biffnor.Boot

/-!
# The BIOS upgrade driver

`/dev/biffupgrade` is the older of the two drivers that replace the boot loader. It
maps the last 64 KB of the address space, where the boot sector of the flash is, and
its buffer and its position are global: all who have the device open share them.

`flash_bios` says what a complete buffer becomes on a NOR chip: the same as with
`/dev/biffboot`.
-/

namespace Bifferboard.Biffupgrade
open Nor

/-- What `ioremap` has been given. -/
def ioBase : Nat := 0xffff0000

section
variable {σ : Type} (B : Bus σ)

def writeFlash (addr : Nat) (data : Byte) (w : World σ) : World σ :=
  { w with hw := B.write8 w.hw (ioBase + addr) data }

def writeFlash16 (addr : Nat) (data : Word) (w : World σ) : World σ :=
  { w with hw := B.write16 w.hw (ioBase + addr) data }

/-- The delay argument only burns time. -/
def readFlash (addr : Nat) (w : World σ) : Byte × World σ :=
  if 0x10000 < addr then
    (0#8, w.note (.printk "BIFFUPGRADE: Error reading flash, address too large\n"))
  else ((B.read8 w.hw (ioBase + addr)).1, { w with hw := (B.read8 w.hw (ioBase + addr)).2 })

def eraseCommand (w : World σ) : World σ :=
  let w := writeFlash B 0xaaa 0xaa#8 w
  let w := writeFlash B 0x555 0x55#8 w
  let w := writeFlash B 0xaaa 0x80#8 w
  let w := writeFlash B 0xaaa 0xaa#8 w
  let w := writeFlash B 0x555 0x55#8 w
  writeFlash B 0 0x30#8 (w.note (.erase 0))

/-- The status byte is masked with 0x40 before it is tested for 0x20. -/
def eraseSector (w : World σ) : Int × World σ :=
  let (count, w) := pollStatus (readFlash B 0) (fun c => c &&& 0x40#8 &&& 0x20#8 != 0#8) (eraseCommand B w)
  if 0x100000 < count then (-1, w.note (.printk "BIFFUPGRADE: Timeout erasing sector\n"))
  else (count, w.note (.printk ("BIFFUPGRADE: Sector erased in " ++ fmtD count ++ " ticks\n")))

def programCommand (addr : Nat) (val : Word) (w : World σ) : World σ :=
  let w := writeFlash B 0xaaa 0xaa#8 w
  let w := writeFlash B 0x555 0x55#8 w
  let w := writeFlash B 0xaaa 0xa0#8 w
  writeFlash16 B addr val (w.note (.program addr val))

def programWord (addr : Nat) (val : Word) (w : World σ) : Int × World σ :=
  let (count, w) := pollStatus (readFlash B addr) (fun c => c &&& 0x20#8 != 0#8)
    (programCommand B addr val w)
  if 0x10000 < count then (-1, w) else (count, w)

/-- The loop of `WriteSector` from `count` on. What `ProgramWord` returns is dropped. -/
def writeSectorFrom (writepos : Nat) (buffer : Nat → Byte) (count : Nat) (w : World σ) : World σ :=
  if count < writepos then
    writeSectorFrom writepos buffer (count + 2)
      (programWord B count (asShorts buffer (count / 2)) w).2
  else w
termination_by writepos - count

def writeSector (writepos : Nat) (buffer : Nat → Byte) (w : World σ) : World σ :=
  writeSectorFrom B writepos buffer 0 w

/-- The part of `biffupgrade_write` that is run with a full buffer. What `EraseSector`
returns is dropped. -/
def flushFull (writepos : Nat) (buffer : Nat → Byte) (count : Int) (w : World σ) : Int × World σ :=
  let w := w.note (.printk "BIFFUPGRADE: Write buffer is full, writing to flash now\n")
  if sanityCheck buffer = false then
    (-EINVAL, w.note (.printk
      "BIFFUPGRADE: Doesn't look like Biffboot, refusing to flash it, sorry.\n"))
  else
    let w := w.note (.printk "BIFFUPGRADE: Sanity check passed, erasing BIOS area\n")
    let w := (eraseSector B w).2
    let w := w.note (.printk "BIFFUPGRADE: Writing data, do not switch off until complete\n")
    let w := writeSector B writepos buffer w
    (count, w.note (.printk "BIFFUPGRADE: BIOS area written.  Please reboot.\n"))

theorem flushFull_sane {buffer : Nat → Byte} (sane : sanityCheck buffer = true) (writepos : Nat)
    (count : Int) (w : World σ) :
    ∃ w₁ w₂, w₁.hw = w.hw ∧ w₂.hw = (eraseSector B w₁).2.hw ∧
      (flushFull B writepos buffer count w).1 = count ∧
      (flushFull B writepos buffer count w).2.hw = (writeSector B writepos buffer w₂).hw := by
  have passed : ¬ sanityCheck buffer = false := by
    rw [sane]
    decide
  simp only [flushFull, if_neg passed]
  exact ⟨(w.note _).note _, (eraseSector B ((w.note _).note _)).2.note _, rfl, rfl, trivial, rfl⟩

theorem flushFull_refused {buffer : Nat → Byte} (refused : sanityCheck buffer = false)
    (writepos : Nat) (count : Int) (w : World σ) :
    (flushFull B writepos buffer count w).1 = -EINVAL ∧
      (flushFull B writepos buffer count w).2.hw = w.hw := by
  simp only [flushFull, if_pos refused]
  exact ⟨trivial, rfl⟩

end

/-! ## On a NOR chip -/

section
variable (g : Geometry) (t : Timing)

/-- The processor's bus, where the flash comes last. -/
def biosBus : Bus Chip := (g.part t).bus.mappedAt g.base

theorem ioBase_sub (g : Geometry) (addr : Nat) : ioBase + addr - g.base = g.kernelSize + addr := by
  have last : g.base + g.kernelSize = ioBase := by
    obtain rfl | rfl | rfl := g.cases <;> rfl
  omega

/-- The boot sector starts where the command addresses repeat. -/
theorem command_addr (g : Geometry) (a : Nat) : commandAddr (g.kernelSize + a) = commandAddr a := by
  have size : g.kernelSize % 0x1000 = 0 := by
    obtain rfl | rfl | rfl := g.cases <;> rfl
  unfold commandAddr
  omega

variable {w : World Chip} {addr : Nat}

theorem readFlash_bios (inside : addr ≤ 0x10000) :
    readFlash (biosBus g t) addr = Bifferboard.readFlash (g.part t).bus (g.kernelSize + addr) := by
  funext w
  rw [readFlash, if_neg (Nat.not_lt_of_le inside)]
  simp only [biosBus, Bus.mappedAt, ioBase_sub, Bifferboard.readFlash]

theorem programCommand_bios (addr : Nat) (val : Word) (ready : w.hw.Ready) :
    programCommand (biosBus g t) addr val w =
      ⟨{ w.hw.programmed (w.hw.mem.program (g.kernelSize + addr) val) with
          busy := t.programTime w.hw.ops }, w.trace ++ [.program addr val]⟩ := by
  have first := (command_addr g 0xaaa).trans unlock1_addr
  have second := (command_addr g 0x555).trans unlock2_addr
  have issued := cycle_program (g.part t) ready first second first
  have kept := cycle_setup_mem (g.part t) ready first second first
  simp only [programCommand, writeFlash, writeFlash16, biosBus, Bus.mappedAt, ioBase_sub, Part.bus,
    World.note, issued, kept]
  rfl

theorem eraseCommand_bios (ready : w.hw.Ready) :
    eraseCommand (biosBus g t) w =
      ⟨{ w.hw.programmed (w.hw.mem.erase g.kernelSize g.size) with
          busy := t.eraseTime w.hw.ops }, w.trace ++ [.erase 0]⟩ := by
  have first := (command_addr g 0xaaa).trans unlock1_addr
  have second := (command_addr g 0x555).trans unlock2_addr
  have issued := cycle_erase (g.part t) ready first second first first second
  obtain ⟨start, stop⟩ := boot_sector g
  simp only [eraseCommand, writeFlash, biosBus, Bus.mappedAt, ioBase_sub, Part.bus, World.note,
    issued]
  rw [show (g.part t).layout = g.layout from rfl, Nat.add_zero, start, stop]
  rfl

theorem programWord_bios (inside : addr ≤ 0x10000) (val : Word) (ready : w.hw.Ready) :
    (programWord (biosBus g t) addr val w).2.hw =
      w.hw.programmed (w.hw.mem.program (g.kernelSize + addr) val) := by
  have issued := programCommand_bios g t addr val ready
  obtain ⟨n, -, polled⟩ := pollStatus_nor (g.part t) (fun c => c &&& 0x20#8 != 0#8)
    (g.kernelSize + addr) (programCommand (biosBus g t) addr val w)
    (fun c => by simp [c.status_in_time (g.kernelSize + addr)])
    (by rw [issued]; exact ready.phase_eq)
    (by rw [issued]; exact Nat.le_of_lt (Nat.lt_trans (t.programTime_lt _) (by decide)))
  rw [issued, programmed_finish _ _ _ _ ready] at polled
  rw [programWord, readFlash_bios g t inside, issued, polled]
  dsimp only
  split <;> rfl

theorem eraseSector_bios (ready : w.hw.Ready) :
    (eraseSector (biosBus g t) w).2.hw = w.hw.programmed (w.hw.mem.erase g.kernelSize g.size) := by
  have issued := eraseCommand_bios g t ready
  have quiet : ∀ b : Byte, b &&& 0x40#8 &&& 0x20#8 = 0#8 := by decide
  obtain ⟨n, -, polled⟩ := pollStatus_nor (g.part t) (fun c => c &&& 0x40#8 &&& 0x20#8 != 0#8)
    (g.kernelSize + 0) (eraseCommand (biosBus g t) w) (fun c => by simp [quiet])
    (by rw [issued]; exact ready.phase_eq) (by rw [issued]; exact Nat.le_of_lt (t.eraseTime_lt _))
  rw [issued, programmed_finish _ _ _ _ ready] at polled
  rw [eraseSector, readFlash_bios g t (Nat.zero_le _), issued, polled]
  dsimp only
  split <;> rfl

theorem writeSectorFrom_bios (buffer : Nat → Byte) {count : Nat} (ready : w.hw.Ready)
    (even : count % 2 = 0) (inside : count ≤ 0x10000) :
    (writeSectorFrom (biosBus g t) 0x10000 buffer count w).hw.Ready ∧
      (writeSectorFrom (biosBus g t) 0x10000 buffer count w).hw.mem =
        w.hw.mem.programBytes (g.kernelSize + count) (0x10000 - count)
          (fun i => buffer (count + i)) := by
  generalize left : 0x10000 - count = n
  induction n using Nat.strongRecOn generalizing count w with
  | ind n ih =>
    rw [writeSectorFrom]
    by_cases more : count < 0x10000
    · have programmed := programWord_bios g t inside (asShorts buffer (count / 2)) ready
      rw [if_pos more]
      obtain ⟨m, rfl⟩ : ∃ m, n = m + 2 := ⟨n - 2, by omega⟩
      obtain ⟨ready', mem⟩ := ih m (by omega)
        (w := (programWord (biosBus g t) count (asShorts buffer (count / 2)) w).2)
        (programmed ▸ ready.programmed _) (show (count + 2) % 2 = 0 by omega) (by omega) (by omega)
      refine ⟨ready', mem.trans ?_⟩
      have word : asShorts buffer (count / 2) =
          Word.ofBytes (buffer (count + 0)) (buffer (count + 1)) := by
        rw [asShorts, show 2 * (count / 2) = count by omega]
        rfl
      have shifted : (fun i => buffer (count + 2 + i)) = fun i => buffer (count + (i + 2)) := by
        funext i
        rw [show count + 2 + i = count + (i + 2) by omega]
      rw [programmed, word, shifted]
      exact Mem.programBytes_add_two w.hw.mem (g.kernelSize + count) m fun i => buffer (count + i)
    · rw [if_neg more, show n = 0 by omega, Mem.programBytes_zero]
      exact ⟨ready, rfl⟩

/-- A full buffer that looks like Biffboot gets into the boot sector, and nothing else
is changed. -/
theorem flash_bios {image : List Byte} (sane : sanityCheck (image.getD · 0#8) = true) (count : Int)
    (ready : w.hw.Ready) :
    (flushFull (biosBus g t) 0x10000 (image.getD · 0#8) count w).1 = count ∧
      (flushFull (biosBus g t) 0x10000 (image.getD · 0#8) count w).2.hw.Ready ∧
      (flushFull (biosBus g t) 0x10000 (image.getD · 0#8) count w).2.hw.mem =
        installed g.toFlashmap image w.hw.mem := by
  obtain ⟨w₁, w₂, hw₁, hw₂, returned, hw⟩ := flushFull_sane (biosBus g t) sane 0x10000 count w
  have erased := eraseSector_bios g t (w := w₁) (hw₁ ▸ ready)
  rw [hw₁] at erased
  have hw₃ := hw₂.trans erased
  obtain ⟨ready', mem⟩ := writeSectorFrom_bios g t (w := w₂) (image.getD · 0#8)
    (hw₃ ▸ ready.programmed _) (Nat.zero_mod 2) (Nat.zero_le _)
  rw [hw]
  refine ⟨returned, ready', ?_⟩
  rw [writeSector, mem, hw₃, ← erase_program_installed g image w.hw.mem]
  simp only [Nat.add_zero, Nat.sub_zero, Nat.zero_add]
  rfl

end

end Bifferboard.Biffupgrade
