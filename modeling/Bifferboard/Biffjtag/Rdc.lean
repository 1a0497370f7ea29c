import Bifferboard.Biffnor.OnNor

/-!
# Flash access over JTAG

The routines of `rdc.c` drive the processor's bus from outside, so the flash
is seen at its place at the top of the address space and in 16-bit accesses
only. `rdc_EonSectorErase` waits without a limit for the sector to read
`0xffff`; its model takes fuel, and `Returns` says that enough of it gives a
result.
-/

namespace Bifferboard
open Nor

/-- The process that runs the tool: the hardware behind the JTAG link, what has
been printed, and the files. -/
structure Host (σ : Type) where
  hw : σ
  out : List String
  files : String → Option (List Byte)

def Host.printf {σ : Type} (h : Host σ) (text : String) : Host σ := { h with out := h.out ++ [text] }

@[simp] theorem Host.printf_hw {σ : Type} (h : Host σ) (text : String) : (h.printf text).hw = h.hw := rfl

/-- A computation that takes fuel ends, with this result. -/
def Returns {α : Type} (run : Nat → Option α) (result : α) : Prop :=
  ∃ enough, ∀ fuel ≥ enough, run fuel = some result

theorem Returns.unique {α : Type} {run : Nat → Option α} {r r' : α} (h : Returns run r)
    (h' : Returns run r') : r = r' := by
  obtain ⟨n, eq⟩ := h
  obtain ⟨n', eq'⟩ := h'
  have both := (eq (max n n') (Nat.le_max_left _ _)).symm.trans (eq' (max n n') (Nat.le_max_right _ _))
  exact Option.some.inj both

theorem Returns.map {α β : Type} {run : Nat → Option α} {result : α} (h : Returns run result)
    (f : α → β) : Returns (fun fuel => (run fuel).map f) (f result) := by
  obtain ⟨enough, eq⟩ := h
  exact ⟨enough, fun fuel more => congrArg (Option.map f) (eq fuel more)⟩

section
variable {σ : Type} (B : Bus σ)

def jtagWriteMem16 (addr : Nat) (val : Word) (h : Host σ) : Host σ :=
  { h with hw := B.write16 h.hw addr val }

def jtagReadMem16 (addr : Nat) (h : Host σ) : Word × Host σ :=
  ((B.read16 h.hw addr).1, { h with hw := (B.read16 h.hw addr).2 })

/-- One byte of the block read that `jtag_MemAccess` starts with command 0x18. -/
def jtagReadMem8 (addr : Nat) (h : Host σ) : Byte × Host σ :=
  ((B.read8 h.hw addr).1, { h with hw := (B.read8 h.hw addr).2 })

/-- The two unlock cycles and a command. -/
def jtagCommand (cmd : Word) (h : Host σ) : Host σ :=
  jtagWriteMem16 B 0xffffaaaa cmd
    (jtagWriteMem16 B 0xffff5554 0x5555#16 (jtagWriteMem16 B 0xffffaaaa 0xaaaa#16 h))

def rdcDetect (h : Host σ) : Dword × Host σ :=
  let maker := jtagReadMem16 B 0xffff0000 (jtagCommand B 0x9090#16 h)
  let bank := jtagReadMem16 B 0xffff0200 maker.2
  let device := jtagReadMem16 B 0xffff0002 bank.2
  let ret := maker.1.setWidth 32 <<< 8 ||| bank.1.setWidth 32
  (ret <<< 16 ||| device.1.setWidth 32, jtagWriteMem16 B 0xffff0000 0xf0f0#16 device.2)

/-- The loop of `rdc_EonSectorErase`, which has no limit of its own. -/
def eraseWait : (fuel : Nat) → (addr : Nat) → Host σ → Option (Host σ)
  | 0, _, _ => none
  | fuel + 1, addr, h =>
    let r := jtagReadMem16 B addr h
    if r.1 = 0xffff#16 then some r.2 else eraseWait fuel addr r.2

def rdcEonSectorErase (fuel addr : Nat) (h : Host σ) : Option (Host σ) :=
  let h := jtagWriteMem16 B 0xffff5554 0x5555#16
    (jtagWriteMem16 B 0xffffaaaa 0xaaaa#16 (jtagCommand B 0x8080#16 h))
  eraseWait B fuel addr (jtagWriteMem16 B addr 0x3030#16 h)

/-- The loop of `rdc_EonProgram` with `left` more mismatches allowed. -/
def programWait (addr : Nat) (value : Word) : (left : Nat) → Host σ → Int × Host σ
  | 0, h =>
    let r := jtagReadMem16 B addr h
    (if value = r.1 then 0 else -1, r.2)
  | left + 1, h =>
    let r := jtagReadMem16 B addr h
    if value = r.1 then (0, r.2) else programWait addr value left r.2

def rdcEonProgram (addr : Nat) (value : Word) (h : Host σ) : Int × Host σ :=
  programWait B addr value 10000000 (jtagWriteMem16 B addr value (jtagCommand B 0xa0a0#16 h))

/-- `DumpMem` for one block of at most 0x80 bytes. -/
def dumpMem : (count : Nat) → (addr : Nat) → Host σ → List Byte × Host σ
  | 0, _, h => ([], h)
  | count + 1, addr, h =>
    let first := jtagReadMem8 B addr h
    let rest := dumpMem count (addr + 1) first.2
    (first.1 :: rest.1, rest.2)

/-- The loop of `rdc_Dump2000` and `rdc_DumpSector`, in blocks of 0x80 bytes. -/
def dumpBlocks : (blocks : Nat) → (addr : Nat) → Host σ → List Byte × Host σ
  | 0, _, h => ([], h)
  | blocks + 1, addr, h =>
    let first := dumpMem B 0x80 addr h
    let rest := dumpBlocks blocks (addr + 0x80) first.2
    (first.1 ++ rest.1, rest.2)

def rdcDump80 (addr : Nat) (h : Host σ) : List Byte × Host σ := dumpMem B 0x80 addr h

def rdcDump2000 (addr : Nat) (h : Host σ) : List Byte × Host σ :=
  let data := dumpBlocks B (0x2000 / 0x80) addr h
  (data.1, data.2.printf "Done\n")

def rdcDumpSector (addr : Nat) (h : Host σ) : List Byte × Host σ :=
  dumpBlocks B (0x10000 / 0x80) addr h

end

/-! ## On a NOR chip -/

/-- The processor's bus with the flash at its place. -/
def Flashmap.jtagBus (fm : Flashmap) (t : Timing) : Bus Chip := (fm.part t).bus.mappedAt fm.base

def Host.withChip (h : Host Chip) (c : Chip) : Host Chip := { h with hw := c }

@[simp] theorem Host.withChip_hw (h : Host Chip) (c : Chip) : (h.withChip c).hw = c := rfl

@[simp] theorem Host.withChip_withChip (h : Host Chip) (c c' : Chip) :
    (h.withChip c).withChip c' = h.withChip c' := rfl

section
variable (fm : Flashmap) (t : Timing)

theorem jtagReadMem16_ready (addr : Nat) {h : Host Chip} (ready : h.hw.Ready) :
    jtagReadMem16 (fm.jtagBus t) addr h = (h.hw.mem.word (addr - fm.base), h) := by
  simp only [jtagReadMem16, Flashmap.jtagBus, Bus.mappedAt, Part.bus, ready.respond]

theorem jtagReadMem16_busy (addr : Nat) {h : Host Chip} (busy : h.hw.busy ≠ 0) :
    jtagReadMem16 (fm.jtagBus t) addr h =
      ((h.hw.status (addr - fm.base)).setWidth 16, h.withChip { h.hw with busy := h.hw.busy - 1 }) := by
  simp only [jtagReadMem16, Flashmap.jtagBus, Bus.mappedAt, Part.bus, Chip.respond_busy busy,
    Host.withChip]

/-- A status read never shows `0xffff`, so the loop goes on until the erase is
over. -/
theorem eraseWait_nor (addr fuel : Nat) (h : Host Chip) (phase : h.hw.phase = .read)
    (erased : h.hw.mem.word (addr - fm.base) = 0xffff#16) (enough : h.hw.busy < fuel) :
    eraseWait (fm.jtagBus t) fuel addr h = some (h.withChip h.hw.finished) := by
  induction fuel generalizing h with
  | zero => exact absurd enough (Nat.not_lt_zero _)
  | succ fuel ih =>
    rw [eraseWait]
    by_cases idle : h.hw.busy = 0
    · simp only [jtagReadMem16_ready fm t addr ⟨phase, idle⟩, erased, ↓reduceIte]
      rw [Chip.finished_of_idle idle]
      rfl
    · simp only [jtagReadMem16_busy fm t addr idle]
      rw [if_neg (Word.setWidth_ne_ones _)]
      exact ih (h.withChip { h.hw with busy := h.hw.busy - 1 }) phase erased
        (show h.hw.busy - 1 < fuel by omega)

/-- A status read never shows the word that is stored, so the loop goes on
until the word is programmed. -/
theorem programWait_nor (addr left : Nat) (value : Word) (h : Host Chip) (phase : h.hw.phase = .read)
    (stored : h.hw.mem.word (addr - fm.base) = value) (enough : h.hw.busy ≤ left) :
    programWait (fm.jtagBus t) addr value left h = (0, h.withChip h.hw.finished) := by
  have done (idle : h.hw.busy = 0) : (h.hw.mem.word (addr - fm.base), h) =
      (value, h.withChip h.hw.finished) := by
    rw [stored, Chip.finished_of_idle idle]
    rfl
  induction left generalizing h with
  | zero =>
    have idle : h.hw.busy = 0 := Nat.le_zero.mp enough
    simp only [programWait, jtagReadMem16_ready fm t addr ⟨phase, idle⟩, done idle, ↓reduceIte]
  | succ left ih =>
    rw [programWait]
    by_cases idle : h.hw.busy = 0
    · simp only [jtagReadMem16_ready fm t addr ⟨phase, idle⟩, done idle, ↓reduceIte]
    · have other : value ≠ (h.hw.status (addr - fm.base)).setWidth 16 := by
        rw [← stored]
        exact (h.hw.status_ne_word _).symm
      simp only [jtagReadMem16_busy fm t addr idle]
      rw [if_neg other]
      apply ih (h.withChip { h.hw with busy := h.hw.busy - 1 }) phase stored
        (show h.hw.busy - 1 ≤ left by omega)
      intro last
      rw [show (h.withChip { h.hw with busy := h.hw.busy - 1 }).hw.mem.word (addr - fm.base) = value
        from stored, Chip.finished_of_idle last]
      rfl

end

section
variable (g : Geometry) (t : Timing)

theorem jtag_unlock1 : commandAddr (0xffffaaaa - g.base) = 0x555 := by
  obtain rfl | rfl | rfl := g.cases <;> decide

theorem jtag_unlock2 : commandAddr (0xffff5554 - g.base) = 0x2aa := by
  obtain rfl | rfl | rfl := g.cases <;> decide

/-- A write goes to the command decoder with its low byte. -/
theorem jtagWriteMem16_nor (addr : Nat) (val : Word) (h : Host Chip) :
    jtagWriteMem16 (g.jtagBus t) addr val h = h.withChip ((g.part t).cycle h.hw (addr - g.base) val.lo
      (h.hw.mem.program (addr - g.base) val)) := rfl

theorem lo_unlock1 : Word.lo 0xaaaa#16 = 0xaa#8 := by decide

theorem lo_unlock2 : Word.lo 0x5555#16 = 0x55#8 := by decide

/-- Erasing the sector of an address comes to an end. -/
theorem rdcEonSectorErase_nor {addr fuel : Nat} {h : Host Chip} (ready : h.hw.Ready)
    (within : addr - g.base + 1 < g.layout.stop (addr - g.base)) (enough : 0x100000 ≤ fuel) :
    rdcEonSectorErase (g.jtagBus t) fuel addr h = some (h.withChip (h.hw.programmed
      (h.hw.mem.erase (g.layout.start (addr - g.base)) (g.layout.stop (addr - g.base))))) := by
  have issued := cycle_erase (g.part t) ready (jtag_unlock1 g) (jtag_unlock2 g) (jtag_unlock1 g)
    (jtag_unlock1 g) (jtag_unlock2 g)
  have first := g.layout.start_le (addr - g.base)
  have erased := Mem.word_blank (h.hw.mem.erase_inside first (Nat.lt_of_succ_lt within))
    (h.hw.mem.erase_inside (Nat.le_succ_of_le first) within)
  simp only [rdcEonSectorErase, jtagCommand, jtagWriteMem16_nor, Host.withChip_hw,
    Host.withChip_withChip, lo_unlock1, lo_unlock2, show Word.lo 0x8080#16 = 0x80#8 by decide,
    show Word.lo 0x3030#16 = 0x30#8 by decide, issued]
  have wait := eraseWait_nor g.toFlashmap t addr fuel (h.withChip { h.hw.programmed (h.hw.mem.erase
    (g.layout.start (addr - g.base)) (g.layout.stop (addr - g.base))) with
      busy := (g.part t).eraseTime h.hw.ops }) ready.phase_eq erased
    (Nat.lt_of_lt_of_le (t.eraseTime_lt _) enough)
  rw [Host.withChip_hw, ready.finished_programmed] at wait
  exact wait

/-- Programming an erased word succeeds. -/
theorem rdcEonProgram_nor {addr : Nat} (value : Word) {h : Host Chip} (ready : h.hw.Ready)
    (lo : h.hw.mem (addr - g.base) = 0xff#8) (hi : h.hw.mem (addr - g.base + 1) = 0xff#8) :
    rdcEonProgram (g.jtagBus t) addr value h =
      (0, h.withChip (h.hw.programmed (h.hw.mem.program (addr - g.base) value))) := by
  have issued := cycle_program (g.part t) ready (jtag_unlock1 g) (jtag_unlock2 g) (jtag_unlock1 g)
  have kept := cycle_setup_mem (g.part t) ready (jtag_unlock1 g) (jtag_unlock2 g) (jtag_unlock1 g)
  simp only [rdcEonProgram, jtagCommand, jtagWriteMem16_nor, Host.withChip_hw,
    Host.withChip_withChip, lo_unlock1, lo_unlock2, show Word.lo 0xa0a0#16 = 0xa0#8 by decide,
    issued, kept]
  have time : (g.part t).programTime h.hw.ops ≤ 10000000 :=
    Nat.le_of_lt (Nat.lt_trans (t.programTime_lt h.hw.ops) (by decide))
  have wait := programWait_nor g.toFlashmap t addr 10000000 value (h.withChip
    { h.hw.programmed (h.hw.mem.program (addr - g.base) value) with
      busy := (g.part t).programTime h.hw.ops }) ready.phase_eq (Mem.word_erased value lo hi) time
  rw [Host.withChip_hw, ready.finished_programmed] at wait
  exact wait

theorem jtagReadMem16_ident (addr : Nat) {h : Host Chip} {c : Chip} (ready : c.Ready) :
    jtagReadMem16 (g.jtagBus t) addr (h.withChip { c with phase := .autoselect }) =
      (g.ident (addr - g.base), h.withChip { c with phase := .autoselect }) := by
  simp only [jtagReadMem16, Flashmap.jtagBus, Bus.mappedAt, Part.bus, Host.withChip_hw,
    ready.respond_ident]
  rfl

/-- The identification leaves the chip as it was, and finds the part. -/
theorem rdcDetect_nor {h : Host Chip} (ready : h.hw.Ready) :
    rdcDetect (g.jtagBus t) h = (if g.deviceSize = 1 then 0x7f1c225b#32
      else if g.deviceSize = 4 then 0x7f1c22f9#32 else 0x7f1c22cb#32, h) := by
  have issued := cycle_autoselect (g.part t) ready (jtag_unlock1 g) (jtag_unlock2 g) (jtag_unlock1 g)
  have ended := cycle_reset (g.part t) ready
  simp only [rdcDetect, jtagCommand, jtagWriteMem16_nor, Host.withChip_hw, Host.withChip_withChip,
    lo_unlock1, lo_unlock2, show Word.lo 0x9090#16 = 0x90#8 by decide, issued,
    jtagReadMem16_ident g t _ ready, show Word.lo 0xf0f0#16 = 0xf0#8 by decide, ended]
  rw [Prod.mk.injEq]
  refine ⟨?_, rfl⟩
  obtain rfl | rfl | rfl := g.cases <;> decide

end

end Bifferboard
