import Bifferboard.Nor.Memory

/-!
# A NOR flash chip behind a memory-mapped bus

The chip decodes the usual two unlock cycles and then a program or an erase
command. It programs by conjunction, erases whole sectors, and answers reads
with a status byte while an operation is running: bit 7 is the complement of
the stored bit, bit 6 toggles from read to read and bit 5 (time-out) stays
clear. How many status reads an operation takes is a parameter of the part.

* `Layout.span`: the sector of an address in a list of erase regions;
* `Part.cycle`: one write cycle, with the command decoder;
* `cycle_program`, `cycle_erase`: what a complete command sequence does.
-/

namespace Nor

/-- Accesses to a memory-mapped device with state `σ`. A read may change the
state, as a status read does. -/
structure Bus (σ : Type) where
  write8 : σ → Nat → Byte → σ
  write16 : σ → Nat → Word → σ
  read8 : σ → Nat → Byte × σ
  read16 : σ → Nat → Word × σ
  read32 : σ → Nat → Dword × σ

/-- A bus that takes every write without effect and reads zeros. -/
def Bus.silent : Bus Unit := ⟨fun _ _ _ => (), fun _ _ _ => (), fun _ _ => (0#8, ()),
  fun _ _ => (0#16, ()), fun _ _ => (0#32, ())⟩

/-- A bus on which bit 6 of every byte toggles for ever. -/
def Bus.toggling : Bus Bool :=
  ⟨fun s _ _ => s, fun s _ _ => s, fun s _ => (if s then 0x40#8 else 0#8, !s),
    fun s _ => (0#16, s), fun s _ => (0#32, s)⟩

/-- The device mapped at `base`. -/
def Bus.mappedAt {σ : Type} (B : Bus σ) (base : Nat) : Bus σ where
  write8 s a b := B.write8 s (a - base) b
  write16 s a w := B.write16 s (a - base) w
  read8 s a := B.read8 s (a - base)
  read16 s a := B.read16 s (a - base)
  read32 s a := B.read32 s (a - base)

/-- The same device, with a record of the reads: their address, and how many bytes. -/
def Bus.recorded {σ : Type} (B : Bus σ) : Bus (σ × List (Nat × Nat)) where
  write8 s a b := (B.write8 s.1 a b, s.2)
  write16 s a w := (B.write16 s.1 a w, s.2)
  read8 s a := ((B.read8 s.1 a).1, ((B.read8 s.1 a).2, s.2 ++ [(a, 1)]))
  read16 s a := ((B.read16 s.1 a).1, ((B.read16 s.1 a).2, s.2 ++ [(a, 2)]))
  read32 s a := ((B.read32 s.1 a).1, ((B.read32 s.1 a).2, s.2 ++ [(a, 4)]))

/-- In state `s` reads show `mem` and leave the device as it is. -/
structure Bus.Shows {σ : Type} (B : Bus σ) (s : σ) (mem : Mem) : Prop where
  read8_eq : ∀ a, B.read8 s a = (mem a, s)
  read16_eq : ∀ a, B.read16 s a = (mem.word a, s)
  read32_eq : ∀ a, B.read32 s a = (mem.dword a, s)

/-! ## Sectors -/

/-- Erase regions from address 0 on: how many sectors, and of what size. -/
abbrev Layout := List (Nat × Nat)

namespace Layout

/-- Start and end of the sector of `a` among the regions from `base` on. An
address behind the last region is a sector of its own. -/
def spanFrom : Layout → Nat → Nat → Nat × Nat
  | [], _, a => (a, a + 1)
  | (count, size) :: rest, base, a =>
    if a < base + count * size then
      (base + (a - base) / size * size, base + (a - base) / size * size + size)
    else spanFrom rest (base + count * size) a

def start (l : Layout) (a : Nat) : Nat := (l.spanFrom 0 a).1

def stop (l : Layout) (a : Nat) : Nat := (l.spanFrom 0 a).2

theorem spanFrom_contains (l : Layout) (base a : Nat) (h : base ≤ a) :
    (l.spanFrom base a).1 ≤ a ∧ a < (l.spanFrom base a).2 := by
  induction l generalizing base with
  | nil => simp [spanFrom]
  | cons region rest ih =>
    obtain ⟨count, size⟩ := region
    simp only [spanFrom]
    split
    · rename_i inside
      have positive : 0 < size := by
        rcases Nat.eq_zero_or_pos size with zero | positive
        · subst zero; omega
        · exact positive
      have floor := Nat.div_mul_le_self (a - base) size
      have ceil := Nat.lt_div_mul_add positive (a := a - base)
      simp only
      omega
    · exact ih (base + count * size) (by omega)

theorem start_le (l : Layout) (a : Nat) : l.start a ≤ a := (l.spanFrom_contains 0 a (Nat.zero_le _)).1

theorem lt_stop (l : Layout) (a : Nat) : a < l.stop a := (l.spanFrom_contains 0 a (Nat.zero_le _)).2

end Layout

/-! ## The chip -/

/-- Where the command decoder stands. -/
inductive Phase where
  | read
  | unlock1
  | unlock2
  | program
  | eraseSetup
  | eraseUnlock1
  | eraseUnlock2
  | autoselect
  deriving DecidableEq, Repr

/-- What is fixed for a part: its sectors, its identification codes, and for
the `n`-th operation the number of status reads it stays busy. -/
structure Part where
  layout : Layout
  ident : Nat → Word
  programTime : Nat → Nat
  eraseTime : Nat → Nat

structure Chip where
  mem : Mem
  phase : Phase
  /-- Status reads left until the running operation has finished. -/
  busy : Nat
  /-- Operations started so far. -/
  ops : Nat

/-- Ready for a command, and reads show the array. -/
structure Chip.Ready (c : Chip) : Prop where
  phase_eq : c.phase = .read
  busy_eq : c.busy = 0

/-- Commands are decoded from the low eleven word address lines. -/
def commandAddr (a : Nat) : Nat := a / 2 % 0x800

/-- The chip once the program operation it has started is over. -/
def Chip.programmed (c : Chip) (mem : Mem) : Chip := { c with mem := mem, ops := c.ops + 1 }

/-- The chip once the running operation is over. -/
def Chip.finished (c : Chip) : Chip := { c with busy := 0 }

namespace Part

def Unlock1 (a : Nat) (cmd : Byte) : Prop := commandAddr a = 0x555 ∧ cmd = 0xaa#8

def Unlock2 (a : Nat) (cmd : Byte) : Prop := commandAddr a = 0x2aa ∧ cmd = 0x55#8

instance (a : Nat) (cmd : Byte) : Decidable (Unlock1 a cmd) := inferInstanceAs (Decidable (_ ∧ _))

instance (a : Nat) (cmd : Byte) : Decidable (Unlock2 a cmd) := inferInstanceAs (Decidable (_ ∧ _))

/-- One write cycle. `cmd` is the low byte on the data lines and `programmed`
the memory that results if the cycle is the data cycle of a program command.
Writes during an operation are ignored, and a cycle that does not belong to
the sequence under way returns the decoder to `read`. -/
def cycle (p : Part) (c : Chip) (a : Nat) (cmd : Byte) (programmed : Mem) : Chip :=
  if c.busy ≠ 0 then c
  else match c.phase with
  | .read => { c with phase := if Unlock1 a cmd then .unlock1 else .read }
  | .unlock1 => { c with phase := if Unlock2 a cmd then .unlock2 else .read }
  | .unlock2 =>
    if commandAddr a ≠ 0x555 then { c with phase := .read }
    else if cmd = 0xa0#8 then { c with phase := .program }
    else if cmd = 0x80#8 then { c with phase := .eraseSetup }
    else if cmd = 0x90#8 then { c with phase := .autoselect }
    else { c with phase := .read }
  | .program =>
    { c with mem := programmed, phase := .read, busy := p.programTime c.ops, ops := c.ops + 1 }
  | .eraseSetup => { c with phase := if Unlock1 a cmd then .eraseUnlock1 else .read }
  | .eraseUnlock1 => { c with phase := if Unlock2 a cmd then .eraseUnlock2 else .read }
  | .eraseUnlock2 =>
    if cmd = 0x30#8 then
      { c with mem := c.mem.erase (p.layout.start a) (p.layout.stop a), phase := .read,
               busy := p.eraseTime c.ops, ops := c.ops + 1 }
    else { c with phase := .read }
  | .autoselect => { c with phase := if cmd = 0xf0#8 then .read else .autoselect }

end Part

/-- The status byte of a running operation. -/
def Chip.status (c : Chip) (a : Nat) : Byte :=
  (~~~ c.mem a &&& 0x80#8) ||| (if c.busy % 2 = 1 then 0x40#8 else 0#8)

/-- A read of any width, given what the status, the identification and the
array look like at that width. -/
def Chip.respond {α : Type} (c : Chip) (status ident array : α) : α × Chip :=
  if c.busy ≠ 0 then (status, { c with busy := c.busy - 1 })
  else if c.phase = .autoselect then (ident, c)
  else (array, c)

def Part.bus (p : Part) : Bus Chip where
  write8 c a b := p.cycle c a b (c.mem.programByte a b)
  write16 c a w := p.cycle c a w.lo (c.mem.program a w)
  read8 c a := c.respond (c.status a) (p.ident a).lo (c.mem a)
  read16 c a := c.respond ((c.status a).setWidth 16) (p.ident a) (c.mem.word a)
  read32 c a := c.respond ((c.status a).setWidth 32) ((p.ident a).setWidth 32) (c.mem.dword a)

theorem Chip.Ready.respond {α : Type} {c : Chip} (h : c.Ready) (status ident array : α) :
    c.respond status ident array = (array, c) := by
  simp [Chip.respond, h.busy_eq, h.phase_eq]

theorem Chip.Ready.shows {c : Chip} (h : c.Ready) (p : Part) : p.bus.Shows c c.mem where
  read8_eq _ := h.respond _ _ _
  read16_eq _ := h.respond _ _ _
  read32_eq _ := h.respond _ _ _

theorem Chip.Ready.respond_ident {α : Type} {c : Chip} (h : c.Ready) (status ident array : α) :
    Chip.respond { c with phase := .autoselect } status ident array =
      (ident, { c with phase := .autoselect }) := by
  simp [Chip.respond, h.busy_eq]

theorem Chip.Ready.programmed {c : Chip} (h : c.Ready) (mem : Mem) : (c.programmed mem).Ready :=
  ⟨h.phase_eq, h.busy_eq⟩

theorem Chip.finished_of_idle {c : Chip} (h : c.busy = 0) : c.finished = c := by
  obtain ⟨mem, phase, busy, ops⟩ := c
  cases h
  rfl

theorem Chip.Ready.finished_programmed {c : Chip} (h : c.Ready) (mem : Mem) (time : Nat) :
    Chip.finished { c.programmed mem with busy := time } = c.programmed mem := by
  obtain ⟨m, phase, busy, ops⟩ := c
  obtain ⟨rfl, rfl⟩ := h
  rfl

/-- While an operation runs, a status read only counts it down. -/
theorem Chip.respond_busy {α : Type} {c : Chip} (h : c.busy ≠ 0) (status ident array : α) :
    c.respond status ident array = (status, { c with busy := c.busy - 1 }) := by
  simp [Chip.respond, h]

section Commands
variable (p : Part) {c : Chip} {a₁ a₂ a₃ a₄ a₅ : Nat}

/-- The two unlock cycles and the set-up cycle of a program command, then the
data cycle: the data is programmed and the operation is running. -/
theorem cycle_program (h : c.Ready) (h₁ : commandAddr a₁ = 0x555) (h₂ : commandAddr a₂ = 0x2aa)
    (h₃ : commandAddr a₃ = 0x555) (m₁ m₂ m₃ mem : Mem) (a : Nat) (cmd : Byte) :
    p.cycle (p.cycle (p.cycle (p.cycle c a₁ 0xaa#8 m₁) a₂ 0x55#8 m₂) a₃ 0xa0#8 m₃) a cmd mem =
      { c.programmed mem with busy := p.programTime c.ops } := by
  obtain ⟨m, phase, busy, ops⟩ := c
  obtain ⟨rfl, rfl⟩ := h
  simp [Part.cycle, Part.Unlock1, Part.Unlock2, Chip.programmed, h₁, h₂, h₃]

/-- The cycles before the data cycle leave the array alone. -/
theorem cycle_setup_mem (h : c.Ready) (h₁ : commandAddr a₁ = 0x555) (h₂ : commandAddr a₂ = 0x2aa)
    (h₃ : commandAddr a₃ = 0x555) (m₁ m₂ m₃ : Mem) :
    (p.cycle (p.cycle (p.cycle c a₁ 0xaa#8 m₁) a₂ 0x55#8 m₂) a₃ 0xa0#8 m₃).mem = c.mem := by
  obtain ⟨m, phase, busy, ops⟩ := c
  obtain ⟨rfl, rfl⟩ := h
  simp [Part.cycle, Part.Unlock1, Part.Unlock2, h₁, h₂, h₃]

/-- The autoselect command. -/
theorem cycle_autoselect (h : c.Ready) (h₁ : commandAddr a₁ = 0x555) (h₂ : commandAddr a₂ = 0x2aa)
    (h₃ : commandAddr a₃ = 0x555) (m₁ m₂ m₃ : Mem) :
    p.cycle (p.cycle (p.cycle c a₁ 0xaa#8 m₁) a₂ 0x55#8 m₂) a₃ 0x90#8 m₃ =
      { c with phase := .autoselect } := by
  obtain ⟨m, phase, busy, ops⟩ := c
  obtain ⟨rfl, rfl⟩ := h
  simp [Part.cycle, Part.Unlock1, Part.Unlock2, h₁, h₂, h₃]

/-- The reset command ends it. -/
theorem cycle_reset (h : c.Ready) (a : Nat) (mem : Mem) :
    p.cycle { c with phase := .autoselect } a 0xf0#8 mem = c := by
  obtain ⟨m, phase, busy, ops⟩ := c
  obtain ⟨rfl, rfl⟩ := h
  simp [Part.cycle]

/-- The six cycles of a sector erase. -/
theorem cycle_erase (h : c.Ready) (h₁ : commandAddr a₁ = 0x555) (h₂ : commandAddr a₂ = 0x2aa)
    (h₃ : commandAddr a₃ = 0x555) (h₄ : commandAddr a₄ = 0x555) (h₅ : commandAddr a₅ = 0x2aa)
    (m₁ m₂ m₃ m₄ m₅ mem : Mem) (a : Nat) :
    p.cycle (p.cycle (p.cycle (p.cycle (p.cycle (p.cycle c a₁ 0xaa#8 m₁) a₂ 0x55#8 m₂)
      a₃ 0x80#8 m₃) a₄ 0xaa#8 m₄) a₅ 0x55#8 m₅) a 0x30#8 mem =
      { c.programmed (c.mem.erase (p.layout.start a) (p.layout.stop a)) with
        busy := p.eraseTime c.ops } := by
  obtain ⟨m, phase, busy, ops⟩ := c
  obtain ⟨rfl, rfl⟩ := h
  simp [Part.cycle, Part.Unlock1, Part.Unlock2, Chip.programmed, h₁, h₂, h₃, h₄, h₅]

end Commands

/-! ## Status bits -/

theorem Chip.status_toggle (c : Chip) (a : Nat) :
    c.status a &&& 0x40#8 = if c.busy % 2 = 1 then 0x40#8 else 0#8 := by
  have toggling : ∀ b : Byte, ((~~~ b &&& 0x80#8) ||| 0x40#8) &&& 0x40#8 = 0x40#8 := by decide
  have still : ∀ b : Byte, ((~~~ b &&& 0x80#8) ||| 0#8) &&& 0x40#8 = 0#8 := by decide
  rw [status]
  split
  · exact toggling _
  · exact still _

/-- What holds of both forms of the status holds of it. -/
theorem Chip.status_forms (c : Chip) (a : Nat) {P : Byte → Byte → Prop}
    (forms : ∀ b, P b ((~~~ b &&& 0x80#8) ||| 0x40#8) ∧ P b ((~~~ b &&& 0x80#8) ||| 0#8)) :
    P (c.mem a) (c.status a) := by
  rw [status]
  split
  · exact (forms _).1
  · exact (forms _).2

theorem Chip.status_in_time (c : Chip) (a : Nat) : c.status a &&& 0x20#8 = 0#8 :=
  c.status_forms a (P := fun _ status => status &&& 0x20#8 = 0#8) (by decide)

/-- Bit 7 of the status is never that of the stored byte. -/
theorem Chip.status_ne_stored (c : Chip) (a : Nat) : c.status a ≠ c.mem a :=
  c.status_forms a (P := fun stored status => status ≠ stored) (by decide)

/-- A status read is taken for no word that is stored. -/
theorem Chip.status_ne_word (c : Chip) (a : Nat) : (c.status a).setWidth 16 ≠ c.mem.word a := by
  intro same
  have low := congrArg Word.lo same
  rw [Word.lo_setWidth, Mem.word, Word.lo_ofBytes] at low
  exact c.status_ne_stored a low

end Nor
