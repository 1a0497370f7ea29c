import Mathlib.Data.List.Induction
import Bifferboard.Biffjtag.Biffjtag

/-!
# `program.py`

The Python tools put a boot loader into the flash over JTAG, as `biffjtag program` does, but
`program.py` looks at nothing: it programs whatever the file holds, word by word, and counts
addresses up beyond the end of the flash. There they begin again at 0, where there should be RAM,
and the flash is left with a program command that is still waiting for its word.

What is below the flash is a parameter. Where it does not keep a word, `program.py` waits for
ever, so `Remembers` says how far it does.

`Tail` follows the flash through the words that go to the RAM.
-/

namespace Bifferboard.RdcPy
open Nor

/-- The memory of the board: the flash, and what is below it. -/
structure Memory (ρ : Type) where
  chip : Chip
  below : ρ

def Memory.withChip {ρ : Type} (m : Memory ρ) (c : Chip) : Memory ρ := { m with chip := c }

def Memory.withBelow {ρ : Type} (m : Memory ρ) (s : ρ) : Memory ρ := { m with below := s }

/-- The processor's bus, with `R` for everything below the flash. Addresses are shifted in with
32 bits. -/
def memoryBus {ρ : Type} (fm : Flashmap) (t : Timing) (R : Bus ρ) : Bus (Memory ρ) where
  write8 m a b :=
    if fm.base ≤ a % 2 ^ 32 then m.withChip ((fm.part t).bus.write8 m.chip (a % 2 ^ 32 - fm.base) b)
    else m.withBelow (R.write8 m.below (a % 2 ^ 32) b)
  write16 m a v :=
    if fm.base ≤ a % 2 ^ 32 then m.withChip ((fm.part t).bus.write16 m.chip (a % 2 ^ 32 - fm.base) v)
    else m.withBelow (R.write16 m.below (a % 2 ^ 32) v)
  read8 m a :=
    if fm.base ≤ a % 2 ^ 32 then
      let r := (fm.part t).bus.read8 m.chip (a % 2 ^ 32 - fm.base)
      (r.1, m.withChip r.2)
    else
      let r := R.read8 m.below (a % 2 ^ 32)
      (r.1, m.withBelow r.2)
  read16 m a :=
    if fm.base ≤ a % 2 ^ 32 then
      let r := (fm.part t).bus.read16 m.chip (a % 2 ^ 32 - fm.base)
      (r.1, m.withChip r.2)
    else
      let r := R.read16 m.below (a % 2 ^ 32)
      (r.1, m.withBelow r.2)
  read32 m a :=
    if fm.base ≤ a % 2 ^ 32 then
      let r := (fm.part t).bus.read32 m.chip (a % 2 ^ 32 - fm.base)
      (r.1, m.withChip r.2)
    else
      let r := R.read32 m.below (a % 2 ^ 32)
      (r.1, m.withBelow r.2)

/-- There is RAM up to `room`: a word that was written there is read back. -/
def Remembers {ρ : Type} (R : Bus ρ) (room : Nat) : Prop :=
  ∀ s a v, a + 2 ≤ room → (R.read16 (R.write16 s a v) a).1 = v

/-- `%08x` and `%04x`. -/
def fmt0x (width n : Nat) : String :=
  String.ofList (List.replicate (width - (fmtX n).length) '0') ++ fmtX n

section
variable {σ : Type} (B : Bus σ)

/-- The loops of `EonSectorErase` and `EonProgram`, which have no limit. `say` is what is printed
about a word that was read. -/
def waitFor (say : Word → Host σ → Host σ) (addr : Nat) (value : Word) :
    (fuel : Nat) → Host σ → Option (Host σ)
  | 0, _ => none
  | fuel + 1, h =>
    let r := jtagReadMem16 B addr h
    if value = r.1 then some (say r.1 r.2) else waitFor say addr value fuel (say r.1 r.2)

def eonSectorErase (fuel addr : Nat) (h : Host σ) : Option (Host σ) :=
  let h := jtagWriteMem16 B 0xffff5554 0x5555#16
    (jtagWriteMem16 B 0xffffaaaa 0xaaaa#16 (jtagCommand B 0x8080#16 h))
  (waitFor B (fun r h => h.printf (fmt0x 8 r.toNat ++ "\n")) addr 0xffff#16 fuel
    (jtagWriteMem16 B addr 0x3030#16 h)).map (·.printf "Erase done\n")

def eonProgram (fuel addr : Nat) (byte : Word) (h : Host σ) : Option (Host σ) :=
  waitFor B (fun _ h => h) addr byte fuel (jtagWriteMem16 B addr byte (jtagCommand B 0xa0a0#16 h))

/-- The loop of `program.py`. A byte that is left over is an error. -/
def programLoop (fuel : Nat) : List Byte → (count : Nat) → Host σ → Option (Except String Unit × Host σ)
  | [], _, h => some (.ok (), h)
  | [_], _, h => some (.error "unpack requires a string argument of length 2", h)
  | lo :: hi :: rest, count, h =>
    let dat := Word.ofBytes lo hi
    let addr := 0xffff0000 + count
    let h := h.printf ("0x" ++ fmt0x 8 addr ++ " <-- 0x" ++ fmt0x 4 dat.toNat ++ "\n")
    if dat ≠ 0xffff#16 then
      (eonProgram B fuel addr dat h).bind (programLoop fuel rest (count + 2))
    else programLoop fuel rest (count + 2) h

/-- What is read back in the end, unless the loop has died. -/
def lastDump : Except String Unit × Host σ → Except String (List Byte) × Host σ
  | (.error e, h) => (.error e, h)
  | (.ok (), h) =>
    let dump := dumpMem B 0x80 0xffff0000 h
    (.ok dump.1, dump.2)

/-- `program.py`, once the link is up. -/
def program (fuel : Nat) (data : List Byte) (h : Host σ) :
    Option (Except String (List Byte) × Host σ) :=
  (eonSectorErase B fuel 0xffff0000 (h.printf "Sector erase\n")).bind fun h =>
    (programLoop B fuel data 0 (h.printf "Programming\n")).map (lastDump B)

/-- A piece of whole words, and then the rest. -/
theorem programLoop_append (fuel : Nat) (data rest : List Byte) (count : Nat) (h : Host σ)
    (even : data.length % 2 = 0) : programLoop B fuel (data ++ rest) count h =
      (programLoop B fuel data count h).bind fun r =>
        programLoop B fuel rest (count + data.length) r.2 := by
  induction data using List.twoStepInduction generalizing count h with
  | nil => rfl
  | singleton b => simp at even
  | cons_cons lo hi data ih _ =>
    have shorter : data.length % 2 = 0 := by
      simp only [List.length_cons] at even
      omega
    have total : count + (lo :: hi :: data).length = count + 2 + data.length := by
      simp only [List.length_cons]
      omega
    rw [total, List.cons_append, List.cons_append, programLoop, programLoop]
    split
    · rw [Option.bind_assoc]
      congr 1
      funext h
      exact ih (count + 2) h shorter
    · exact ih (count + 2) _ shorter

/-! ## Fuel -/

section
variable {B} {fuel fuel' : Nat} (more : fuel ≤ fuel') {h h' : Host σ}
include more

theorem waitFor_mono {say : Word → Host σ → Host σ} {addr : Nat} {value : Word}
    (run : waitFor B say addr value fuel h = some h') :
    waitFor B say addr value fuel' h = some h' := by
  induction fuel generalizing fuel' h with
  | zero => cases run
  | succ fuel ih =>
    obtain ⟨fuel', rfl⟩ : ∃ k, fuel' = k + 1 := ⟨fuel' - 1, by omega⟩
    rw [waitFor] at run ⊢
    split at run
    · rename_i found
      rw [if_pos found]
      exact run
    · rename_i other
      rw [if_neg other]
      exact ih (by omega) run

theorem eonProgram_mono {addr : Nat} {byte : Word} (run : eonProgram B fuel addr byte h = some h') :
    eonProgram B fuel' addr byte h = some h' := waitFor_mono more run

theorem eonSectorErase_mono {addr : Nat} (run : eonSectorErase B fuel addr h = some h') :
    eonSectorErase B fuel' addr h = some h' := by
  obtain ⟨h₁, waited, rfl⟩ := Option.map_eq_some_iff.mp run
  exact Option.map_eq_some_iff.mpr ⟨h₁, waitFor_mono more waited, rfl⟩

theorem programLoop_mono {data : List Byte} {count : Nat} {r : Except String Unit}
    (run : programLoop B fuel data count h = some (r, h')) :
    programLoop B fuel' data count h = some (r, h') := by
  induction data using List.twoStepInduction generalizing count h with
  | nil => exact run
  | singleton b => exact run
  | cons_cons lo hi data ih _ =>
    rw [programLoop] at run ⊢
    split at run
    · rename_i other
      obtain ⟨h₁, programmed, rest⟩ := Option.bind_eq_some_iff.mp run
      rw [if_pos other, eonProgram_mono more programmed]
      exact ih rest
    · rename_i skipped
      rw [if_neg skipped]
      exact ih run

theorem program_mono {data : List Byte} {r : Except String (List Byte)}
    (run : program B fuel data h = some (r, h')) : program B fuel' data h = some (r, h') := by
  obtain ⟨h₁, erased, rest⟩ := Option.bind_eq_some_iff.mp run
  obtain ⟨⟨e, h₂⟩, looped, ended⟩ := Option.map_eq_some_iff.mp rest
  rw [program, eonSectorErase_mono more erased]
  exact Option.map_eq_some_iff.mpr ⟨(e, h₂), programLoop_mono more looped, ended⟩

end

end

/-! ## Accesses -/

section
variable {ρ : Type} (g : Geometry) (t : Timing) (R : Bus ρ) {addr : Nat} {h : Host (Memory ρ)}

/-- The host with another chip. -/
def withChip (h : Host (Memory ρ)) (c : Chip) : Host (Memory ρ) := { h with hw := h.hw.withChip c }

@[simp] theorem withChip_chip (h : Host (Memory ρ)) (c : Chip) : (withChip h c).hw.chip = c := rfl

@[simp] theorem withChip_withChip (h : Host (Memory ρ)) (c c' : Chip) :
    withChip (withChip h c) c' = withChip h c' := rfl

theorem write_flash (lower : g.base ≤ addr) (upper : addr < 2 ^ 32) (val : Word) (h : Host (Memory ρ)) :
    jtagWriteMem16 (memoryBus g.toFlashmap t R) addr val h = withChip h ((g.part t).cycle h.hw.chip
      (addr - g.base) val.lo (h.hw.chip.mem.program (addr - g.base) val)) := by
  simp only [jtagWriteMem16, memoryBus, Nat.mod_eq_of_lt upper, if_pos lower]
  rfl

theorem read_flash (lower : g.base ≤ addr) (upper : addr < 2 ^ 32) (h : Host (Memory ρ)) :
    jtagReadMem16 (memoryBus g.toFlashmap t R) addr h =
      (((g.part t).bus.read16 h.hw.chip (addr - g.base)).1,
        withChip h ((g.part t).bus.read16 h.hw.chip (addr - g.base)).2) := by
  simp only [jtagReadMem16, memoryBus, Nat.mod_eq_of_lt upper, if_pos lower]
  rfl

theorem base_le_unlock : g.base ≤ 0xffffaaaa ∧ g.base ≤ 0xffff5554 := by
  have base := base_le g
  omega

/-- The wait for a word that the flash has. A status read never shows the word that is stored. -/
theorem waitFor_flash (say : Word → Host (Memory ρ) → Host (Memory ρ))
    (silent : ∀ r h, (say r h).hw = h.hw) (lower : g.base ≤ addr) (upper : addr < 2 ^ 32)
    {value : Word} {fuel : Nat} (phase : h.hw.chip.phase = .read)
    (stored : h.hw.chip.mem.word (addr - g.base) = value) (enough : h.hw.chip.busy < fuel) :
    ∃ h', waitFor (memoryBus g.toFlashmap t R) say addr value fuel h = some h' ∧
      h'.hw = h.hw.withChip h.hw.chip.finished := by
  induction fuel generalizing h with
  | zero => exact absurd enough (Nat.not_lt_zero _)
  | succ fuel ih =>
    simp only [waitFor, read_flash g t R lower upper, Part.bus]
    by_cases idle : h.hw.chip.busy = 0
    · have ready : h.hw.chip.Ready := ⟨phase, idle⟩
      rw [ready.respond, stored, if_pos rfl, Chip.finished_of_idle idle]
      exact ⟨_, rfl, silent _ _⟩
    · have other : value ≠ (h.hw.chip.status (addr - g.base)).setWidth 16 := by
        rw [← stored]
        exact (h.hw.chip.status_ne_word _).symm
      rw [Chip.respond_busy idle, if_neg other]
      have said := silent ((h.hw.chip.status (addr - g.base)).setWidth 16)
        (withChip h { h.hw.chip with busy := h.hw.chip.busy - 1 })
      obtain ⟨h', run, hw⟩ := ih (h := say ((h.hw.chip.status (addr - g.base)).setWidth 16)
        (withChip h { h.hw.chip with busy := h.hw.chip.busy - 1 })) (by rw [said]; exact phase)
        (by rw [said]; exact stored) (by
          rw [said]
          change h.hw.chip.busy - 1 < fuel
          omega)
      refine ⟨h', run, hw.trans ?_⟩
      rw [said]
      rfl

/-- Erasing the boot sector comes to an end. -/
theorem eonSectorErase_flash {fuel : Nat} (ready : h.hw.chip.Ready) (enough : 0x100000 ≤ fuel) :
    ∃ h', eonSectorErase (memoryBus g.toFlashmap t R) fuel 0xffff0000 h = some h' ∧
      h'.hw = h.hw.withChip (h.hw.chip.programmed (h.hw.chip.mem.erase g.kernelSize g.size)) := by
  have issued := cycle_erase (g.part t) ready (jtag_unlock1 g) (jtag_unlock2 g) (jtag_unlock1 g)
    (jtag_unlock1 g) (jtag_unlock2 g)
  obtain ⟨start, stop⟩ := boot_sector g
  obtain ⟨first, second⟩ := base_le_unlock g
  have size := g.sized.size_eq
  have erased := Mem.word_blank
    (h.hw.chip.mem.erase_inside (Nat.le_refl g.kernelSize) (show g.kernelSize < g.size by omega))
    (h.hw.chip.mem.erase_inside (Nat.le_succ g.kernelSize) (show g.kernelSize + 1 < g.size by omega))
  generalize erasing : withChip h { h.hw.chip.programmed (h.hw.chip.mem.erase g.kernelSize g.size) with
    busy := t.eraseTime h.hw.chip.ops } = h₁
  have hw₁ : h₁.hw.chip = { h.hw.chip.programmed (h.hw.chip.mem.erase g.kernelSize g.size) with
      busy := t.eraseTime h.hw.chip.ops } := by
    rw [← erasing]
    rfl
  obtain ⟨h', run, hw⟩ := waitFor_flash g t R (h := h₁)
    (fun r h => h.printf (fmt0x 8 r.toNat ++ "\n")) (fun _ _ => rfl) (base_le g)
    (show 0xffff0000 < 2 ^ 32 by decide) (by rw [hw₁]; exact ready.phase_eq)
    (show h₁.hw.chip.mem.word (0xffff0000 - g.base) = 0xffff#16 by rw [hw₁, boot_offset]; exact erased)
    (by rw [hw₁]; exact Nat.lt_of_lt_of_le (t.eraseTime_lt _) enough)
  rw [hw₁, ready.finished_programmed, ← erasing] at hw
  have write₁ := write_flash g t R first (show 0xffffaaaa < 2 ^ 32 by decide)
  have write₂ := write_flash g t R second (show 0xffff5554 < 2 ^ 32 by decide)
  have write₃ := write_flash g t R (base_le g) (show 0xffff0000 < 2 ^ 32 by decide)
  refine ⟨h'.printf "Erase done\n", ?_, hw⟩
  simp only [eonSectorErase, jtagCommand, write₁, write₂, write₃, lo_unlock1, lo_unlock2,
    show Word.lo 0x8080#16 = 0x80#8 by decide, show Word.lo 0x3030#16 = 0x30#8 by decide,
    withChip_chip, withChip_withChip, issued]
  have place : withChip h { h.hw.chip.programmed (h.hw.chip.mem.erase
      ((g.part t).layout.start (0xffff0000 - g.base)) ((g.part t).layout.stop (0xffff0000 - g.base)))
      with busy := (g.part t).eraseTime h.hw.chip.ops } = h₁ := by
    rw [← erasing, boot_offset, show (g.part t).layout = g.layout from rfl, start, stop]
    rfl
  rw [place, run]
  rfl

/-- A program command for a word that is erased. -/
theorem eonProgram_flash (addr : Nat) {fuel : Nat} (value : Word) (ready : h.hw.chip.Ready)
    (lower : g.base ≤ addr) (upper : addr < 2 ^ 32)
    (lo : h.hw.chip.mem (addr - g.base) = 0xff#8) (hi : h.hw.chip.mem (addr - g.base + 1) = 0xff#8)
    (enough : 0x10000 ≤ fuel) :
    ∃ h', eonProgram (memoryBus g.toFlashmap t R) fuel addr value h = some h' ∧
      h'.hw = h.hw.withChip (h.hw.chip.programmed (h.hw.chip.mem.program (addr - g.base) value)) := by
  have issued := cycle_program (g.part t) ready (jtag_unlock1 g) (jtag_unlock2 g) (jtag_unlock1 g)
  have kept := cycle_setup_mem (g.part t) ready (jtag_unlock1 g) (jtag_unlock2 g) (jtag_unlock1 g)
  obtain ⟨first, second⟩ := base_le_unlock g
  have write₁ := write_flash g t R first (show 0xffffaaaa < 2 ^ 32 by decide)
  have write₂ := write_flash g t R second (show 0xffff5554 < 2 ^ 32 by decide)
  generalize started : withChip h { h.hw.chip.programmed (h.hw.chip.mem.program (addr - g.base) value)
    with busy := (g.part t).programTime h.hw.chip.ops } = h₁
  have hw₁ : h₁.hw.chip = { h.hw.chip.programmed (h.hw.chip.mem.program (addr - g.base) value)
      with busy := (g.part t).programTime h.hw.chip.ops } := by
    rw [← started]
    rfl
  obtain ⟨h', run, hw⟩ := waitFor_flash g t R (h := h₁) (fun _ h => h) (fun _ _ => rfl) lower upper
    (by rw [hw₁]; exact ready.phase_eq)
    (show h₁.hw.chip.mem.word (addr - g.base) = value by rw [hw₁]; exact Mem.word_erased value lo hi)
    (by rw [hw₁]; exact Nat.lt_of_lt_of_le (t.programTime_lt _) enough)
  rw [hw₁, ready.finished_programmed, ← started] at hw
  refine ⟨h', ?_, hw⟩
  simp only [eonProgram, jtagCommand, write₁, write₂, write_flash g t R lower upper, lo_unlock1,
    lo_unlock2, show Word.lo 0xa0a0#16 = 0xa0#8 by decide, withChip_chip, withChip_withChip, issued,
    kept, started, run]

/-! ## Inside the sector -/

/-- Whole words that fit into an erased sector. -/
theorem programLoop_flash {fuel : Nat} (enough : 0x10000 ≤ fuel) (data : List Byte) (count : Nat)
    (ready : h.hw.chip.Ready) (even : data.length % 2 = 0) (fits : count + data.length ≤ 0x10000)
    (blank : h.hw.chip.mem.Blank (g.kernelSize + count) g.size) :
    ∃ h', programLoop (memoryBus g.toFlashmap t R) fuel data count h = some (.ok (), h') ∧
      h'.hw.chip.Ready ∧ h'.hw.chip.mem =
        h.hw.chip.mem.programBytes (g.kernelSize + count) data.length (data.getD · 0#8) := by
  have size := g.sized.size_eq
  induction data using List.twoStepInduction generalizing count h with
  | nil => exact ⟨h, rfl, ready, by simp⟩
  | singleton b => simp at even
  | cons_cons lo hi data ih _ =>
    simp only [List.length_cons] at even fits
    have place : 0xffff0000 + count - g.base = g.kernelSize + count := by
      have base := base_le g
      have offset := boot_offset g
      omega
    have joined (mem : Mem) : (mem.program (g.kernelSize + count) (Word.ofBytes lo hi)).programBytes
        (g.kernelSize + (count + 2)) data.length (data.getD · 0#8) =
        mem.programBytes (g.kernelSize + count) (lo :: hi :: data).length
          ((lo :: hi :: data).getD · 0#8) :=
      mem.programBytes_add_two (g.kernelSize + count) data.length ((lo :: hi :: data).getD · 0#8)
    rw [programLoop]
    generalize said : Host.printf h _ = h₁
    have hw₁ : h₁.hw = h.hw := by
      rw [← said]
      rfl
    have ready₁ : h₁.hw.chip.Ready := hw₁ ▸ ready
    split
    · have base := base_le g
      obtain ⟨h₂, run, hw₂⟩ := eonProgram_flash g t R (0xffff0000 + count) (Word.ofBytes lo hi)
        ready₁ (by omega) (by omega)
        (by rw [place, hw₁]; exact blank _ (Nat.le_refl _) (by omega))
        (by rw [place, hw₁]; exact blank _ (by omega) (by omega)) enough
      rw [place, hw₁] at hw₂
      have chip₂ : h₂.hw.chip = h.hw.chip.programmed
          (h.hw.chip.mem.program (g.kernelSize + count) (Word.ofBytes lo hi)) := by
        rw [hw₂]
        rfl
      obtain ⟨h', run', ready', mem⟩ := ih (h := h₂) (count + 2) (chip₂ ▸ ready.programmed _) (by omega)
        (show count + 2 + data.length ≤ 0x10000 by omega) (by
          intro x low high
          rw [chip₂]
          exact (h.hw.chip.mem.program_frame _ _ (by omega) (by omega)).trans
            (blank x (by omega) high))
      refine ⟨h', ?_, ready', ?_⟩
      · rw [run]
        exact run'
      · rw [mem, chip₂, ← joined]
        rfl
    · rename_i skipped
      rw [not_not] at skipped
      obtain ⟨h', run', ready', mem⟩ := ih (h := h₁) (count + 2) ready₁ (by omega)
        (show count + 2 + data.length ≤ 0x10000 by omega) (by
          rw [hw₁]
          intro x low high
          exact blank x (by omega) high)
      refine ⟨h', run', ready', ?_⟩
      rw [mem, ← joined, hw₁, skipped, Mem.program_ones]

/-! ## Beyond the sector -/

/-- The three writes of `EonProgram` that go to the flash wherever the word goes. -/
def unlocked (c : Chip) : Chip :=
  let p := g.part t
  let c := p.cycle c (0xffffaaaa - g.base) 0xaa#8 (c.mem.program (0xffffaaaa - g.base) 0xaaaa#16)
  let c := p.cycle c (0xffff5554 - g.base) 0x55#8 (c.mem.program (0xffff5554 - g.base) 0x5555#16)
  p.cycle c (0xffffaaaa - g.base) 0xa0#8 (c.mem.program (0xffffaaaa - g.base) 0xa0a0#16)

/-- A word that goes to the RAM is there at once. -/
theorem eonProgram_ram {room : Nat} (remembers : Remembers R room) (fuel addr : Nat) (value : Word)
    (h : Host (Memory ρ)) (beyond : 2 ^ 32 ≤ addr) (upper : addr + 2 ≤ 2 ^ 32 + room)
    (below : room ≤ g.base) :
    ∃ h', eonProgram (memoryBus g.toFlashmap t R) (fuel + 1) addr value h = some h' ∧
      h'.hw.chip = unlocked g t h.hw.chip := by
  obtain ⟨first, second⟩ := base_le_unlock g
  have write₁ := write_flash g t R first (show 0xffffaaaa < 2 ^ 32 by decide)
  have write₂ := write_flash g t R second (show 0xffff5554 < 2 ^ 32 by decide)
  have base := base_le g
  have low : ¬ g.base ≤ addr % 2 ^ 32 := by omega
  generalize set : jtagCommand (memoryBus g.toFlashmap t R) 0xa0a0#16 h = h₁
  have chip : h₁.hw.chip = unlocked g t h.hw.chip := by
    rw [← set, jtagCommand, write₁, write₂, write₁]
    rfl
  have written : jtagWriteMem16 (memoryBus g.toFlashmap t R) addr value h₁ =
      { h₁ with hw := h₁.hw.withBelow (R.write16 h₁.hw.below (addr % 2 ^ 32) value) } := by
    simp only [jtagWriteMem16, memoryBus, if_neg low]
  have read (h : Host (Memory ρ)) : jtagReadMem16 (memoryBus g.toFlashmap t R) addr h =
      ((R.read16 h.hw.below (addr % 2 ^ 32)).1,
        { h with hw := h.hw.withBelow (R.read16 h.hw.below (addr % 2 ^ 32)).2 }) := by
    simp only [jtagReadMem16, memoryBus, if_neg low]
  have kept := remembers h₁.hw.below (addr % 2 ^ 32) value (by omega)
  simp only [eonProgram, set, written, waitFor, read, Memory.withBelow, kept, ↓reduceIte]
  exact ⟨_, rfl, chip⟩

/-- The place in the boot sector that is hit by the next unlock cycle, if the flash waits for a
word. -/
def hit (mem : Mem) : Mem := mem.program (g.kernelSize + 0xaaaa) 0xaaaa#16

theorem hit_offset : 0xffffaaaa - g.base = g.kernelSize + 0xaaaa := by
  have base := base_le g
  have offset := boot_offset g
  omega

/-- The flash after `n` words have gone to the RAM, if it held `image` before. After the first
one it waits for a word, and what it gets is the first unlock cycle of the second one. -/
structure Tail (image : Mem) (n : Nat) (c : Chip) : Prop where
  mem : c.mem = if 2 ≤ n then hit g image else image
  waiting : c.phase = .read ∨ c.phase = .program ∧ c.busy = 0
  first : n = 0 → c.Ready
  second : n = 1 → c.phase = .program

theorem Tail.word {image : Mem} {n : Nat} {c : Chip} (h : Tail g image n c) :
    Tail g image (n + 1) (unlocked g t c) := by
  have first := jtag_unlock1 g
  have second := jtag_unlock2 g
  have later (zero : n + 1 = 0) : False := Nat.succ_ne_zero n zero
  rcases h.waiting with reading | ⟨waiting, idle⟩
  · have many : n = 0 ∨ 2 ≤ n := by
      rcases Nat.lt_or_ge n 2 with few | many
      · have other : n ≠ 1 := fun one => by simp [h.second one] at reading
        omega
      · exact .inr many
    by_cases busy : c.busy = 0
    · -- the command is taken, and waits
      have same : unlocked g t c = { c with phase := .program } := by
        simp [unlocked, Part.cycle, Part.Unlock1, Part.Unlock2, reading, busy, first, second]
      rw [same]
      refine ⟨?_, .inr ⟨rfl, busy⟩, fun zero => (later zero).elim, fun _ => rfl⟩
      rcases many with rfl | many
      · exact h.mem
      · exact h.mem.trans (by rw [if_pos many, if_pos (by omega)])
    · -- the word before is still being programmed, and everything is ignored
      have same : unlocked g t c = c := by
        simp [unlocked, Part.cycle, busy]
      have many : 2 ≤ n := many.resolve_left fun none => busy (h.first none).busy_eq
      rw [same]
      refine ⟨?_, .inl reading, fun zero => (later zero).elim, fun one => by omega⟩
      rw [h.mem, if_pos many, if_pos (by omega)]
  · -- the first unlock cycle is taken for the word
    have same : unlocked g t c = { c with
        mem := hit g c.mem, phase := .read, busy := t.programTime c.ops, ops := c.ops + 1 } := by
      have part : (g.part t).programTime = t.programTime := rfl
      by_cases soon : t.programTime c.ops = 0
      · simp [unlocked, Part.cycle, Part.Unlock1, waiting, idle, second, part, soon, hit, hit_offset]
      · simp [unlocked, Part.cycle, waiting, idle, part, soon, hit, hit_offset]
    have some_ : n ≠ 0 := fun none => by simp [(h.first none).phase_eq] at waiting
    rw [same]
    refine ⟨?_, .inl rfl, fun zero => (later zero).elim, fun one => by omega⟩
    rw [if_pos (by omega)]
    change hit g c.mem = hit g image
    rw [h.mem]
    split
    · exact Mem.program_again _ _ _
    · rfl

/-! ## The tool -/

/-- The whole words of a file. -/
def words : List Byte → List Word
  | lo :: hi :: rest => Word.ofBytes lo hi :: words rest
  | _ => []

/-- The words that `program.py` does not skip. -/
def programmed (data : List Byte) : Nat := ((words data).filter (· ≠ 0xffff#16)).length

/-- The words behind the sector. -/
theorem programLoop_ram {room : Nat} (remembers : Remembers R room) (below : room ≤ g.base)
    (fuel : Nat) (data : List Byte) {count n : Nat} {image : Mem}
    (tail : Tail g image n h.hw.chip) (beyond : 0x10000 ≤ count)
    (upper : count + data.length ≤ 0x10000 + room) :
    ∃ r h', programLoop (memoryBus g.toFlashmap t R) (fuel + 1) data count h = some (r, h') ∧
      (r = .ok () ↔ data.length % 2 = 0) ∧ Tail g image (n + programmed data) h'.hw.chip := by
  induction data using List.twoStepInduction generalizing count n h with
  | nil => exact ⟨_, h, rfl, by simp, tail⟩
  | singleton b => exact ⟨_, h, rfl, by simp, tail⟩
  | cons_cons lo hi data ih _ =>
    simp only [List.length_cons] at upper
    have parity : (lo :: hi :: data).length % 2 = 0 ↔ data.length % 2 = 0 := by
      simp only [List.length_cons]
      omega
    rw [programLoop, parity]
    generalize said : Host.printf h _ = h₁
    have hw₁ : h₁.hw = h.hw := by
      rw [← said]
      rfl
    split
    · rename_i other
      obtain ⟨h₂, run, chip⟩ := eonProgram_ram g t R remembers fuel (0xffff0000 + count)
        (Word.ofBytes lo hi) h₁ (by omega) (by omega) below
      rw [hw₁] at chip
      obtain ⟨r, h', run', whole, tail'⟩ := ih (h := h₂) (chip ▸ tail.word g t)
        (show 0x10000 ≤ count + 2 by omega) (by omega)
      refine ⟨r, h', ?_, whole, ?_⟩
      · rw [run]
        exact run'
      · have more : programmed (lo :: hi :: data) = programmed data + 1 := by
          simp [programmed, words, other]
        rw [more, Nat.add_comm _ 1, ← Nat.add_assoc]
        exact tail'
    · rename_i skipped
      obtain ⟨r, h', run', whole, tail'⟩ := ih (h := h₁) (hw₁ ▸ tail)
        (show 0x10000 ≤ count + 2 by omega) (by omega)
      refine ⟨r, h', run', whole, ?_⟩
      have same : programmed (lo :: hi :: data) = programmed data := by
        simp [programmed, words, not_not.mp skipped]
      rw [same]
      exact tail'

/-- The boot sector holds the whole words of the file as far as they go, and is erased from
there on. If two words or more went to the RAM, one word of it is damaged. -/
def afterProgramPy (data : List Byte) (mem : Mem) : Mem :=
  let image : Mem := fun x =>
    if g.kernelSize ≤ x ∧ x < g.size then
      (data.take (2 * (data.length / 2))).getD (x - g.kernelSize) 0xff#8
    else mem x
  if 2 ≤ programmed (data.drop 0x10000) then image.program (g.kernelSize + 0xaaaa) 0xaaaa#16
  else image

theorem image_programmed (data : List Byte) (mem : Mem) {m : Nat}
    (split : m = min (2 * (data.length / 2)) 0x10000) :
    (mem.erase g.kernelSize g.size).programBytes g.kernelSize m ((data.take m).getD · 0#8) =
      fun x => if g.kernelSize ≤ x ∧ x < g.size then
        (data.take (2 * (data.length / 2))).getD (x - g.kernelSize) 0xff#8 else mem x := by
  have size := g.sized.size_eq
  funext x
  by_cases inside : g.kernelSize ≤ x ∧ x < g.size
  · have erased := mem.erase_inside inside.1 inside.2
    rw [if_pos inside]
    by_cases covered : x - g.kernelSize < m
    · have short : x - g.kernelSize < data.length := by omega
      rw [Mem.programBytes_erased _ _ _ _ inside.1 (by omega) erased]
      simp only [List.getD_eq_getElem?_getD]
      rw [List.getElem?_take_of_lt covered, List.getElem?_take_of_lt (by omega),
        List.getElem?_eq_getElem short]
      rfl
    · rw [Mem.programBytes_frame _ _ _ _ (by omega), erased, List.getD_eq_default]
      rw [List.length_take]
      omega
  · rw [if_neg inside, Mem.programBytes_frame _ _ _ _ (by omega), mem.erase_frame (by omega)]

theorem dumpMem_mem (count addr : Nat) (h : Host (Memory ρ)) :
    (dumpMem (memoryBus g.toFlashmap t R) count addr h).2.hw.chip.mem = h.hw.chip.mem := by
  induction count generalizing addr h with
  | zero => rfl
  | succ count ih =>
    refine (ih (addr + 1) _).trans ?_
    simp only [jtagReadMem8, memoryBus]
    split
    · change ((g.part t).bus.read8 h.hw.chip _).2.mem = _
      simp only [Part.bus, Chip.respond]
      split
      · rfl
      · split <;> rfl
    · rfl

/-- The loop over a whole file, from an erased sector on. -/
theorem programLoop_file {room : Nat} (remembers : Remembers R room) (below : room ≤ g.base)
    {fuel : Nat} (enough : 0x10000 ≤ fuel) (data : List Byte) {mem : Mem}
    (upper : data.length ≤ 0x10000 + room) (ready : h.hw.chip.Ready)
    (erased : h.hw.chip.mem = mem.erase g.kernelSize g.size) :
    ∃ r h', programLoop (memoryBus g.toFlashmap t R) fuel data 0 h = some (r, h') ∧
      (r = .ok () ↔ data.length % 2 = 0) ∧ h'.hw.chip.mem = afterProgramPy g data mem := by
  generalize split : min (2 * (data.length / 2)) 0x10000 = m
  have length : (data.take m).length = m := by
    rw [List.length_take]
    omega
  obtain ⟨h₁, run, ready₁, mem₁⟩ := programLoop_flash g t R enough (data.take m) 0 ready
    (by omega) (by omega) (by
      rw [erased]
      intro x low high
      exact mem.erase_inside (by omega) high)
  rw [erased, length, Nat.add_zero, image_programmed g data mem split.symm] at mem₁
  have parts := programLoop_append (memoryBus g.toFlashmap t R) fuel (data.take m) (data.drop m) 0 h
    (by omega)
  rw [List.take_append_drop, run, length, Nat.zero_add] at parts
  rw [parts]
  change ∃ r h', programLoop _ fuel (data.drop m) m h₁ = some (r, h') ∧ _
  by_cases long : 0x10000 ≤ m
  · obtain rfl : m = 0x10000 := by omega
    obtain ⟨fuel, rfl⟩ : ∃ k, fuel = k + 1 := ⟨fuel - 1, by omega⟩
    have start : Tail g _ 0 h₁.hw.chip := ⟨mem₁, .inl ready₁.phase_eq, fun _ => ready₁, nofun⟩
    obtain ⟨r, h', run', whole, tail⟩ := programLoop_ram g t R remembers below fuel (data.drop 0x10000) start
      (Nat.le_refl _) (by rw [List.length_drop]; omega)
    refine ⟨r, h', run', whole.trans ?_, ?_⟩
    · rw [List.length_drop]
      omega
    · rw [tail.mem, Nat.zero_add]
      rfl
  · have none : programmed (data.drop 0x10000) = 0 := by
      rw [List.drop_eq_nil_of_le (by omega)]
      rfl
    have after : afterProgramPy g data mem = h₁.hw.chip.mem := by
      rw [mem₁, afterProgramPy, none, if_neg (by decide)]
    rw [after]
    have rest : (data.drop m).length = data.length % 2 := by
      rw [List.length_drop]
      omega
    match data.drop m, rest with
    | [], rest => exact ⟨_, h₁, rfl, iff_of_true rfl rest.symm, rfl⟩
    | [b], rest => exact ⟨_, h₁, rfl, iff_of_false nofun (by simp [← rest]), rfl⟩
    | _ :: _ :: _, rest =>
      simp only [List.length_cons] at rest
      omega

/-- `program.py` comes to an end, if the words that do not fit go to RAM. It leaves the words of
the file in the boot sector, and dies of an odd byte. A file that is too long damages one word of
what has been programmed. -/
theorem program_py_exact {room : Nat} (remembers : Remembers R room) (below : room ≤ g.base)
    (mem : Mem) (ram : ρ) (files : String → Option (List Byte)) (data : List Byte)
    (upper : data.length ≤ 0x10000 + room) :
    ∃ r h', Returns (fun fuel => program (memoryBus g.toFlashmap t R) fuel data
        ⟨⟨idleChip mem, ram⟩, [], files⟩) (r, h') ∧
      h'.hw.chip.mem = afterProgramPy g data mem ∧
      ((∃ dump, r = .ok dump) ↔ data.length % 2 = 0) := by
  obtain ⟨h₁, erased, hw₁⟩ := eonSectorErase_flash g t R
    (h := Host.printf ⟨⟨idleChip mem, ram⟩, [], files⟩ "Sector erase\n") (idleChip_ready mem)
    (show 0x100000 ≤ 0x100000 from Nat.le_refl _)
  have chip₁ : h₁.hw.chip = (idleChip mem).programmed (mem.erase g.kernelSize g.size) := by
    rw [hw₁]
    rfl
  obtain ⟨r, h₂, looped, whole, flash⟩ := programLoop_file g t R remembers below
    (h := h₁.printf "Programming\n") (show 0x10000 ≤ 0x100000 by decide) data upper
    (chip₁ ▸ (idleChip_ready mem).programmed _)
    (show _ = mem.erase g.kernelSize g.size from congrArg Chip.mem chip₁)
  have ended (result : Except String (List Byte) × Host (Memory ρ))
      (run : program (memoryBus g.toFlashmap t R) 0x100000 data ⟨⟨idleChip mem, ram⟩, [], files⟩ =
        some result) :
      Returns (fun fuel => program (memoryBus g.toFlashmap t R) fuel data
        ⟨⟨idleChip mem, ram⟩, [], files⟩) result :=
    ⟨0x100000, fun fuel more => program_mono more run⟩
  have unfolded : program (memoryBus g.toFlashmap t R) 0x100000 data ⟨⟨idleChip mem, ram⟩, [], files⟩ =
      some (lastDump (memoryBus g.toFlashmap t R) (r, h₂)) := by
    rw [program, erased, Option.bind_some, looped]
    rfl
  cases r with
  | error e =>
    refine ⟨_, _, ended _ unfolded, flash, iff_of_false ?_ ?_⟩
    · rintro ⟨dump, eq⟩
      cases eq
    · rw [← whole]
      nofun
  | ok u =>
    refine ⟨_, _, ended _ unfolded, (dumpMem_mem g t R 0x80 0xffff0000 h₂).trans flash,
      iff_of_true ⟨_, rfl⟩ (whole.mp rfl)⟩

end

/-- A board with nothing but RAM below the flash. -/
def ramBus : Bus Mem where
  write8 m a b := m.store a [b]
  write16 m a v := m.storeWord a v
  read8 m a := (m a, m)
  read16 m a := (m.word a, m)
  read32 m a := (m.dword a, m)

/-- A file with two words more than fit. -/
theorem program_py_exact_long : ∃ r h', Returns (fun fuel =>
      program (memoryBus Geometry.en640.toFlashmap .instant ramBus) fuel (List.replicate 0x10004 0x12#8)
        ⟨⟨idleChip fun _ => 0#8, fun _ => 0#8⟩, [], fun _ => none⟩) (r, h') ∧
    (∃ dump, r = .ok dump) ∧
    h'.hw.chip.mem = afterProgramPy .en640 (List.replicate 0x10004 0x12#8) fun _ => 0#8 := by
  have remembers : Remembers ramBus 4 := fun m a v _ => m.word_storeWord a v
  obtain ⟨r, h', returns, flash, whole⟩ := program_py_exact .en640 .instant ramBus remembers (by decide)
    (fun _ => 0#8) (fun _ => 0#8) (fun _ => none) (List.replicate 0x10004 0x12#8)
    (Nat.le_of_eq List.length_replicate)
  exact ⟨r, h', returns, whole.mpr (by rw [List.length_replicate]), flash⟩

end Bifferboard.RdcPy
