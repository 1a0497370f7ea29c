import Mathlib.Algebra.Group.Nat.Defs
import Mathlib.Data.Fintype.Basic
import Bifferboard.Nor.Memory
import Bifferboard.Transition.Reach
import Bifferboard.Emulator.Panel

/-!
# The GPIO port of the emulated board

`rdc-gpio.c` keeps the PCI configuration space of the south bridge. Six bits of
the register at 0x4c are pins, and a write to it is passed on to the panel. What
is passed on is the value that was written, not the register it was written to.
-/

namespace Bifferboard.RdcGpio
open Nor Panel

/-- `PANEL_PINS`. -/
def panelPins : Nat := 6

/-- The bit of the register that is panel pin `i`. -/
def gPinMap (i : Fin panelPins) : Nat := [16, 15, 11, 13, 9, 12].get i

/-- The pin at the panel. -/
def Pin.atPanel (i : Fin panelPins) : Fin pinCount := i.castLE (by decide)

/-- The connection to the panel, as long as it is up: what has been sent over
it, and the last value of each pin. -/
structure PanelConnection where
  sent : List (Fin panelPins × Drive)
  last : Fin panelPins → Drive

/-- `panel_write`. -/
def panelWrite (h : PanelConnection) (pin : Fin panelPins) (val : Drive) : PanelConnection :=
  { h with sent := h.sent ++ [(pin, val)] }

/-- What the panel has been told: its record of this client, after all commands. -/
def PanelConnection.told (h : PanelConnection) : Channel :=
  h.sent.foldl (fun c w => c.setPin (Pin.atPanel w.1) w.2) .default

/-- How a pin is driven for a value of the register. -/
def pinDrive (reg : Dword) (i : Fin panelPins) : Drive :=
  if reg.getLsbD (gPinMap i) then .pullUp else .low

/-- One round of the loop of `bb_pin_write`. -/
def bbPinUpdate (reg : Dword) (h : PanelConnection) (i : Fin panelPins) : PanelConnection :=
  let tmp := pinDrive reg i
  if tmp ≠ h.last i then
    { panelWrite h i tmp with last := fun j => if j = i then tmp else h.last j }
  else h

def bbPinWrite (h : PanelConnection) (reg : Dword) : PanelConnection :=
  (List.finRange panelPins).foldl (bbPinUpdate reg) h

structure State where
  panel : PanelConnection
  cfgState : Mem

/-- The state after `rdc_gpio_pci_init` has reached the panel. -/
def rdcGpioPciInit : State where
  panel := (List.finRange panelPins).foldl
    (fun h i => { panelWrite h i .pullUp with last := fun j => if j = i then .pullUp else h.last j })
    ⟨[], fun _ => .open⟩
  cfgState := fun x =>
    [0xf3#8, 0x17#8, 0x30#8, 0x60#8, 0x0f#8, 0x00#8, 0x00#8, 0x04#8, 0x00#8, 0x00#8, 0x01#8, 0x06#8,
     0xff#8, 0xff#8, 0x00#8].getD x 0xff#8

/-- `pci_write_config`. Addresses are 32 bits wide. -/
def pciWriteConfig (address : Nat) (val : Dword) (len : Nat) (s : State) : State :=
  let top := (address + len) % 2 ^ 32
  if address = 0x44 then s
  else if 0x100 < top then s
  else
    let panel := if 0x4c ≤ address ∧ top ≤ 0x50 then bbPinWrite s.panel val else s.panel
    ⟨panel, s.cfgState.overwrite address len val.byte⟩

/-- The register of the pins. -/
def State.reg (s : State) : Dword := s.cfgState.dword 0x4c

/-- The panel knows the pins as they are in the register. -/
def State.Faithful (s : State) : Prop :=
  ∀ i, s.panel.told.pins (Pin.atPanel i) = pinDrive s.reg i

/-! ## Writing the pins -/

theorem told_panelWrite (h : PanelConnection) (pin : Fin panelPins) (val : Drive) (i : Fin panelPins) :
    (panelWrite h pin val).told.pins (Pin.atPanel i) =
      if i = pin then val else h.told.pins (Pin.atPanel i) := by
  have same : Pin.atPanel i = Pin.atPanel pin ↔ i = pin := (Fin.castLE_injective _).eq_iff
  simp only [PanelConnection.told, panelWrite, List.foldl_append, List.foldl_cons, List.foldl_nil,
    Channel.setPin, same]

/-- The cache holds what the panel has been told. -/
def PanelConnection.Cached (h : PanelConnection) : Prop :=
  ∀ i, h.told.pins (Pin.atPanel i) = h.last i

theorem bbPinUpdate_last (reg : Dword) (h : PanelConnection) (i j : Fin panelPins) :
    (bbPinUpdate reg h i).last j = if j = i then pinDrive reg i else h.last j := by
  unfold bbPinUpdate
  by_cases changed : pinDrive reg i ≠ h.last i
  · simp only [if_pos changed]
  · rw [not_not] at changed
    simp only [changed, ne_eq, not_true_eq_false, ↓reduceIte]
    by_cases here : j = i
    · rw [if_pos here, here]
    · rw [if_neg here]

theorem PanelConnection.Cached.bbPinUpdate {h : PanelConnection} (cached : h.Cached) (reg : Dword)
    (i : Fin panelPins) : (bbPinUpdate reg h i).Cached := by
  intro j
  unfold RdcGpio.bbPinUpdate
  by_cases changed : pinDrive reg i ≠ h.last i
  · simp only [if_pos changed]
    have told := told_panelWrite h i (pinDrive reg i) j
    rw [cached j] at told
    exact told
  · simp only [if_neg changed]
    exact cached j

theorem bbPinWrite_spec {h : PanelConnection} (cached : h.Cached) (reg : Dword) :
    (bbPinWrite h reg).Cached ∧ ∀ i, (bbPinWrite h reg).last i = pinDrive reg i := by
  have loop (pins : List (Fin panelPins)) (h : PanelConnection) (cached : h.Cached) :
      (pins.foldl (bbPinUpdate reg) h).Cached ∧ ∀ i, (pins.foldl (bbPinUpdate reg) h).last i =
        if i ∈ pins then pinDrive reg i else h.last i := by
    induction pins generalizing h with
    | nil => exact ⟨cached, fun i => (if_neg (List.not_mem_nil)).symm⟩
    | cons pin rest ih =>
      obtain ⟨kept, values⟩ := ih _ (cached.bbPinUpdate reg pin)
      refine ⟨kept, ?_⟩
      intro i
      rw [List.foldl_cons, values, bbPinUpdate_last]
      by_cases here : i = pin
      · subst here
        simp
      · simp [here]
  obtain ⟨kept, values⟩ := loop (List.finRange panelPins) h cached
  refine ⟨kept, ?_⟩
  intro i
  rw [bbPinWrite, values, if_pos (List.mem_finRange i)]

/-! ## Runs -/

/-- A write that stays inside the configuration space. -/
structure ConfigWrite where
  address : Nat
  val : Dword
  len : Nat
  width : len = 1 ∨ len = 2 ∨ len = 4
  inside : address + len ≤ 0x100

namespace ConfigWrite
variable (c : ConfigWrite)

def apply (s : State) : State := pciWriteConfig c.address c.val c.len s

/-- Bit `p` of the register once the write is merged into it. -/
def merged (reg : Dword) (p : Nat) : Bool :=
  if c.address ≤ 0x4c + p / 8 ∧ 0x4c + p / 8 < c.address + c.len then
    c.val.getLsbD (8 * (0x4c + p / 8 - c.address) + p % 8)
  else reg.getLsbD p

/-- The write lies in the register of the pins. -/
def InRegister : Prop := 0x4c ≤ c.address ∧ c.address + c.len ≤ 0x50

instance : Decidable c.InRegister := inferInstanceAs (Decidable (_ ∧ _))

/-- For every pin, the bit that the panel gets from the write, or has already if
it gets none, is the one that the register has after it. -/
def Fits (reg : Dword) : Prop :=
  ∀ i, (if c.InRegister then c.val else reg).getLsbD (gPinMap i) = c.merged reg (gPinMap i)

theorem apply_eq (s : State) : c.apply s =
    if c.address = 0x44 then s
    else ⟨if c.InRegister then bbPinWrite s.panel c.val else s.panel,
      s.cfgState.overwrite c.address c.len c.val.byte⟩ := by
  have top : (c.address + c.len) % 2 ^ 32 = c.address + c.len :=
    Nat.mod_eq_of_lt (Nat.lt_of_le_of_lt c.inside (by decide))
  simp only [apply, pciWriteConfig, top, if_neg (Nat.not_lt.mpr c.inside)]
  rfl

theorem reg_apply (s : State) {p : Nat} (h : p < 32) : (c.apply s).reg.getLsbD p = c.merged s.reg p := by
  have width := c.width
  rw [apply_eq]
  unfold merged State.reg
  by_cases watchdog : c.address = 0x44
  · rw [if_pos watchdog, if_neg (by omega)]
  · rw [if_neg watchdog, Mem.dword_bit _ _ h, Mem.dword_bit _ _ h]
    by_cases touched : c.address ≤ 0x4c + p / 8 ∧ 0x4c + p / 8 < c.address + c.len
    · simp only [Mem.overwrite, if_pos touched]
      exact Dword.byte_bit _ _ (Nat.mod_lt p (by decide))
    · simp only [Mem.overwrite, if_neg touched]

/-- A write keeps the cache right, and tells the panel the bits it was given. -/
theorem panel_apply {s : State} (cached : s.panel.Cached) : (c.apply s).panel.Cached ∧
    ∀ i, (c.apply s).panel.last i = if c.InRegister then pinDrive c.val i else s.panel.last i := by
  rw [apply_eq]
  by_cases watchdog : c.address = 0x44
  · have outside : ¬ c.InRegister := by
      intro inside
      have low := inside.1
      omega
    rw [if_pos watchdog]
    exact ⟨cached, fun i => (if_neg outside).symm⟩
  · rw [if_neg watchdog]
    by_cases inside : c.InRegister
    · simp only [if_pos inside]
      exact bbPinWrite_spec cached c.val
    · simp only [if_neg inside]
      exact ⟨cached, fun _ => trivial⟩

end ConfigWrite

theorem gPinMap_lt : ∀ i, gPinMap i < 32 := by decide

theorem pinDrive_eq_iff (reg reg' : Dword) (i : Fin panelPins) :
    pinDrive reg i = pinDrive reg' i ↔ reg.getLsbD (gPinMap i) = reg'.getLsbD (gPinMap i) := by
  unfold pinDrive
  cases reg.getLsbD (gPinMap i) <;> cases reg'.getLsbD (gPinMap i) <;> simp

/-- One write, from a state in which the panel knows the register. -/
theorem faithful_apply_iff (c : ConfigWrite) {s : State} (cached : s.panel.Cached)
    (faithful : s.Faithful) : (c.apply s).Faithful ↔ c.Fits s.reg := by
  obtain ⟨kept, values⟩ := c.panel_apply cached
  have pin (i : Fin panelPins) : (c.apply s).panel.told.pins (Pin.atPanel i) =
      pinDrive (if c.InRegister then c.val else s.reg) i := by
    rw [kept i, values i]
    split
    · rfl
    · rw [← cached i, faithful i]
  apply forall_congr'
  intro i
  rw [pin i, pinDrive_eq_iff, c.reg_apply s (gPinMap_lt i)]

/-- The state after a sequence of writes. -/
def after (calls : List ConfigWrite) : State := Transition.run ConfigWrite.apply rdcGpioPciInit calls

theorem init_cached : rdcGpioPciInit.panel.Cached := by
  unfold PanelConnection.Cached
  decide

theorem init_faithful : rdcGpioPciInit.Faithful := by
  unfold State.Faithful
  decide

/-- The panel knows the register after every write of a sequence exactly if each
write fits the register as it finds it. -/
theorem panel_faithful_iff (calls : List ConfigWrite) :
    (∀ done, done <+: calls → (after done).Faithful) ↔
      ∀ done c, done ++ [c] <+: calls → c.Fits (after done).reg := by
  refine Transition.forall_prefix_iff ConfigWrite.apply rdcGpioPciInit (I := fun s => s.panel.Cached)
    (P := State.Faithful) (G := fun c s => c.Fits s.reg) ?_ ?_ ?_ calls
  · exact ⟨init_cached, init_faithful⟩
  · intro c s cached
    exact (c.panel_apply cached).1
  · intro c s cached faithful
    exact faithful_apply_iff c cached faithful

/-- Ones written to the second byte of the register, which holds ones already. -/
theorem byte_write_unfaithful : ∃ c : ConfigWrite, c.address = 0x4d ∧ c.len = 1 ∧
    ¬ (after [c]).Faithful := by
  refine ⟨⟨0x4d, 0xff#32, 1, .inl rfl, by decide⟩, rfl, rfl, ?_⟩
  intro faithful
  have low := faithful ⟨0, by decide⟩
  revert low
  decide

end Bifferboard.RdcGpio
