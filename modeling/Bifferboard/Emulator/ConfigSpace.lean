import Bifferboard.Nor.Window
import Bifferboard.Emulator.PanelSocket

/-!
# The configuration space of the emulated board

Apart from the watchdog and the pins, the configuration space of `rdc-gpio.c` is memory, but
its last byte cannot be read: writes may end at 0x100, reads may not. What it holds at the
start depends on the panel, since nothing is stored in it if the panel is not there. A read at
0x50 still asks the panel.
-/

namespace Bifferboard.RdcGpio
open Nor Panel

/-- `mask_it`. -/
def maskIt (val : Nat) : (len : Nat) → Nat
  | 1 => val % 0x100
  | 2 => val % 0x10000
  | _ => val

/-- The device, whether or not it is connected to the panel. -/
structure Device extends State where
  socket : Bool

/-- `panel_write` over a connection that may break, and the pin is remembered. -/
def pinSend (sent : Bool) (socket : Bool) (h : PanelConnection) (i : Fin panelPins) (val : Drive) :
    Bool × PanelConnection :=
  let told := if panelCommand socket sent then panelWrite h i val else h
  (panelCommand socket sent, { told with last := fun j => if j = i then val else told.last j })

/-- `bb_pin_write`. -/
def pinsWrite (sent : Fin panelPins → Bool) (reg : Dword) (socket : Bool) (h : PanelConnection) :
    Bool × PanelConnection :=
  (List.finRange panelPins).foldl
    (fun c i => if pinDrive reg i ≠ c.2.last i then pinSend (sent i) c.1 c.2 i (pinDrive reg i) else c)
    (socket, h)

namespace Device

/-- `rdc_gpio_pci_init`. The state is allocated as zeros. -/
def init (opened : Bool) (sent : Fin panelPins → Bool) : Device :=
  if opened then
    let link := (List.finRange panelPins).foldl (fun c i => pinSend (sent i) c.1 c.2 i .pullUp)
      (true, ⟨[], fun _ => .open⟩)
    ⟨⟨link.2, rdcGpioPciInit.cfgState⟩, link.1⟩
  else ⟨⟨⟨[], fun _ => .open⟩, fun _ => 0#8⟩, false⟩

/-- `pci_write_config`. -/
def pciWriteConfig (sent : Fin panelPins → Bool) (address : Nat) (val : Dword) (len : Nat)
    (d : Device) : Device :=
  let top := (address + len) % 0x100000000
  if address = 0x44 then d
  else if 0x100 < top then d
  else
    let link := if 0x4c ≤ address ∧ top ≤ 0x50 ∧ d.socket then pinsWrite sent val d.socket d.panel
      else (d.socket, d.panel)
    ⟨⟨link.2, d.cfgState.overwrite address len val.byte⟩, link.1⟩

section
variable (read : Bool → Exchange → Option PanelStatus) (x : Exchange)

/-- The pins are read if the address is near them. -/
def refresh (address : Nat) (d : Device) : Option Device :=
  if 0x4c ≤ address ∧ address ≤ 0x50 then
    if d.socket then
      (read d.socket x).map fun got =>
        { d with socket := got.socket,
                 cfgState := d.cfgState.overwrite 0x4c 4 (pinsRead got.status).byte }
    else some { d with cfgState := d.cfgState.overwrite 0x4c 4 (Dword.byte 0#32) }
  else some d

/-- `pci_read_config`, for a way to read the panel. -/
def pciReadConfig (address len : Nat) (d : Device) : Option (Nat × Device) :=
  let top := (address + len) % 0x100000000
  if address = 0x44 then some (0xffffffff, d)
  else if 0x100 ≤ top then some (maskIt 0xffffffff len, d)
  else (d.refresh read x address).map fun d => (Window.read 0x100 d.cfgState len address, d)

end

end Device

/-! ## Sequences of accesses -/

/-- What `panel_read` returns in the end, or nothing if it does not return. -/
def panelReturns (socket : Bool) (x : Exchange) : Option PanelStatus :=
  panelAnswer (panelCommand socket x.sent) x.events

/-- The panel answers. -/
def Exchange.Answered (x : Exchange) : Prop := x.sent = true ∧ RdcGpio.Answered x.events

theorem panelReturns_isSome_iff (x : Exchange) : (panelReturns true x).isSome ↔ x.Answered :=
  panelAnswer_isSome_iff x.sent x.events

inductive Op where
  | read (x : Exchange)
  | write (val : Dword) (sent : Fin panelPins → Bool)

/-- An access inside the configuration space, with what the panel does meanwhile. -/
structure Access where
  address : Nat
  len : Nat
  width : len = 1 ∨ len = 2 ∨ len = 4
  inside : address + len ≤ 0x100
  op : Op

namespace Access

def Avoids (a : Access) (start stop : Nat) : Prop := a.address + a.len ≤ start ∨ stop ≤ a.address

/-- What a call returns, if it does, and what it leaves. -/
def call (a : Access) (d : Device) : Option (Option Nat × Device) :=
  match a.op with
  | .read x => (d.pciReadConfig panelReturns x a.address a.len).map fun (v, d) => (some v, d)
  | .write val sent => some (none, d.pciWriteConfig sent a.address val a.len)

/-- The device afterwards. -/
def next (a : Access) (d : Device) : Device := ((a.call d).map Prod.snd).getD d

end Access

/-- The values that a sequence of accesses reads, if all of them return. -/
def readings : List Access → Device → Option (List Nat)
  | [], _ => some []
  | a :: later, d => (a.call d).bind fun (v, d) => (readings later d).map (v.toList ++ ·)

/-- The values that it would read from a memory. -/
def recalled : List Access → Mem → List Nat
  | [], _ => []
  | a :: later, m =>
    match a.op with
    | .read _ => Window.read 0x100 m a.len a.address :: recalled later m
    | .write val _ => recalled later (m.overwrite a.address a.len val.byte)

/-! ## While the panel is there -/

theorem pinsWrite_connected (reg : Dword) (h : PanelConnection) :
    pinsWrite (fun _ => true) reg true h = (true, bbPinWrite h reg) := by
  have loop (pins : List (Fin panelPins)) (h : PanelConnection) :
      pins.foldl (fun c i => if pinDrive reg i ≠ c.2.last i then pinSend true c.1 c.2 i (pinDrive reg i)
        else c) (true, h) = (true, pins.foldl (bbPinUpdate reg) h) := by
    induction pins generalizing h with
    | nil => rfl
    | cons i pins ih =>
      by_cases changed : pinDrive reg i ≠ h.last i
      · simp only [List.foldl_cons, bbPinUpdate, if_pos changed, ← ih]
        rfl
      · simp only [List.foldl_cons, bbPinUpdate, if_neg changed, ih]
  exact loop _ h

/-- As long as the connection holds, a write is the one that the panel sees. -/
theorem pciWriteConfig_connected (address : Nat) (val : Dword) (len : Nat) (s : State) :
    Device.pciWriteConfig (fun _ => true) address val len ⟨s, true⟩ =
      ⟨RdcGpio.pciWriteConfig address val len s, true⟩ := by
  have wide : 2 ^ 32 = 0x100000000 := rfl
  simp only [Device.pciWriteConfig, RdcGpio.pciWriteConfig, pinsWrite_connected, and_true, wide]
  by_cases watchdog : address = 0x44
  · simp only [if_pos watchdog]
  · by_cases outside : 0x100 < (address + len) % 0x100000000
    · simp only [if_neg watchdog, if_pos outside]
    · by_cases pins : 0x4c ≤ address ∧ (address + len) % 0x100000000 ≤ 0x50
      · simp only [if_neg watchdog, if_neg outside, if_pos pins]
      · simp only [if_neg watchdog, if_neg outside, if_neg pins]

theorem init_connected : Device.init true (fun _ => true) = ⟨rdcGpioPciInit, true⟩ := rfl

/-- A device whose panel takes every pin is the one that `after` follows. -/
theorem run_connected (calls : List ConfigWrite) :
    Transition.run (fun c => Device.pciWriteConfig (fun _ => true) c.address c.val c.len)
      (.init true fun _ => true) calls = ⟨after calls, true⟩ := by
  rw [init_connected, after]
  generalize rdcGpioPciInit = s
  induction calls generalizing s with
  | nil => rfl
  | cons c calls ih =>
    rw [Transition.run, List.foldl_cons, pciWriteConfig_connected]
    exact ih (c.apply s)

/-! ## One access -/

namespace Access
variable {a : Access}

theorem top_eq (a : Access) : (a.address + a.len) % 0x100000000 = a.address + a.len := by
  have inside := a.inside
  omega

theorem next_of_call {v : Option Nat} {d d' : Device} (called : a.call d = some (v, d')) :
    a.next d = d' := by
  simp [next, called]

/-- A write stores the value, and the panel is not told. -/
theorem call_write {val : Dword} {sent : Fin panelPins → Bool} (write : a.op = .write val sent)
    (gpio : a.Avoids 0x4c 0x50) (d : Device) : a.call d = some (none, if a.address = 0x44 then d else
      { d with cfgState := d.cfgState.overwrite a.address a.len val.byte }) := by
  have width := a.width
  have inside := a.inside
  have quiet : ¬ (0x4c ≤ a.address ∧ a.address + a.len ≤ 0x50 ∧ d.socket) := by
    rcases gpio with low | high <;> omega
  simp only [call, write, Device.pciWriteConfig, top_eq, if_neg (Nat.not_lt.mpr inside), if_neg quiet]

/-- The watchdog reads as ones. -/
theorem call_watchdog {x : Exchange} (read : a.op = .read x) (watchdog : a.address = 0x44)
    (d : Device) : a.call d = some (some 0xffffffff, d) := by
  simp only [call, read, Device.pciReadConfig, watchdog, if_true, Option.map_some]

/-- Nothing is read up to the end. -/
theorem call_last {x : Exchange} (read : a.op = .read x) (watchdog : a.address ≠ 0x44)
    (last : a.address + a.len = 0x100) (d : Device) :
    a.call d = some (some (maskIt 0xffffffff a.len), d) := by
  simp [call, read, Device.pciReadConfig, watchdog, last]

theorem call_eq_refresh {x : Exchange} (read : a.op = .read x) (watchdog : a.address ≠ 0x44)
    (before : a.address + a.len < 0x100) (d : Device) : a.call d =
      (d.refresh panelReturns x a.address).map
        fun d => (some (Window.read 0x100 d.cfgState a.len a.address), d) := by
  simp [call, read, Device.pciReadConfig, watchdog, top_eq, Nat.not_le.mpr before, Function.comp_def]

/-- A read that reaches the memory. -/
theorem call_read {x : Exchange} (read : a.op = .read x) (watchdog : a.address ≠ 0x44)
    (gpio : a.Avoids 0x4c 0x50) (before : a.address + a.len < 0x100) (d : Device)
    (answered : a.address = 0x50 → d.socket = true → x.Answered) :
    ∃ d', a.call d = some (some (Window.read 0x100 d.cfgState a.len a.address), d') ∧
      (∀ y, y < 0x4c ∨ 0x50 ≤ y → d'.cfgState y = d.cfgState y) ∧
      (d.socket = false → d'.socket = false) := by
  have width := a.width
  obtain ⟨d', refreshed, kept, down⟩ : ∃ d', d.refresh panelReturns x a.address = some d' ∧
      (∀ y, y < 0x4c ∨ 0x50 ≤ y → d'.cfgState y = d.cfgState y) ∧
      (d.socket = false → d'.socket = false) := by
    have frame (out : Dword) (y : Nat) (outside : y < 0x4c ∨ 0x50 ≤ y) :
        d.cfgState.overwrite 0x4c 4 out.byte y = d.cfgState y := Mem.overwrite_frame _ _ outside
    unfold Device.refresh
    by_cases near : 0x4c ≤ a.address ∧ a.address ≤ 0x50
    · rw [if_pos near]
      cases socket : d.socket with
      | false => exact ⟨_, rfl, frame _, fun _ => rfl⟩
      | true =>
        have here : a.address = 0x50 := by rcases gpio with low | high <;> omega
        obtain ⟨got, returned⟩ := Option.isSome_iff_exists.mp
          ((panelReturns_isSome_iff x).mpr (answered here socket))
        exact ⟨_, by rw [returned]; rfl, frame _, fun closed => by cases closed⟩
    · rw [if_neg near]
      exact ⟨d, rfl, fun _ _ => rfl, id⟩
  have same : Window.read 0x100 d'.cfgState a.len a.address =
      Window.read 0x100 d.cfgState a.len a.address := by
    rw [Window.read_eq_iff]
    intro i inside
    apply kept
    rcases gpio with low | high <;> omega
  refine ⟨d', ?_, kept, down⟩
  rw [call_eq_refresh read watchdog before, refreshed, Option.map_some, same]

/-- A read that waits for the panel. -/
theorem call_unanswered {x : Exchange} (read : a.op = .read x) (address : a.address = 0x50)
    {d : Device} (socket : d.socket = true) (silent : ¬ x.Answered) : a.call d = none := by
  have width := a.width
  have waiting : panelReturns true x = none := by
    rw [← panelReturns_isSome_iff] at silent
    simpa using silent
  rw [call_eq_refresh read (by omega) (by omega), address]
  simp [Device.refresh, socket, waiting]

theorem ones_eq (a : Access) :
    maskIt 0xffffffff a.len = Window.read 0x100 (fun _ => 0xff#8) a.len a.address := by
  rcases a.width with width | width | width <;> simp [width, maskIt, Window.read]

theorem ones_eq_read_iff (a : Access) (m : Mem) (last : a.address + a.len = 0x100) :
    maskIt 0xffffffff a.len = Window.read 0x100 m a.len a.address ↔ m.Blank a.address 0x100 := by
  rw [ones_eq, Window.read_eq_iff]
  constructor
  · intro same x low high
    have byte := same (x - a.address) (by omega)
    rw [show (a.address + (x - a.address)) % 0x100 = x by omega] at byte
    exact byte.symm
  · intro blank i inside
    exact (blank _ (by omega) (by omega)).symm

end Access

/-! ## The space as a memory -/

/-- The memory holds ones where a read goes up to the end, and the panel answers where a read
asks it. -/
def Careful : List Access → Device → Mem → Prop
  | [], _, _ => True
  | a :: later, d, m =>
    match a.op with
    | .read x => ((a.address + a.len = 0x100 → m.Blank a.address 0x100) ∧
        (a.address = 0x50 → d.socket = true → x.Answered)) ∧ Careful later (a.next d) m
    | .write val _ => Careful later (a.next d) (m.overwrite a.address a.len val.byte)

/-- Outside of the pins, the device holds what the memory holds. -/
def Holds (d : Device) (m : Mem) : Prop := ∀ y, y < 0x4c ∨ 0x50 ≤ y → d.cfgState y = m y

theorem readings_cons {a : Access} {d d' : Device} {v : Option Nat} (later : List Access)
    (called : a.call d = some (v, d')) :
    readings (a :: later) d = (readings later d').map (v.toList ++ ·) := by
  simp [readings, called]

theorem map_cons_eq_iff (v w : Nat) (vs : Option (List Nat)) (ws : List Nat) :
    vs.map ((some v).toList ++ ·) = some (w :: ws) ↔ v = w ∧ vs = some ws := by
  cases vs <;> simp

theorem readings_eq_iff (accesses : List Access)
    (watchdog : ∀ a ∈ accesses, a.Avoids 0x44 0x48) (gpio : ∀ a ∈ accesses, a.Avoids 0x4c 0x50)
    {d : Device} {m : Mem} (holds : Holds d m) :
    readings accesses d = some (recalled accesses m) ↔ Careful accesses d m := by
  induction accesses generalizing d m with
  | nil => simp [readings, recalled, Careful]
  | cons a later ih =>
    have ih' {d' : Device} {m' : Mem} := @ih (fun b member => watchdog b (List.mem_cons_of_mem _ member))
      (fun b member => gpio b (List.mem_cons_of_mem _ member)) d' m'
    have apart := gpio a List.mem_cons_self
    have width := a.width
    have inside := a.inside
    have address : a.address ≠ 0x44 := by
      rcases watchdog a List.mem_cons_self with low | high <;> omega
    cases op : a.op with
    | write val sent =>
      have called := a.call_write op apart d
      rw [if_neg address] at called
      rw [readings_cons later called]
      simp only [recalled, Careful, op, Access.next_of_call called, Option.toList_none,
        List.nil_append, Option.map_id']
      apply ih'
      intro y outside
      simp only [Mem.overwrite, holds y outside]
    | read x =>
      simp only [recalled, Careful, op]
      by_cases last : a.address + a.len = 0x100
      · have called := a.call_last op address last d
        rw [readings_cons later called, map_cons_eq_iff, Access.next_of_call called, ih' holds,
          a.ones_eq_read_iff m last]
        simp [last, show a.address ≠ 0x50 by omega]
      · by_cases answered : a.address = 0x50 → d.socket = true → x.Answered
        · obtain ⟨d', called, kept, -⟩ := a.call_read op address apart (by omega) d answered
          have holds' : Holds d' m := fun y outside => (kept y outside).trans (holds y outside)
          have same : Window.read 0x100 d.cfgState a.len a.address =
              Window.read 0x100 m a.len a.address := by
            rw [Window.read_eq_iff]
            intro i inside
            apply holds
            rcases apart with low | high <;> omega
          rw [readings_cons later called, map_cons_eq_iff, Access.next_of_call called, ih' holds']
          simp only [last, same, false_imp_iff, true_and, and_iff_right answered]
        · simp only [Classical.not_imp] at answered
          obtain ⟨here, socket, silent⟩ := answered
          simp [readings, a.call_unanswered op here socket silent, here, socket, silent]

/-- After a successful start, the configuration space is memory exactly as long as no read gets
at its last byte, unless that is ones, and no read at 0x50 waits for the panel in vain. -/
theorem config_memory_iff (sent : Fin panelPins → Bool) (accesses : List Access)
    (watchdog : ∀ a ∈ accesses, a.Avoids 0x44 0x48) (gpio : ∀ a ∈ accesses, a.Avoids 0x4c 0x50) :
    readings accesses (.init true sent) = some (recalled accesses rdcGpioPciInit.cfgState) ↔
      Careful accesses (.init true sent) rdcGpioPciInit.cfgState :=
  readings_eq_iff accesses watchdog gpio fun _ _ => rfl

/-- A read while nothing is heard of the panel. -/
def plainRead (address len : Nat) (width : len = 1 ∨ len = 2 ∨ len = 4)
    (inside : address + len ≤ 0x100) : Access :=
  ⟨address, len, width, inside, .read ⟨false, []⟩⟩

def plainWrite (address len : Nat) (val : Dword) (width : len = 1 ∨ len = 2 ∨ len = 4)
    (inside : address + len ≤ 0x100) : Access :=
  ⟨address, len, width, inside, .write val fun _ => true⟩

theorem stored_dword_read :
    readings [plainWrite 0x10 4 0x12345678#32 (by decide) (by decide),
      plainRead 0x10 4 (by decide) (by decide)] (.init true fun _ => true) = some [0x12345678] := by
  refine ((config_memory_iff _ _ ?_ ?_).mpr ?_).trans (by decide)
  · simp [Access.Avoids, plainWrite, plainRead]
  · simp [Access.Avoids, plainWrite, plainRead]
  · simp [Careful, plainWrite, plainRead]

/-- The last byte is written, and is not read back. -/
theorem last_byte_lost :
    let accesses := [plainWrite 0xff 1 0#32 (by decide) (by decide),
      plainRead 0xff 1 (by decide) (by decide)]
    readings accesses (.init true fun _ => true) = some [0xff] ∧
      recalled accesses rdcGpioPciInit.cfgState = [0] := by
  decide

/-! ## With and without the panel -/

namespace Access

/-- The bytes that are known to be the same after an access. -/
def learn (a : Access) (same : Nat → Prop) (y : Nat) : Prop :=
  match a.op with
  | .read _ => same y
  | .write _ _ => same y ∨ a.address ≠ 0x44 ∧ a.address ≤ y ∧ y < a.address + a.len

end Access

/-- Every byte that is read from the memory is the same with and without the panel, and the
panel answers where a read asks it. -/
def Prepared : List Access → Device → (Nat → Prop) → Prop
  | [], _, _ => True
  | a :: later, d, same =>
    (∀ x, a.op = .read x →
      (a.address ≠ 0x44 → a.address + a.len < 0x100 → ∀ i < a.len, same (a.address + i)) ∧
      (a.address = 0x50 → d.socket = true → x.Answered)) ∧
    Prepared later (a.next d) (a.learn same)

/-- Outside of the pins, `same` says where two devices hold the same. -/
def SameWhere (d d' : Device) (same : Nat → Prop) : Prop :=
  ∀ y, y < 0x4c ∨ 0x50 ≤ y → y < 0x100 → (d.cfgState y = d'.cfgState y ↔ same y)

/-- Without a panel, every access returns. -/
theorem call_unplugged (a : Access) (gpio : a.Avoids 0x4c 0x50) {d : Device}
    (unplugged : d.socket = false) : ∃ v d', a.call d = some (v, d') ∧ d'.socket = false := by
  have inside := a.inside
  cases op : a.op with
  | write val sent =>
    refine ⟨_, _, a.call_write op gpio d, ?_⟩
    split <;> exact unplugged
  | read x =>
    by_cases watchdog : a.address = 0x44
    · exact ⟨_, _, a.call_watchdog op watchdog d, unplugged⟩
    · by_cases last : a.address + a.len = 0x100
      · exact ⟨_, _, a.call_last op watchdog last d, unplugged⟩
      · obtain ⟨d', called, -, down⟩ := a.call_read op watchdog gpio (by omega) d
          (fun _ plugged => by simp [unplugged] at plugged)
        exact ⟨_, d', called, down unplugged⟩

theorem readings_unplugged (accesses : List Access) (gpio : ∀ a ∈ accesses, a.Avoids 0x4c 0x50)
    {d : Device} (unplugged : d.socket = false) : ∃ vs, readings accesses d = some vs := by
  induction accesses generalizing d with
  | nil => exact ⟨[], rfl⟩
  | cons a later ih =>
    obtain ⟨v, d', called, down⟩ := call_unplugged a (gpio a List.mem_cons_self) unplugged
    obtain ⟨vs, returned⟩ := ih (fun b member => gpio b (List.mem_cons_of_mem _ member)) down
    exact ⟨v.toList ++ vs, by rw [readings_cons later called, returned]; rfl⟩

theorem readings_cons_eq_iff {a : Access} {d d' t t' : Device} {v w : Nat} {later : List Access}
    (gpio : ∀ a ∈ later, a.Avoids 0x4c 0x50) (called : a.call d = some (some v, d'))
    (called' : a.call t = some (some w, t')) (unplugged : t'.socket = false) :
    readings (a :: later) d = readings (a :: later) t ↔
      v = w ∧ readings later d' = readings later t' := by
  obtain ⟨vs, returned⟩ := readings_unplugged later gpio unplugged
  rw [readings_cons later called, readings_cons later called', returned]
  exact map_cons_eq_iff v w _ vs

theorem SameWhere.write {d d' : Device} {same : Nat → Prop} (h : SameWhere d d' same) {a : Access}
    {val : Dword} {sent : Fin panelPins → Bool} (write : a.op = .write val sent) :
    SameWhere (if a.address = 0x44 then d else
        { d with cfgState := d.cfgState.overwrite a.address a.len val.byte })
      (if a.address = 0x44 then d' else
        { d' with cfgState := d'.cfgState.overwrite a.address a.len val.byte }) (a.learn same) := by
  intro y outside inside
  simp only [Access.learn, write]
  by_cases watchdog : a.address = 0x44
  · simp [watchdog, h y outside inside]
  · by_cases stored : a.address ≤ y ∧ y < a.address + a.len
    · simp [watchdog, stored, Mem.overwrite]
    · simp [watchdog, stored, Mem.overwrite, h y outside inside]

theorem SameWhere.kept {d d' t t' : Device} {same : Nat → Prop} (h : SameWhere d t same)
    (kept : ∀ y, y < 0x4c ∨ 0x50 ≤ y → d'.cfgState y = d.cfgState y)
    (kept' : ∀ y, y < 0x4c ∨ 0x50 ≤ y → t'.cfgState y = t.cfgState y) : SameWhere d' t' same := by
  intro y outside inside
  rw [kept y outside, kept' y outside]
  exact h y outside inside

theorem SameWhere.read_eq_iff {d t : Device} {same : Nat → Prop} (h : SameWhere d t same)
    {a : Access} (apart : a.Avoids 0x4c 0x50) (inside : a.address + a.len < 0x100) :
    Window.read 0x100 d.cfgState a.len a.address = Window.read 0x100 t.cfgState a.len a.address ↔
      ∀ i < a.len, same (a.address + i) := by
  rw [Window.read_eq_iff]
  refine forall₂_congr ?_
  intro i part
  rw [Nat.mod_eq_of_lt (by omega)]
  exact h _ (by rcases apart with low | high <;> omega) (by omega)

theorem readings_same_iff (accesses : List Access) (gpio : ∀ a ∈ accesses, a.Avoids 0x4c 0x50)
    {d t : Device} {same : Nat → Prop} (agree : SameWhere d t same) (unplugged : t.socket = false) :
    readings accesses d = readings accesses t ↔ Prepared accesses d same := by
  induction accesses generalizing d t same with
  | nil => simp [readings, Prepared]
  | cons a later ih =>
    have others : ∀ b ∈ later, b.Avoids 0x4c 0x50 :=
      fun b member => gpio b (List.mem_cons_of_mem _ member)
    have apart := gpio a List.mem_cons_self
    have inside := a.inside
    cases op : a.op with
    | write val sent =>
      have called := a.call_write op apart d
      have called' := a.call_write op apart t
      have down : (if a.address = 0x44 then t else
          { t with cfgState := t.cfgState.overwrite a.address a.len val.byte }).socket = false := by
        split <;> exact unplugged
      rw [readings_cons later called, readings_cons later called']
      simp only [Option.toList_none, List.nil_append, Option.map_id', Prepared, op,
        Access.next_of_call called, ih others (agree.write op) down, reduceCtorEq, false_imp_iff,
        implies_true, true_and]
    | read x =>
      have learned : a.learn same = same := by
        funext y
        simp [Access.learn, op]
      simp only [Prepared, op, learned, Op.read.injEq, forall_eq']
      by_cases watchdog : a.address = 0x44
      · have called := a.call_watchdog op watchdog d
        have called' := a.call_watchdog op watchdog t
        rw [readings_cons_eq_iff others called called' unplugged, Access.next_of_call called,
          ih others agree unplugged]
        simp [watchdog]
      · by_cases last : a.address + a.len = 0x100
        · have width := a.width
          have called := a.call_last op watchdog last d
          have called' := a.call_last op watchdog last t
          rw [readings_cons_eq_iff others called called' unplugged, Access.next_of_call called,
            ih others agree unplugged]
          simp [last, show a.address ≠ 0x50 by omega]
        · obtain ⟨t', called', kept', down⟩ := a.call_read op watchdog apart (by omega) t
            (fun _ plugged => by simp [unplugged] at plugged)
          by_cases answered : a.address = 0x50 → d.socket = true → x.Answered
          · obtain ⟨d', called, kept, -⟩ := a.call_read op watchdog apart (by omega) d answered
            rw [readings_cons_eq_iff others called called' (down unplugged),
              Access.next_of_call called, ih others (agree.kept kept kept') (down unplugged),
              agree.read_eq_iff apart (by omega)]
            simp only [ne_eq, watchdog, not_false_eq_true, true_imp_iff,
              show a.address + a.len < 0x100 by omega, and_iff_left answered]
          · simp only [Classical.not_imp] at answered
            obtain ⟨here, socket, silent⟩ := answered
            obtain ⟨vs, returned⟩ := readings_unplugged (a :: later) gpio unplugged
            rw [returned]
            simp [readings, a.call_unanswered op here socket silent, here, socket, silent]

theorem init_zero_iff (y : Nat) :
    rdcGpioPciInit.cfgState y = 0#8 ↔ y ∈ [5, 6, 8, 9, 0xe] := by
  by_cases set : y < 0xf
  · have table : ∀ y < 0xf, rdcGpioPciInit.cfgState y = 0#8 ↔ y ∈ [5, 6, 8, 9, 0xe] := by decide
    exact table y set
  · have ones : rdcGpioPciInit.cfgState y = 0xff#8 :=
      List.getD_eq_default _ _ (Nat.not_lt.mp set)
    rw [ones]
    simp only [List.mem_cons, List.not_mem_nil, or_false]
    constructor
    · intro zero
      cases zero
    · omega

/-- What is read without a panel is what is read with one exactly if nothing is read that was
not written before, but for the five bytes that start as zeros. -/
theorem panel_independent_iff (sent sent' : Fin panelPins → Bool) (accesses : List Access)
    (gpio : ∀ a ∈ accesses, a.Avoids 0x4c 0x50) :
    readings accesses (.init true sent) = readings accesses (.init false sent') ↔
      Prepared accesses (.init true sent) (· ∈ [5, 6, 8, 9, 0xe]) := by
  refine readings_same_iff accesses gpio ?_ rfl
  intro y _ _
  exact init_zero_iff y

theorem written_word_same :
    readings [plainWrite 0x40 2 0xabcd#32 (by decide) (by decide),
      plainRead 0x40 2 (by decide) (by decide)] (.init true fun _ => true) =
    readings [plainWrite 0x40 2 0xabcd#32 (by decide) (by decide),
      plainRead 0x40 2 (by decide) (by decide)] (.init false fun _ => true) := by
  refine (panel_independent_iff _ _ _ ?_).mpr ?_
  · simp [Access.Avoids, plainWrite, plainRead]
  · simp [Prepared, Access.learn, plainWrite, plainRead]
    omega

/-- Without the panel there is no vendor. -/
theorem vendor_missing :
    readings [plainRead 0 2 (by decide) (by decide)] (.init true fun _ => true) = some [0x17f3] ∧
    readings [plainRead 0 2 (by decide) (by decide)] (.init false fun _ => true) = some [0] := by
  decide

/-! ## Reading the pins -/

/-- Reading the panel ends exactly if it answers before the socket is closed. A read of the
register of the pins also ends if the socket was closed before. -/
theorem pin_read_returns_iff (x : Exchange) :
    ((∃ rounds, (panelRead rounds true x).isSome) ↔ x.Answered) ∧
    ∀ (d : Device) (address len : Nat), 0x4c ≤ address → address ≤ 0x50 → len ≤ 4 →
      ((∃ rounds, (d.pciReadConfig (panelRead rounds) x address len).isSome) ↔
        (d.socket = true → x.Answered)) := by
  have returns : (∃ rounds, (panelRead rounds true x).isSome) ↔ x.Answered := by
    rw [← panelReturns_isSome_iff, Option.isSome_iff_exists]
    simp only [Option.isSome_iff_exists, panelReturns, ← panelRead_iff]
    exact exists_comm
  refine ⟨returns, ?_⟩
  intro d address len low high short
  have inside : ¬ 0x100 ≤ (address + len) % 0x100000000 := by omega
  simp only [Device.pciReadConfig, show address ≠ 0x44 by omega, if_false, if_neg inside,
    Option.isSome_map, Device.refresh, if_pos (And.intro low high), ← returns]
  cases socket : d.socket with
  | false => simp
  | true => simp

theorem panelRead_closing (rounds : Nat) :
    panelRead rounds true ⟨true, [.readable .closed false]⟩ = none := by
  cases rounds with
  | zero => rfl
  | succ rounds => exact panelWait_closed rounds []

/-- The panel closes the connection, and the read never ends. -/
theorem closed_panel_hangs :
    (¬ ∃ rounds, (panelRead rounds true ⟨true, [.readable .closed false]⟩).isSome) ∧
    ¬ ∃ rounds, (Device.pciReadConfig (panelRead rounds) ⟨true, [.readable .closed false]⟩ 0x4c 4
      ⟨rdcGpioPciInit, true⟩).isSome := by
  simp [Device.pciReadConfig, Device.refresh, panelRead_closing]

end Bifferboard.RdcGpio
