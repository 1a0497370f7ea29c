import Bifferboard.Emulator.RdcGpio

/-!
# Waiting for the panel

To read the pins, `rdc-gpio.c` sends a command to the panel and waits for a line that holds
their states. It asks again as long as it has no states. Once the socket is closed there is
nothing to wait for and nothing comes, and it asks for ever.
-/

namespace Bifferboard.RdcGpio
open Nor

/-- What `recv` stores: at least one byte, and as many as there is room for. -/
structure Received where
  bytes : List Byte
  nonempty : bytes ≠ []
  short : bytes.length ≤ 99

/-- The result of `recv`. -/
inductive Recv where
  | data (received : Received)
  | closed
  | failed

/-- What `select` ends with, together with the `recv` that follows if the socket is readable.
The flag says whether there also is an error on the socket. -/
inductive Event where
  | interrupted
  | failed
  | readable (result : Recv) (error : Bool)
  | error

namespace Event

/-- The states of the pins, if the panel has sent them: a line that starts with `R`. -/
def status : Event → List Byte
  | readable (.data received) _ =>
    if received.bytes.take 2 = [0x52#8, 0x20#8] then (received.bytes.drop 2).takeWhile (· ≠ 0#8)
    else []
  | _ => []

/-- The socket is closed. -/
def closes : Event → Bool
  | interrupted => false
  | failed => true
  | readable (.data _) broken => broken
  | readable .closed _ => true
  | readable .failed _ => true
  | error => true

end Event

/-- What is returned: the states, whether the socket is still open, and what may still
happen on it. -/
structure PanelStatus where
  status : List Byte
  socket : Bool
  events : List Event

/-- `panel_getpins`. It has no result if `select` waits for something that does not happen. -/
def panelGetpins : (socket : Bool) → List Event → Option PanelStatus
  | false, events => some ⟨[], false, events⟩
  | true, [] => none
  | true, .interrupted :: events => panelGetpins true events
  | true, event :: events => some ⟨event.status, !event.closes, events⟩

/-- The loop of `panel_read`, if it ends within so many rounds. -/
def panelWait : (rounds : Nat) → (socket : Bool) → List Event → Option PanelStatus
  | 0, _, _ => none
  | rounds + 1, socket, events =>
    match panelGetpins socket events with
    | none => none
    | some got =>
      if got.status = [] then panelWait rounds got.socket got.events else some got

/-- The panel while it is read: whether it can be sent the command, and what happens then. -/
structure Exchange where
  sent : Bool
  events : List Event

/-- `panel_command`. -/
def panelCommand (socket sent : Bool) : Bool := socket && sent

def panelRead (rounds : Nat) (socket : Bool) (x : Exchange) : Option PanelStatus :=
  panelWait rounds (panelCommand socket x.sent) x.events

/-- The value of the register for the states of the pins. -/
def pinsRead (status : List Byte) : Dword :=
  (List.finRange panelPins).foldl
    (fun out i => if status.getD i.val 0#8 = 0x30#8 then out &&& ~~~(1#32 <<< gPinMap i) else out)
    0xffffffff#32

/-! ## What the loop comes to -/

/-- The first states that come before the socket is closed. -/
def panelAnswer : (socket : Bool) → List Event → Option PanelStatus
  | false, _ => none
  | true, [] => none
  | true, event :: events =>
    if event.status = [] then panelAnswer (!event.closes) events
    else some ⟨event.status, !event.closes, events⟩

/-- The loop never gets out of a closed socket. -/
theorem panelWait_closed (rounds : Nat) (events : List Event) :
    panelWait rounds false events = none := by
  induction rounds with
  | zero => rfl
  | succ rounds ih =>
    rw [panelWait, panelGetpins]
    exact ih

theorem panelGetpins_cons (event : Event) (events : List Event) :
    panelGetpins true (event :: events) = some ⟨event.status, !event.closes, events⟩ ∨
      event.status = [] ∧ event.closes = false ∧
        panelGetpins true (event :: events) = panelGetpins true events := by
  cases event with
  | interrupted => exact .inr ⟨rfl, rfl, rfl⟩
  | failed => exact .inl rfl
  | readable result error => exact .inl rfl
  | error => exact .inl rfl

theorem panelWait_sound {rounds : Nat} {socket : Bool} {events : List Event} {got : PanelStatus}
    (ends : panelWait rounds socket events = some got) : panelAnswer socket events = some got := by
  induction rounds generalizing socket events with
  | zero => cases ends
  | succ rounds ih =>
    cases socket with
    | false =>
      rw [panelWait_closed] at ends
      cases ends
    | true =>
      induction events with
      | nil => cases ends
      | cons event events again =>
        rw [panelWait] at ends
        rw [panelAnswer]
        rcases panelGetpins_cons event events with here | ⟨nothing, opened, later⟩
        · rw [here] at ends
          by_cases nothing : event.status = []
          · simp only [if_pos nothing] at ends ⊢
            exact ih ends
          · simp only [if_neg nothing] at ends ⊢
            exact ends
        · rw [later] at ends
          rw [if_pos nothing, opened]
          apply again
          rw [panelWait]
          exact ends

theorem panelWait_complete {socket : Bool} {events : List Event} {got : PanelStatus}
    (answer : panelAnswer socket events = some got) :
    ∃ rounds, panelWait rounds socket events = some got := by
  induction events generalizing socket with
  | nil => cases socket <;> cases answer
  | cons event events ih =>
    cases socket with
    | false => cases answer
    | true =>
      rw [panelAnswer] at answer
      rcases panelGetpins_cons event events with here | ⟨nothing, opened, later⟩
      · by_cases nothing : event.status = []
        · rw [if_pos nothing] at answer
          obtain ⟨rounds, ends⟩ := ih answer
          refine ⟨rounds + 1, ?_⟩
          rw [panelWait, here]
          simp only [if_pos nothing]
          exact ends
        · rw [if_neg nothing] at answer
          refine ⟨1, ?_⟩
          rw [panelWait, here]
          simp only [if_neg nothing]
          exact answer
      · rw [if_pos nothing, opened] at answer
        obtain ⟨rounds, ends⟩ := ih answer
        cases rounds with
        | zero => cases ends
        | succ rounds =>
          refine ⟨rounds + 1, ?_⟩
          rw [panelWait] at ends ⊢
          rw [later]
          exact ends

theorem panelRead_iff (socket : Bool) (x : Exchange) (got : PanelStatus) :
    (∃ rounds, panelRead rounds socket x = some got) ↔
      panelAnswer (panelCommand socket x.sent) x.events = some got :=
  ⟨fun ⟨_, ends⟩ => panelWait_sound ends, panelWait_complete⟩

/-- The states of the pins come before the socket is closed. -/
def Answered (events : List Event) : Prop :=
  ∃ before event later, events = before ++ event :: later ∧
    (∀ e ∈ before, e.closes = false) ∧ event.status ≠ []

theorem answered_cons (event : Event) (events : List Event) :
    Answered (event :: events) ↔
      event.status ≠ [] ∨ event.closes = false ∧ Answered events := by
  constructor
  · rintro ⟨before, found, later, split, opened, something⟩
    cases before with
    | nil =>
      cases split
      exact .inl something
    | cons first before =>
      cases split
      exact .inr ⟨opened _ List.mem_cons_self, before, found, later, rfl,
        fun e member => opened e (List.mem_cons_of_mem _ member), something⟩
  · rintro (something | ⟨opened, before, found, later, rfl, others, something⟩)
    · exact ⟨[], event, events, rfl, by simp, something⟩
    · refine ⟨event :: before, found, later, rfl, ?_, something⟩
      intro e member
      rcases List.mem_cons.mp member with rfl | member
      · exact opened
      · exact others e member

theorem panelAnswer_isSome_iff (socket : Bool) (events : List Event) :
    (panelAnswer socket events).isSome ↔ socket = true ∧ Answered events := by
  induction events generalizing socket with
  | nil =>
    have none : ¬ Answered [] := by
      rintro ⟨before, event, later, split, -⟩
      simp at split
    cases socket <;> simp [panelAnswer, none]
  | cons event events ih =>
    cases socket with
    | false => simp [panelAnswer]
    | true =>
      rw [panelAnswer, answered_cons]
      by_cases nothing : event.status = []
      · simp [nothing, ih]
      · simp [nothing]

end Bifferboard.RdcGpio
