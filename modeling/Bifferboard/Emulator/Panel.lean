import Mathlib.Data.List.Basic

/-!
# The GPIO panel

Every client of `panel.py` drives each pin in one of four ways. `ResolvePin` works
out the level of a pin by folding a table for two over the clients, in the order
in which the dictionary lists them. The table has no row for a conflict, so one
that is found too early makes the lookup fail.
-/

namespace Bifferboard.Panel

/-- What a client does to a pin: `1`, `0`, `P` or `X`. -/
inductive Drive where
  | high
  | low
  | pullUp
  | open
  deriving DecidableEq, Repr

/-- The state of a pin: that of one client, or `E`. -/
inductive Level where
  | driven (d : Drive)
  | contention
  deriving DecidableEq, Repr

/-- `PIN_COUNT`. -/
def pinCount : Nat := 8

/-- A connected client. -/
structure Channel where
  pins : Fin pinCount → Drive

/-- `GetDefaultPins`: a new client leaves all pins alone. -/
def Channel.default : Channel := ⟨fun _ => .open⟩

def Channel.setPin (c : Channel) (pin : Fin pinCount) (val : Drive) : Channel :=
  ⟨fun i => if i = pin then val else c.pins i⟩

/-- A row of the table, in the order of `10PX`. -/
def row (high low pullUp none : Level) : Drive → Level
  | .high => high
  | .low => low
  | .pullUp => pullUp
  | .open => none

/-- The row of `PinArbitration` for a level, if it has one. -/
def pinArbitration : Level → Option (Drive → Level)
  | .driven .high => some (row (.driven .high) .contention (.driven .high) (.driven .high))
  | .driven .low => some (row .contention (.driven .low) (.driven .low) (.driven .low))
  | .driven .pullUp => some (row (.driven .high) (.driven .low) (.driven .pullUp) (.driven .pullUp))
  | .driven .open => some (row (.driven .high) (.driven .low) (.driven .pullUp) (.driven .open))
  | .contention => none

def resolveTwo (pinA : Level) (pinB : Drive) : Except String Level :=
  match pinArbitration pinA with
  | some row => .ok (row pinB)
  | none => .error "KeyError: 'E'"

/-- The loop of `ResolvePin`: the first of the list, and the others. -/
def resolveAll : Level → List Drive → Except String Level
  | level, [] => .ok level
  | level, next :: rest =>
    match resolveTwo level next with
    | .ok p => resolveAll p rest
    | .error text => .error text

/-- `ResolvePin`, with the clients in the order of `clients.keys()`. -/
def resolvePin (clients : List Channel) (pin : Fin pinCount) : Except String Level :=
  match clients.map fun client => client.pins pin with
  | [] => .ok (.driven .open)
  | first :: rest => resolveAll (.driven first) rest

/-! ## What the level should be -/

def Conflict (drives : List Drive) : Prop := .high ∈ drives ∧ .low ∈ drives

instance (drives : List Drive) : Decidable (Conflict drives) := inferInstanceAs (Decidable (_ ∧ _))

/-- The level of a pin that is driven in these ways, in whatever order. -/
def arbitrated (drives : List Drive) : Level :=
  if Conflict drives then .contention
  else if .high ∈ drives then .driven .high
  else if .low ∈ drives then .driven .low
  else if .pullUp ∈ drives then .driven .pullUp
  else .driven .open

theorem arbitrated_singleton (d : Drive) : arbitrated [d] = .driven d := by
  cases d <;> rfl

theorem arbitrated_conflict {drives : List Drive} (clash : Conflict drives) :
    arbitrated drives = .contention := if_pos clash

/-- One more client, as long as there is no conflict yet. -/
theorem resolveTwo_arbitrated {seen : List Drive} (fine : ¬ Conflict seen) (d : Drive) :
    resolveTwo (arbitrated seen) d = .ok (arbitrated (seen ++ [d])) := by
  unfold Conflict at fine
  by_cases high : .high ∈ seen
  · have low : .low ∉ seen := fun low => fine ⟨high, low⟩
    cases d <;> simp [arbitrated, Conflict, resolveTwo, pinArbitration, row, high, low]
  · by_cases low : .low ∈ seen
    · cases d <;> simp [arbitrated, Conflict, resolveTwo, pinArbitration, row, high, low]
    · by_cases pull : .pullUp ∈ seen
      · cases d <;> simp [arbitrated, Conflict, resolveTwo, pinArbitration, row, high, low, pull]
      · cases d <;> simp [arbitrated, Conflict, resolveTwo, pinArbitration, row, high, low, pull]

/-- A conflict among those seen is fatal if anyone follows. -/
theorem resolveAll_conflict {seen : List Drive} (clash : Conflict seen) (next : Drive)
    (rest : List Drive) : resolveAll (arbitrated seen) (next :: rest) = .error "KeyError: 'E'" := by
  rw [arbitrated_conflict clash]
  rfl

theorem Conflict.append {seen : List Drive} (clash : Conflict seen) (more : List Drive) :
    Conflict (seen ++ more) :=
  ⟨List.mem_append_left more clash.1, List.mem_append_left more clash.2⟩

theorem resolveAll_arbitrated (seen rest : List Drive) (fine : ¬ Conflict seen) :
    resolveAll (arbitrated seen) rest =
      if Conflict (seen ++ rest.dropLast) then .error "KeyError: 'E'"
      else .ok (arbitrated (seen ++ rest)) := by
  induction rest generalizing seen with
  | nil =>
    rw [List.dropLast_nil, List.append_nil, if_neg fine]
    rfl
  | cons next rest ih =>
    rw [resolveAll, resolveTwo_arbitrated fine]
    cases rest with
    | nil =>
      rw [List.dropLast_singleton, List.append_nil, if_neg fine]
      rfl
    | cons third rest =>
      have split : seen ++ (next :: third :: rest).dropLast =
          seen ++ [next] ++ (third :: rest).dropLast := by
        rw [List.dropLast_cons_cons, List.append_assoc]
        rfl
      have whole : seen ++ next :: third :: rest = seen ++ [next] ++ third :: rest := by
        rw [List.append_assoc]
        rfl
      by_cases clash : Conflict (seen ++ [next])
      · rw [split, if_pos (clash.append _)]
        exact resolveAll_conflict clash third rest
      · rw [split, whole]
        exact ih (seen ++ [next]) clash

theorem resolvePin_eq (clients : List Channel) (pin : Fin pinCount) :
    resolvePin clients pin =
      if Conflict (clients.map fun client => client.pins pin).dropLast then .error "KeyError: 'E'"
      else .ok (arbitrated (clients.map fun client => client.pins pin)) := by
  unfold resolvePin
  cases clients.map fun client => client.pins pin with
  | nil => rfl
  | cons first rest =>
    have fine : ¬ Conflict [first] := by
      cases first <;> decide
    have folded := resolveAll_arbitrated [first] rest fine
    rw [arbitrated_singleton] at folded
    cases rest with
    | nil => exact folded.trans (if_neg fine)
    | cons next rest => exact folded

/-- The level is the right one exactly if the clients before the last do not
already contend for the pin. -/
theorem resolvePin_arbitrated_iff (clients : List Channel) (pin : Fin pinCount) :
    resolvePin clients pin = .ok (arbitrated (clients.map fun client => client.pins pin)) ↔
      ¬ Conflict (clients.map fun client => client.pins pin).dropLast := by
  rw [resolvePin_eq]
  by_cases clash : Conflict (clients.map fun client => client.pins pin).dropLast
  · rw [if_pos clash]
    simp [clash]
  · rw [if_neg clash]
    simp [clash]

/-- Two clients contend for a pin, and a third one leaves it alone. -/
theorem third_client_fails : ∃ (clients : List Channel) (pin : Fin pinCount),
    arbitrated (clients.map fun client => client.pins pin) = .contention ∧
    resolvePin clients pin = .error "KeyError: 'E'" :=
  ⟨[⟨fun _ => .high⟩, ⟨fun _ => .low⟩, .default], ⟨0, by decide⟩, rfl, rfl⟩

end Bifferboard.Panel
