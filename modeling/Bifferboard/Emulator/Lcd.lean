import Bifferboard.Emulator.TerminalBlock

/-!
# A display at the panel

`lcdwrite.py` drives the lines of an HD44780 through the panel, and the display of
`hd44780.py` watches them. A byte goes out as a dozen pin writes. Those that change
nothing are not passed on, and the display only looks at the other lines when the
enable line goes up. What has been written is then on the display.
-/

namespace Bifferboard.Lcd
open Panel

def hdE : Nat := 0
def hdRS : Nat := 1
def hdDB4 : Nat := 2
def hdDB5 : Nat := 3
def hdDB6 : Nat := 4
def hdDB7 : Nat := 5

/-- `pin_map`. -/
def pinMap : List Nat := [hdE, hdRS, hdDB4, hdDB5, hdDB6, hdDB7]

/-! ## The display -/

/-- The display, with the codes of the characters it shows. -/
structure PanelEvents where
  prevE : Char
  prevCmnd : List Nat
  prevData : List Nat
  lcdInit : Bool
  lcdText : List Nat
  lcdCursor : Nat
  deriving DecidableEq, Repr

namespace PanelEvents

def init (initTxt : List Nat) : PanelEvents := ⟨'1', [], [], false, initTxt, 0⟩

def lcdUpdate (newchar : Nat) (d : PanelEvents) : PanelEvents :=
  { d with
    lcdText := (d.lcdText.take d.lcdCursor ++ [newchar] ++ d.lcdText.drop (d.lcdCursor + 1)).take 32
    lcdCursor := if d.lcdCursor + 1 > 31 then 0 else d.lcdCursor + 1 }

/-- The value on the data lines, the high one first. -/
def value (lines : List Char) : Nat :=
  lines.foldl (fun val i => if i ≠ '0' then val <<< 1 + 1 else val <<< 1) 0

/-- What is done with a command. -/
def execute (total : Nat) (d : PanelEvents) : PanelEvents :=
  if total = 0x06 then
    { d with lcdInit := true, lcdCursor := 0, lcdText := List.replicate 32 0 }
  else d

/-- The two values that were collected, as a byte. -/
def total : List Nat → Option Nat
  | high :: low :: _ => some (high <<< 4 ||| low)
  | _ => none

/-- The enable line has gone up. -/
def edge (RS : Char) (val : Nat) (d : PanelEvents) : PanelEvents :=
  if RS = '0' then
    match total (d.prevCmnd ++ [val]) with
    | some total => { d.execute total with prevCmnd := [], prevData := [] }
    | none => { d with prevCmnd := d.prevCmnd ++ [val], prevData := [] }
  else if d.lcdInit then
    match total (d.prevData ++ [val]) with
    | some total => { d.lcdUpdate total with prevCmnd := [], prevData := [] }
    | none => { d with prevCmnd := [], prevData := d.prevData ++ [val] }
  else { d with prevCmnd := [] }

def pinsUpdated (E RS DB4 DB5 DB6 DB7 : Char) (d : PanelEvents) : PanelEvents :=
  let d := if E ≠ '0' ∧ d.prevE = '0' then d.edge RS (value [DB7, DB6, DB5, DB4]) else d
  { d with prevE := E }

/-- `found_terminator`, for a line from the server. A line with too few letters
would be an `IndexError`, which the server never causes. -/
def foundTerminator (d : PanelEvents) (data : List Char) : PanelEvents :=
  match data with
  | 'R' :: ' ' :: pin =>
    match pinMap.mapM fun i => pin[i]? with
    | some [E, RS, DB4, DB5, DB6, DB7] => d.pinsUpdated E RS DB4 DB5 DB6 DB7
    | _ => d
  | _ => d

end PanelEvents

/-- The lines that the display sends when it has connected. -/
def displayLines : List (List Char) :=
  pinMap.map (fun i => "NOTIFY ".toList ++ (toString i).toList) ++ ["R".toList]

/-- The display after some lines from the server. -/
def shown (lines : List (List Char)) : PanelEvents :=
  lines.foldl PanelEvents.foundTerminator (.init (List.replicate 32 0))

/-! ## The writer -/

/-- `SetPin` of an `Actor`: the line it sends, if any. -/
def setPin (pin : Nat) (val : Char) : List (List Char) :=
  if pin < pinCount then ["W ".toList ++ (toString pin).toList ++ [' ', val]] else []

def setValue (pin val : Nat) : List (List Char) := if val = 0 then setPin pin '0' else setPin pin '1'

def writeNibble (val : Nat) : List (List Char) :=
  setValue hdDB4 (val &&& 1) ++ setValue hdDB5 ((val &&& 2) >>> 1) ++
  setValue hdDB6 ((val &&& 4) >>> 2) ++ setValue hdDB7 ((val &&& 8) >>> 3) ++
  setValue hdE 0 ++ setValue hdE 1

def writeData (c : Nat) : List (List Char) :=
  setValue hdRS 1 ++ writeNibble (c >>> 4 &&& 0x0f) ++ writeNibble (c &&& 0x0f)

def writeCommand (c : Nat) : List (List Char) :=
  setValue hdRS 0 ++ writeNibble (c >>> 4 &&& 0x0f) ++ writeNibble (c &&& 0x0f)

/-- `LCD.__init__`. -/
def initLines : List (List Char) :=
  writeNibble 0x03 ++ writeNibble 0x03 ++ writeNibble 0x03 ++ writeNibble 0x02 ++
  writeCommand 0x28 ++ writeCommand 0x0c ++ writeCommand 0x01 ++ writeCommand 0x06

inductive Call where
  | data (c : Fin 256)
  | command (c : Fin 256)
  deriving DecidableEq, Repr

def Call.lines : Call → List (List Char)
  | .data c => writeData c
  | .command c => writeCommand c

/-! ## Both at a panel -/

/-- The server takes lines from a client, one after the other. Nobody is found gone. -/
def takeLines (fd : Nat) : List (List Char) → Server → Except String Server
  | [], s => .ok s
  | line :: lines, s =>
    match s.foundTerminator noneGone fd line with
    | .error text => .error text
    | .ok s' => takeLines fd lines s'

/-- A panel at which the display has connected first, and then the writer, which the
dictionary lists in front or behind. -/
def connected (display writer : Nat) (front : Bool) : Except String Server :=
  match takeLines display displayLines { Server.start with clients := [.new display] } with
  | .error text => .error text
  | .ok s => .ok { s with
      clients := if front then .new writer :: s.clients else s.clients ++ [.new writer] }

/-- The server after the calls. -/
def session (display writer : Nat) (front : Bool) (calls : List Call) : Except String Server :=
  match connected display writer front with
  | .error text => .error text
  | .ok s => takeLines writer (initLines ++ calls.flatMap Call.lines) s

/-- What the server has sent to a client. -/
def received (fd : Nat) (s : Server) : List (List Char) :=
  (s.clients.filter fun c => c.fd = fd).flatMap fun c => c.sent.map Line.text

/-- The bytes to be shown, after one more call. -/
def afterCall (bytes : List Nat) : Call → List Nat
  | .data c => bytes ++ [c.val]
  | .command c => if c.val = 0x06 then [] else bytes

/-- The data bytes since the last command 0x06. -/
def sinceReset (calls : List Call) : List Nat := calls.foldl afterCall []

/-- The last byte that belongs to a position, or NUL. -/
def lastAt (bytes : List Nat) (k : Nat) : Nat :=
  (((bytes.zipIdx.filter fun x => x.2 % 32 = k).getLast?).map Prod.fst).getD 0

/-- What the display should show. -/
def expected (bytes : List Nat) : List Nat := (List.range 32).map (lastAt bytes)

/-! ## What reaches the display -/

/-- The pins as the writer drives them. -/
abbrev Wires := Fin pinCount → Drive

def enable : Fin pinCount := ⟨hdE, by decide⟩
def select : Fin pinCount := ⟨hdRS, by decide⟩
def db4 : Fin pinCount := ⟨hdDB4, by decide⟩
def db5 : Fin pinCount := ⟨hdDB5, by decide⟩
def db6 : Fin pinCount := ⟨hdDB6, by decide⟩
def db7 : Fin pinCount := ⟨hdDB7, by decide⟩

/-- The line with which the server announces them. -/
def announcement (v : Wires) : List Char :=
  'R' :: ' ' :: (List.finRange pinCount).map fun p => (v p).letter

def PanelEvents.follow (v : Wires) (d : PanelEvents) : PanelEvents :=
  d.pinsUpdated (v enable).letter (v select).letter (v db4).letter (v db5).letter (v db6).letter
    (v db7).letter

theorem foundTerminator_announcement (v : Wires) (d : PanelEvents) :
    d.foundTerminator (announcement v) = d.follow v := rfl

/-- The pins of the display, as the server knows them. -/
def subscribed : List (Fin pinCount) := [enable, select, db4, db5, db6, db7]

/-- The levels that go with some wires. -/
def driven (v : Wires) : LastResolve := .text ((List.finRange pinCount).map fun p => .driven (v p))

theorem text_driven (v : Wires) :
    LastResolve.text ((List.finRange pinCount).map fun p => .driven (v p)) = driven v := rfl

theorem driven_get (v : Wires) (p : Fin pinCount) : (driven v).get p = some (.driven (v p)) := by
  simp [driven, LastResolve.get]

/-- The server with the two clients. -/
def panel (display writer : Nat) (front : Bool) (sent : List Line) (v : Wires) : Server :=
  let d : Client := ⟨display, .default, subscribed, sent⟩
  let w : Client := ⟨writer, ⟨v⟩, [], []⟩
  ⟨if front then [w, d] else [d, w], driven v⟩

/-- The line to set a pin. -/
def writeLine (w : Fin pinCount × Drive) : List Char :=
  "W ".toList ++ (toString w.1.val).toList ++ [' ', w.2.letter]

theorem command_writeLine : ∀ w : Fin pinCount × Drive, command (writeLine w) = .write w.1 w.2 := by
  rintro ⟨pin, val⟩
  cases val <;> revert pin <;> decide

def Wires.set (v : Wires) (w : Fin pinCount × Drive) : Wires := fun i => if i = w.1 then w.2 else v i

section
variable (display writer : Nat) (front : Bool) (sent : List Line) (v : Wires)

theorem panel_drives (p : Fin pinCount) : (panel display writer front sent v).drives p =
    if front then [v p, .open] else [.open, v p] := by
  cases front <;> rfl

theorem panel_fine : ¬ (panel display writer front sent v).Raises := by
  rintro ⟨p, clash⟩
  rw [panel_drives] at clash
  revert clash
  cases front <;> cases v p <;> decide

theorem panel_levels : (panel display writer front sent v).levels =
    (List.finRange pinCount).map fun p => .driven (v p) := by
  apply List.map_congr_left
  intro p _
  rw [panel_drives]
  cases front <;> cases v p <;> rfl

/-- The display is told, or there is nothing to tell. -/
theorem resolved_panel (last : Wires) : ∃ sent',
    Server.resolved { panel display writer front sent v with lastResolve := driven last } =
      panel display writer front sent' v ∧
    (sent' = sent ∧ (∀ p ∈ subscribed, v p = last p) ∨
      sent' = sent ++ [⟨announcement v, subscribed⟩]) := by
  have levels : Server.levels { panel display writer front sent v with lastResolve := driven last } =
    (List.finRange pinCount).map fun p => .driven (v p) := panel_levels display writer front sent v
  have unchanged (p : Fin pinCount) (same : p ∉ Server.diffs (driven last)
      ((List.finRange pinCount).map fun p => .driven (v p))) : v p = last p := by
    simpa [Server.diffs, driven_get] using same
  rw [Server.resolved, levels]
  split
  · rename_i same
    have text : driven last = driven v := Server.isText_iff.mp same
    refine ⟨sent, ?_, .inl ⟨rfl, fun p _ => ?_⟩⟩
    · rw [text]
      rfl
    · have here := congrArg (LastResolve.get p) text
      simpa [driven_get] using here.symm
  · by_cases told : ∃ p ∈ subscribed, p ∈ Server.diffs (driven last)
      ((List.finRange pinCount).map fun p => .driven (v p))
    · refine ⟨sent ++ [⟨announcement v, subscribed⟩], ?_, .inr rfl⟩
      cases front <;> simp [Server.notified, panel, text_driven, told, Client.notifyValues,
        announcement, Level.letter, Function.comp_def]
    · refine ⟨sent, ?_, .inl ⟨rfl, fun p member => unchanged p fun new => told ⟨p, member, new⟩⟩⟩
      cases front <;> simp [Server.notified, panel, text_driven, told]

end

/-! ## Writing some pins -/

/-- The display follows the wires without a signal in between. -/
theorem follow_of_same {v : Wires} {d : PanelEvents} (synced : d.prevE = (v enable).letter) :
    d.follow v = d := by
  cases d
  simp_all [PanelEvents.follow, PanelEvents.pinsUpdated]

/-- One pin is written, and the display sees it. -/
def wire (x : Wires × PanelEvents) (w : Fin pinCount × Drive) : Wires × PanelEvents :=
  (x.1.set w, x.2.follow (x.1.set w))

section
variable {display writer : Nat} (distinct : writer ≠ display) (front : Bool)
include distinct

/-- The server takes a line from the writer. A line that changes none of the pins of
the display is not passed on, but would not have made a difference. -/
theorem takes_line (sent : List Line) (v : Wires) (w : Fin pinCount × Drive)
    (synced : (shown (sent.map Line.text)).prevE = (v enable).letter) :
    ∃ sent', (panel display writer front sent v).foundTerminator noneGone writer (writeLine w) =
      .ok (panel display writer front sent' (v.set w)) ∧
      shown (sent'.map Line.text) = (shown (sent.map Line.text)).follow (v.set w) := by
  obtain ⟨sent', resolved, told⟩ := resolved_panel display writer front sent (v.set w) v
  have set : (panel display writer front sent v).update writer
      (fun c => { c with channel := c.channel.setPin w.1 w.2 }) =
      { panel display writer front sent (v.set w) with lastResolve := driven v } := by
    have changed : (⟨fun i => if i = w.1 then w.2 else v i⟩ : Channel) = ⟨v.set w⟩ := rfl
    cases front <;> simp [Server.update, panel, distinct.symm, Channel.setPin, changed]
  have fine :
      ¬ Server.Raises { panel display writer front sent (v.set w) with lastResolve := driven v } :=
    panel_fine display writer front sent (v.set w)
  have keys :
      Server.Distinct { panel display writer front sent (v.set w) with lastResolve := driven v } := by
    cases front <;> simp [Server.Distinct, panel, distinct, distinct.symm]
  have worked := Server.resolve_of_fine (show ∀ c, noneGone c = false from fun _ => rfl) keys fine
  refine ⟨sent', ?_, ?_⟩
  · simp only [Server.foundTerminator, command_writeLine, set, worked, resolved]
  · rcases told with ⟨rfl, same⟩ | rfl
    · rw [follow_of_same]
      rw [synced, same enable (by decide)]
    · rw [List.map_append, shown, List.foldl_append]
      exact foundTerminator_announcement (v.set w) (shown (sent.map Line.text))

/-- The server takes some lines from the writer. -/
theorem takes_lines (ws : List (Fin pinCount × Drive)) (sent : List Line) (v : Wires)
    (synced : (shown (sent.map Line.text)).prevE = (v enable).letter) :
    ∃ sent', takeLines writer (ws.map writeLine) (panel display writer front sent v) =
      .ok (panel display writer front sent' (ws.foldl wire (v, shown (sent.map Line.text))).1) ∧
      shown (sent'.map Line.text) = (ws.foldl wire (v, shown (sent.map Line.text))).2 := by
  induction ws generalizing sent v with
  | nil => exact ⟨sent, rfl, rfl⟩
  | cons w ws ih =>
    obtain ⟨sent₁, first, seen⟩ := takes_line distinct front sent v w synced
    obtain ⟨sent', rest, shows⟩ := ih sent₁ (v.set w) (by rw [seen]; rfl)
    rw [seen] at rest shows
    refine ⟨sent', ?_, shows⟩
    rw [List.map_cons, takeLines, first]
    exact rest

end

/-! ## Nibbles and bytes -/

def bitDrive (b : Nat) : Drive := if b = 0 then .low else .high

/-- The data pins that `WriteNibble` sets. -/
def dataWrites (val : Nat) : List (Fin pinCount × Drive) :=
  [(db4, bitDrive (val &&& 1)), (db5, bitDrive ((val &&& 2) >>> 1)),
   (db6, bitDrive ((val &&& 4) >>> 2)), (db7, bitDrive ((val &&& 8) >>> 3))]

/-- All pins that it sets. -/
def nibbleWrites (val : Nat) : List (Fin pinCount × Drive) :=
  dataWrites val ++ [(enable, .low), (enable, .high)]

theorem setValue_eq (p : Fin pinCount) (b : Nat) : setValue p b = [writeLine (p, bitDrive b)] := by
  unfold setValue bitDrive
  split <;> simp [setPin, writeLine, Drive.letter, p.isLt]

theorem writeNibble_eq (val : Nat) : writeNibble val = (nibbleWrites val).map writeLine := by
  have down : setValue hdE 0 = [writeLine (enable, .low)] := setValue_eq enable 0
  have up : setValue hdE 1 = [writeLine (enable, .high)] := setValue_eq enable 1
  have four (b : Nat) : setValue hdDB4 b = [writeLine (db4, bitDrive b)] := setValue_eq db4 b
  have five (b : Nat) : setValue hdDB5 b = [writeLine (db5, bitDrive b)] := setValue_eq db5 b
  have six (b : Nat) : setValue hdDB6 b = [writeLine (db6, bitDrive b)] := setValue_eq db6 b
  have seven (b : Nat) : setValue hdDB7 b = [writeLine (db7, bitDrive b)] := setValue_eq db7 b
  rw [writeNibble, four, five, six, seven, down, up]
  rfl

/-- The display does nothing until the enable line changes. -/
theorem wire_others (ws : List (Fin pinCount × Drive)) (others : ∀ w ∈ ws, w.1 ≠ enable) (v : Wires)
    {d : PanelEvents} (synced : d.prevE = (v enable).letter) :
    ws.foldl wire (v, d) = (ws.foldl Wires.set v, d) := by
  induction ws generalizing v with
  | nil => rfl
  | cons w ws ih =>
    have kept : d.prevE = (v.set w enable).letter := by
      rw [synced, Wires.set, if_neg (Ne.symm (others w List.mem_cons_self))]
    rw [List.foldl_cons, List.foldl_cons, wire, follow_of_same kept]
    exact ih (fun w member => others w (List.mem_cons_of_mem _ member)) (v.set w) kept

theorem value_bits : ∀ val < 16, PanelEvents.value [(bitDrive ((val &&& 8) >>> 3)).letter,
    (bitDrive ((val &&& 4) >>> 2)).letter, (bitDrive ((val &&& 2) >>> 1)).letter,
    (bitDrive (val &&& 1)).letter] = val := by
  decide

/-- What happens when the enable line goes up does not depend on how it was seen. -/
theorem edge_prevE (c : Char) (RS : Char) (val : Nat) (d : PanelEvents) :
    ({ d with prevE := c } : PanelEvents).edge RS val = { d.edge RS val with prevE := c } := by
  have execute (total : Nat) : ({ d with prevE := c } : PanelEvents).execute total =
      { d.execute total with prevE := c } := by
    unfold PanelEvents.execute
    split <;> rfl
  unfold PanelEvents.edge
  by_cases command : RS = '0'
  · cases PanelEvents.total (d.prevCmnd ++ [val]) <;> simp [command, execute]
  · by_cases ready : d.lcdInit = true
    · cases PanelEvents.total (d.prevData ++ [val]) <;> simp [command, ready, PanelEvents.lcdUpdate]
    · simp [command, ready]

/-- The display sees the enable line go down, and nothing else. -/
theorem follow_down {v : Wires} (d : PanelEvents) (down : v enable = .low) :
    d.follow v = { d with prevE := '0' } := by
  simp [PanelEvents.follow, PanelEvents.pinsUpdated, down, Drive.letter]

theorem follow_up {v : Wires} {d : PanelEvents} (up : v enable = .high) (down : d.prevE = '0') :
    d.follow v = { d.edge (v select).letter (PanelEvents.value [(v db7).letter,
      (v db6).letter, (v db5).letter, (v db4).letter]) with prevE := '1' } := by
  simp [PanelEvents.follow, PanelEvents.pinsUpdated, up, down, Drive.letter]

/-- A nibble arrives at the display. -/
theorem nibble_arrives {v : Wires} {d : PanelEvents} {val : Nat} (small : val < 16)
    (synced : d.prevE = (v enable).letter) :
    ∃ v', (nibbleWrites val).foldl wire (v, d) =
        (v', { d.edge (v select).letter val with prevE := '1' }) ∧
      v' enable = .high ∧ v' select = v select := by
  have others : ∀ w ∈ dataWrites val, w.1 ≠ enable := by
    simp only [dataWrites, List.forall_mem_cons]
    decide
  have data := wire_others (dataWrites val) others v synced
  have bits : PanelEvents.value [((dataWrites val).foldl Wires.set v db7).letter,
      ((dataWrites val).foldl Wires.set v db6).letter,
      ((dataWrites val).foldl Wires.set v db5).letter,
      ((dataWrites val).foldl Wires.set v db4).letter] = val := value_bits val small
  have RS : (dataWrites val).foldl Wires.set v select = v select := rfl
  generalize (dataWrites val).foldl Wires.set v = v₄ at data bits RS
  refine ⟨(v₄.set (enable, .low)).set (enable, .high), ?_, rfl, RS⟩
  rw [nibbleWrites, List.foldl_append, data]
  have down : d.follow (v₄.set (enable, .low)) = { d with prevE := '0' } := follow_down d rfl
  have raised : ({ d with prevE := '0' } : PanelEvents).follow
      ((v₄.set (enable, .low)).set (enable, .high)) =
      { d.edge (v select).letter val with prevE := '1' } := by
    rw [follow_up rfl rfl, edge_prevE, ← bits, ← RS]
    rfl
  simp only [List.foldl_cons, List.foldl_nil, wire, down, raised]

/-- The display is between two bytes. -/
structure PanelEvents.Idle (d : PanelEvents) : Prop where
  high : d.prevE = '1'
  noCmnd : d.prevCmnd = []
  noData : d.prevData = []

def PanelEvents.call : Call → PanelEvents → PanelEvents
  | .data c, d => d.lcdUpdate c
  | .command c, d => d.execute c

theorem PanelEvents.Idle.call {d : PanelEvents} (idle : d.Idle) (c : Call) : (d.call c).Idle := by
  obtain ⟨high, noCmnd, noData⟩ := idle
  cases c with
  | data c => exact ⟨high, noCmnd, noData⟩
  | command c =>
    rw [PanelEvents.call, PanelEvents.execute]
    split
    · exact ⟨high, noCmnd, noData⟩
    · exact ⟨high, noCmnd, noData⟩

def Call.select : Call → Drive
  | .data _ => .high
  | .command _ => .low

def Call.byte : Call → Nat
  | .data c => c
  | .command c => c

def Call.writes (c : Call) : List (Fin pinCount × Drive) :=
  (Lcd.select, c.select) :: nibbleWrites (c.byte >>> 4 &&& 0x0f) ++ nibbleWrites (c.byte &&& 0x0f)

theorem Call.lines_eq (c : Call) : c.lines = c.writes.map writeLine := by
  have line (b : Nat) : setValue hdRS b = [writeLine (Lcd.select, bitDrive b)] :=
    setValue_eq Lcd.select b
  cases c with
  | data c =>
    rw [Call.lines, writeData, line, writeNibble_eq, writeNibble_eq, Call.writes]
    simp [Call.byte, Call.select, bitDrive]
  | command c =>
    rw [Call.lines, writeCommand, line, writeNibble_eq, writeNibble_eq, Call.writes]
    simp [Call.byte, Call.select, bitDrive]

theorem Call.nibbles (c : Call) : (c.byte >>> 4 &&& 0x0f) < 16 ∧ (c.byte &&& 0x0f) < 16 ∧
    (c.byte >>> 4 &&& 0x0f) <<< 4 ||| (c.byte &&& 0x0f) = c.byte := by
  have all : ∀ c : Fin 256, (c.val >>> 4 &&& 0x0f) < 16 ∧ (c.val &&& 0x0f) < 16 ∧
    (c.val >>> 4 &&& 0x0f) <<< 4 ||| (c.val &&& 0x0f) = c.val := by decide +kernel
  cases c with
  | data c => exact all c
  | command c => exact all c

/-- The two nibbles of a byte, put together again. -/
theorem edges_call {d : PanelEvents} (idle : d.Idle) (c : Call)
    (ready : c.select = .low ∨ d.lcdInit = true) :
    ({ ({ d.edge c.select.letter (c.byte >>> 4 &&& 0x0f) with prevE := '1' } : PanelEvents).edge
      c.select.letter (c.byte &&& 0x0f) with prevE := '1' } : PanelEvents) = d.call c := by
  obtain ⟨prevE, prevCmnd, prevData, lcdInit, lcdText, lcdCursor⟩ := d
  obtain ⟨rfl, rfl, rfl⟩ : prevE = '1' ∧ prevCmnd = [] ∧ prevData = [] :=
    ⟨idle.high, idle.noCmnd, idle.noData⟩
  obtain ⟨-, -, joined⟩ := c.nibbles
  cases c with
  | data c =>
    obtain rfl : lcdInit = true := by simpa [Call.select] using ready
    simp_all [PanelEvents.edge, PanelEvents.total, PanelEvents.call, Call.select, Call.byte,
      Drive.letter, PanelEvents.lcdUpdate]
  | command c =>
    simp_all [PanelEvents.edge, PanelEvents.total, PanelEvents.call, Call.select, Call.byte,
      Drive.letter, PanelEvents.execute]
    split <;> rfl

/-- A byte arrives at the display. -/
theorem call_arrives {v : Wires} {d : PanelEvents} (up : v enable = .high) (idle : d.Idle) (c : Call)
    (ready : c.select = .low ∨ d.lcdInit = true) :
    ∃ v', c.writes.foldl wire (v, d) = (v', d.call c) ∧ v' enable = .high := by
  obtain ⟨high, low, -⟩ := c.nibbles
  have chosen : wire (v, d) (Lcd.select, c.select) = (v.set (Lcd.select, c.select), d) :=
    wire_others [(Lcd.select, c.select)] (by simp; decide) v (by rw [idle.high, up]; rfl)
  have wired : v.set (Lcd.select, c.select) Lcd.select = c.select := if_pos rfl
  have still : v.set (Lcd.select, c.select) enable = .high := up
  obtain ⟨v₁, first, up₁, same₁⟩ := nibble_arrives (v := v.set (Lcd.select, c.select)) (d := d) high
    (by rw [idle.high, still]; rfl)
  rw [wired] at first same₁
  obtain ⟨v₂, second, up₂, -⟩ := nibble_arrives (v := v₁)
    (d := { d.edge c.select.letter (c.byte >>> 4 &&& 0x0f) with prevE := '1' }) low (by rw [up₁]; rfl)
  rw [same₁, edges_call idle c ready] at second
  refine ⟨v₂, ?_, up₂⟩
  rw [Call.writes, List.cons_append, List.foldl_cons, chosen, List.foldl_append, first, second]

theorem PanelEvents.lcdInit_call {d : PanelEvents} (c : Call) (ready : d.lcdInit = true) :
    (d.call c).lcdInit = true := by
  cases c with
  | data c => exact ready
  | command c =>
    rw [PanelEvents.call, PanelEvents.execute]
    split
    · rfl
    · exact ready

/-- Some bytes arrive at the display. Before it is initialised there are only
commands. -/
theorem calls_arrive (calls : List Call) {v : Wires} {d : PanelEvents} (up : v enable = .high)
    (idle : d.Idle)
    (ready : (∀ c ∈ calls, c.select = .low) ∨ d.lcdInit = true) :
    ∃ v', (calls.flatMap Call.writes).foldl wire (v, d) = (v', calls.foldl (fun d c => d.call c) d) ∧
      v' enable = .high := by
  induction calls generalizing v d with
  | nil => exact ⟨v, rfl, up⟩
  | cons c calls ih =>
    have now : c.select = .low ∨ d.lcdInit = true :=
      ready.imp_left fun all => all c List.mem_cons_self
    have later : (∀ c ∈ calls, c.select = .low) ∨ (d.call c).lcdInit = true :=
      ready.imp (fun all c member => all c (List.mem_cons_of_mem _ member)) (d.lcdInit_call c)
    obtain ⟨v₁, first, up₁⟩ := call_arrives up idle c now
    obtain ⟨v', rest, up'⟩ := ih up₁ (idle.call c) later
    refine ⟨v', ?_, up'⟩
    rw [List.flatMap_cons, List.foldl_append, first, rest]
    rfl

theorem PanelEvents.Idle.calls {d : PanelEvents} (idle : d.Idle) (calls : List Call) :
    (calls.foldl (fun d c => d.call c) d).Idle := by
  induction calls generalizing d with
  | nil => exact idle
  | cons c calls ih => exact ih (idle.call c)

/-! ## What is shown -/

theorem lastAt_append (bytes : List Nat) (c k : Nat) :
    lastAt (bytes ++ [c]) k = if bytes.length % 32 = k then c else lastAt bytes k := by
  unfold lastAt
  rw [List.zipIdx_append, List.filter_append]
  by_cases here : bytes.length % 32 = k
  · simp [here]
  · simp [here]

theorem expected_append (bytes : List Nat) (c : Nat) :
    expected (bytes ++ [c]) = (expected bytes).set (bytes.length % 32) c := by
  apply List.ext_getElem
  · simp [expected]
  · intro k _ _
    simp [expected, lastAt_append, List.getElem_set]

/-- The display is initialised, and shows these bytes. -/
structure PanelEvents.Shows (bytes : List Nat) (d : PanelEvents) : Prop where
  ready : d.lcdInit = true
  text : d.lcdText = expected bytes
  cursor : d.lcdCursor = bytes.length % 32

theorem PanelEvents.shows_reset (d : PanelEvents) : (d.execute 0x06).Shows [] :=
  ⟨rfl, rfl, rfl⟩

/-- A data byte is shown at the cursor. -/
theorem PanelEvents.Shows.lcdUpdate {bytes : List Nat} {d : PanelEvents} (shows : d.Shows bytes)
    (c : Nat) :
    (d.lcdUpdate c).Shows (bytes ++ [c]) where
  ready := shows.ready
  text := by
    have full : (expected bytes).length = 32 := by simp [expected]
    have inside : bytes.length % 32 < (expected bytes).length := by omega
    rw [PanelEvents.lcdUpdate, shows.text, shows.cursor, expected_append,
      List.set_eq_take_append_cons_drop, if_pos inside, List.take_of_length_le]
    · simp
    · simp
      omega
  cursor := by
    simp only [PanelEvents.lcdUpdate, shows.cursor, List.length_append, List.length_singleton]
    split <;> omega

theorem PanelEvents.Shows.call {bytes : List Nat} {d : PanelEvents} (shows : d.Shows bytes)
    (c : Call) :
    (d.call c).Shows (afterCall bytes c) := by
  cases c with
  | data c => exact shows.lcdUpdate c
  | command c =>
    by_cases reset : c.val = 0x06
    · rw [PanelEvents.call, afterCall, if_pos reset, reset]
      exact d.shows_reset
    · rw [PanelEvents.call, afterCall, if_neg reset, PanelEvents.execute, if_neg reset]
      exact shows

theorem PanelEvents.Shows.calls {bytes : List Nat} {d : PanelEvents} (shows : d.Shows bytes)
    (calls : List Call) :
    (calls.foldl (fun d c => d.call c) d).Shows (calls.foldl afterCall bytes) := by
  induction calls generalizing d bytes with
  | nil => exact shows
  | cons c calls ih => exact ih (shows.call c)

/-- The text always fits. -/
def PanelEvents.Full (d : PanelEvents) : Prop := d.lcdText.length = 32 ∧ d.lcdCursor < 32

theorem PanelEvents.Full.lcdUpdate {d : PanelEvents} (full : d.Full) (c : Nat) :
    (d.lcdUpdate c).Full := by
  obtain ⟨length, cursor⟩ := full
  constructor
  · simp [PanelEvents.lcdUpdate]
    omega
  · simp only [PanelEvents.lcdUpdate]
    split <;> omega

theorem PanelEvents.Full.edge {d : PanelEvents} (full : d.Full) (RS : Char) (val : Nat) :
    (d.edge RS val).Full := by
  rw [PanelEvents.edge]
  split
  · split
    · rw [PanelEvents.execute]
      split
      · exact ⟨List.length_replicate, Nat.zero_lt_succ 31⟩
      · exact full
    · exact full
  · split
    · split
      · exact full.lcdUpdate _
      · exact full
    · exact full

theorem PanelEvents.Full.foundTerminator {d : PanelEvents} (full : d.Full) (data : List Char) :
    (d.foundTerminator data).Full := by
  unfold PanelEvents.foundTerminator
  split
  · split
    · rw [PanelEvents.pinsUpdated]
      split
      · exact full.edge _ _
      · exact full
    · exact full
  · exact full

theorem shown_full (lines : List (List Char)) : (shown lines).Full :=
  List.foldlRecOn lines _ ⟨List.length_replicate, Nat.zero_lt_succ 31⟩
    fun _ full line _ => full.foundTerminator line

/-! ## A session -/

/-- Before the display is initialised, a nibble that is not a command is ignored. -/
theorem nibble_ignored {v : Wires} {d : PanelEvents} {val : Nat} (small : val < 16)
    (synced : d.prevE = (v enable).letter) (undriven : v select = .open)
    (unready : d.lcdInit = false) :
    ∃ v', (nibbleWrites val).foldl wire (v, d) = (v', { d with prevE := '1', prevCmnd := [] }) ∧
      v' enable = .high ∧ v' select = .open := by
  obtain ⟨v', arrives, up, same⟩ := nibble_arrives small synced
  refine ⟨v', ?_, up, same.trans undriven⟩
  rw [arrives, undriven]
  simp [PanelEvents.edge, Drive.letter, unready]

def initCommands : List Call := [.command 0x28, .command 0x0c, .command 0x01, .command 0x06]

/-- The pins that `LCD.__init__` sets. -/
def initWrites : List (Fin pinCount × Drive) :=
  nibbleWrites 3 ++ nibbleWrites 3 ++ nibbleWrites 3 ++ nibbleWrites 2 ++ initCommands.flatMap Call.writes

theorem initLines_eq : initLines = initWrites.map writeLine := by
  have lines (c : Fin 256) : writeCommand c = (Call.command c).writes.map writeLine :=
    Call.lines_eq (.command c)
  have first := lines 0x28
  have second := lines 0x0c
  have third := lines 0x01
  have last := lines 0x06
  simp only [initLines, initWrites, initCommands, writeNibble_eq, List.map_append, List.flatMap_cons,
    List.flatMap_nil, ← first, ← second, ← third, ← last, List.append_assoc]
  simp

/-- The display after `LCD.__init__`. -/
theorem init_arrives {v : Wires} {d : PanelEvents} (synced : d.prevE = (v enable).letter)
    (undriven : v select = .open) (unready : d.lcdInit = false) (noData : d.prevData = []) :
    ∃ v' d', initWrites.foldl wire (v, d) = (v', d') ∧ v' enable = .high ∧ d'.Idle ∧ d'.Shows [] := by
  obtain ⟨v₁, first, up₁, undriven₁⟩ := nibble_ignored (by decide : 3 < 16) synced undriven unready
  have idle : ({ d with prevE := '1', prevCmnd := [] } : PanelEvents).Idle := ⟨rfl, rfl, noData⟩
  obtain ⟨v₂, second, up₂, undriven₂⟩ := nibble_ignored (d := { d with prevE := '1', prevCmnd := [] })
    (by decide : 3 < 16) (by rw [up₁]; rfl) undriven₁ unready
  obtain ⟨v₃, third, up₃, undriven₃⟩ := nibble_ignored (d := { d with prevE := '1', prevCmnd := [] })
    (by decide : 3 < 16) (by rw [up₂]; rfl) undriven₂ unready
  obtain ⟨v₄, fourth, up₄, -⟩ := nibble_ignored (d := { d with prevE := '1', prevCmnd := [] })
    (by decide : 2 < 16) (by rw [up₃]; rfl) undriven₃ unready
  obtain ⟨v', commands, up⟩ := calls_arrive initCommands up₄ idle (.inl (by decide))
  refine ⟨v', _, ?_, up, idle.calls initCommands, PanelEvents.shows_reset _⟩
  rw [initWrites, List.foldl_append, List.foldl_append, List.foldl_append, List.foldl_append, first,
    second, third, fourth, commands]

def notifyLine (p : Fin pinCount) : List Char := "NOTIFY ".toList ++ (toString p.val).toList

theorem command_notifyLine : ∀ p : Fin pinCount, command (notifyLine p) = .notify p := by
  decide

/-- The display subscribes to some pins. -/
theorem takes_notify (fd : Nat) (pins notify : List (Fin pinCount)) (last : LastResolve)
    (rest : List (List Char)) :
    takeLines fd (pins.map notifyLine ++ rest) ⟨[⟨fd, .default, notify, []⟩], last⟩ =
      takeLines fd rest ⟨[⟨fd, .default, notify ++ pins, []⟩], last⟩ := by
  induction pins generalizing notify with
  | nil => simp
  | cons p pins ih =>
    rw [List.map_cons, List.cons_append, takeLines, Server.foundTerminator, command_notifyLine]
    simp [Server.update, ih]

/-- The display asks for the levels. No pin is driven, which is what the server
assumes at the start. -/
theorem takes_read (fd : Nat) :
    takeLines fd ["R".toList] ⟨[⟨fd, .default, subscribed, []⟩], .list Channel.default.pins⟩ =
      .ok ⟨[⟨fd, .default, subscribed, [⟨announcement fun _ => .open, subscribed⟩]⟩],
        driven fun _ => .open⟩ := by
  have fine : ¬ Server.Raises ⟨[⟨fd, .default, subscribed, []⟩], .list Channel.default.pins⟩ := by
    rintro ⟨p, clash⟩
    simp [Server.drives, Conflict] at clash
  have resolved : Server.resolved ⟨[⟨fd, .default, subscribed, []⟩], .list Channel.default.pins⟩ =
      ⟨[⟨fd, .default, subscribed, []⟩], driven fun _ => .open⟩ := by
    rfl
  have keys : Server.Distinct ⟨[⟨fd, .default, subscribed, []⟩], .list Channel.default.pins⟩ := by
    simp [Server.Distinct]
  have read : command "R".toList = .read := by decide
  have worked := Server.resolve_of_fine (show ∀ c, noneGone c = false from fun _ => rfl) keys fine
  simp only [takeLines, Server.foundTerminator, read, worked, resolved]
  simp [Server.client, Server.notifyValues, noneGone, Server.update, Client.notifyValues]
  rfl

/-- Both are connected, and the display knows that no pin is driven. -/
theorem connected_eq (display writer : Nat) (front : Bool) : connected display writer front =
    .ok (panel display writer front [⟨announcement fun _ => .open, subscribed⟩] fun _ => .open) := by
  have lines : displayLines = subscribed.map notifyLine ++ ["R".toList] := by decide
  have first : takeLines display displayLines { Server.start with clients := [.new display] } = _ :=
    lines ▸ (takes_notify display subscribed [] _ _).trans (takes_read display)
  -- `rw` would have the lines run in the equation of `connected`
  delta connected
  rw [first]
  cases front <;> rfl

theorem received_panel {display writer : Nat} (distinct : writer ≠ display) (front : Bool)
    (sent : List Line)
    (v : Wires) : received display (panel display writer front sent v) = sent.map Line.text := by
  cases front <;> simp [received, panel, distinct]

theorem lines_eq (calls : List Call) : initLines ++ calls.flatMap Call.lines =
    (initWrites ++ calls.flatMap Call.writes).map writeLine := by
  rw [initLines_eq, List.map_append, List.map_flatMap]
  congr 2
  funext c
  exact c.lines_eq

/-- What has been written since the last reset is on the display, and at no time is
the text longer or shorter. -/
theorem lcd_round_trip (display writer : Nat) (distinct : writer ≠ display) (front : Bool)
    (calls : List Call) :
    ∃ s, session display writer front calls = .ok s ∧
      (∀ log, log <+: received display s → (shown log).lcdText.length = 32) ∧
      (shown (received display s)).lcdText = expected (sinceReset calls) := by
  obtain ⟨sent, taken, seen⟩ := takes_lines distinct front (initWrites ++ calls.flatMap Call.writes)
    [⟨announcement fun _ => .open, subscribed⟩] (fun _ => .open) rfl
  obtain ⟨v, d, init, up, idle, reset⟩ := init_arrives (v := fun _ => .open)
    (d := shown [announcement fun _ => .open]) rfl rfl rfl rfl
  obtain ⟨v', arrive, -⟩ := calls_arrive calls up idle (.inr reset.ready)
  have all : (initWrites ++ calls.flatMap Call.writes).foldl wire
      (fun _ => .open, shown [announcement fun _ => .open]) =
        (v', calls.foldl (fun d c => d.call c) d) := by
    rw [List.foldl_append, init, arrive]
  simp only [List.map_cons, List.map_nil, all] at taken seen
  refine ⟨panel display writer front sent v', ?_, fun log _ => (shown_full log).1, ?_⟩
  · delta session
    rw [connected_eq]
    simp only [lines_eq]
    exact taken
  · rw [received_panel distinct, seen]
    exact (reset.calls calls).text

/-- After 33 data bytes the first position shows the last of them. -/
theorem thirty_three_bytes : ∃ s,
    session 4 5 false ((List.replicate 32 (.data 0x20)) ++ [.data 0x41]) = .ok s ∧
      (shown (received 4 s)).lcdText.head? = some 0x41 := by
  obtain ⟨s, done, -, text⟩ := lcd_round_trip 4 5 (by decide) false
    ((List.replicate 32 (.data 0x20)) ++ [.data 0x41])
  refine ⟨s, done, ?_⟩
  rw [text]
  decide

end Bifferboard.Lcd
