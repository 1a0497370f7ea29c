import Bifferboard.Heating.Decode
import Bifferboard.Heating.Spool
import Bifferboard.Nor.Text
import Bifferboard.Transition.Reach

/-!
# The heating controller

`chmon` on the Bifferboard talks to an Arduino that has the thermometer, a display
and a latching relay. All that `chmon` has to say goes over one serial line, one byte
at a time: `+` and `-` switch the relay, `?` asks for the temperature, `<` and `>` go
to a line of the display, and everything else is written there. Nothing is quoted.

So messages from the web page reach the relay if they have a sign in them, and so does
a temperature below zero. `chmon` remembers what it has last done to the relay and
does not repeat it, so it does not notice.

The port is opened with `O_NONBLOCK`, and nobody looks at what `write` returns. So the
port takes as much as it likes, and what it has taken may still be lost before the
Arduino gets to read it. The main loop makes one step for each `write`, and for each
call that others can see.

There is no next step where the source writes behind the end of an array.
-/

namespace Bifferboard.Heating
open Nor Config

/-! ## The Arduino -/

inductive LcdOp where
  | setCursor (col row : Nat)
  | write (b : Byte)
  deriving DecidableEq, Repr

/-- The Arduino and what is connected to it. -/
structure Board where
  relay : Bool
  lcd : List LcdOp
  /-- Lines that `chmon` has not read yet. -/
  sent : List (List Byte)
  deriving DecidableEq, Repr

def cmdRelayHigh : Byte := 0x2b#8
def cmdRelayLow : Byte := 0x2d#8
def cmdGetTemp : Byte := 0x3f#8
def cmdRow1 : Byte := 0x3c#8
def cmdRow2 : Byte := 0x3e#8

/-- `loop`, for a byte that has come in. `temp` is what `Serial.print` makes of the
temperature. -/
def Board.loop (temp : List Byte) (byte : Byte) (s : Board) : Board :=
  if byte = cmdRelayHigh then { s with relay := true }
  else if byte = cmdRelayLow then { s with relay := false }
  else if byte = cmdGetTemp then
    { s with lcd := s.lcd ++ [.setCursor 0 0], sent := s.sent ++ [temp ++ [0x0a#8]] }
  else if byte = cmdRow1 then { s with lcd := s.lcd ++ [.setCursor 0 0] }
  else if byte = cmdRow2 then { s with lcd := s.lcd ++ [.setCursor 0 1] }
  else { s with lcd := s.lcd ++ [.write byte] }

/-! ## chmon -/

/-- What the C library does with numbers. -/
structure Libc (F : Type) where
  /-- `sscanf` with `%f`. -/
  scanFloat : List Byte → Option F
  /-- `sscanf` with `%d`. -/
  scanInt : List Byte → Option Int
  scanHex : Scanf
  /-- `%0.2f`. -/
  print2 : F → List Byte
  /-- `%0.1f`. -/
  print1 : F → List Byte
  ofInt : Int → F
  /-- `now > therm + 0.5`. -/
  above : F → F → Bool
  /-- `now < therm - 0.5`. -/
  below : F → F → Bool

/-- Where the main loop is. -/
inductive Pc where
  | top
  /-- In the loop of `check_messages`, with the file open and some of it `copied`. -/
  | reading (inode : Nat) (copied : List Byte)
  /-- The message has been sent on, and its name is still there. -/
  | relayed
  | asking
  /-- The temperature has been asked for. -/
  | asked
  | thermostat
  /-- The file with the setting is open. -/
  | scanning (inode : Nat)
  /-- There was no setting. -/
  | unset
  | setting (inode : Nat)
  | relay
  | display
  | text
  deriving DecidableEq, Repr

/-- `chmon`, its files, the serial line and the Arduino. -/
structure House (F : Type) where
  temperatureNow : F
  thermostatTemperature : F
  lastState : Bool
  tempFile : Option (List Byte)
  /-- `LCD_MESSAGE`. -/
  messages : Spool
  /-- `THERM_FILE`. -/
  settings : Spool
  pc : Pc
  /-- Bytes that the Arduino has not read yet. -/
  wire : List Byte
  /-- Bytes that were written and that the Arduino will not read. -/
  lost : List Byte
  board : Board
  /-- The messages that have been sent on. -/
  relayed : List (List Byte)
  /-- How often there was no line to read. -/
  missed : Nat
  /-- How many lines have got lost. -/
  unheard : Nat

namespace House
variable {F : Type} (c : Libc F)

/-- `write` to the port, which takes some of it. -/
def write (taken : Nat) (bytes : List Byte) (h : House F) : House F :=
  { h with wire := h.wire ++ bytes.take taken, lost := h.lost ++ bytes.drop taken }

/-- `check_messages`, up to its loop. -/
def checkMessages (taken : Nat) (h : House F) : House F :=
  match h.messages.named with
  | some inode => { write taken [cmdRow2] h with pc := .reading inode [] }
  | none => { h with pc := .asking }

/-- A turn of the loop in `check_messages`. -/
def copyByte (taken inode : Nat) (copied : List Byte) (h : House F) : House F :=
  match (h.messages.content inode)[copied.length]? with
  | some byte => { write taken [byte] h with pc := .reading inode (copied ++ [byte]) }
  | none => { h with pc := .relayed, relayed := h.relayed ++ [copied] }

/-- `string_to_temp`. -/
def stringToTemp (txt : List Byte) : F := (c.scanFloat (txt.takeWhile (· ≠ 0#8))).getD (c.ofInt 66)

/-- `get_temperature`, once it has slept. The terminal gives a line at a time, or as
much of it as fits in the buffer. -/
def getTemperature (h : House F) : House F :=
  match h.board.sent with
  | [] => { h with missed := h.missed + 1 }
  | line :: rest =>
    let buffer := line.take 19
    let left := if line.length ≤ 19 then rest else line.drop 19 :: rest
    { h with board := { h.board with sent := left }, tempFile := some buffer,
             temperatureNow := stringToTemp c buffer }

/-- `get_thermostat`, up to the first `fopen`. -/
def getThermostat (h : House F) : House F :=
  match h.settings.named with
  | some inode => { h with pc := .scanning inode }
  | none => { h with thermostatTemperature := c.ofInt 10, pc := .unset }

/-- `fscanf` in `get_thermostat`, which leaves the old value where it finds none. -/
def scanThermostat (inode : Nat) (h : House F) : House F :=
  { h with
    thermostatTemperature := (c.scanFloat (h.settings.content inode)).getD h.thermostatTemperature
    pc := .relay }

/-- `new_state` in `update_relay`. -/
def newState (h : House F) : Bool :=
  if h.lastState then !c.above h.temperatureNow h.thermostatTemperature
  else c.below h.temperatureNow h.thermostatTemperature

/-- `update_relay`. -/
def updateRelay (taken : Nat) (h : House F) : House F :=
  if newState c h ≠ h.lastState then
    { write taken [if newState c h then cmdRelayHigh else cmdRelayLow] h with
        lastState := newState c h }
  else h

/-- The text that `update_display` prints. -/
def displayText (h : House F) : List Byte :=
  c.print2 h.temperatureNow ++ ascii " (" ++ c.print1 h.thermostatTemperature ++ ascii ") " ++
    (if h.lastState then ascii "on " else ascii "off")

/-- `update_display`, behind `lcd_line1`. The text goes into an array of 20 bytes. -/
def updateDisplay (taken : Nat) (h : House F) : Option (House F) :=
  if (displayText c h).length < 20 then some { write taken (displayText c h) h with pc := .top }
  else none

/-- The next step of the main loop. -/
def host (taken : Nat) (h : House F) : Option (House F) :=
  match h.pc with
  | .top => some (checkMessages taken h)
  | .reading inode copied => some (copyByte taken inode copied h)
  | .relayed => some { h with messages := h.messages.unlink, pc := .asking }
  | .asking => some { write taken [cmdGetTemp] h with pc := .asked }
  | .asked => some { getTemperature c h with pc := .thermostat }
  | .thermostat => some (getThermostat c h)
  | .scanning inode => some (scanThermostat c inode h)
  | .unset => some { h with settings := h.settings.fopen.2, pc := .setting h.settings.fopen.1 }
  | .setting inode =>
    some { h with settings := h.settings.overwrite inode (ascii "10.0"), pc := .relay }
  | .relay => some { updateRelay c taken h with pc := .display }
  | .display => some { write taken [cmdRow1] h with pc := .text }
  | .text => updateDisplay c taken h

/-! ## The web page -/

/-- `sscanf(data, "message=%s", encoded)`. -/
def scanMessage (data : List Byte) : Option (List Byte) :=
  if data.take 8 = ascii "message=" then
    let encoded := ((data.drop 8).dropWhile isSpace).takeWhile fun b => ¬ isSpace b
    if encoded = [] then none else some encoded
  else none

end House

/-- The two arrays of `main_message`, which nobody has cleared. -/
structure Stack where
  encoded : List Byte
  size : encoded.length = 1024
  /-- `unencoded` lies at 0. -/
  unencoded : Mem

/-- What becomes of a request. -/
inductive Posting where
  | refused
  /-- One of the arrays has been left. -/
  | overrun
  | posts (text : List Byte)

namespace House
variable {F : Type} (c : Libc F)

/-- `encoded`, once it has been scanned. Without a field it stays as it was. -/
def scanned (stack : Stack) (data : List Byte) : List Byte :=
  match scanMessage data with
  | some field => field ++ 0#8 :: stack.encoded.drop (field.length + 1)
  | none => stack.encoded

/-- `main_message`, up to its first call. -/
def mainMessage (stack : Stack) (data : List Byte) : Posting :=
  if data.length > 1000 then .refused
  else
    let out := decode c.scanHex (scanned stack data) stack.unencoded
    let text := out.dest.text 0 1024
    if out.returned = true ∧ (∀ i ∈ out.writes, i < 1024) ∧ text.length < 1024 then
      .posts (text ++ List.replicate (16 - text.length) 0x20#8)
    else .overrun

/-- The text that `main_therm` puts into its file. It goes through an array of 20 bytes. -/
def mainTherm (data : List Byte) : Option (List Byte) :=
  let temp := if data.take 6 = ascii "therm=" then (c.scanInt (data.drop 6)).getD 10 else 10
  let text := c.print1 (c.ofInt temp) ++ [0x0a#8]
  if text.length < 20 then some text else none

end House

/-- What happens, in any order. -/
inductive Action where
  /-- The main loop makes its next step, and the port takes so much of what is written. -/
  | host (taken : Nat)
  /-- The Arduino reads a byte; `temp` is what the thermometer says. -/
  | board (temp : List Byte)
  /-- A byte does not get to the Arduino, or finds no room there. -/
  | lose (k : Nat)
  /-- The same for a line from the Arduino. -/
  | loseLine (k : Nat)
  /-- A request has come in. -/
  | message (stack : Stack) (data : List Byte)
  /-- A request that is running makes its next call. -/
  | messageCall (k : Nat)
  | therm (data : List Byte)
  | thermCall (k : Nat)

variable {F : Type}

def House.step (c : Libc F) (a : Action) (h : House F) : Option (House F) :=
  match a with
  | .host taken => h.host c taken
  | .board temp =>
    match h.wire with
    | [] => none
    | byte :: rest => some { h with wire := rest, board := h.board.loop temp byte }
  | .lose k =>
    match h.wire[k]? with
    | none => none
    | some byte => some { h with wire := h.wire.eraseIdx k, lost := h.lost ++ [byte] }
  | .loseLine k =>
    if k < h.board.sent.length then
      some { h with board := { h.board with sent := h.board.sent.eraseIdx k },
                    unheard := h.unheard + 1 }
    else none
  | .message stack data =>
    match House.mainMessage c stack data with
    | .refused => some h
    | .overrun => none
    | .posts text => some { h with messages := h.messages.begin ⟨text, .atUnlink⟩ }
  | .messageCall k => some { h with messages := h.messages.next k }
  | .therm data =>
    match House.mainTherm c data with
    | none => none
    | some text => some { h with settings := h.settings.begin ⟨text, .atOpen⟩ }
  | .thermCall k => some { h with settings := h.settings.next k }

/-- What a step can be. -/
inductive House.Stepped (c : Libc F) (h : House F) : Action → House F → Prop
  | host {taken : Nat} {h' : House F} (next : h.host c taken = some h') : Stepped c h (.host taken) h'
  | board {temp : List Byte} {byte : Byte} {rest : List Byte} (line : h.wire = byte :: rest) :
      Stepped c h (.board temp) { h with wire := rest, board := h.board.loop temp byte }
  | lose {k : Nat} {byte : Byte} (found : h.wire[k]? = some byte) :
      Stepped c h (.lose k) { h with wire := h.wire.eraseIdx k, lost := h.lost ++ [byte] }
  | loseLine {k : Nat} (inside : k < h.board.sent.length) :
      Stepped c h (.loseLine k) { h with
        board := { h.board with sent := h.board.sent.eraseIdx k }, unheard := h.unheard + 1 }
  | refused {stack : Stack} {data : List Byte} : Stepped c h (.message stack data) h
  | message {stack : Stack} {data text : List Byte}
      (posts : House.mainMessage c stack data = .posts text) :
      Stepped c h (.message stack data) { h with messages := h.messages.begin ⟨text, .atUnlink⟩ }
  | messageCall {k : Nat} : Stepped c h (.messageCall k) { h with messages := h.messages.next k }
  | therm {data text : List Byte} (sets : House.mainTherm c data = some text) :
      Stepped c h (.therm data) { h with settings := h.settings.begin ⟨text, .atOpen⟩ }
  | thermCall {k : Nat} : Stepped c h (.thermCall k) { h with settings := h.settings.next k }

theorem House.step_cases (c : Libc F) {a : Action} {h h' : House F} (step : h.step c a = some h') :
    h.Stepped c a h' := by
  unfold House.step at step
  cases a with
  | host taken => exact .host step
  | board temp =>
    dsimp only at step
    split at step
    · cases step
    · rename_i line
      cases step
      exact .board line
  | lose k =>
    dsimp only at step
    split at step
    · cases step
    · rename_i found
      cases step
      exact .lose found
  | loseLine k =>
    obtain ⟨inside, step⟩ := Option.ite_none_right_eq_some.mp step
    cases step
    exact .loseLine inside
  | message stack data =>
    dsimp only at step
    split at step
    · cases step
      exact .refused
    · cases step
    · rename_i posts
      cases step
      exact .message posts
  | messageCall k =>
    cases step
    exact .messageCall
  | therm data =>
    dsimp only at step
    split at step
    · cases step
    · rename_i sets
      cases step
      exact .therm sets
  | thermCall k =>
    cases step
    exact .thermCall

/-- `chmon` has been started, with the relay as it was. -/
def House.start (c : Libc F) (relay : Bool) (messages settings : Spool)
    (tempFile : Option (List Byte)) : House F where
  temperatureNow := c.ofInt 15
  thermostatTemperature := c.ofInt 10
  lastState := false
  tempFile := tempFile
  messages := messages
  settings := settings
  pc := .top
  wire := []
  lost := []
  board := ⟨relay, (ascii "Booting...").map .write, []⟩
  relayed := []
  missed := 0
  unheard := 0

/-! ## What a step of the main loop does -/

/-- The main loop has nothing to do with the file of messages here. -/
def Pc.Elsewhere (pc : Pc) : Prop := (∀ inode copied, pc ≠ .reading inode copied) ∧ pc ≠ .relayed

namespace House
variable (c : Libc F) {h h' : House F} {taken : Nat}

/-- What the next step writes to the port. -/
def output (h : House F) : List Byte :=
  match h.pc with
  | .top => if h.messages.named.isSome then [cmdRow2] else []
  | .reading inode copied => (h.messages.content inode)[copied.length]?.toList
  | .asking => [cmdGetTemp]
  | .relay => if newState c h ≠ h.lastState then [if newState c h then cmdRelayHigh else cmdRelayLow] else []
  | .display => [cmdRow1]
  | .text => displayText c h
  | _ => []

/-- What `chmon` believes about the relay after the next step. -/
def belief (h : House F) : Bool := if h.pc = .relay then newState c h else h.lastState

/-- What has been copied from messages. -/
def copied (h : House F) : List Byte :=
  h.relayed.flatten ++ match h.pc with
    | .reading _ copied => copied
    | _ => []

/-- The next step copies this from a message. -/
def copying (h : House F) : List Byte :=
  match h.pc with
  | .reading _ _ => h.output c
  | _ => []

/-- What a step of the main loop does to the line, what it reads from there, and what it does
with messages. -/
structure Wrote (taken : Nat) (h h' : House F) : Prop where
  wire : h'.wire = h.wire ++ (h.output c).take taken
  lost : h'.lost = h.lost ++ (h.output c).drop taken
  relay : h'.board.relay = h.board.relay
  lastState : h'.lastState = h.belief c
  copied : h'.copied = h.copied ++ h.copying c
  asked : h'.pc = .asked ↔ h.pc = .asking
  sent : h.pc ≠ .asked → h'.board.sent = h.board.sent ∧ h'.missed = h.missed
  unheard : h'.unheard = h.unheard
  messages : h.pc.Elsewhere → h'.messages = h.messages ∧ h'.relayed = h.relayed
  elsewhere : h.pc.Elsewhere → h.pc ≠ .top → h'.pc.Elsewhere

theorem copyByte_wrote {inode : Nat} {done : List Byte} (pc : h.pc = .reading inode done) :
    Wrote c taken h (copyByte taken inode done h) := by
  have written : h.output c = ((h.messages.content inode)[done.length]?).toList := by
    rw [output, pc]
  have before : h.copied = h.relayed.flatten ++ done := by rw [copied, pc]
  have new : h.copying c = h.output c := by rw [copying, pc]
  have same : h.belief c = h.lastState := if_neg (by rw [pc]; exact Pc.noConfusion)
  unfold copyByte
  split
  · rename_i byte more
    rw [more] at written
    constructor
    · rw [written]; rfl
    · rw [written]; rfl
    · rfl
    · exact same.symm
    · rw [before, new, written, List.append_assoc]
      rfl
    all_goals simp [write, Pc.Elsewhere, pc]
  · rename_i ended
    rw [ended] at written
    constructor
    · rw [written, Option.toList_none, List.take_nil, List.append_nil]
    · rw [written, Option.toList_none, List.drop_nil, List.append_nil]
    · rfl
    · exact same.symm
    · rw [before, new, written, copied]
      simp
    all_goals simp [Pc.Elsewhere, pc]

/-- One step writes at most once. -/
theorem host_wrote (step : h.host c taken = some h') : Wrote c taken h h' := by
  unfold host at step
  cases pc : h.pc with
  | reading inode done =>
    rw [pc] at step
    cases step
    exact copyByte_wrote c pc
  | top =>
    rw [pc] at step
    cases step
    unfold checkMessages
    split
    · rename_i named
      constructor <;> simp [write, Pc.Elsewhere, output, belief, copied, copying, pc, named]
    · rename_i named
      constructor <;> simp [Pc.Elsewhere, output, belief, copied, copying, pc, named]
  | asked =>
    rw [pc] at step
    cases step
    unfold getTemperature
    split <;> constructor <;> simp [Pc.Elsewhere, output, belief, copied, copying, pc]
  | thermostat =>
    rw [pc] at step
    cases step
    unfold getThermostat
    split <;> constructor <;> simp [Pc.Elsewhere, output, belief, copied, copying, pc]
  | relay =>
    rw [pc] at step
    cases step
    unfold updateRelay
    split
    · rename_i switches
      constructor <;> simp [write, Pc.Elsewhere, output, belief, copied, copying, pc, switches]
    · rename_i stays
      constructor <;> simp [Pc.Elsewhere, output, belief, copied, copying, pc, not_not.mp stays]
  | text =>
    rw [pc] at step
    obtain ⟨-, step⟩ := Option.ite_none_right_eq_some.mp step
    cases step
    constructor <;> simp [write, Pc.Elsewhere, output, belief, copied, copying, pc]
  | relayed | asking | scanning | unset | setting | display =>
    rw [pc] at step
    cases step
    constructor <;> simp [write, scanThermostat, Pc.Elsewhere, output, belief, copied, copying, pc]

end House

end Bifferboard.Heating
