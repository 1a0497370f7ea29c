import Bifferboard.Config.Block
import Bifferboard.Transition.LockStep
import Bifferboard.Transition.Reach

/-!
# The TFTP server

A `TFTPConnection` of `bootp_server.py` answers one request in its own thread. The thread waits
for one packet at a time, and its socket is taken to be the traffic through it.

A file that is read goes out in lock step, as long as the client sends no `DATA` itself.
-/

namespace Bifferboard.Tftp
open Nor Config Transition

/-! ## Packets -/

/-- What `parse` makes of a packet. -/
inductive Packet where
  | rrq (filename mode : List Byte)
  | wrq (filename mode : List Byte)
  | data (block : Int) (data : List Byte)
  | ack (block : Int)
  | err (errnum : Int) (errtxt : List Byte)
  deriving DecidableEq, Repr

/-- A `TFTPError`, or any other exception. -/
inductive Exn where
  | tftpError (errnum : Int) (errtext : String)
  | other (text : String)
  deriving DecidableEq, Repr

namespace Opcode

def rrq : Int := 1

def wrq : Int := 2

def data : Int := 3

def ack : Int := 4

def err : Int := 5

end Opcode

/-- `unpack("!h", buf)[0]`. -/
def unpackShort : List Byte → Except Exn Int
  | [hi, lo] => .ok (Word.ofBytes lo hi).toInt
  | _ => .error (.other "unpack requires a string argument of length 2")

def shortBytes (v : Int) : List Byte := [Word.hi (.ofInt 16 v), Word.lo (.ofInt 16 v)]

def rangeError : Exn := .other "'h' format requires -32768 <= number <= 32767"

/-- `pack("!hh%ds", opcode, number, text)`. -/
def pack (opcode number : Int) (text : List Byte) : Except Exn (List Byte) :=
  if -32768 ≤ opcode ∧ opcode ≤ 32767 ∧ -32768 ≤ number ∧ number ≤ 32767 then
    .ok (shortBytes opcode ++ (shortBytes number ++ text))
  else .error rangeError

/-- Assigning so many values to three names. -/
def valuesError : Nat → Exn
  | 1 => .other "need more than 1 value to unpack"
  | 2 => .other "need more than 2 values to unpack"
  | _ => .other "too many values to unpack"

def parse (data : List Byte) : Except Exn Packet := do
  let opcode ← unpackShort (data.take 2)
  if opcode = Opcode.rrq ∨ opcode = Opcode.wrq then
    match (data.drop 2).splitOn 0#8 with
    | [filename, mode, _] =>
      .ok (if opcode = Opcode.rrq then .rrq filename mode else .wrq filename mode)
    | values => .error (valuesError values.length)
  else if opcode = Opcode.data then
    return .data (← unpackShort ((data.drop 2).take 2)) (data.drop 4)
  else if opcode = Opcode.ack then
    return .ack (← unpackShort ((data.drop 2).take 2))
  else if opcode = Opcode.err then
    return .err (← unpackShort ((data.drop 2).take 2)) (data.drop 4).dropLast
  else .error (.tftpError 4 "Unknown packet type")

/-! ## A connection -/

/-- A file object. What is opened for reading cannot be written, a `StringIO` can. -/
structure File where
  content : List Byte
  pos : Nat := 0
  writable : Bool := false
  deriving DecidableEq, Repr

namespace File

def read (f : File) (n : Nat) : List Byte × File :=
  let data := (f.content.drop f.pos).take n
  (data, { f with pos := f.pos + data.length })

def write (f : File) (data : List Byte) : Except Exn File :=
  if f.writable then
    .ok { f with
      content := f.content.take f.pos ++ data ++ f.content.drop (f.pos + data.length)
      pos := f.pos + data.length }
  else .error (.other "File not open for writing")

end File

def blocksize : Nat := 512

def hdrsize : Nat := 4

def maxRetry : Nat := 5

/-- `A` are the addresses. The client's is set before anything else is done. -/
structure TFTPConnection (A : Type) where
  clientAddr : A
  sock : List (Traffic (List Byte × A) (List Byte × A)) := []
  active : Bool := false
  blockNumber : Nat := 0
  lastpkt : List Byte := []
  file : File := ⟨[], 0, false⟩
  deriving DecidableEq, Repr

/-- How a method ends: it returns, or raises. -/
structure Outcome (A : Type) where
  conn : TFTPConnection A
  raised : Option Exn := none
  deriving DecidableEq, Repr

/-- The methods that are to be overridden. -/
structure Requests where
  readRequest : List Byte → List Byte → Except Exn File
  writeRequest : List Byte → List Byte → Except Exn File

/-- `MyTFTP`. Where it is defined, `StringIO` is the class and no longer the module. -/
def myTFTP (disk : List Byte → Except Exn (List Byte)) : Requests where
  readRequest filename _ := (disk filename).map fun content => ⟨content, 0, false⟩
  writeRequest _ _ := .error (.other "class StringIO has no attribute 'StringIO'")

namespace TFTPConnection
variable {A : Type} (c : TFTPConnection A)

/-- Goes on with a value, unless it is an exception that came instead. -/
def after {V : Type} (value : Except Exn V) (next : V → Outcome A) : Outcome A :=
  match value with
  | .error e => ⟨c, some e⟩
  | .ok v => next v

def sendto (pkt : List Byte) : TFTPConnection A :=
  { c with sock := c.sock ++ [.sent (pkt, c.clientAddr)] }

def send (pkt : List Byte) : TFTPConnection A := { c.sendto pkt with lastpkt := pkt }

def retransmit : TFTPConnection A := c.sendto c.lastpkt

/-- The block is counted before it is known whether its number can be packed. -/
def sendData (data : List Byte) : Outcome A :=
  let block := c.blockNumber + 1
  let c := { c with blockNumber := block }
  c.after (pack Opcode.data block data) fun pkt =>
    ⟨{ c.send pkt with active := data.length = blocksize }, none⟩

def sendAck : Outcome A :=
  let block := c.blockNumber
  let c := { c with blockNumber := c.blockNumber + 1 }
  c.after (pack Opcode.ack block []) fun pkt => ⟨c.send pkt, none⟩

def sendError (errnum : Int) (errtext : String) : Outcome A :=
  c.after (pack Opcode.err errnum (ascii errtext ++ [0#8])) fun pkt => ⟨c.sendto pkt, none⟩

/-- `self.sendData( self.file.read(self.blocksize) )`. -/
def sendNext : Outcome A :=
  let (data, file) := c.file.read blocksize
  { c with file }.sendData data

def handleRRQ (requests : Requests) (filename mode : List Byte) : Outcome A :=
  c.after (requests.readRequest filename mode) fun file => { c with file }.sendNext

def handleWRQ (requests : Requests) (filename mode : List Byte) : Outcome A :=
  c.after (requests.writeRequest filename mode) fun file => { c with file }.sendAck

def handleACK : Outcome A := if c.active then c.sendNext else ⟨c, none⟩

def handleDATA (data : List Byte) : Outcome A :=
  match c.sendAck with
  | ⟨c, some e⟩ => ⟨c, some e⟩
  | ⟨c, none⟩ => c.after (c.file.write data) fun file => ⟨{ c with file }, none⟩

def recvAck (block : Int) : Outcome A :=
  if block = c.blockNumber then c.handleACK else ⟨c, none⟩

def recvData (block : Int) (data : List Byte) : Outcome A :=
  if block = c.blockNumber then { c with active := blocksize = data.length }.handleDATA data
  else ⟨c, none⟩

def recvErr : Outcome A := ⟨c.retransmit, none⟩

/-- What the loop of `connect` does with a packet. -/
def receive : Packet → Outcome A
  | .data block data => c.recvData block data
  | .ack block => c.recvAck block
  | .err _ _ => c.recvErr
  | .rrq _ _ | .wrq _ _ => ⟨c, some (.tftpError 5 "Invalid opcode")⟩

end TFTPConnection

/-! ## The thread -/

/-- The thread is in `recv`, with so many tries left, or has ended. -/
inductive Thread where
  | receiving (retry : Nat)
  | returned
  | raised (e : Exn)
  deriving DecidableEq, Repr

structure State (A : Type) where
  conn : TFTPConnection A
  thread : Thread
  deriving DecidableEq, Repr

/-- What `select` and `recvfrom` have to tell. -/
inductive Event (A : Type) where
  | timeout
  | packet (data : List Byte) (addr : A)
  deriving DecidableEq, Repr

section
variable {A : Type}

/-- The `except` clause of `connect`. -/
def caught (c : TFTPConnection A) : Exn → State A
  | .tftpError errnum errtext =>
    match c.sendError errnum errtext with
    | ⟨c, some e⟩ => ⟨c, .raised e⟩
    | ⟨c, none⟩ => ⟨c, .returned⟩
  | .other text => ⟨c, .raised (.other text)⟩

/-- `while self.active`, from the end of one round to the `recv` of the next. -/
def loop : Outcome A → State A
  | ⟨c, some e⟩ => caught c e
  | ⟨c, none⟩ => ⟨c, if c.active then .receiving maxRetry else .returned⟩

def connect (requests : Requests) (addr : A) (data : List Byte) : State A :=
  let c : TFTPConnection A := { clientAddr := addr }
  match parse data with
  | .error e => caught c e
  | .ok (.rrq filename mode) => loop ({ c with active := true }.handleRRQ requests filename mode)
  | .ok (.wrq filename mode) => loop ({ c with active := true }.handleWRQ requests filename mode)
  | .ok _ => caught c (.tftpError 4 "Bad request")

/-- A packet from the client ends `recv`. -/
def received (c : TFTPConnection A) (data : List Byte) : State A :=
  match parse data with
  | .error e => caught c e
  | .ok pkt => loop (c.receive pkt)

/-- A round of the loop in `recv`. -/
def step [DecidableEq A] (e : Event A) (s : State A) : State A :=
  match s.thread, e with
  | .receiving retry, .timeout =>
    let c := s.conn.retransmit
    if retry - 1 = 0 then caught c (.tftpError 4 "Transfer timed out")
    else ⟨c, .receiving (retry - 1)⟩
  | .receiving retry, .packet data addr =>
    let data := data.take (blocksize + hdrsize)
    let c := { s.conn with sock := s.conn.sock ++ [.heard (data, addr)] }
    if addr = c.clientAddr then received c data else ⟨c, .receiving retry⟩
  | _, _ => s

end

/-! ## Packing and parsing -/

theorem unpackShort_shortBytes {v : Int} (low : -32768 ≤ v) (high : v ≤ 32767) :
    unpackShort (shortBytes v) = .ok v := by
  rw [shortBytes, unpackShort, Word.ofBytes_lo_hi, BitVec.toInt_ofInt]
  exact congrArg Except.ok (Int.bmod_eq_of_le (by omega) (by omega))

theorem parse_pack {opcode number : Int} {text pkt : List Byte}
    (packed : pack opcode number text = .ok pkt) : unpackShort (pkt.take 2) = .ok opcode ∧
      unpackShort ((pkt.drop 2).take 2) = .ok number ∧ pkt.drop 4 = text := by
  unfold pack at packed
  split at packed
  · next inside =>
    cases packed
    obtain ⟨low, high, low', high'⟩ := inside
    exact ⟨unpackShort_shortBytes low high, unpackShort_shortBytes low' high', rfl⟩
  · cases packed

theorem parse_data {block : Int} {data pkt : List Byte}
    (packed : pack Opcode.data block data = .ok pkt) : parse pkt = .ok (.data block data) := by
  obtain ⟨opcode, number, text⟩ := parse_pack packed
  simp [parse, opcode, number, text, Opcode.rrq, Opcode.wrq, Opcode.data, bind, Except.bind, pure,
    Except.pure]

theorem parse_ack {block : Int} {text pkt : List Byte}
    (packed : pack Opcode.ack block text = .ok pkt) : parse pkt = .ok (.ack block) := by
  obtain ⟨opcode, number, -⟩ := parse_pack packed
  simp [parse, opcode, number, Opcode.rrq, Opcode.wrq, Opcode.data, Opcode.ack, bind, Except.bind,
    pure, Except.pure]

theorem parse_err {errnum : Int} {errtext pkt : List Byte}
    (packed : pack Opcode.err errnum errtext = .ok pkt) :
    parse pkt = .ok (.err errnum errtext.dropLast) := by
  obtain ⟨opcode, number, text⟩ := parse_pack packed
  simp [parse, opcode, number, text, Opcode.rrq, Opcode.wrq, Opcode.data, Opcode.ack, Opcode.err,
    bind, Except.bind, pure, Except.pure]

end Bifferboard.Tftp
