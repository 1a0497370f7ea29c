import Bifferboard.Tftp.ReadTransfer

/-!
# Reading a file to its end

A client that acknowledges every block gets all blocks, up to the first one that is not full.
Block numbers are packed as signed numbers, so a file that takes more than 32767 blocks cannot
be read: the server raises `struct.error` for the next one.
-/

namespace Bifferboard.Tftp
open Nor Config Transition

variable {A : Type}

theorem fileBlock_last_short (content : List Byte) :
    (fileBlock content (lastBlock content)).length < blocksize := by
  rw [lastBlock, length_fileBlock, blocksize]
  omega

/-! ## Numbered blocks -/

/-- A `DATA` packet, with its number modulo 2^16. -/
def dataPacket (k : Nat) (data : List Byte) : List Byte :=
  [0#8, 3#8, Word.hi (.ofNat 16 k), Word.lo (.ofNat 16 k)] ++ data

theorem pack_data {k : Nat} (few : k ≤ 32767) (data : List Byte) :
    pack Opcode.data k data = .ok (dataPacket k data) := by
  rw [pack, if_pos (by simp only [Opcode.data]; omega)]
  rfl

theorem pack_data_many {k : Nat} (many : 32767 < k) (data : List Byte) :
    pack Opcode.data k data = .error rangeError := by
  rw [pack, if_neg (by omega)]

/-- What a client answers to a `DATA` packet. -/
def ackPacket (pkt : List Byte) : List Byte := [0#8, 4#8] ++ (pkt.drop 2).take 2

theorem parse_ackPacket {k : Nat} (few : k ≤ 32767) (data : List Byte) :
    parse (ackPacket (dataPacket k data)) = .ok (.ack k) := by
  have packed : pack Opcode.ack k [] = .ok (ackPacket (dataPacket k data)) := by
    rw [pack, if_pos (by simp only [Opcode.ack]; omega)]
    rfl
  exact parse_ack packed

namespace TFTPConnection
variable {c : TFTPConnection A}

/-- The next block of the file has been sent. -/
def nextSent (c : TFTPConnection A) : TFTPConnection A :=
  let data := fileBlock c.file.content (c.blockNumber + 1)
  { c with
    blockNumber := c.blockNumber + 1
    file := { c.file with pos := c.file.pos + data.length }
    sock := c.sock ++ [.sent (dataPacket (c.blockNumber + 1) data, c.clientAddr)]
    lastpkt := dataPacket (c.blockNumber + 1) data
    active := data.length = blocksize }

theorem sendData_eq (c : TFTPConnection A) (few : c.blockNumber < 32767) (data : List Byte) :
    c.sendData data = ⟨{ c with
      blockNumber := c.blockNumber + 1
      sock := c.sock ++ [.sent (dataPacket (c.blockNumber + 1) data, c.clientAddr)]
      lastpkt := dataPacket (c.blockNumber + 1) data
      active := data.length = blocksize }, none⟩ := by
  have numbered := pack_data (Nat.succ_le_of_lt few) data
  rcases sendData_cases c data with ⟨pkt, packed, sent⟩ | ⟨e, packed, -⟩
  · obtain rfl := Except.ok.inj (packed.symm.trans numbered)
    exact sent
  · cases packed.symm.trans numbered

theorem sendData_many (c : TFTPConnection A) (many : 32767 ≤ c.blockNumber) (data : List Byte) :
    c.sendData data = ⟨{ c with blockNumber := c.blockNumber + 1 }, some rangeError⟩ := by
  have failure := pack_data_many (Nat.lt_succ_of_le many) data
  rcases sendData_cases c data with ⟨pkt, packed, -⟩ | ⟨e, packed, failed⟩
  · cases packed.symm.trans failure
  · obtain rfl := Except.error.inj (packed.symm.trans failure)
    exact failed

theorem sendNext_eq (pos : c.file.pos = blocksize * c.blockNumber) (few : c.blockNumber < 32767) :
    c.sendNext = ⟨c.nextSent, none⟩ := by
  rw [sendNext, read_block pos, nextSent, pos]
  exact sendData_eq { c with file := { c.file with
    pos := blocksize * c.blockNumber + (fileBlock c.file.content (c.blockNumber + 1)).length } } few _

theorem sendNext_many (many : 32767 ≤ c.blockNumber) :
    (loop c.sendNext).thread = .raised rangeError := by
  have failed := sendData_many { c with file := (c.file.read blocksize).2 } many
    (c.file.read blocksize).1
  exact congrArg (fun o => (loop o).thread) failed

end TFTPConnection

/-! ## A client that acknowledges every block -/

/-- The packets that were sent. -/
def packets (log : List (Traffic (List Byte × A) (List Byte × A))) : List (List Byte) :=
  log.filterMap fun
    | .heard _ => none
    | .sent (pkt, _) => some pkt

/-- The client acknowledges what it got last. -/
def acknowledge [DecidableEq A] (client : A) (s : State A) : State A :=
  match s.conn.sock.getLast? with
  | some (.sent (pkt, _)) => step (.packet (ackPacket pkt) client) s
  | _ => s

/-- What is to be sent of a file, up to block `n`. -/
def filePackets (content : List Byte) (n : Nat) : List (List Byte) :=
  (List.range n).map fun i => dataPacket (i + 1) (fileBlock content (i + 1))

/-- Block `n` was the last one to be sent, and was sent once. -/
structure Delivered (content : List Byte) (client : A) (n : Nat) (s : State A) : Prop where
  same : s.conn.clientAddr = client
  number : s.conn.blockNumber = n
  holds : s.conn.file.content = content
  last : s.conn.sock.getLast? = some (.sent (dataPacket n (fileBlock content n), client))
  packets : packets s.conn.sock = filePackets content n
  waiting : n < lastBlock content → s.conn.active = true ∧ s.conn.file.pos = blocksize * n ∧
    s.thread = .receiving maxRetry
  finished : n = lastBlock content → s.thread = .returned

section
variable {content : List Byte} {client : A}

theorem sendNext_delivered (c : TFTPConnection A) (same : c.clientAddr = client)
    (holds : c.file.content = content)
    (pos : c.file.pos = blocksize * c.blockNumber) (few : c.blockNumber < 32767)
    (sofar : packets c.sock = filePackets content c.blockNumber) :
    Delivered content client (c.blockNumber + 1) (loop c.sendNext) := by
  subst same holds
  have full := fileBlock_full_iff c.file.content c.blockNumber
  rw [TFTPConnection.sendNext_eq pos few]
  refine ⟨rfl, rfl, rfl, by simp [loop, TFTPConnection.nextSent], ?_, ?_, ?_⟩
  · simp only [packets] at sofar
    simp [loop, TFTPConnection.nextSent, packets, sofar, filePackets, List.range_succ]
  · intro more
    have length := full.mpr more
    simp [loop, TFTPConnection.nextSent, length, pos, Nat.mul_add]
  · intro final
    have length : ¬ (fileBlock c.file.content (c.blockNumber + 1)).length = blocksize :=
      fun length => Nat.ne_of_lt (full.mp length) final
    simp [loop, TFTPConnection.nextSent, length]

variable [DecidableEq A] {s : State A} {n : Nat}

/-- An acknowledged block brings the next one, if it can be numbered. -/
theorem acknowledge_eq (h : Delivered content client n s) (more : n < lastBlock content)
    (few : n ≤ 32767) : acknowledge client s =
      loop { s.conn with sock := s.conn.sock ++
        [Traffic.heard (ackPacket (dataPacket n (fileBlock content n)), client)] }.sendNext := by
  obtain ⟨c, thread⟩ := s
  obtain ⟨rfl, rfl, -, last, -, waiting, -⟩ := h
  obtain ⟨active, -, rfl⟩ := waiting more
  have whole : (ackPacket (dataPacket c.blockNumber (fileBlock content c.blockNumber))).take
      (blocksize + hdrsize) = ackPacket (dataPacket c.blockNumber (fileBlock content c.blockNumber)) :=
    List.take_of_length_le (by simp [ackPacket, dataPacket, blocksize, hdrsize])
  rw [acknowledge, last]
  simp only [step, whole, received, parse_ackPacket few, if_true, TFTPConnection.receive,
    TFTPConnection.recvAck, TFTPConnection.handleACK]
  exact congrArg loop (if_pos active)

theorem acknowledge_delivered (h : Delivered content client n s) (more : n < lastBlock content)
    (few : n < 32767) : Delivered content client (n + 1) (acknowledge client s) := by
  rw [acknowledge_eq h more (Nat.le_of_lt few)]
  obtain ⟨same, rfl, holds, -, packets, waiting, -⟩ := h
  refine sendNext_delivered { s.conn with sock := s.conn.sock ++ [.heard _] } same holds
    (waiting more).2.1 few ?_
  simpa [Tftp.packets] using packets

theorem acknowledge_many (h : Delivered content client n s) (many : n = 32767)
    (more : n < lastBlock content) : (acknowledge client s).thread = .raised rangeError := by
  rw [acknowledge_eq h more (Nat.le_of_eq many)]
  exact TFTPConnection.sendNext_many (Nat.le_of_eq (many.symm.trans h.number.symm))

theorem acknowledge_raised {e : Exn} (raised : s.thread = .raised e) : acknowledge client s = s := by
  obtain ⟨c, thread⟩ := s
  subst raised
  rw [acknowledge]
  split <;> rfl

section
variable {requests : Requests} {request filename mode : List Byte} {f : File}
  (asked : parse request = .ok (.rrq filename mode))
  (opened : requests.readRequest filename mode = .ok f) (start : f.pos = 0)
include asked opened start

omit [DecidableEq A] in
theorem connect_delivered (client : A) :
    Delivered f.content client 1 (connect requests client request) := by
  simp only [connect, asked, TFTPConnection.handleRRQ, opened, TFTPConnection.after]
  exact sendNext_delivered
    { clientAddr := client, active := true, file := f } rfl rfl start (Nat.succ_pos _) rfl

theorem iterate_delivered (client : A) (n : Nat) (more : n < lastBlock f.content)
    (few : n < 32767) : Delivered f.content client (n + 1)
      ((acknowledge client)^[n] (connect requests client request)) := by
  induction n with
  | zero => exact connect_delivered asked opened start client
  | succ n ih =>
    rw [Function.iterate_succ_apply']
    exact acknowledge_delivered (ih (Nat.lt_of_succ_lt more) (Nat.lt_of_succ_lt few)) more few

theorem iterate_many (client : A) {n : Nat} (last : n + 1 = 32767)
    (many : 32767 < lastBlock f.content) (m : Nat) :
    ((acknowledge client)^[m + (n + 1)] (connect requests client request)).thread =
      .raised rangeError := by
  have delivered := iterate_delivered asked opened start client n (by omega) (by omega)
  have raised := acknowledge_many delivered last (by omega)
  rw [← Function.iterate_succ_apply' (acknowledge client)] at raised
  rw [Function.iterate_add_apply, Function.iterate_fixed (acknowledge_raised raised)]
  exact raised

end

end

/-- The transfer has ended, and all of the file was sent, and nothing else. -/
def Served (content : List Byte) (s : State A) : Prop :=
  s.thread = .returned ∧ packets s.conn.sock = filePackets content (lastBlock content) ∧
    (fileBlock content (lastBlock content)).length < blocksize

/-- A client that acknowledges every block gets exactly the files of less than 32767 full
blocks. -/
theorem served_iff {A : Type} [DecidableEq A] (requests : Requests) (client : A)
    (request filename mode : List Byte) (f : File)
    (asked : parse request = .ok (.rrq filename mode))
    (opened : requests.readRequest filename mode = .ok f) (start : f.pos = 0) :
    (∃ n, Served f.content ((acknowledge client)^[n] (connect requests client request))) ↔
      f.content.length < 32767 * 512 := by
  have blocks : f.content.length < 32767 * 512 ↔ lastBlock f.content ≤ 32767 := by
    simp only [lastBlock, blocksize]
    omega
  rw [blocks]
  constructor
  · rintro ⟨n, returned, -⟩
    -- up to block 32767 the server waits for an `ACK`, and with the next one it raises
    by_contra many
    by_cases few : n < 32767
    · have delivered := iterate_delivered asked opened start client n (by omega) few
      have waiting := (delivered.waiting (by omega)).2.2
      simp [waiting] at returned
    · obtain ⟨k, last⟩ : ∃ k, k + 1 = 32767 := ⟨32766, rfl⟩
      obtain ⟨m, rfl⟩ : ∃ m, n = m + (k + 1) := ⟨n - (k + 1), by omega⟩
      have raised := iterate_many asked opened start client last (by omega) m
      simp [raised] at returned
  · intro few
    refine ⟨f.content.length / blocksize, ?_⟩
    have delivered := iterate_delivered asked opened start client (f.content.length / blocksize)
      (Nat.lt_succ_self _) few
    exact ⟨delivered.finished rfl, delivered.packets, fileBlock_last_short f.content⟩

/-- A client reads the two blocks of a small file. -/
theorem kernel_served :
    parse kernelRequest = .ok (.rrq (ascii "bzImage") (ascii "octet")) ∧
    ∃ n, Served (List.replicate 600 0xaa#8) ((acknowledge "192.168.0.159")^[n]
      (connect (myTFTP fun _ => .ok (List.replicate 600 0xaa#8)) "192.168.0.159" kernelRequest)) := by
  have asked : parse kernelRequest = .ok (.rrq (ascii "bzImage") (ascii "octet")) := by decide
  have small : (List.replicate 600 0xaa#8).length < 32767 * 512 := by
    rw [List.length_replicate]
    omega
  exact ⟨asked, (served_iff (myTFTP fun _ => .ok (List.replicate 600 0xaa#8)) "192.168.0.159"
    kernelRequest _ _ _ asked rfl rfl).mpr small⟩

/-- A file of 32767 full blocks: its last, empty block has no number. -/
theorem large_file_raises :
    ((acknowledge "192.168.0.159")^[32767] (connect
      (myTFTP fun _ => .ok (List.replicate (32767 * 512) 0xaa#8)) "192.168.0.159"
      kernelRequest)).thread = .raised rangeError := by
  have asked : parse kernelRequest = .ok (.rrq (ascii "bzImage") (ascii "octet")) := by decide
  have many : 32767 < lastBlock (List.replicate (32767 * 512) 0xaa#8) := by
    rw [lastBlock, List.length_replicate, blocksize]
    omega
  exact iterate_many (f := ⟨List.replicate (32767 * 512) 0xaa#8, 0, false⟩) asked rfl rfl
    "192.168.0.159" (show 32766 + 1 = 32767 from rfl) many 0

end Bifferboard.Tftp
