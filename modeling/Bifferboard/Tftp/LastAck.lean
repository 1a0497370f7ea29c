import Bifferboard.Tftp.Completion

/-!
# The last block

`sendData` clears `active` when it sends a block that is not full, and the loop of `connect` goes
on only while `active` is set. So the server ends with the last block it sends. It hears nothing
afterwards, and does not know whether that block arrived.
-/

namespace Bifferboard.Tftp
open Nor Config Transition

variable {A : Type}

/-- `while self.active` has ended. Where a `TFTPError` is raised, `active` is still set. -/
def LeftLoop (s : State A) : Prop := s.thread = .returned ∧ s.conn.active = false

/-- The final block was acknowledged, after it had been sent. -/
def FinalAcked (content : List Byte) (client : A)
    (log : List (Traffic (List Byte × A) (List Byte × A))) : Prop :=
  ∃ before o later i, log = before ++ .sent o :: later ∧ IsBlock content (lastBlock content) o ∧
    .heard i ∈ later ∧ Acks client (lastBlock content) i

/-- The final block has been sent. -/
def FinalSent (content : List Byte) (log : List (Traffic (List Byte × A) (List Byte × A))) : Prop :=
  Sent (IsBlock content) log (lastBlock content)

theorem not_finalAcked {content : List Byte} {client : A}
    {before : List (Traffic (List Byte × A) (List Byte × A))} {o : List Byte × A}
    (unsent : ¬ FinalSent content before) : ¬ FinalAcked content client (before ++ [.sent o]) := by
  rintro ⟨before', o', later, i, split, final, heard, -⟩
  rcases List.eq_nil_or_concat later with rfl | ⟨later, last, rfl⟩
  · simp at heard
  · have same : before = before' ++ .sent o' :: later := by
      rw [List.concat_eq_append, ← List.cons_append, ← List.append_assoc] at split
      exact (List.append_inj' split rfl).1
    exact unsent ⟨o', final, by simp [same]⟩

/-- A file that was just opened for reading. -/
def Fresh (f : File) : Prop := f.pos = 0 ∧ f.writable = false

/-- The file is where the next block starts. -/
structure Reading (f : File) (c : TFTPConnection A) : Prop where
  content : c.file.content = f.content
  writable : c.file.writable = false
  pos : c.file.pos = blocksize * c.blockNumber
  inside : c.blockNumber < lastBlock f.content

structure Waiting (f : File) (c : TFTPConnection A) : Prop where
  active : c.active = true
  unsent : ¬ FinalSent f.content c.sock
  last : ¬ IsBlock f.content (lastBlock f.content) (c.lastpkt, c.clientAddr)
  reading : Fresh f → Reading f c

/-- Where the thread may be. -/
inductive Progress (f : File) : State A → Prop
  | waiting {c : TFTPConnection A} {retry : Nat} : Waiting f c → Progress f ⟨c, .receiving retry⟩
  | left {c : TFTPConnection A} {before : List (Traffic (List Byte × A) (List Byte × A))}
      {o : List Byte × A} : c.active = false → c.sock = before ++ [.sent o] →
      ¬ FinalSent f.content before →
      (Fresh f → IsBlock f.content (lastBlock f.content) o) → Progress f ⟨c, .returned⟩
  | caught {c : TFTPConnection A} :
      ¬ FinalSent f.content c.sock → c.active = true → Progress f ⟨c, .returned⟩
  | raised {c : TFTPConnection A} (e : Exn) :
      ¬ FinalSent f.content c.sock → Progress f ⟨c, .raised e⟩

section
variable {f : File} {c : TFTPConnection A}

theorem not_final_of_full {pkt data : List Byte} {block : Int} {addr : A}
    (parsed : parse pkt = .ok (.data block data)) (full : data.length = blocksize) :
    ¬ IsBlock f.content (lastBlock f.content) (pkt, addr) := by
  intro final
  have same := parsed.symm.trans final
  simp only [Except.ok.injEq, Packet.data.injEq] at same
  have short := fileBlock_last_short f.content
  rw [← same.2, full] at short
  exact Nat.lt_irrefl _ short

theorem not_finalSent_concat {log : List (Traffic (List Byte × A) (List Byte × A))}
    {o : List Byte × A} (unsent : ¬ FinalSent f.content log)
    (other : ¬ IsBlock f.content (lastBlock f.content) o) :
    ¬ FinalSent f.content (log ++ [.sent o]) := by
  rw [FinalSent, sent_concat]
  exact not_or_intro unsent other

/-- The socket has no part in where the file is. -/
theorem Reading.sock (h : Reading f c) (log : List (Traffic (List Byte × A) (List Byte × A))) :
    Reading f { c with sock := log } := ⟨h.content, h.writable, h.pos, h.inside⟩

theorem Waiting.retransmit (h : Waiting f c) : Waiting f c.retransmit :=
  ⟨h.active, not_finalSent_concat h.unsent h.last, h.last, fun fresh => (h.reading fresh).sock _⟩

theorem Waiting.heard (h : Waiting f c) (i : List Byte × A) :
    Waiting f { c with sock := c.sock ++ [.heard i] } :=
  ⟨h.active, (sent_heard i _).not.mpr h.unsent, h.last, fun fresh => (h.reading fresh).sock _⟩

theorem pack_error {opcode number : Int} {text : List Byte} {e : Exn}
    (failed : pack opcode number text = .error e) : e = rangeError := by
  unfold pack at failed
  split at failed
  · cases failed
  · cases failed
    rfl

theorem caught_progress (h : Waiting f c) (e : Exn) : Progress f (caught c e) := by
  cases e with
  | other text => exact .raised _ h.unsent
  | tftpError errnum errtext =>
    simp only [caught, TFTPConnection.sendError]
    cases packed : pack Opcode.err errnum (ascii errtext ++ [0#8]) with
    | error e => exact .raised _ h.unsent
    | ok pkt =>
      have other : ¬ IsBlock f.content (lastBlock f.content) (pkt, c.clientAddr) := by
        simp [IsBlock, parse_err packed]
      exact .caught (not_finalSent_concat h.unsent other) h.active

theorem loop_waiting (h : Waiting f c) : Progress f (loop ⟨c, none⟩) := by
  rw [loop, if_pos h.active]
  exact .waiting h

/-- A full block is not the final one, and any other one ends the loop. -/
theorem sendNext_progress (unsent : ¬ FinalSent f.content c.sock)
    (reading : Fresh f → Reading f c) : Progress f (loop c.sendNext) := by
  rw [TFTPConnection.sendNext]
  generalize taken : c.file.read blocksize = out
  obtain ⟨data, file⟩ := out
  have block (fresh : Fresh f) : data = fileBlock f.content (c.blockNumber + 1) ∧
      file = ⟨f.content, blocksize * c.blockNumber + data.length, c.file.writable⟩ := by
    have position := reading fresh
    rw [read_block position.pos, position.content] at taken
    cases taken
    exact ⟨rfl, rfl⟩
  dsimp only
  rcases sendData_cases { c with file := file } data with ⟨pkt, packed, sent⟩ | ⟨e, packed, failed⟩
  · rw [sent]
    have parsed := parse_data packed
    by_cases full : data.length = blocksize
    · refine loop_waiting ⟨by simp [full], not_finalSent_concat unsent (not_final_of_full parsed full),
        not_final_of_full parsed full, fun fresh => ?_⟩
      have position := reading fresh
      obtain ⟨rfl, rfl⟩ := block fresh
      refine ⟨rfl, position.writable, ?_, ?_⟩
      · simp [full, Nat.mul_add]
      · exact (fileBlock_full_iff f.content c.blockNumber).mp full
    · simp only [loop, full, decide_false, Bool.false_eq_true, if_false]
      refine .left rfl rfl unsent fun fresh => ?_
      obtain ⟨rfl, -⟩ := block fresh
      have more := (fileBlock_full_iff f.content c.blockNumber).not.mp full
      have inside := (reading fresh).inside
      obtain number : c.blockNumber + 1 = lastBlock f.content := by omega
      rw [IsBlock, parsed, ← number]
  · rw [failed, pack_error packed]
    exact .raised _ unsent

/-- `DATA` of the client is written, if that is possible, and may end the loop as well. -/
theorem recvData_progress (h : Waiting f c) (block : Int) (data : List Byte) :
    Progress f (loop (c.recvData block data)) := by
  rw [TFTPConnection.recvData]
  split
  · rw [TFTPConnection.handleDATA]
    rcases sendAck_cases { c with active := blocksize = data.length } with
      ⟨pkt, packed, sent⟩ | ⟨e, packed, failed⟩
    · have other : ¬ IsBlock f.content (lastBlock f.content) (pkt, c.clientAddr) := by
        simp [IsBlock, parse_ack packed]
      have unsent := not_finalSent_concat h.unsent other
      rw [sent]
      -- a file that was opened for reading refuses to be written
      by_cases writable : c.file.writable = true
      · have stale : ¬ Fresh f := fun fresh => by simp [(h.reading fresh).writable] at writable
        simp only [TFTPConnection.after, File.write, writable, if_true, loop]
        by_cases full : blocksize = data.length
        · simp only [full, decide_true, if_true]
          exact .waiting ⟨rfl, unsent, other, fun fresh => absurd fresh stale⟩
        · simp only [full, decide_false, Bool.false_eq_true, if_false]
          exact .left rfl rfl h.unsent fun fresh => absurd fresh stale
      · simp only [TFTPConnection.after, File.write, writable, loop, caught]
        exact .raised _ unsent
    · rw [failed, pack_error packed]
      exact .raised _ h.unsent
  · exact loop_waiting h

theorem receive_progress (h : Waiting f c) (pkt : Packet) : Progress f (loop (c.receive pkt)) := by
  cases pkt with
  | data block data => exact recvData_progress h block data
  | rrq filename mode | wrq filename mode =>
    exact caught_progress h (.tftpError 5 "Invalid opcode")
  | err errnum errtxt => exact loop_waiting h.retransmit
  | ack block =>
    rw [TFTPConnection.receive, TFTPConnection.recvAck]
    split
    · rw [TFTPConnection.handleACK, if_pos h.active]
      exact sendNext_progress h.unsent h.reading
    · exact loop_waiting h

theorem connect_progress {requests : Requests} {request filename mode : List Byte}
    (asked : parse request = .ok (.rrq filename mode))
    (opened : requests.readRequest filename mode = .ok f) (client : A) :
    Progress f (connect requests client request) := by
  simp only [connect, asked, TFTPConnection.handleRRQ, opened, TFTPConnection.after]
  apply sendNext_progress
  · simp [FinalSent, Sent]
  · intro fresh
    exact ⟨rfl, fresh.2, fresh.1, Nat.succ_pos _⟩

theorem step_progress [DecidableEq A] (e : Event A) (s : State A) (h : Progress f s) :
    Progress f (step e s) := by
  cases h with
  | left inactive last unsent final => exact .left inactive last unsent final
  | caught unsent active => exact .caught unsent active
  | raised e unsent => exact .raised e unsent
  | waiting h =>
    cases e with
    | timeout =>
      simp only [step]
      split
      · exact caught_progress h.retransmit _
      · exact .waiting h.retransmit
    | packet data addr =>
      have heard := h.heard (data.take (blocksize + hdrsize), addr)
      simp only [step]
      split
      · rw [received]
        cases parse (data.take (blocksize + hdrsize)) with
        | error e => exact caught_progress heard e
        | ok pkt => exact receive_progress heard pkt
      · exact .waiting heard

end

/-- Whatever the network does and the client sends, the server does not know about the final
block when it leaves its loop. It leaves the loop of a read when it sends that block. -/
theorem final_block_acked_iff {A : Type} [DecidableEq A] (requests : Requests) (client : A)
    (request filename mode : List Byte) (f : File)
    (asked : parse request = .ok (.rrq filename mode))
    (opened : requests.readRequest filename mode = .ok f) (events : List (Event A)) :
    let s := run step (connect requests client request) events
    ((LeftLoop s → FinalAcked f.content client s.conn.sock) ↔ ¬ LeftLoop s) ∧
      (Fresh f → (LeftLoop s ↔ FinalSent f.content s.conn.sock)) := by
  intro s
  have progress : Progress f s :=
    run_invariant step _ (connect_progress asked opened client) step_progress events
  generalize s = s at progress
  cases progress with
  | waiting h => simp [LeftLoop, h.unsent]
  | caught unsent active => simp [LeftLoop, unsent, active]
  | raised e unsent => simp [LeftLoop, unsent]
  | @left c before o inactive last unsent final =>
    have left : LeftLoop ⟨c, .returned⟩ := ⟨rfl, inactive⟩
    have unconfirmed : ¬ FinalAcked f.content client c.sock := last ▸ not_finalAcked unsent
    simp only [left, unconfirmed, not_true, forall_const, true_iff, true_and]
    intro fresh
    rw [last, FinalSent, sent_concat]
    exact .inr (final fresh)

/-- Two blocks are read, of which the first one was lost once. -/
theorem kernel_final_block :
    parse kernelRequest = .ok (.rrq (ascii "bzImage") (ascii "octet")) ∧
    let s := run step
      (connect (myTFTP fun _ => .ok (List.replicate 600 0xaa#8)) "192.168.0.159" kernelRequest)
      [.timeout, .packet [0#8, 4#8, 0#8, 1#8] "192.168.0.159"]
    ((LeftLoop s → FinalAcked (List.replicate 600 0xaa#8) "192.168.0.159" s.conn.sock) ↔
        ¬ LeftLoop s) ∧
      (LeftLoop s ↔ FinalSent (List.replicate 600 0xaa#8) s.conn.sock) := by
  have asked : parse kernelRequest = .ok (.rrq (ascii "bzImage") (ascii "octet")) := by decide
  obtain ⟨acked, sent⟩ := final_block_acked_iff (myTFTP fun _ => .ok (List.replicate 600 0xaa#8))
    "192.168.0.159" kernelRequest _ _ _ asked rfl
    [.timeout, .packet [0#8, 4#8, 0#8, 1#8] "192.168.0.159"]
  exact ⟨asked, acked, sent ⟨rfl, rfl⟩⟩

/-- Of an empty file there is one block. If it is lost, the server has ended all the same. -/
theorem empty_file_unconfirmed :
    let s := run step (connect (myTFTP fun _ => .ok []) "192.168.0.159" kernelRequest) []
    LeftLoop s ∧ ¬ FinalAcked [] "192.168.0.159" s.conn.sock := by
  refine ⟨⟨by decide, by decide⟩, ?_⟩
  have log : (run step (connect (myTFTP fun _ => .ok []) "192.168.0.159" kernelRequest) []).conn.sock =
      [] ++ [.sent ([0#8, 3#8, 0#8, 1#8], "192.168.0.159")] := by decide
  rw [log]
  exact not_finalAcked (by simp [FinalSent, Sent])

end Bifferboard.Tftp
