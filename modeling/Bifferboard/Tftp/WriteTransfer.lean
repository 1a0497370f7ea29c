import Bifferboard.Tftp.ReadTransfer

/-!
# Writing a file

As `TFTPConnection` itself answers a write request, the file is a `StringIO`. A block is
acknowledged before it is written, and a client that sends the blocks of one file, as often and
in whatever order, gets exactly what it was promised. The last `ACK` is sent only once.
-/

namespace Bifferboard.Tftp
open Nor Config Transition

variable {A : Type}

/-- The methods of `TFTPConnection` that are to be overridden. -/
def stringIO : Requests where
  readRequest _ _ := .ok ⟨[], 0, true⟩
  writeRequest _ _ := .ok ⟨[], 0, true⟩

/-- The numbers of the `ACK`s that were sent. -/
def acks (log : List (Traffic (List Byte × A) (List Byte × A))) : List Int :=
  log.filterMap fun
    | .heard _ => none
    | .sent (pkt, _) =>
      match parse pkt with
      | .ok (.ack block) => some block
      | _ => none

section
variable (log : List (Traffic (List Byte × A) (List Byte × A)))

@[simp] theorem acks_heard (i : List Byte × A) : acks (log ++ [.heard i]) = acks log := by
  simp [acks]

theorem acks_ack {pkt : List Byte} {j : Int} (parsed : parse pkt = .ok (.ack j)) (addr : A) :
    acks (log ++ [.sent (pkt, addr)]) = acks log ++ [j] := by
  simp [acks, parsed]

theorem acks_err {pkt errtxt : List Byte} {errnum : Int} (parsed : parse pkt = .ok (.err errnum errtxt))
    (addr : A) : acks (log ++ [.sent (pkt, addr)]) = acks log := by
  simp [acks, parsed]

end

/-- The first `k` blocks of the file have come, and nothing else. -/
structure Stored (content : List Byte) (c : TFTPConnection A) (k : Nat) : Prop where
  file : c.file = ⟨content.take (blocksize * k), (content.take (blocksize * k)).length, true⟩
  number : c.blockNumber = k + 1
  within : k ≤ lastBlock content
  active : c.active = true ↔ k < lastBlock content
  lastpkt : parse c.lastpkt = .ok (.ack k)
  promised : ∀ j, j ∈ acks c.sock ↔ 0 ≤ j ∧ j ≤ k
  once : c.active = false → (acks c.sock).count (lastBlock content : Int) = 1

/-- The thread goes on as long as blocks are missing, unless it gives up. -/
structure Taking (content : List Byte) (client : A) (s : State A) : Prop where
  client : s.conn.clientAddr = client
  stored : ∃ k, Stored content s.conn k
  receiving : ∀ retry, s.thread = .receiving retry → s.conn.active = true
  returned : s.conn.active = false → s.thread = .returned

section
variable {content : List Byte} {client : A} {c : TFTPConnection A} {k : Nat}

theorem Stored.congr (h : Stored content c k) {c' : TFTPConnection A} (file : c'.file = c.file)
    (number : c'.blockNumber = c.blockNumber) (active : c'.active = c.active)
    (lastpkt : c'.lastpkt = c.lastpkt) (same : acks c'.sock = acks c.sock) : Stored content c' k where
  file := file.trans h.file
  number := number.trans h.number
  within := h.within
  active := active ▸ h.active
  lastpkt := lastpkt ▸ h.lastpkt
  promised := same ▸ h.promised
  once := active ▸ same ▸ h.once

theorem Stored.heard (h : Stored content c k) (i : List Byte × A) :
    Stored content { c with sock := c.sock ++ [.heard i] } k :=
  h.congr rfl rfl rfl rfl (acks_heard _ _)

/-- Before the last block has come, the last packet may be repeated. -/
theorem Stored.retransmit (h : Stored content c k) (active : c.active = true) :
    Stored content c.retransmit k where
  file := h.file
  number := h.number
  within := h.within
  active := h.active
  lastpkt := h.lastpkt
  promised := by
    have log : acks c.retransmit.sock = acks c.sock ++ [(k : Int)] := acks_ack _ h.lastpkt _
    intro j
    rw [log, List.mem_append, List.mem_singleton, h.promised]
    omega
  once := fun ended => absurd (ended.symm.trans active) (by decide)

/-! ## The ends of a transfer -/

theorem caught_taking (same : c.clientAddr = client) (h : Stored content c k)
    (active : c.active = true) (e : Exn) : Taking content client (caught c e) := by
  have going (t : Thread) (ended : ∀ retry, t ≠ .receiving retry) : Taking content client ⟨c, t⟩ :=
    ⟨same, ⟨k, h⟩, fun retry receiving => absurd receiving (ended retry),
      fun ended => absurd (ended.symm.trans active) (by decide)⟩
  cases e with
  | other text => exact going (.raised (.other text)) (fun _ => Thread.noConfusion)
  | tftpError errnum errtext =>
    simp only [caught, TFTPConnection.sendError]
    cases packed : pack Opcode.err errnum (ascii errtext ++ [0#8]) with
    | error e => exact going (.raised e) (fun _ => Thread.noConfusion)
    | ok pkt =>
      have sent : Stored content (c.sendto pkt) k :=
        h.congr rfl rfl rfl rfl (acks_err _ (parse_err packed) _)
      exact ⟨same, ⟨k, sent⟩, fun _ => Thread.noConfusion,
        fun ended => absurd (ended.symm.trans active) (by decide)⟩

theorem loop_taking (same : c.clientAddr = client) (h : Stored content c k) :
    Taking content client (loop ⟨c, none⟩) := by
  refine ⟨same, ⟨k, h⟩, ?_, ?_⟩
  · intro retry receiving
    by_cases active : c.active = true
    · exact active
    · simp [loop, active] at receiving
  · intro inactive
    have ended : c.active = false := inactive
    simp [loop, ended]

/-! ## A block -/

theorem unpackShort_le {bytes : List Byte} {v : Int} (h : unpackShort bytes = .ok v) : v ≤ 32767 := by
  unfold unpackShort at h
  split at h
  · next hi lo =>
    cases h
    have bound := BitVec.toInt_lt (x := Word.ofBytes lo hi)
    omega
  · cases h

theorem parse_data_le {data text : List Byte} {block : Int}
    (parsed : parse data = .ok (.data block text)) : block ≤ 32767 := by
  unfold parse at parsed
  cases first : unpackShort (data.take 2) with
  | error e => simp [first, bind, Except.bind] at parsed
  | ok opcode =>
    cases second : unpackShort ((data.drop 2).take 2) with
    | error e =>
      simp only [first, second, bind, Except.bind] at parsed
      split at parsed
      · split at parsed
        · split at parsed <;> cases parsed
        · cases parsed
      · split at parsed
        · cases parsed
        · split at parsed
          · cases parsed
          · split at parsed <;> cases parsed
    | ok number =>
      simp only [first, second, bind, Except.bind, pure, Except.pure] at parsed
      split at parsed
      · split at parsed
        · split at parsed <;> cases parsed
        · cases parsed
      · split at parsed
        · cases parsed
          exact unpackShort_le second
        · split at parsed
          · cases parsed
          · split at parsed <;> cases parsed

/-- A number that fits is packed. -/
theorem sendAck_eq (small : c.blockNumber ≤ 32767) :
    ∃ pkt, parse pkt = .ok (.ack c.blockNumber) ∧ c.sendAck = ⟨{ c with
      blockNumber := c.blockNumber + 1
      sock := c.sock ++ [.sent (pkt, c.clientAddr)]
      lastpkt := pkt }, none⟩ := by
  rcases sendAck_cases c with ⟨pkt, packed, sent⟩ | ⟨e, failed, -⟩
  · exact ⟨pkt, parse_ack packed, sent⟩
  · rw [pack, if_pos (by unfold Opcode.ack; omega)] at failed
    cases failed

theorem write_append (content data : List Byte) : File.write ⟨content, content.length, true⟩ data =
    .ok ⟨content ++ data, (content ++ data).length, true⟩ := by
  simp [File.write]

/-- The next block is acknowledged and appended, any other one is left alone. -/
theorem recvData_stored (h : Stored content c k) {block : Int} {text : List Byte}
    (small : block ≤ 32767) {n : Nat} (number : block = n + 1) (inside : n < lastBlock content)
    (part : text = fileBlock content (n + 1)) :
    ∃ c' k', c.recvData block text = ⟨c', none⟩ ∧ c'.clientAddr = c.clientAddr ∧
      Stored content c' k' := by
  have current := h.number
  rw [TFTPConnection.recvData]
  split
  · next same =>
    obtain rfl : n = k := by omega
    obtain ⟨pkt, parsed, sent⟩ := sendAck_eq
      (c := { c with active := blocksize = text.length }) (show c.blockNumber ≤ 32767 by omega)
    have whole : content.take (blocksize * (n + 1)) = content.take (blocksize * n) ++ text := by
      rw [part, fileBlock, Nat.add_sub_cancel, Nat.mul_succ, List.take_add]
    have written : c.file.write text = .ok ⟨content.take (blocksize * (n + 1)),
        (content.take (blocksize * (n + 1))).length, true⟩ := by
      rw [h.file, write_append, whole]
    have acked : parse pkt = .ok (.ack (n + 1 : Nat)) := parsed.trans (by rw [← current])
    have log : acks (c.sock ++ [.sent (pkt, c.clientAddr)]) = acks c.sock ++ [(n + 1 : Int)] :=
      acks_ack _ acked _
    have short : decide (blocksize = text.length) = true ↔ n + 1 < lastBlock content := by
      rw [decide_eq_true_iff, eq_comm, part, fileBlock_full_iff]
    rw [TFTPConnection.handleDATA, sent]
    simp only [written, TFTPConnection.after]
    refine ⟨_, n + 1, rfl, rfl, rfl, congrArg (· + 1) current, inside, short, acked, ?_, ?_⟩
    · intro j
      rw [log, List.mem_append, List.mem_singleton, h.promised]
      omega
    · intro ended
      have last : lastBlock content = n + 1 := by
        have := mt short.mpr (by simpa using ended)
        omega
      have before : (acks c.sock).count (n + 1 : Int) = 0 := by
        rw [List.count_eq_zero, h.promised]
        omega
      rw [log, last, List.count_append]
      simp [before]
  · exact ⟨c, k, rfl, rfl, h⟩

/-! ## A run -/

/-- What the client may send: blocks of the file, each under its number, and anything that is
neither `DATA` nor an `ACK`. -/
def Event.Writes (content : List Byte) (client : A) (e : Event A) : Prop :=
  ∀ data, e = .packet data client →
    match parse (data.take (blocksize + hdrsize)) with
    | .ok (.data block text) =>
      ∃ n < lastBlock content, block = (n + 1 : Nat) ∧ text = fileBlock content (n + 1)
    | .ok (.ack _) => False
    | _ => True

theorem received_taking (h : Stored content c k) (active : c.active = true) {data : List Byte}
    (writes : match parse data with
      | .ok (.data block text) =>
        ∃ n < lastBlock content, block = (n + 1 : Nat) ∧ text = fileBlock content (n + 1)
      | .ok (.ack _) => False
      | _ => True) :
    Taking content c.clientAddr
      (received { c with sock := c.sock ++ [.heard (data, c.clientAddr)] } data) := by
  have h := h.heard (data, c.clientAddr)
  rw [received]
  cases parsed : parse data with
  | error e => exact caught_taking rfl h active e
  | ok pkt =>
    rw [parsed] at writes
    cases pkt with
    | rrq filename mode | wrq filename mode =>
      exact caught_taking rfl h active (.tftpError 5 "Invalid opcode")
    | ack block => exact writes.elim
    | err errnum errtxt => exact loop_taking rfl (h.retransmit active)
    | data block text =>
      obtain ⟨n, inside, number, part⟩ := writes
      obtain ⟨c', k', eq, same, stored⟩ :=
        recvData_stored h (parse_data_le parsed) (by simpa using number) inside part
      simp only [TFTPConnection.receive, eq]
      exact loop_taking same stored

theorem connect_taking {requests : Requests} {request filename mode : List Byte}
    (asked : parse request = .ok (.wrq filename mode))
    (opened : requests.writeRequest filename mode = .ok ⟨[], 0, true⟩) (client : A)
    (content : List Byte) : Taking content client (connect requests client request) := by
  obtain ⟨pkt, parsed, sent⟩ := sendAck_eq
    (c := { clientAddr := client, active := true, file := ⟨[], 0, true⟩ }) (Nat.zero_le _)
  simp only [connect, asked, TFTPConnection.handleWRQ, opened, TFTPConnection.after, sent]
  refine loop_taking rfl (k := 0) ⟨rfl, rfl, Nat.zero_le _, ?_, parsed, ?_, ?_⟩
  · simp [lastBlock]
  · intro j
    have log : acks ([] ++ [.sent (pkt, client)]) = acks ([] : List (Traffic _ (List Byte × A))) ++ [0] :=
      acks_ack _ parsed _
    change j ∈ acks ([] ++ [.sent (pkt, client)]) ↔ _
    rw [log]
    change j ∈ [0] ↔ 0 ≤ j ∧ j ≤ 0
    rw [List.mem_singleton]
    omega
  · intro ended
    cases ended

variable [DecidableEq A]

theorem step_taking {e : Event A} (writes : e.Writes content client) {s : State A}
    (h : Taking content client s) : Taking content client (step e s) := by
  obtain ⟨c, thread⟩ := s
  obtain ⟨rfl, ⟨k, stored⟩, receiving, returned⟩ := h
  cases thread with
  | returned | raised e => exact ⟨rfl, ⟨k, stored⟩, receiving, returned⟩
  | receiving retry =>
    have active : c.active = true := receiving retry rfl
    have going (ended : c.active = false) : False := absurd (ended.symm.trans active) (by decide)
    cases e with
    | timeout =>
      simp only [step]
      split
      · exact caught_taking rfl (stored.retransmit active) active _
      · exact ⟨rfl, ⟨k, stored.retransmit active⟩, fun _ _ => active, fun ended => (going ended).elim⟩
    | packet data addr =>
      simp only [step]
      split
      · next same =>
        subst same
        exact received_taking stored active (writes data rfl)
      · exact ⟨rfl, ⟨k, stored.heard _⟩, fun _ _ => active, fun ended => (going ended).elim⟩

/-- A file is written in lock step. Whatever is lost, repeated or delayed, the server has the
first blocks of the file and nothing else, and it has acknowledged just those. It is done when it
has the whole file, and the `ACK` of the last block has been sent once. -/
theorem written_in_lock_step {requests : Requests} {request filename mode : List Byte}
    (asked : parse request = .ok (.wrq filename mode))
    (opened : requests.writeRequest filename mode = .ok ⟨[], 0, true⟩) (client : A)
    (content : List Byte) (events : List (Event A))
    (writes : ∀ e ∈ events, e.Writes content client) :
    let s := run step (connect requests client request) events
    ∃ k ≤ lastBlock content, s.conn.file.content = content.take (blocksize * k) ∧
      (∀ j, j ∈ acks s.conn.sock ↔ 0 ≤ j ∧ j ≤ k) ∧
      (s.conn.active = false ↔ k = lastBlock content) ∧
      (k = lastBlock content → s.conn.file.content = content ∧ s.thread = .returned ∧
        (acks s.conn.sock).count (lastBlock content : Int) = 1) := by
  intro s
  have taking : Taking content client s := by
    refine @run_since _ _ step _ (fun _ s => Taking content client s)
      (fun e => ¬ e.Writes content client) (connect_taking asked opened client content) ?_ events ?_
    · intro _ e s allowed h
      exact step_taking (not_not.mp allowed) h
    · intro e member
      exact not_not_intro (writes e member)
  obtain ⟨-, ⟨k, stored⟩, -, returned⟩ := taking
  have within := stored.within
  have inactive : s.conn.active = false ↔ k = lastBlock content := by
    rw [Bool.eq_false_iff, ne_eq, stored.active]
    omega
  have file : s.conn.file.content = content.take (blocksize * k) := by rw [stored.file]
  refine ⟨k, within, file, stored.promised, inactive, ?_⟩
  intro last
  have ended := inactive.mpr last
  refine ⟨?_, returned ended, stored.once ended⟩
  rw [file, last, List.take_of_length_le]
  unfold lastBlock blocksize
  omega

/-- A request to write a file. -/
def configRequest : List Byte := [0#8, 2#8] ++ ascii "config\x00octet\x00"

/-- A file of three bytes. Its only block comes twice, after a timeout. -/
theorem written_in_lock_step_short :
    parse configRequest = .ok (.wrq (ascii "config") (ascii "octet")) ∧
    ∃ k ≤ lastBlock (ascii "abc"), (run step (connect stringIO "192.168.0.159" configRequest)
      [.timeout, .packet ([0#8, 3#8, 0#8, 1#8] ++ ascii "abc") "192.168.0.159",
        .packet ([0#8, 3#8, 0#8, 1#8] ++ ascii "abc") "192.168.0.159"]).conn.file.content =
      (ascii "abc").take (blocksize * k) := by
  have asked : parse configRequest = .ok (.wrq (ascii "config") (ascii "octet")) := by decide
  have block : Event.Writes (ascii "abc") "192.168.0.159"
      (.packet ([0#8, 3#8, 0#8, 1#8] ++ ascii "abc") "192.168.0.159") := by
    rintro data ⟨⟩
    exact ⟨0, by decide, rfl, rfl⟩
  obtain ⟨k, within, stored, -⟩ := written_in_lock_step asked (show stringIO.writeRequest _ _ = _ from rfl)
    "192.168.0.159" (ascii "abc")
    [.timeout, .packet ([0#8, 3#8, 0#8, 1#8] ++ ascii "abc") "192.168.0.159",
      .packet ([0#8, 3#8, 0#8, 1#8] ++ ascii "abc") "192.168.0.159"] (by
    intro e member
    simp only [List.mem_cons, List.not_mem_nil, or_false] at member
    rcases member with rfl | rfl | rfl
    · rintro data ⟨⟩
    · exact block
    · exact block)
  exact ⟨asked, k, within, stored⟩

end

end Bifferboard.Tftp
