import Bifferboard.Tftp.Connection

/-!
# Reading a file

As long as the client sends no `DATA` itself, what goes through the socket after a read request
is a lock-step transfer: timeouts and `ERROR` packets repeat the last block, an `ACK` of the last
block brings the next one, and any other packet changes nothing or ends the transfer.
-/

namespace Bifferboard.Tftp
open Nor Config Transition

variable {A : Type}

/-- Block `k` of a file, counted from 1. -/
def fileBlock (content : List Byte) (k : Nat) : List Byte :=
  (content.drop (blocksize * (k - 1))).take blocksize

/-- The number of the last block of a file, the first one that is not full. -/
def lastBlock (content : List Byte) : Nat := content.length / blocksize + 1

theorem length_fileBlock (content : List Byte) (k : Nat) :
    (fileBlock content (k + 1)).length = min blocksize (content.length - blocksize * k) := by
  simp [fileBlock]

theorem fileBlock_full_iff (content : List Byte) (k : Nat) :
    (fileBlock content (k + 1)).length = blocksize ↔ k + 1 < lastBlock content := by
  rw [length_fileBlock, lastBlock, blocksize]
  omega

def IsBlock (content : List Byte) (k : Nat) (o : List Byte × A) : Prop :=
  parse o.1 = .ok (.data k (fileBlock content k))

def NoData (o : List Byte × A) : Prop := ∀ k data, parse o.1 ≠ .ok (.data k data)

def Acks (client : A) (k : Nat) (i : List Byte × A) : Prop :=
  i.2 = client ∧ parse i.1 = .ok (.ack k)

theorem isBlock_alone (content : List Byte) (j k : Nat) (o : List Byte × A)
    (first : IsBlock content j o) (second : IsBlock content k o) : j = k := by
  have same := first.symm.trans second
  simp only [Except.ok.injEq, Packet.data.injEq, Int.natCast_inj] at same
  exact same.1

theorem isBlock_data (content : List Byte) (k : Nat) (o : List Byte × A)
    (is : IsBlock content k o) : ¬ NoData o := fun none => none _ _ is

/-- Block `k` was the last one to be sent. -/
def InStep (content : List Byte) (c : TFTPConnection A) (k : Nat) : Prop :=
  LockStep (IsBlock content) NoData (Acks c.clientAddr) c.sock k (c.lastpkt, c.clientAddr)

/-- Block `k` was the last one to be sent, and the file is where the next one starts. -/
structure Sending (content : List Byte) (c : TFTPConnection A) (k : Nat) : Prop where
  inStep : InStep content c k
  number : c.blockNumber = k
  content : c.file.content = content
  pos : c.active = true → c.file.pos = blocksize * k

/-- The traffic is in lock step, and goes on so if nothing was raised. -/
structure Kept (content : List Byte) (client : A) (o : Outcome A) : Prop where
  client : o.conn.clientAddr = client
  inStep : ∃ k, InStep content o.conn k
  sending : o.raised = none → ∃ k, Sending content o.conn k

structure Running (content : List Byte) (client : A) (s : State A) : Prop where
  client : s.conn.clientAddr = client
  inStep : ∃ k, InStep content s.conn k
  sending : ∀ retry, s.thread = .receiving retry →
    s.conn.active = true ∧ ∃ k, Sending content s.conn k

section
variable {content : List Byte} {client : A} {c : TFTPConnection A} {k : Nat}

theorem InStep.retransmit (h : InStep content c k) : InStep content c.retransmit k :=
  LockStep.again h

theorem Sending.retransmit (h : Sending content c k) : Sending content c.retransmit k :=
  ⟨h.inStep.retransmit, h.number, h.content, h.pos⟩

theorem Sending.heard (h : Sending content c k) (i : List Byte × A) :
    Sending content { c with sock := c.sock ++ [.heard i] } k :=
  ⟨LockStep.heard i h.inStep, h.number, h.content, h.pos⟩

/-! ## The ends of a transfer -/

theorem ended_running (h : InStep content c k) (same : c.clientAddr = client) {t : Thread}
    (ended : ∀ retry, t ≠ .receiving retry) : Running content client ⟨c, t⟩ :=
  ⟨same, ⟨k, h⟩, fun retry receiving => absurd receiving (ended retry)⟩

theorem caught_running (same : c.clientAddr = client) (h : InStep content c k) (e : Exn) :
    Running content client (caught c e) := by
  cases e with
  | other text => exact ended_running h same (by simp)
  | tftpError errnum errtext =>
    simp only [caught, TFTPConnection.sendError]
    cases packed : pack Opcode.err errnum (ascii errtext ++ [0#8]) with
    | error e => exact ended_running h same (by simp)
    | ok pkt =>
      have none : NoData (pkt, c.clientAddr) := by simp [NoData, parse_err packed]
      have sent : InStep content (c.sendto pkt) k := LockStep.other h none
      exact ended_running sent same (by simp)

theorem loop_running {o : Outcome A} (h : Kept content client o) :
    Running content client (loop o) := by
  obtain ⟨c, raised⟩ := o
  obtain ⟨same, ⟨k, inStep⟩, sending⟩ := h
  cases raised with
  | some e => exact caught_running same inStep e
  | none =>
    refine ⟨same, ⟨k, inStep⟩, fun retry receiving => ⟨?_, sending rfl⟩⟩
    by_cases active : c.active = true
    · exact active
    · simp [loop, active] at receiving

/-! ## Sending a block -/

theorem read_block {f : File} (pos : f.pos = blocksize * k) :
    f.read blocksize = (fileBlock f.content (k + 1),
      { f with pos := blocksize * k + (fileBlock f.content (k + 1)).length }) := by
  simp [File.read, fileBlock, pos]

theorem sendData_cases (c : TFTPConnection A) (data : List Byte) :
    (∃ pkt, pack Opcode.data (c.blockNumber + 1 : Nat) data = .ok pkt ∧
      c.sendData data = ⟨{ c with
        blockNumber := c.blockNumber + 1
        sock := c.sock ++ [.sent (pkt, c.clientAddr)]
        lastpkt := pkt
        active := data.length = blocksize }, none⟩) ∨
    ∃ e, pack Opcode.data (c.blockNumber + 1 : Nat) data = .error e ∧
      c.sendData data = ⟨{ c with blockNumber := c.blockNumber + 1 }, some e⟩ := by
  simp only [TFTPConnection.sendData]
  cases packed : pack Opcode.data (c.blockNumber + 1 : Nat) data with
  | ok pkt => exact .inl ⟨pkt, rfl, rfl⟩
  | error e => exact .inr ⟨e, rfl, rfl⟩

theorem sendAck_cases (c : TFTPConnection A) :
    (∃ pkt, pack Opcode.ack c.blockNumber [] = .ok pkt ∧ c.sendAck = ⟨{ c with
        blockNumber := c.blockNumber + 1
        sock := c.sock ++ [.sent (pkt, c.clientAddr)]
        lastpkt := pkt }, none⟩) ∨
    ∃ e, pack Opcode.ack c.blockNumber [] = .error e ∧
      c.sendAck = ⟨{ c with blockNumber := c.blockNumber + 1 }, some e⟩ := by
  simp only [TFTPConnection.sendAck]
  cases packed : pack Opcode.ack c.blockNumber [] with
  | ok pkt => exact .inl ⟨pkt, rfl, rfl⟩
  | error e => exact .inr ⟨e, rfl, rfl⟩

/-- The next block goes out, or there are too many. -/
theorem sendNext_kept (same : c.clientAddr = client) (number : c.blockNumber = k)
    (holds : c.file.content = content) (pos : c.file.pos = blocksize * k)
    (next : ∀ pkt, IsBlock content (k + 1) (pkt, client) →
      LockStep (IsBlock content) NoData (Acks client) (c.sock ++ [.sent (pkt, client)]) (k + 1)
        (pkt, client))
    (stop : k ≠ 0 → ∃ k, InStep content c k) : Kept content client c.sendNext := by
  subst same number holds
  rw [TFTPConnection.sendNext, read_block pos]
  dsimp only
  rcases sendData_cases { c with file := { c.file with pos := _ } }
    (fileBlock c.file.content (c.blockNumber + 1)) with ⟨pkt, packed, sent⟩ | ⟨e, packed, failed⟩
  · rw [sent]
    have log := next pkt (parse_data packed)
    refine ⟨rfl, ⟨_, log⟩, fun _ => ⟨_, log, rfl, rfl, fun active => ?_⟩⟩
    simp only [decide_eq_true_eq] at active
    simp [active, Nat.mul_add]
  · rw [failed]
    have later : c.blockNumber ≠ 0 := by
      intro first
      simp [first, pack, Opcode.data] at packed
    exact ⟨rfl, stop later, by simp⟩

/-! ## One packet -/

/-- A packet of the client that is no `DATA`. -/
theorem receive_kept (sending : Sending content c k) (active : c.active = true)
    {data : List Byte} (last : c.sock.getLast? = some (.heard (data, c.clientAddr))) {pkt : Packet}
    (parsed : parse data = .ok pkt) (quiet : ∀ block data, pkt ≠ .data block data) :
    Kept content c.clientAddr (c.receive pkt) := by
  have stays : Kept content c.clientAddr ⟨c, none⟩ :=
    ⟨rfl, ⟨k, sending.inStep⟩, fun _ => ⟨k, sending⟩⟩
  cases pkt with
  | data block data => exact absurd rfl (quiet block data)
  | rrq filename mode | wrq filename mode =>
    exact ⟨rfl, ⟨k, sending.inStep⟩, by simp [TFTPConnection.receive]⟩
  | err errnum errtxt =>
    exact ⟨rfl, ⟨k, sending.inStep.retransmit⟩, fun _ => ⟨k, sending.retransmit⟩⟩
  | ack block =>
    rw [TFTPConnection.receive, TFTPConnection.recvAck]
    split
    · next current =>
      rw [TFTPConnection.handleACK, if_pos active]
      rw [current, sending.number] at parsed
      refine sendNext_kept rfl sending.number sending.content (sending.pos active) ?_
        fun _ => ⟨k, sending.inStep⟩
      intro pkt is
      exact LockStep.next sending.inStep last ⟨rfl, parsed⟩ is
    · exact stays

theorem received_running (sending : Sending content c k) (active : c.active = true)
    {data : List Byte} (quiet : ∀ block text, parse data ≠ .ok (.data block text)) :
    Running content c.clientAddr
      (received { c with sock := c.sock ++ [.heard (data, c.clientAddr)] } data) := by
  have sending := sending.heard (data, c.clientAddr)
  rw [received]
  cases parsed : parse data with
  | error e => exact caught_running rfl sending.inStep e
  | ok pkt =>
    apply loop_running
    refine receive_kept sending active (by simp) parsed ?_
    rintro block text rfl
    exact quiet block text parsed

theorem connect_running {requests : Requests} {request filename mode : List Byte} {f : File}
    (asked : parse request = .ok (.rrq filename mode))
    (opened : requests.readRequest filename mode = .ok f) (start : f.pos = 0) (client : A) :
    Running f.content client (connect requests client request) := by
  simp only [connect, asked]
  apply loop_running
  simp only [TFTPConnection.handleRRQ, opened, TFTPConnection.after]
  refine sendNext_kept (k := 0) rfl rfl rfl (by simp [start]) ?_ (absurd rfl)
  intro pkt is
  exact LockStep.start is

variable [DecidableEq A]

/-- The client sends `DATA` of its own. -/
def Event.sendsData (client : A) : Event A → Bool
  | .timeout => false
  | .packet data addr =>
    addr = client && match parse (data.take (blocksize + hdrsize)) with
      | .ok (.data _ _) => true
      | _ => false

theorem step_running {e : Event A} (quiet : e.sendsData client = false) {s : State A}
    (h : Running content client s) : Running content client (step e s) := by
  obtain ⟨c, thread⟩ := s
  obtain ⟨rfl, inStep, sending⟩ := h
  cases thread with
  | returned | raised e => exact ⟨rfl, inStep, sending⟩
  | receiving retry =>
    obtain ⟨active, k, sending⟩ := sending retry rfl
    cases e with
    | timeout =>
      simp only [step]
      split
      · exact caught_running rfl sending.inStep.retransmit _
      · exact ⟨rfl, ⟨k, sending.inStep.retransmit⟩, fun _ _ => ⟨active, k, sending.retransmit⟩⟩
    | packet data addr =>
      simp only [step]
      split
      · next same =>
        subst same
        apply received_running sending active
        intro block text parsed
        simp [Event.sendsData, parsed] at quiet
      · have sending := sending.heard (data.take (blocksize + hdrsize), addr)
        exact ⟨rfl, ⟨k, sending.inStep⟩, fun _ _ => ⟨active, k, sending⟩⟩

theorem run_running {requests : Requests} {request filename mode : List Byte} {f : File}
    (asked : parse request = .ok (.rrq filename mode))
    (opened : requests.readRequest filename mode = .ok f) (start : f.pos = 0) (client : A)
    (events : List (Event A)) (quiet : ∀ e ∈ events, e.sendsData client = false) :
    Running f.content client (run step (connect requests client request) events) := by
  refine @run_since _ _ step _ (fun _ s => Running f.content client s)
    (fun e => e.sendsData client = true) (connect_running asked opened start client) ?_ events ?_
  · intro _ e s silent running
    exact step_running (by simpa using silent) running
  · intro e member
    simp [quiet e member]

end

/-! ## The traffic -/

/-- The numbers of the blocks that were sent. -/
def blocks (log : List (Traffic (List Byte × A) (List Byte × A))) : List Int :=
  log.filterMap fun
    | .heard _ => none
    | .sent (pkt, _) =>
      match parse pkt with
      | .ok (.data block _) => some block
      | _ => none

theorem mem_blocks {log : List (Traffic (List Byte × A) (List Byte × A))} {block : Int} :
    block ∈ blocks log ↔ ∃ o data, .sent o ∈ log ∧ parse o.1 = .ok (.data block data) := by
  rw [blocks, List.mem_filterMap]
  constructor
  · rintro ⟨entry, member, found⟩
    cases entry with
    | heard i => simp at found
    | sent o =>
      revert found
      dsimp only
      split
      · next block' data parsed =>
        rintro found
        cases found
        exact ⟨o, data, member, parsed⟩
      · simp
  · rintro ⟨o, data, member, parsed⟩
    exact ⟨_, member, by simp [parsed]⟩

section
variable {content : List Byte} {client : A} {c : TFTPConnection A} {k : Nat}

theorem InStep.data (h : InStep content c k) {o : List Byte × A} (member : .sent o ∈ c.sock)
    {block : Int} {data : List Byte} (parsed : parse o.1 = .ok (.data block data)) :
    ∃ n : Nat, block = n + 1 ∧ IsBlock content (n + 1) o ∧ data = fileBlock content (n + 1) := by
  rcases LockStep.mem h member with none | ⟨j, positive, is⟩
  · exact absurd parsed (none block data)
  · have same := parsed.symm.trans is
    simp only [Except.ok.injEq, Packet.data.injEq] at same
    obtain ⟨n, rfl⟩ := Nat.exists_eq_add_of_le' positive
    exact ⟨n, by simpa using same.1, is, same.2⟩

/-- The blocks that were sent up to some time. -/
theorem InStep.sent_iff (h : InStep content c k)
    {before : List (Traffic (List Byte × A) (List Byte × A))} (early : before <+: c.sock) (j : Nat) :
    Sent (IsBlock content) before (j + 1) ↔ (j + 1 : Int) ∈ blocks before := by
  rw [mem_blocks]
  constructor
  · rintro ⟨o, is, member⟩
    exact ⟨o, _, member, by simpa [IsBlock] using is⟩
  · rintro ⟨o, data, member, parsed⟩
    obtain ⟨n, number, is, -⟩ := h.data (early.subset member) parsed
    obtain rfl : j = n := by omega
    exact ⟨o, is, member⟩

end

/-- A file is read in lock step. Each block is its part of the file, and where a block is sent for
the first time, exactly the blocks before it have been sent, and the last packet received is the
`ACK` of the one before. A file may have any length: what cannot be numbered is not sent. -/
theorem read_in_lock_step {A : Type} [DecidableEq A] (requests : Requests) (client : A)
    (request filename mode : List Byte) (f : File)
    (asked : parse request = .ok (.rrq filename mode))
    (opened : requests.readRequest filename mode = .ok f) (start : f.pos = 0)
    (events : List (Event A)) (quiet : ∀ e ∈ events, e.sendsData client = false) :
    let log := (run step (connect requests client request) events).conn.sock
    (∀ pkt addr block data, .sent (pkt, addr) ∈ log → parse pkt = .ok (.data block data) →
      ∃ n : Nat, block = n + 1 ∧ data = (f.content.drop (512 * n)).take 512) ∧
    ∀ before pkt addr block data, before ++ [.sent (pkt, addr)] <+: log →
      parse pkt = .ok (.data block data) → block ∉ blocks before →
      (∀ j, j ∈ blocks before ↔ 1 ≤ j ∧ j < block) ∧
      (1 < block → ∃ ack, before.getLast? = some (.heard (ack, client)) ∧
        parse ack = .ok (.ack (block - 1))) := by
  obtain ⟨same, ⟨k, inStep⟩, -⟩ := run_running asked opened start client events quiet
  generalize (run step (connect requests client request) events).conn = c at same inStep
  subst same
  refine ⟨?_, ?_⟩
  · intro pkt addr block data member parsed
    obtain ⟨n, number, -, rfl⟩ := inStep.data member parsed
    exact ⟨n, number, rfl⟩
  · intro before pkt addr block data made parsed new
    have early : before <+: c.sock := (List.prefix_append _ _).trans made
    obtain ⟨n, rfl, is, -⟩ := @InStep.data _ _ _ _ inStep (pkt, addr) (made.subset (by simp)) _ _ parsed
    rw [← inStep.sent_iff early] at new
    obtain ⟨sent, acked⟩ := LockStep.first (isBlock_alone f.content) (isBlock_data f.content)
      inStep made is new
    refine ⟨fun j => ?_, fun more => ?_⟩
    · constructor
      · intro member
        obtain ⟨o, data, earlier, parsed⟩ := mem_blocks.mp member
        obtain ⟨i, rfl, is, -⟩ := inStep.data (early.subset earlier) parsed
        have lower := (sent (i + 1)).mp ⟨o, is, earlier⟩
        omega
      · rintro ⟨positive, lower⟩
        obtain ⟨i, rfl⟩ : ∃ i : Nat, j = i + 1 := ⟨(j - 1).toNat, by omega⟩
        exact (inStep.sent_iff early i).mp ((sent (i + 1)).mpr (by omega))
    · obtain ⟨⟨ack, addr⟩, last, rfl, parsed⟩ := acked (by omega)
      exact ⟨ack, last, by simpa using parsed⟩

/-- A request for the kernel. -/
def kernelRequest : List Byte := [0#8, 1#8] ++ ascii "bzImage\x00octet\x00"

/-- A client, who is not the only one to send something, reads two blocks. -/
theorem kernel_read_in_lock_step :
    parse kernelRequest = .ok (.rrq (ascii "bzImage") (ascii "octet")) ∧
    ∀ pkt addr block data, .sent (pkt, addr) ∈ (run step
        (connect (myTFTP fun _ => .ok (List.replicate 600 0xaa#8)) "192.168.0.159" kernelRequest)
        [.timeout, .packet [0#8, 4#8, 0#8, 1#8] "192.168.0.7",
          .packet [0#8, 5#8, 0#8, 0#8, 0#8] "192.168.0.159",
          .packet [0#8, 4#8, 0#8, 1#8] "192.168.0.159"]).conn.sock →
      parse pkt = .ok (.data block data) →
      ∃ n : Nat, block = n + 1 ∧ data = ((List.replicate 600 0xaa#8).drop (512 * n)).take 512 := by
  have asked : parse kernelRequest = .ok (.rrq (ascii "bzImage") (ascii "octet")) := by decide
  exact ⟨asked, (read_in_lock_step (myTFTP fun _ => .ok (List.replicate 600 0xaa#8))
    "192.168.0.159" kernelRequest _ _ _ asked rfl rfl _ (by decide)).1⟩

end Bifferboard.Tftp
