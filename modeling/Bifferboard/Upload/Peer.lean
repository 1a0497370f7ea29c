import Bifferboard.Upload.System

/-!
# Whom the uploaders listen to

An uploader may start by asking everyone, and keeps the address of the board that
answers. `bb_eth_upload8.py` takes every later frame from that board alone.
`bb_udp_upload.py` sends to it alone, but looks at no sender once it has an address, so that
any host can answer in the place of the board.
-/

namespace Bifferboard.Upload.Peer
open Nor

/-- An answer, and the address that it was sent from. -/
structure Answer (A : Type) where
  arg : Dword
  buffer : List Byte
  sender : A
  deriving DecidableEq, Repr

/-- What a round of the loop of `Receive` makes of a packet. -/
inductive Verdict (A : Type) where
  | skip
  | stop
  | raised (text : String)
  | answer (a : Answer A)
  deriving DecidableEq, Repr

/-- A `BiffSocket` class. -/
structure BiffSocket (A P : Type) where
  /-- The address that stands for every board. -/
  everyone : A
  frame : A → Word → Dword → List Byte → List Byte
  round : Word → A → P → Verdict A × A

/-! ## The two clients -/

/-- The frames of `bb_eth_upload8.py`. -/
def Eth.frame (src : List Byte) (proto : Word) (dest : List Byte) (cmd : Word) (arg : Dword)
    (data : List Byte) : List Byte :=
  dest ++ src ++ [proto.hi, proto.lo] ++ pack cmd arg data

def Eth.everyone : List Byte := List.replicate 6 0xff#8

def unpackError (n : Nat) : String := "unpack requires a string argument of length " ++ toString n

/-- From `unpack` of the argument on. -/
def Eth.answer (cmd : Word) (src data : List Byte) : Verdict (List Byte) :=
  match (data.drop 16).take 4 with
  | [a₀, a₁, a₂, a₃] =>
    match (data.drop 14).take 2 with
    | [t₀, t₁] =>
      if Word.ofBytes t₀ t₁ ≠ cmd ||| 1#16 then .skip
      else .answer ⟨Word.ofBytes a₂ a₃ ++ Word.ofBytes a₀ a₁, data.drop 20, src⟩
    | _ => .raised (unpackError 2)
  | _ => .raised (unpackError 4)

/-- A round of `Receive` of `bb_eth_upload8.py`. The peer is fixed before it is known what
the frame is. -/
def Eth.round (cmd : Word) (dest : List Byte) (frame : List Byte) :
    Verdict (List Byte) × List Byte :=
  let data := frame.take 60
  if data.take 6 = Eth.everyone then (.skip, dest)
  else match (data.drop 12).take 2 with
  | [p₀, p₁] =>
    if Word.ofBytes p₁ p₀ ≠ 0xb1ff#16 then (.skip, dest)
    else
      let src := (data.drop 6).take 6
      let dest := if dest = Eth.everyone then src else dest
      if src ≠ dest then (.skip, dest) else (Eth.answer cmd src data, dest)
  | _ => (.raised (unpackError 2), dest)

def eth (src : List Byte) (proto : Word) : BiffSocket (List Byte) (List Byte) where
  everyone := Eth.everyone
  frame := Eth.frame src proto
  round := Eth.round

def Udp.everyone : String := "255.255.255.255"

/-- A round of `Receive` of `bb_udp_upload.py`. An empty datagram ends the loop. -/
def Udp.round (cmd : Word) (dest : String) (packet : String × Datagram) : Verdict String × String :=
  let data := recvfrom packet.2
  match unpack data with
  | none => (if data = [] then .stop else .skip, dest)
  | some (val, arg, buffer) =>
    if val ≠ cmd ||| 1#16 then (.skip, dest)
    else (.answer ⟨arg, buffer, packet.1⟩, if dest = Udp.everyone then packet.1 else dest)

def udp : BiffSocket String (String × Datagram) where
  everyone := Udp.everyone
  frame := fun _ cmd arg data => pack cmd arg data
  round := Udp.round

/-! ## Receiving and sending -/

/-- What `Receive` returns or raises, and what it leaves. -/
structure Received (A P : Type) where
  result : Except String (Option (Answer A))
  dest : A
  left : List (Option P)

def Received.answer {A P : Type} (r : Received A P) : Option (Answer A) :=
  match r.result with
  | .ok a => a
  | .error _ => none

/-- A call of `Receive`. What comes in is a packet, or `socket.error`. -/
structure Call (A P : Type) where
  cmd : Word
  dest : A
  incoming : List (Option P)

/-- A socket, and what has come of it so far: the packets that were sent, with their
destinations, and the calls of `Receive`. -/
structure State (A P : Type) where
  dest : A
  incoming : List (Option P)
  sent : List (A × List Byte)
  calls : List (Call A P)

/-- A call of `Send`. The socket may refuse to send. -/
structure SendCall where
  cmd : Word
  arg : Nat
  data : List Byte
  refused : Option String

/-- The keys of `g_timeout`. -/
def gTimeout : List Word := [typeAttn, typeRelease, typeDataWrite, typeDataDigest, typeEraseSector]

namespace BiffSocket
variable {A P : Type} (S : BiffSocket A P)

def receive (cmd : Word) : A → List (Option P) → Received A P
  | dest, [] => ⟨.ok none, dest, []⟩
  | dest, none :: left => ⟨.ok none, dest, left⟩
  | dest, some packet :: left =>
    match S.round cmd dest packet with
    | (.skip, dest) => receive cmd dest left
    | (.stop, dest) => ⟨.ok none, dest, left⟩
    | (.raised text, dest) => ⟨.error text, dest, left⟩
    | (.answer a, dest) => ⟨.ok (some a), dest, left⟩

/-- What a call returns. -/
def received (c : Call A P) : Received A P := S.receive c.cmd c.dest c.incoming

/-- The state once a command has been answered, or not. -/
def heard (cmd : Word) (s : State A P) : State A P :=
  let r := S.received ⟨cmd, s.dest, s.incoming⟩
  { s with dest := r.dest, incoming := r.left, calls := s.calls ++ [⟨cmd, s.dest, s.incoming⟩] }

/-- The loop of `Send`, for so many rounds. -/
def poll (cmd : Word) : Nat → State A P → Except String (Bool × List Byte) × State A P
  | 0, s => (.ok (false, []), s)
  | rounds + 1, s =>
    match (S.received ⟨cmd, s.dest, s.incoming⟩).result with
    | .ok (some a) => (.ok (true, a.buffer.take a.arg.toNat), S.heard cmd s)
    | .ok none => poll cmd rounds (S.heard cmd s)
    | .error text => (.error text, S.heard cmd s)

/-- `Send`. The timeouts are counted down in floating point numbers; `rounds` is how many
rounds come of that. -/
def send (rounds : Word → Nat) (c : SendCall) (s : State A P) :
    Except String (Bool × List Byte) × State A P :=
  if c.arg < 0x100000000 then
    match c.refused with
    | some text => (.error text, s)
    | none =>
      let packet := S.frame s.dest c.cmd (BitVec.ofNat 32 c.arg) c.data
      let s := { s with sent := s.sent ++ [(s.dest, packet)] }
      if c.cmd ∈ gTimeout then S.poll c.cmd (rounds c.cmd) s else (.ok (false, []), s)
  else (.error Client.rangeError, s)

/-- The state after a sequence of calls. -/
def after (rounds : Word → Nat) (dest : A) (incoming : List (Option P)) (sends : List SendCall) :
    State A P :=
  Transition.run (fun c s => (S.send rounds c s).2) ⟨dest, incoming, [], []⟩ sends

/-! ## One board -/

/-- The peer after some calls. -/
def destAfter (dest : A) (calls : List (Call A P)) : A :=
  calls.foldl (fun _ c => (S.received c).dest) dest

/-- Every answer comes from the peer that it leaves, unless that is still everyone, and a
peer stays the peer. -/
structure OneBoard (dest : A) (calls : List (Call A P)) : Prop where
  answers : ∀ c ∈ calls, ∀ a, (S.received c).answer = some a →
    (S.received c).dest ≠ S.everyone → a.sender = (S.received c).dest
  fixed : ∀ done later, calls = done ++ later → S.destAfter dest done ≠ S.everyone →
    ∀ c ∈ later, (S.received c).dest = S.destAfter dest done

/-- What a single call has to do for that. -/
structure Loyal (c : Call A P) : Prop where
  answers : ∀ a, (S.received c).answer = some a →
    (S.received c).dest ≠ S.everyone → a.sender = (S.received c).dest
  fixed : c.dest ≠ S.everyone → (S.received c).dest = c.dest

/-- Each call starts where the one before it has ended. -/
inductive Chained : A → List (Call A P) → Prop
  | nil (dest : A) : Chained dest []
  | cons (c : Call A P) {later : List (Call A P)} :
      Chained (S.received c).dest later → Chained c.dest (c :: later)

variable {S}

theorem Chained.append {dest : A} {calls later : List (Call A P)} (chained : S.Chained dest calls)
    (next : S.Chained (S.destAfter dest calls) later) : S.Chained dest (calls ++ later) := by
  induction chained with
  | nil dest => exact next
  | cons c _ ih => exact .cons c (ih next)

theorem Chained.drop {dest : A} {done later : List (Call A P)}
    (chained : S.Chained dest (done ++ later)) : S.Chained (S.destAfter dest done) later := by
  induction done generalizing dest with
  | nil => exact chained
  | cons c done ih =>
    cases chained with
    | cons _ rest => exact ih rest

theorem Chained.head {dest : A} {c : Call A P} {later : List (Call A P)}
    (chained : S.Chained dest (c :: later)) : dest = c.dest := by
  cases chained with
  | cons _ _ => rfl

theorem Chained.fixed {dest : A} {calls : List (Call A P)} (chained : S.Chained dest calls)
    (loyal : ∀ c ∈ calls, S.Loyal c) (single : dest ≠ S.everyone) :
    ∀ c ∈ calls, (S.received c).dest = dest := by
  induction chained with
  | nil dest => simp
  | cons c _ ih =>
    have kept : (S.received c).dest = c.dest := (loyal c List.mem_cons_self).fixed single
    intro d member
    rcases List.mem_cons.mp member with rfl | later
    · exact kept
    · rw [← kept]
      refine ih (fun e member => loyal e (List.mem_cons_of_mem _ member)) ?_ d later
      rw [kept]
      exact single

theorem oneBoard_iff {dest : A} {calls : List (Call A P)} (chained : S.Chained dest calls) :
    S.OneBoard dest calls ↔ ∀ c ∈ calls, S.Loyal c := by
  constructor
  · intro board c member
    refine ⟨board.answers c member, ?_⟩
    intro single
    obtain ⟨done, later, rfl⟩ := List.append_of_mem member
    have start : S.destAfter dest done = c.dest := chained.drop.head
    have kept := board.fixed done (c :: later) rfl (by rwa [start]) c List.mem_cons_self
    rw [kept, start]
  · intro loyal
    refine ⟨fun c member => (loyal c member).answers, ?_⟩
    rintro done later rfl single
    exact chained.drop.fixed (fun c member => loyal c (List.mem_append_right _ member)) single

variable (S)

/-- The calls of a state lead to its peer. -/
def Records (dest : A) (s : State A P) : Prop :=
  S.Chained dest s.calls ∧ S.destAfter dest s.calls = s.dest

variable {S}

theorem Records.heard {dest : A} {s : State A P} (records : S.Records dest s) (cmd : Word) :
    S.Records dest (S.heard cmd s) := by
  obtain ⟨chained, last⟩ := records
  constructor
  · apply chained.append
    rw [last]
    exact .cons ⟨cmd, s.dest, s.incoming⟩ (.nil _)
  · exact List.foldl_append

theorem Records.poll {dest : A} (cmd : Word) (rounds : Nat) {s : State A P}
    (records : S.Records dest s) : S.Records dest (S.poll cmd rounds s).2 := by
  induction rounds generalizing s with
  | zero => exact records
  | succ rounds ih =>
    rw [BiffSocket.poll]
    split
    · exact records.heard cmd
    · exact ih (records.heard cmd)
    · exact records.heard cmd

theorem Records.send {dest : A} (rounds : Word → Nat) (c : SendCall) {s : State A P}
    (records : S.Records dest s) : S.Records dest (S.send rounds c s).2 := by
  unfold BiffSocket.send
  split
  · split
    · exact records
    · split
      · exact Records.poll _ _ records
      · exact records
  · exact records

theorem chained_after (rounds : Word → Nat) (dest : A) (incoming : List (Option P))
    (sends : List SendCall) : S.Chained dest (S.after rounds dest incoming sends).calls := by
  have start : S.Records dest ⟨dest, incoming, [], []⟩ := ⟨.nil dest, rfl⟩
  exact (Transition.run_invariant _ _ start (fun c _ records => records.send rounds c) sends).1

theorem receive_kept
    (kept : ∀ cmd dest packet, dest ≠ S.everyone → (S.round cmd dest packet).2 = dest)
    (cmd : Word) (dest : A) (incoming : List (Option P)) (single : dest ≠ S.everyone) :
    (S.receive cmd dest incoming).dest = dest := by
  induction incoming with
  | nil => rfl
  | cons first left ih =>
    cases first with
    | none => rfl
    | some packet =>
      have same := kept cmd dest packet single
      rw [receive]
      split
      all_goals
        rename_i round
        rw [round] at same
        subst same
      · exact ih
      · rfl
      · rfl
      · rfl

theorem receive_own
    (own : ∀ cmd dest packet a, (S.round cmd dest packet).1 = .answer a →
      a.sender = (S.round cmd dest packet).2)
    (cmd : Word) (dest : A) (incoming : List (Option P)) {a : Answer A}
    (answer : (S.receive cmd dest incoming).answer = some a) :
    a.sender = (S.receive cmd dest incoming).dest := by
  induction incoming generalizing dest with
  | nil => cases answer
  | cons first left ih =>
    cases first with
    | none => cases answer
    | some packet =>
      have here := own cmd dest packet a
      revert answer
      rw [receive]
      split
      all_goals
        rename_i round
        rw [round] at here
        intro answer
      · exact ih _ answer
      · cases answer
      · cases answer
      · cases answer
        exact here rfl

end BiffSocket

/-! ## Ethernet -/

theorem Eth.answer_sender {cmd : Word} {src data : List Byte} {a : Answer (List Byte)}
    (answer : Eth.answer cmd src data = .answer a) : a.sender = src := by
  unfold Eth.answer at answer
  split at answer
  · split at answer
    · split at answer
      · cases answer
      · cases answer
        rfl
    · cases answer
  · cases answer

theorem Eth.round_kept (cmd : Word) (dest frame : List Byte) (single : dest ≠ Eth.everyone) :
    (Eth.round cmd dest frame).2 = dest := by
  unfold Eth.round
  simp only [if_neg single]
  split
  · rfl
  · split
    · split
      · rfl
      · split <;> rfl
    · rfl

theorem Eth.round_own {cmd : Word} {dest frame : List Byte} {a : Answer (List Byte)}
    (answer : (Eth.round cmd dest frame).1 = .answer a) :
    a.sender = (Eth.round cmd dest frame).2 := by
  revert answer
  unfold Eth.round
  dsimp only
  generalize frame.take 60 = data
  split
  · intro answer
    cases answer
  · split
    · split
      · intro answer
        cases answer
      · generalize (if dest = Eth.everyone then (data.drop 6).take 6 else dest) = dest'
        split
        · intro answer
          cases answer
        · rename_i same
          intro answer
          rw [Eth.answer_sender answer]
          exact not_not.mp same
    · intro answer
      cases answer

/-! ## UDP -/

/-- The sender of the first packet that answers the command. -/
def awaited (cmd : Word) : List (Option (String × Datagram)) → Option String
  | some (sender, d) :: later =>
    if command d = some (cmd ||| 1#16) then some sender
    else if recvfrom d = [] then none else awaited cmd later
  | _ => none

theorem udp_round_answer {cmd : Word} (dest sender : String) {d : Datagram}
    (answers : command d = some (cmd ||| 1#16)) : ∃ a : Answer String, a.sender = sender ∧
      udp.round cmd dest (sender, d) = (.answer a, if dest = Udp.everyone then sender else dest) := by
  obtain ⟨⟨val, arg, buffer⟩, unpacked, rfl⟩ := Option.map_eq_some_iff.mp answers
  refine ⟨⟨arg, buffer, sender⟩, rfl, ?_⟩
  simp only [udp, Udp.round, unpacked, ne_eq, not_true_eq_false, if_false]

theorem udp_round_other {cmd : Word} (dest sender : String) {d : Datagram}
    (other : command d ≠ some (cmd ||| 1#16)) :
    udp.round cmd dest (sender, d) = (if recvfrom d = [] then .stop else .skip, dest) := by
  rw [command] at other
  simp only [udp, Udp.round]
  cases unpacked : unpack (recvfrom d) with
  | none => rfl
  | some fields =>
    obtain ⟨val, arg, buffer⟩ := fields
    have nonempty : recvfrom d ≠ [] := by
      intro nothing
      rw [nothing] at unpacked
      cases unpacked
    rw [unpacked, Option.map_some, Ne, Option.some.injEq] at other
    rw [if_neg nonempty]
    exact if_pos other

/-- The answer is the first one to come, whoever sent it. -/
theorem udp_receive (cmd : Word) (dest : String) (incoming : List (Option (String × Datagram))) :
    (udp.receive cmd dest incoming).answer.map Answer.sender = awaited cmd incoming ∧
    (udp.receive cmd dest incoming).dest =
      if dest = Udp.everyone then (awaited cmd incoming).getD dest else dest := by
  induction incoming with
  | nil => exact ⟨rfl, (ite_self _).symm⟩
  | cons first left ih =>
    cases first with
    | none => exact ⟨rfl, (ite_self _).symm⟩
    | some packet =>
      obtain ⟨sender, d⟩ := packet
      rw [BiffSocket.receive, awaited]
      by_cases answers : command d = some (cmd ||| 1#16)
      · obtain ⟨a, rfl, round⟩ := udp_round_answer dest sender answers
        rw [round, if_pos answers]
        exact ⟨rfl, rfl⟩
      · rw [udp_round_other dest sender answers, if_neg answers]
        by_cases nothing : recvfrom d = []
        · rw [if_pos nothing, if_pos nothing]
          exact ⟨rfl, (ite_self _).symm⟩
        · rw [if_neg nothing, if_neg nothing]
          exact ih

theorem udp_loyal_iff (c : Call String (String × Datagram)) : udp.Loyal c ↔
    (c.dest ≠ udp.everyone → ∀ sender, awaited c.cmd c.incoming = some sender → sender = c.dest) := by
  obtain ⟨answered, left⟩ := udp_receive c.cmd c.dest c.incoming
  constructor
  · intro loyal single sender first
    rw [first, Option.map_eq_some_iff] at answered
    obtain ⟨a, answer, rfl⟩ := answered
    have kept := loyal.fixed single
    rw [loyal.answers a answer (by rwa [kept]), kept]
  · intro expected
    refine ⟨?_, ?_⟩
    · intro a answer _
      have first : awaited c.cmd c.incoming = some a.sender := by
        rw [← answered]
        exact Option.map_eq_some_iff.mpr ⟨a, answer, rfl⟩
      rw [first] at left
      refine Eq.trans ?_ left.symm
      by_cases single : c.dest = Udp.everyone
      · rw [if_pos single]
        rfl
      · rw [if_neg single]
        exact expected single _ first
    · intro single
      exact left.trans (if_neg single)

/-- Over Ethernet there is always only one board. Over UDP there is exactly if, once the peer
is known, the first answer to every command is its own. -/
theorem one_board_iff (rounds : Word → Nat) (sends : List SendCall) :
    (∀ (src : List Byte) (proto : Word) (dest : List Byte) (incoming : List (Option (List Byte))),
      (eth src proto).OneBoard dest ((eth src proto).after rounds dest incoming sends).calls) ∧
    (∀ (dest : String) (incoming : List (Option (String × Datagram))),
      udp.OneBoard dest (udp.after rounds dest incoming sends).calls ↔
        ∀ c ∈ (udp.after rounds dest incoming sends).calls, c.dest ≠ udp.everyone →
          ∀ sender, awaited c.cmd c.incoming = some sender → sender = c.dest) := by
  constructor
  · intro src proto dest incoming
    apply (BiffSocket.oneBoard_iff (BiffSocket.chained_after rounds dest incoming sends)).mpr
    intro c _
    exact ⟨fun a answer _ => BiffSocket.receive_own (fun _ _ _ _ => Eth.round_own) _ _ _ answer,
      BiffSocket.receive_kept Eth.round_kept _ _ _⟩
  · intro dest incoming
    rw [BiffSocket.oneBoard_iff (BiffSocket.chained_after rounds dest incoming sends)]
    exact forall₂_congr fun c _ => udp_loyal_iff c

/-- Another host answers the first command. -/
def strangeAnswer : Option (String × Datagram) :=
  some ("10.0.0.2", pack (typeAttn ||| 1#16) 0#32 [])

def attention : SendCall := ⟨typeAttn, 0, [], none⟩

/-- A board at 10.0.0.1 is asked, and the answer of 10.0.0.2 is taken for its own. -/
theorem stranger_heard :
    (udp.send (fun _ => 1) attention ⟨"10.0.0.1", [strangeAnswer], [], []⟩).1 = .ok (true, []) ∧
    ¬ udp.OneBoard "10.0.0.1" (udp.after (fun _ => 1) "10.0.0.1" [strangeAnswer] [attention]).calls := by
  refine ⟨by decide, ?_⟩
  intro board
  have own := board.answers ⟨typeAttn, "10.0.0.1", [strangeAnswer]⟩ (List.mem_singleton.mpr rfl)
    ⟨0#32, [], "10.0.0.2"⟩ (by decide) (by decide)
  revert own
  decide

end Bifferboard.Upload.Peer
