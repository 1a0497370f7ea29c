import Mathlib.Data.List.InsertIdx
import Bifferboard.Upload.System

/-!
# What an upload flashes

No packet says which attempt it belongs to. An answer to `DATA_DIGEST` that
comes in after its wait has timed out is taken for the answer of the next
attempt, and then nothing ties the board's buffer to the chunk any more.
`InFlight` lists what the queues can hold at each point of the client as long
as that does not happen; `Settled` is the condition on timeouts that rules it
out.
-/

namespace Bifferboard.Upload
open Nor Transition

/-- Requests that only fill the buffer. -/
def Request.Fills : Request → Prop
  | .reset | .add _ _ => True
  | _ => False

def Request.IsWrite : Request → Prop
  | .write _ => True
  | _ => False

def Quiet (reqs : List Request) : Prop := ∀ r ∈ reqs, r.Fills

def NoWrite (reqs : List Request) : Prop := ∀ r ∈ reqs, ¬ r.IsWrite

theorem Quiet.noWrite {reqs : List Request} (h : Quiet reqs) : NoWrite reqs := by
  intro r member write
  have fills := h r member
  cases r with
  | write offset => exact fills
  | attn | reset | add | digest | release => exact write

theorem Quiet.nil : Quiet [] := List.forall_mem_nil _

theorem NoWrite.nil : NoWrite [] := Quiet.nil.noWrite

theorem Quiet.concat {reqs : List Request} (h : Quiet reqs) {r : Request} (fills : r.Fills) :
    Quiet (reqs ++ [r]) := by
  rw [Quiet, List.forall_mem_append]
  exact ⟨h, List.forall_mem_singleton.mpr fills⟩

theorem NoWrite.concat {reqs : List Request} (h : NoWrite reqs) {r : Request} (other : ¬ r.IsWrite) :
    NoWrite (reqs ++ [r]) := by
  rw [NoWrite, List.forall_mem_append]
  exact ⟨h, List.forall_mem_singleton.mpr other⟩

theorem Quiet.eraseIdx {reqs : List Request} (h : Quiet reqs) (i : Nat) : Quiet (reqs.eraseIdx i) :=
  fun r member => h r (List.mem_of_mem_eraseIdx member)

theorem NoWrite.eraseIdx {reqs : List Request} (h : NoWrite reqs) (i : Nat) : NoWrite (reqs.eraseIdx i) :=
  fun r member => h r (List.mem_of_mem_eraseIdx member)

theorem Quiet.tail {r : Request} {reqs : List Request} (h : Quiet (r :: reqs)) : Quiet reqs :=
  fun x member => h x (List.mem_cons_of_mem r member)

theorem NoWrite.tail {r : Request} {reqs : List Request} (h : NoWrite (r :: reqs)) : NoWrite reqs :=
  fun x member => h x (List.mem_cons_of_mem r member)

theorem Board.handle_fills (md5 : Md5) (b : Board) {r : Request} (fills : r.Fills) :
    (b.handle md5 r).1 = [] := by
  cases r with
  | reset | add => rfl
  | attn | digest | write | release => exact absurd fills id

/-- Between the first `RESET` for a chunk and the answer to its `WRITE`, and
after a failure in between. -/
def Pc.Uploading : Pc → Prop
  | .reset | .add _ | .awaitDigest | .write | .awaitWrite | .raised _ => True
  | _ => False

/-- What can be on its way where the client stands at `pc`, with the board's
buffer and the client's chunk. -/
inductive InFlight (md5 : Md5) (buffer chunk : List Byte) : Pc → List Request → List Answer → Prop
  | attn : InFlight md5 buffer chunk .attn [] []
  | attnAsked : InFlight md5 buffer chunk .awaitAttn [.attn] []
  | attnAnswered : InFlight md5 buffer chunk .awaitAttn [] [.attn]
  | attnLost : InFlight md5 buffer chunk .awaitAttn [] []
  | nextChunk : InFlight md5 buffer chunk .nextChunk [] []
  | reset {reqs} (quiet : Quiet reqs) : InFlight md5 buffer chunk .reset reqs []
  | add {left reqs} (quiet : Quiet reqs) : InFlight md5 buffer chunk (.add left) reqs []
  | digestAsked {front} (quiet : Quiet front) :
      InFlight md5 buffer chunk .awaitDigest (front ++ [.digest]) []
  | digestAnswered :
      InFlight md5 buffer chunk .awaitDigest [] [.digest (md5.digest buffer) (md5.length_digest _)]
  | digestLost {reqs} (quiet : Quiet reqs) : InFlight md5 buffer chunk .awaitDigest reqs []
  | write (same : buffer = chunk) : InFlight md5 buffer chunk .write [] []
  | writeAsked {offset} (same : buffer = chunk) : InFlight md5 buffer chunk .awaitWrite [.write offset] []
  | writeAnswered : InFlight md5 buffer chunk .awaitWrite [] [.write]
  | writeLost : InFlight md5 buffer chunk .awaitWrite [] []
  | release : InFlight md5 buffer chunk .release [] []
  | releaseAsked : InFlight md5 buffer chunk .awaitRelease [.release] []
  | releaseAnswered : InFlight md5 buffer chunk .awaitRelease [] [.release]
  | releaseLost : InFlight md5 buffer chunk .awaitRelease [] []
  | done {reqs answers} (none : NoWrite reqs) : InFlight md5 buffer chunk .done reqs answers
  | raised {text reqs answers} (none : NoWrite reqs) :
      InFlight md5 buffer chunk (.raised text) reqs answers
  | raisedAsked {text offset} (same : buffer = chunk) :
      InFlight md5 buffer chunk (.raised text) [.write offset] []

namespace InFlight
variable {md5 : Md5} {buffer chunk : List Byte} {pc : Pc} {reqs : List Request} {answers : List Answer}

/-- A request to write finds the chunk in the buffer. -/
theorem write_head {offset : Nat} {rest : List Request}
    (h : InFlight md5 buffer chunk pc (.write offset :: rest) answers) :
    buffer = chunk ∧ pc.Uploading := by
  generalize all : Request.write offset :: rest = reqs at h
  have member : Request.write offset ∈ reqs := all ▸ List.mem_cons_self
  cases h with
  | writeAsked same | raisedAsked same => exact ⟨same, trivial⟩
  | reset quiet | add quiet | digestLost quiet => exact absurd trivial (quiet.noWrite _ member)
  | digestAsked quiet =>
    have none : NoWrite _ := quiet.noWrite.concat (show ¬ Request.digest.IsWrite from id)
    exact absurd trivial (none _ member)
  | done none | raised none => exact absurd trivial (none _ member)
  | attnAsked | releaseAsked =>
    cases all
  | attn | attnAnswered | attnLost | nextChunk | digestAnswered | write | writeAnswered | writeLost
    | release | releaseAnswered | releaseLost => cases all

/-- A request is lost. -/
theorem lose_request (h : InFlight md5 buffer chunk pc reqs answers) (i : Nat) :
    InFlight md5 buffer chunk pc (reqs.eraseIdx i) answers := by
  cases h with
  | attnAsked =>
    cases i with
    | zero => exact .attnLost
    | succ i => exact .attnAsked
  | releaseAsked =>
    cases i with
    | zero => exact .releaseLost
    | succ i => exact .releaseAsked
  | writeAsked same =>
    cases i with
    | zero => exact .writeLost
    | succ i => exact .writeAsked same
  | raisedAsked same =>
    cases i with
    | zero => exact .raised NoWrite.nil
    | succ i => exact .raisedAsked same
  | @digestAsked front quiet =>
    by_cases before : i < front.length
    · rw [List.eraseIdx_append_of_lt_length before]
      exact .digestAsked (quiet.eraseIdx i)
    · rw [List.eraseIdx_append_of_length_le (Nat.le_of_not_lt before)]
      cases i - front.length with
      | zero =>
        rw [List.eraseIdx_cons_zero, List.append_nil]
        exact .digestLost quiet
      | succ i => exact .digestAsked quiet
  | reset quiet => exact .reset (quiet.eraseIdx i)
  | add quiet => exact .add (quiet.eraseIdx i)
  | digestLost quiet => exact .digestLost (quiet.eraseIdx i)
  | done none => exact .done (none.eraseIdx i)
  | raised none => exact .raised (none.eraseIdx i)
  | attn => exact .attn
  | attnAnswered => exact .attnAnswered
  | attnLost => exact .attnLost
  | nextChunk => exact .nextChunk
  | digestAnswered => exact .digestAnswered
  | write same => exact .write same
  | writeAnswered => exact .writeAnswered
  | writeLost => exact .writeLost
  | release => exact .release
  | releaseAnswered => exact .releaseAnswered
  | releaseLost => exact .releaseLost

/-- An answer is lost. -/
theorem lose_answer (h : InFlight md5 buffer chunk pc reqs answers) (i : Nat) :
    InFlight md5 buffer chunk pc reqs (answers.eraseIdx i) := by
  cases h with
  | attnAnswered =>
    cases i with
    | zero => exact .attnLost
    | succ i => exact .attnAnswered
  | digestAnswered =>
    cases i with
    | zero => exact .digestLost Quiet.nil
    | succ i => exact .digestAnswered
  | writeAnswered =>
    cases i with
    | zero => exact .writeLost
    | succ i => exact .writeAnswered
  | releaseAnswered =>
    cases i with
    | zero => exact .releaseLost
    | succ i => exact .releaseAnswered
  | done none => exact .done none
  | raised none => exact .raised none
  | attn => exact .attn
  | attnAsked => exact .attnAsked
  | attnLost => exact .attnLost
  | nextChunk => exact .nextChunk
  | reset quiet => exact .reset quiet
  | add quiet => exact .add quiet
  | digestAsked quiet => exact .digestAsked quiet
  | digestLost quiet => exact .digestLost quiet
  | write same => exact .write same
  | writeAsked same => exact .writeAsked same
  | writeLost => exact .writeLost
  | release => exact .release
  | releaseAsked => exact .releaseAsked
  | releaseLost => exact .releaseLost
  | raisedAsked same => exact .raisedAsked same

/-- The board serves the oldest request. -/
theorem serve {b : Board} {r : Request} {rest : List Request}
    (h : InFlight md5 b.buffer chunk pc (r :: rest) answers) :
    InFlight md5 (b.handle md5 r).2.buffer chunk pc rest (answers ++ (b.handle md5 r).1) := by
  generalize all : r :: rest = reqs at h
  cases h with
  | attnAsked =>
    cases all
    exact .attnAnswered
  | reset quiet =>
    subst all
    rw [b.handle_fills md5 (quiet r List.mem_cons_self)]
    exact .reset quiet.tail
  | add quiet =>
    subst all
    rw [b.handle_fills md5 (quiet r List.mem_cons_self)]
    exact .add quiet.tail
  | @digestAsked front quiet =>
    cases front with
    | nil =>
      cases all
      exact .digestAnswered
    | cons first front =>
      cases all
      rw [b.handle_fills md5 (quiet r List.mem_cons_self)]
      exact .digestAsked quiet.tail
  | digestLost quiet =>
    subst all
    rw [b.handle_fills md5 (quiet r List.mem_cons_self)]
    exact .digestLost quiet.tail
  | writeAsked =>
    cases all
    exact .writeAnswered
  | releaseAsked =>
    cases all
    exact .releaseAnswered
  | done none =>
    subst all
    exact .done none.tail
  | raised none =>
    subst all
    exact .raised none.tail
  | raisedAsked =>
    cases all
    exact .raised NoWrite.nil
  | attn | attnAnswered | attnLost | nextChunk | digestAnswered | write | writeAnswered | writeLost
    | release | releaseAnswered | releaseLost => cases all

/-- The client sends, or goes on to its next chunk. -/
theorem act {c c' : Client} {new : List Request} (acts : c.Acts new c')
    (h : InFlight md5 buffer c.chunk c.pc reqs answers) :
    InFlight md5 buffer c'.chunk c'.pc (reqs ++ new) answers := by
  cases acts with
  | attn =>
    cases h
    exact .attnAsked
  | nextChunk =>
    cases h
    exact .reset Quiet.nil
  | noChunk =>
    cases h
    exact .release
  | reset =>
    cases h with
    | reset quiet => exact .add (quiet.concat trivial)
  | add =>
    cases h with
    | add quiet => exact .add (quiet.concat trivial)
  | digest =>
    cases h with
    | add quiet => exact .digestAsked quiet
  | write =>
    cases h with
    | write same => exact .writeAsked same
  | outOfRange =>
    cases h with
    | write same => exact .raised NoWrite.nil
  | release =>
    cases h
    exact .releaseAsked

/-- A wait times out. For `DATA_DIGEST`, if there is another attempt, nothing
of this one may be left in flight that is answered or is an answer. -/
theorem timeout {c : Client} {cmd : Word} (waiting : c.awaited = some cmd)
    (h : InFlight md5 buffer c.chunk c.pc reqs answers)
    (settled : c.pc = .awaitDigest → c.attempt + 1 < 5 →
      .digest ∉ reqs ∧ ∀ sum whole, .digest sum whole ∉ answers) :
    InFlight md5 buffer (c.resume md5 false []).chunk (c.resume md5 false []).pc reqs answers := by
  obtain ⟨rest, offset, chunk, attempt, pc⟩ := c
  cases pc with
  | awaitAttn =>
    cases h with
    | attnAsked => exact .done (NoWrite.nil.concat id)
    | attnAnswered | attnLost => exact .done NoWrite.nil
  | awaitDigest =>
    simp only [Client.resume, if_neg (md5.nil_ne_digest chunk), Client.retry]
    by_cases again : attempt + 1 < 5
    · obtain ⟨unasked, unanswered⟩ := settled rfl again
      rw [if_pos again]
      cases h with
      | digestAsked => exact absurd (List.mem_append_right _ List.mem_cons_self) unasked
      | digestAnswered => exact absurd List.mem_cons_self (unanswered _ _)
      | digestLost quiet => exact .reset quiet
    · rw [if_neg again]
      cases h with
      | digestAsked quiet => exact .raised (quiet.noWrite.concat id)
      | digestAnswered => exact .raised NoWrite.nil
      | digestLost quiet => exact .raised quiet.noWrite
  | awaitWrite =>
    cases h with
    | writeAsked same => exact .raisedAsked same
    | writeAnswered | writeLost => exact .raised NoWrite.nil
  | awaitRelease =>
    cases h with
    | releaseAsked => exact .done (NoWrite.nil.concat id)
    | releaseAnswered | releaseLost => exact .done NoWrite.nil
  | attn | nextChunk | reset | add | write | release | done | raised => cases waiting

/-- The client takes an answer. A digest that matches means that the buffer
holds the chunk. -/
theorem receive {c : Client} {cmd : Word} {a : Answer} {rest : List Answer}
    (waiting : c.awaited = some cmd) (h : InFlight md5 buffer c.chunk c.pc reqs (a :: rest))
    (free : c.pc = .awaitDigest → ∀ data, md5.digest data = md5.digest c.chunk → data = c.chunk) :
    InFlight md5 buffer (c.receive md5 cmd a.encode).chunk (c.receive md5 cmd a.encode).pc reqs rest := by
  obtain ⟨unread, offset, chunk, attempt, pc⟩ := c
  generalize all : a :: rest = answers at h
  generalize here : pc = pc' at h
  cases h with
  | attnAnswered =>
    subst here
    cases all
    cases waiting
    rw [Client.receive_attn md5 rfl]
    exact .nextChunk
  | digestAnswered =>
    subst here
    cases all
    cases waiting
    rw [Client.receive_digest md5 rfl]
    by_cases matched : md5.digest buffer = md5.digest chunk
    · rw [if_pos matched]
      exact .write (free rfl buffer matched)
    · rw [if_neg matched, Client.retry]
      by_cases again : attempt + 1 < 5
      · rw [if_pos again]
        exact .reset Quiet.nil
      · rw [if_neg again]
        exact .raised NoWrite.nil
  | writeAnswered =>
    subst here
    cases all
    cases waiting
    rw [Client.receive_write md5 rfl]
    exact .nextChunk
  | releaseAnswered =>
    subst here
    cases all
    cases waiting
    rw [Client.receive_release md5 rfl]
    exact .done NoWrite.nil
  | done | raised =>
    subst here
    cases waiting
  | attn | attnAsked | attnLost | nextChunk | reset | add | digestAsked | digestLost | write
    | writeAsked | writeLost | release | releaseAsked | releaseLost | raisedAsked => cases all

end InFlight

/-! ## The client's chunk -/

namespace Client

theorem Acts.keeps {c c' : Client} {new : List Request} (acts : c.Acts new c') :
    (∀ chunk ∈ chunks c'.rest, chunk ∈ chunks c.rest) ∧
      (c'.pc.Uploading → c'.chunk ∈ chunks c.rest ∨ c.pc.Uploading ∧ c'.chunk = c.chunk) := by
  cases acts with
  | nextChunk more =>
    dsimp only
    rw [chunks_cons more]
    exact ⟨fun _ member => List.mem_cons_of_mem _ member, fun _ => .inl List.mem_cons_self⟩
  | attn | noChunk | release => exact ⟨fun _ member => member, fun uploading => absurd uploading id⟩
  | reset | add | digest | write | outOfRange =>
    exact ⟨fun _ member => member, fun _ => .inr ⟨trivial, rfl⟩⟩

theorem resume_keeps (md5 : Md5) (c : Client) (ok : Bool) (buffer : List Byte) :
    (c.resume md5 ok buffer).rest = c.rest ∧ (c.resume md5 ok buffer).chunk = c.chunk ∧
      ((c.resume md5 ok buffer).pc.Uploading → c.pc.Uploading) := by
  obtain ⟨rest, offset, chunk, attempt, pc⟩ := c
  cases pc with
  | awaitAttn =>
    cases ok with
    | true | false => exact ⟨rfl, rfl, id⟩
  | awaitDigest =>
    simp only [resume, retry]
    split
    · exact ⟨rfl, rfl, fun _ => trivial⟩
    · split <;> exact ⟨rfl, rfl, fun _ => trivial⟩
  | awaitWrite =>
    simp only [resume, written]
    split
    · exact ⟨rfl, rfl, fun _ => trivial⟩
    · split
      · split <;> exact ⟨rfl, rfl, fun _ => trivial⟩
      · exact ⟨rfl, rfl, fun _ => trivial⟩
  | attn | nextChunk | reset | add | write | release | awaitRelease | done | raised =>
    exact ⟨rfl, rfl, id⟩

theorem receive_keeps (md5 : Md5) (c : Client) (cmd : Word) (d : Datagram) :
    (c.receive md5 cmd d).rest = c.rest ∧ (c.receive md5 cmd d).chunk = c.chunk ∧
      ((c.receive md5 cmd d).pc.Uploading → c.pc.Uploading) := by
  unfold receive
  split
  · exact ⟨rfl, rfl, id⟩
  · split
    · exact ⟨rfl, rfl, id⟩
    · exact c.resume_keeps md5 true _

end Client

/-! ## Runs -/

/-- No other data has the digest of a chunk of the image. -/
def CollisionFree (md5 : Md5) (image : List Byte) : Prop :=
  ∀ chunk ∈ chunks image, ∀ data, md5.digest data = md5.digest chunk → data = chunk

/-- A wait for a digest that will be tried again times out only when neither
the request nor the answer is on its way any more. -/
def Settled (s : System) (a : Action) : Prop :=
  a = .timeout → s.client.pc = .awaitDigest → s.client.attempt + 1 < 5 →
    (∀ d ∈ s.requests, command d ≠ some typeDataDigest) ∧
    ∀ d ∈ s.answers, command d ≠ some (typeDataDigest ||| 1#16)

structure Inv (md5 : Md5) (image : List Byte) (s : System) : Prop where
  flight : ∃ reqs answers, s.requests = reqs.map Request.encode ∧
    s.answers = answers.map Answer.encode ∧
    InFlight md5 s.board.buffer s.client.chunk s.client.pc reqs answers
  unread : ∀ chunk ∈ chunks s.client.rest, chunk ∈ chunks image
  current : s.client.pc.Uploading → s.client.chunk ∈ chunks image

namespace Inv
variable {md5 : Md5} {image : List Byte} {s s' : System}

theorem initial (md5 : Md5) (image : List Byte) : Inv md5 image (System.start image) where
  flight := ⟨[], [], rfl, rfl, .attn⟩
  unread _ member := member
  current uploading := absurd uploading id

theorem client (h : Inv md5 image s) (taken : s.step md5 .client = some s') : Inv md5 image s' := by
  obtain ⟨reqs, answers, requests, same, flight⟩ := h.flight
  obtain ⟨new, c, acts, -, rfl⟩ := System.step_client taken
  have queued : s.requests ++ new.map Request.encode = (reqs ++ new).map Request.encode := by
    rw [requests, List.map_append]
  obtain ⟨unread, current⟩ := acts.keeps
  refine ⟨⟨reqs ++ new, answers, queued, same, flight.act acts⟩, ?_, ?_⟩
  · intro chunk member
    exact h.unread chunk (unread chunk member)
  · intro uploading
    rcases current uploading with next | ⟨before, kept⟩
    · exact h.unread _ next
    · exact kept ▸ h.current before

theorem timeout (h : Inv md5 image s) (settled : Settled s .timeout)
    (taken : s.step md5 .timeout = some s') : Inv md5 image s' := by
  obtain ⟨reqs, answers, requests, same, flight⟩ := h.flight
  obtain ⟨cmd, waiting, rfl⟩ := Option.map_eq_some_iff.mp taken
  obtain ⟨rest, chunk, uploading⟩ := s.client.resume_keeps md5 false []
  have clear : s.client.pc = .awaitDigest → s.client.attempt + 1 < 5 →
      .digest ∉ reqs ∧ ∀ sum whole, .digest sum whole ∉ answers := by
    intro here again
    obtain ⟨unasked, unanswered⟩ := settled rfl here again
    constructor
    · intro member
      exact unasked _ (requests ▸ List.mem_map_of_mem member) Request.digest.command_encode
    · intro sum whole member
      exact unanswered _ (same ▸ List.mem_map_of_mem member) (Answer.digest sum whole).command_encode
  refine ⟨⟨reqs, answers, requests, same, flight.timeout waiting clear⟩, ?_, ?_⟩
  · exact rest ▸ h.unread
  · intro later
    exact chunk ▸ h.current (uploading later)

theorem receive (free : CollisionFree md5 image) (h : Inv md5 image s)
    (taken : s.step md5 .receive = some s') : Inv md5 image s' := by
  obtain ⟨reqs, answers, requests, same, flight⟩ := h.flight
  obtain ⟨cmd, a, rest, rfl, waiting, rfl⟩ := System.step_receive same taken
  obtain ⟨unread, chunk, uploading⟩ := s.client.receive_keeps md5 cmd a.encode
  refine ⟨⟨reqs, rest, requests, rfl, flight.receive waiting ?_⟩, ?_, ?_⟩
  · intro here
    exact free _ (h.current (by rw [here]; trivial))
  · exact unread ▸ h.unread
  · intro later
    exact chunk ▸ h.current (uploading later)

theorem board (h : Inv md5 image s) (taken : s.step md5 .board = some s') : Inv md5 image s' := by
  obtain ⟨reqs, answers, requests, same, flight⟩ := h.flight
  obtain ⟨r, rest, rfl, -, rfl⟩ := System.step_board requests taken
  refine ⟨⟨rest, answers ++ (s.board.handle md5 r).1, rfl, ?_, flight.serve⟩, h.unread, h.current⟩
  rw [same, List.map_append]

theorem loseRequest (h : Inv md5 image s) {i : Nat} (taken : s.step md5 (.loseRequest i) = some s') :
    Inv md5 image s' := by
  obtain ⟨reqs, answers, requests, same, flight⟩ := h.flight
  simp only [System.step] at taken
  split at taken
  · cases taken
    refine ⟨⟨reqs.eraseIdx i, answers, ?_, same, flight.lose_request i⟩, h.unread, h.current⟩
    rw [requests]
    exact List.eraseIdx_map _ _ _
  · cases taken

theorem loseAnswer (h : Inv md5 image s) {i : Nat} (taken : s.step md5 (.loseAnswer i) = some s') :
    Inv md5 image s' := by
  obtain ⟨reqs, answers, requests, same, flight⟩ := h.flight
  simp only [System.step] at taken
  split at taken
  · cases taken
    refine ⟨⟨reqs, answers.eraseIdx i, requests, ?_, flight.lose_answer i⟩, h.unread, h.current⟩
    rw [same]
    exact List.eraseIdx_map _ _ _
  · cases taken

theorem step (free : CollisionFree md5 image) (h : Inv md5 image s) {a : Action} (settled : Settled s a)
    (taken : s.step md5 a = some s') : Inv md5 image s' := by
  cases a with
  | client => exact h.client taken
  | timeout => exact h.timeout settled taken
  | receive => exact h.receive free taken
  | board => exact h.board taken
  | loseRequest i => exact h.loseRequest taken
  | loseAnswer i => exact h.loseAnswer taken

/-- What the board writes is the client's chunk, one of the image's. -/
theorem write_chunk (h : Inv md5 image s) (writes : s.ExecutesWrite) :
    s.board.buffer = s.client.chunk ∧ s.client.chunk ∈ chunks image := by
  obtain ⟨reqs, answers, requests, -, flight⟩ := h.flight
  obtain ⟨-, head⟩ := writes
  rw [requests] at head
  cases reqs with
  | nil => cases head
  | cons r rest =>
    have command := head.symm.trans r.command_encode
    cases r with
    | write offset =>
      obtain ⟨same, uploading⟩ := flight.write_head
      exact ⟨same, h.current uploading⟩
    | add data fits =>
      exact absurd (Option.some.inj command) (show typeDataWrite ≠ typeDataAdd by decide)
    | attn | reset | digest | release => exact absurd (Option.some.inj command) (by decide)

end Inv

/-! ## Parts of a run -/

/-- The requests that add up to `left`. -/
def addRequests (left : List Byte) : List Request :=
  if left.take 512 = [] then []
  else .add (left.take 512) (List.length_take_le 512 left) :: addRequests (left.drop 512)
termination_by left.length
decreasing_by
  rename_i more
  have nonempty : left ≠ [] := by
    rintro rfl
    exact more rfl
  have positive := List.length_pos_of_ne_nil nonempty
  rw [List.length_drop]
  omega

/-- One attempt of `Transfer`. -/
def attemptRequests (chunk : List Byte) : List Request := .reset :: (addRequests chunk ++ [.digest])

theorem attemptRequests_encode (chunk : List Byte) (rest : List Datagram) :
    (attemptRequests chunk).map Request.encode ++ rest =
      Request.reset.encode :: ((addRequests chunk).map Request.encode ++ Request.digest.encode :: rest) := by
  rw [attemptRequests, List.map_cons, List.map_append, List.cons_append, List.append_assoc]
  rfl

section
variable (md5 : Md5) {allowed : System → Action → Prop}

theorem send_adds (may : ∀ s, allowed s .client) (c : Client) (left : List Byte) (b : Board)
    (requests answers : List Datagram) :
    Reach (System.step md5) allowed ⟨{ c with pc := .add left }, b, requests, answers⟩
      ⟨{ c with pc := .awaitDigest }, b,
        requests ++ (addRequests left ++ [Request.digest]).map Request.encode, answers⟩ := by
  fun_induction addRequests left generalizing requests with
  | case1 left done =>
    refine .next .client .start (may _) ?_
    simp only [System.step, Client.act, if_pos done]
    rfl
  | case2 left more ih =>
    have first : System.step md5 .client ⟨{ c with pc := .add left }, b, requests, answers⟩ =
        some ⟨{ c with pc := .add (left.drop 512) }, b,
          requests ++ [pack typeDataAdd 512#32 (left.take 512)], answers⟩ := by
      simp only [System.step, Client.act, if_neg more]
      rfl
    have rest := ih (requests ++ [pack typeDataAdd 512#32 (left.take 512)])
    rw [List.append_assoc] at rest
    exact (Reach.next .client .start (may _) first).trans rest

theorem send_attempt (may : ∀ s, allowed s .client) (c : Client) (here : c.pc = .reset) (b : Board)
    (requests answers : List Datagram) :
    Reach (System.step md5) allowed ⟨c, b, requests, answers⟩ ⟨{ c with pc := .awaitDigest }, b,
      requests ++ (attemptRequests c.chunk).map Request.encode, answers⟩ := by
  have first : System.step md5 .client ⟨c, b, requests, answers⟩ =
      some ⟨{ c with pc := .add c.chunk }, b, requests ++ [pack typeDataReset 0#32 []], answers⟩ := by
    simp only [System.step, Client.act, here]
    rfl
  have rest := send_adds md5 may c c.chunk b (requests ++ [pack typeDataReset 0#32 []]) answers
  rw [List.append_assoc] at rest
  exact (Reach.next .client .start (may _) first).trans rest

theorem serve_request (may : ∀ s, allowed s .board) (c : Client) (b : Board) (running : b.running = true)
    (r : Request) (requests answers : List Datagram) :
    Reach (System.step md5) allowed ⟨c, b, r.encode :: requests, answers⟩
      ⟨c, (b.handle md5 r).2, requests, answers ++ (b.handle md5 r).1.map Answer.encode⟩ := by
  refine .next .board .start (may _) ?_
  simp only [System.step, running, Board.serve_encode]

theorem serve_adds (may : ∀ s, allowed s .board) (c : Client) (left buffer file : List Byte)
    (requests answers : List Datagram) :
    Reach (System.step md5) allowed
      ⟨c, ⟨buffer, file, true⟩, (addRequests left).map Request.encode ++ requests, answers⟩
      ⟨c, ⟨buffer ++ left, file, true⟩, requests, answers⟩ := by
  fun_induction addRequests left generalizing buffer with
  | case1 left done =>
    have empty : left = [] := by
      cases left with
      | nil => rfl
      | cons x left => cases done
    rw [empty, List.append_nil]
    exact .start
  | case2 left more ih =>
    have rest := ih (buffer ++ left.take 512)
    rw [List.append_assoc, List.take_append_drop] at rest
    have first := serve_request md5 may c ⟨buffer, file, true⟩ rfl
      (.add (left.take 512) (List.length_take_le 512 left))
      ((addRequests (left.drop 512)).map Request.encode ++ requests) answers
    simp only [Board.handle, List.map_nil, List.append_nil] at first
    exact first.trans rest

theorem serve_attempt (may : ∀ s, allowed s .board) (c : Client) (chunk buffer file : List Byte)
    (requests answers : List Datagram) :
    Reach (System.step md5) allowed
      ⟨c, ⟨buffer, file, true⟩, (attemptRequests chunk).map Request.encode ++ requests, answers⟩
      ⟨c, ⟨chunk, file, true⟩, requests,
        answers ++ [(Answer.digest (md5.digest chunk) (md5.length_digest _)).encode]⟩ := by
  have cleared := serve_request md5 may c ⟨buffer, file, true⟩ rfl .reset
    ((addRequests chunk).map Request.encode ++ Request.digest.encode :: requests) answers
  have filled := serve_adds md5 may c chunk [] file (Request.digest.encode :: requests) answers
  have asked := serve_request md5 may c ⟨chunk, file, true⟩ rfl .digest requests answers
  simp only [Board.handle, List.map_nil, List.append_nil] at cleared
  rw [attemptRequests_encode]
  exact (cleared.trans filled).trans asked

/-- The client has found the board and read its first chunk. -/
theorem reach_first_chunk (may : ∀ s a, a ≠ .timeout → allowed s a) {image : List Byte}
    (nonempty : image.take 8192 ≠ []) :
    Reach (System.step md5) allowed (System.start image)
      ⟨⟨image.drop 8192, 0, padChunk (image.take 8192), 0, .reset⟩, ⟨[], [], true⟩, [], []⟩ := by
  have asked : System.step md5 .client (System.start image) =
      some ⟨⟨image, 0, [], 0, .awaitAttn⟩, ⟨[], [], true⟩, [Request.attn.encode], []⟩ := rfl
  have served := serve_request md5 (fun s => may s .board (by decide)) ⟨image, 0, [], 0, .awaitAttn⟩
    ⟨[], [], true⟩ rfl .attn [] []
  have answered : System.step md5 .receive
      ⟨⟨image, 0, [], 0, .awaitAttn⟩, ⟨[], [], true⟩, [], [Answer.attn.encode]⟩ =
      some ⟨⟨image, 0, [], 0, .nextChunk⟩, ⟨[], [], true⟩, [], []⟩ := by
    simp only [System.step, Client.awaited, Client.receive_attn]
  have cut : System.step md5 .client ⟨⟨image, 0, [], 0, .nextChunk⟩, ⟨[], [], true⟩, [], []⟩ =
      some ⟨⟨image.drop 8192, 0, padChunk (image.take 8192), 0, .reset⟩, ⟨[], [], true⟩, [], []⟩ := by
    simp only [System.step, Client.act, if_neg nonempty]
    rfl
  have found := (Reach.next .client .start (may _ _ (by decide)) asked).trans served
  have ready := Reach.next .receive found (may _ _ (by decide)) answered
  exact .next .client ready (may _ _ (by decide)) cut

/-- The client takes the digest of its chunk for the answer to whatever it has
asked, and sends `DATA_WRITE`. -/
theorem accept_digest (may : ∀ s a, a ≠ .timeout → allowed s a) (c : Client)
    (here : c.pc = .awaitDigest) (inRange : c.offset < 0x100000000) (b : Board)
    (requests answers : List Datagram) :
    Reach (System.step md5) allowed
      ⟨c, b, requests, (Answer.digest (md5.digest c.chunk) (md5.length_digest _)).encode :: answers⟩
      ⟨{ c with pc := .awaitWrite }, b, requests ++ [(Request.write c.offset).encode], answers⟩ := by
  have taken : System.step md5 .receive
      ⟨c, b, requests, (Answer.digest (md5.digest c.chunk) (md5.length_digest _)).encode :: answers⟩ =
      some ⟨{ c with pc := .write }, b, requests, answers⟩ := by
    simp only [System.step, Client.awaited, here, Client.receive_digest md5 here, ↓reduceIte]
  have sent : System.step md5 .client ⟨{ c with pc := .write }, b, requests, answers⟩ =
      some ⟨{ c with pc := .awaitWrite }, b, requests ++ [(Request.write c.offset).encode], answers⟩ := by
    simp only [System.step, Client.act, if_pos inRange]
    rfl
  have received := Reach.next .receive .start (may _ _ (by decide)) taken
  exact .next .client received (may _ _ (by decide)) sent

/-- A first attempt that goes well. -/
theorem first_write (may : ∀ s a, a ≠ .timeout → allowed s a) {image : List Byte}
    (nonempty : image.take 8192 ≠ []) :
    ∃ s, Reach (System.step md5) allowed (System.start image) s ∧ s.ExecutesWrite := by
  have begun := reach_first_chunk md5 may nonempty
  have sent := send_attempt md5 (fun s => may s .client (by decide))
    ⟨image.drop 8192, 0, padChunk (image.take 8192), 0, .reset⟩ rfl ⟨[], [], true⟩ [] []
  have served := serve_attempt md5 (fun s => may s .board (by decide))
    ⟨image.drop 8192, 0, padChunk (image.take 8192), 0, .awaitDigest⟩ (padChunk (image.take 8192))
    [] [] [] []
  have accepted := accept_digest md5 may
    ⟨image.drop 8192, 0, padChunk (image.take 8192), 0, .awaitDigest⟩ rfl (Nat.zero_lt_succ _)
    ⟨padChunk (image.take 8192), [], true⟩ [] []
  rw [List.append_nil] at served
  exact ⟨_, ((begun.trans sent).trans served).trans accepted, rfl, rfl⟩

/-- The digest of a first attempt comes in after its wait has timed out, and
the `RESET` of the second is lost. -/
theorem stale_digest (may : ∀ s a, allowed s a) {image : List Byte} (nonempty : image.take 8192 ≠ []) :
    ∃ s, Reach (System.step md5) allowed (System.start image) s ∧ s.ExecutesWrite ∧
      s.client.chunk = padChunk (image.take 8192) ∧
      s.board.buffer = padChunk (image.take 8192) ++ padChunk (image.take 8192) := by
  generalize padded : padChunk (image.take 8192) = chunk
  have begun := reach_first_chunk md5 (fun s a _ => may s a) nonempty
  rw [padded] at begun
  have sent (attempt : Nat) (b : Board) (answers : List Datagram) :=
    send_attempt md5 (fun s => may s .client) ⟨image.drop 8192, 0, chunk, attempt, .reset⟩ rfl b []
      answers
  have served := serve_attempt md5 (fun s => may s .board)
    ⟨image.drop 8192, 0, chunk, 0, .awaitDigest⟩ chunk [] [] [] []
  rw [List.append_nil] at served
  have timedOut : System.step md5 .timeout ⟨⟨image.drop 8192, 0, chunk, 0, .awaitDigest⟩,
      ⟨chunk, [], true⟩, [], [] ++ [(Answer.digest (md5.digest chunk) (md5.length_digest _)).encode]⟩ =
      some ⟨⟨image.drop 8192, 0, chunk, 1, .reset⟩, ⟨chunk, [], true⟩, [],
        [(Answer.digest (md5.digest chunk) (md5.length_digest _)).encode]⟩ := by
    simp only [System.step, Client.awaited, Client.resume, if_neg (md5.nil_ne_digest chunk)]
    rfl
  have accepted := accept_digest md5 (fun s a _ => may s a)
    ⟨image.drop 8192, 0, chunk, 1, .awaitDigest⟩ rfl (Nat.zero_lt_succ _) ⟨chunk, [], true⟩
    ([] ++ (attemptRequests chunk).map Request.encode) []
  have lost : System.step md5 (.loseRequest 0) ⟨⟨image.drop 8192, 0, chunk, 1, .awaitWrite⟩,
      ⟨chunk, [], true⟩, [] ++ (attemptRequests chunk).map Request.encode ++ [(Request.write 0).encode],
      []⟩ = some ⟨⟨image.drop 8192, 0, chunk, 1, .awaitWrite⟩, ⟨chunk, [], true⟩,
      (addRequests chunk).map Request.encode ++ [Request.digest.encode, (Request.write 0).encode],
      []⟩ := by
    rw [List.nil_append, attemptRequests_encode]
    rfl
  have added := serve_adds md5 (fun s => may s .board) ⟨image.drop 8192, 0, chunk, 1, .awaitWrite⟩
    chunk chunk [] [Request.digest.encode, (Request.write 0).encode] []
  have asked := serve_request md5 (fun s => may s .board) ⟨image.drop 8192, 0, chunk, 1, .awaitWrite⟩
    ⟨chunk ++ chunk, [], true⟩ rfl .digest [(Request.write 0).encode] []
  have first := (begun.trans (sent 0 _ _)).trans served
  have second := (Reach.next .timeout first (may _ _) timedOut).trans (sent 1 _ _)
  have writing := Reach.next (.loseRequest 0) (second.trans accepted) (may _ _) lost
  exact ⟨_, (writing.trans added).trans asked, ⟨rfl, rfl⟩, rfl, rfl⟩

end

/-! ## Every run -/

/-- In every run whose digest waits time out only when they are settled, what
the board writes is the chunk the client is writing. -/
theorem writes_client_chunk (md5 : Md5) (image : List Byte) (free : CollisionFree md5 image) (s : System)
    (reached : Reach (System.step md5) Settled (System.start image) s) (writes : s.ExecutesWrite) :
    s.board.buffer = s.client.chunk ∧ s.client.chunk ∈ chunks image := by
  have inv : Inv md5 image s := reached.invariant (Inv.initial md5 image)
    fun _ _ _ inv settled taken => inv.step free settled taken
  exact inv.write_chunk writes

/-- A digest that tells one chunk from all other data. -/
def markMd5 (chunk : List Byte) : Md5 where
  digest data := List.replicate 16 (if data = chunk then 1#8 else 0#8)
  length_digest _ := List.length_replicate

theorem markMd5_free {image chunk : List Byte} (only : chunks image = [chunk]) :
    CollisionFree (markMd5 chunk) image := by
  intro x member data same
  rw [only, List.mem_singleton] at member
  subst member
  by_cases equal : data = x
  · exact equal
  · simp only [markMd5, if_neg equal, ↓reduceIte] at same
    exact absurd same (by decide)

theorem take_byte (b : Byte) : [b].take 8192 ≠ [] := List.cons_ne_nil _ _

theorem chunks_byte (b : Byte) : chunks [b] = [padChunk [b]] := by
  have empty : chunks ([b].drop 8192) = [] := by
    rw [chunks]
    exact if_pos rfl
  rw [chunks_cons (take_byte b), empty]
  rfl

/-- An image of one byte is written as it should be, if nothing times out. -/
theorem writes_client_chunk_byte :
    CollisionFree (markMd5 (padChunk [0#8])) [0#8] ∧
    ∃ s, Reach (System.step (markMd5 (padChunk [0#8]))) Settled (System.start [0#8]) s ∧
      s.ExecutesWrite ∧ s.board.buffer = s.client.chunk ∧ s.client.chunk ∈ chunks [0#8] := by
  have free : CollisionFree (markMd5 (padChunk [0#8])) [0#8] := markMd5_free (chunks_byte 0#8)
  have may : ∀ s a, a ≠ Action.timeout → Settled s a := fun _ _ other now => absurd now other
  obtain ⟨s, reached, writes⟩ := first_write (markMd5 (padChunk [0#8])) may (take_byte 0#8)
  exact ⟨free, s, reached, writes, writes_client_chunk _ _ free s reached writes⟩

/-- With a timeout while the answer is on its way, and one datagram lost, the
same image is written twice over. -/
theorem stale_digest_flashed :
    CollisionFree (markMd5 (padChunk [0#8])) [0#8] ∧
    ∃ s, Reach (System.step (markMd5 (padChunk [0#8]))) (fun _ _ => True) (System.start [0#8]) s ∧
      s.ExecutesWrite ∧ s.board.buffer ≠ s.client.chunk := by
  have may : ∀ s a, (fun (_ : System) (_ : Action) => True) s a := fun _ _ => trivial
  obtain ⟨s, reached, writes, chunk, buffer⟩ := stale_digest (markMd5 (padChunk [0#8])) may
    (take_byte 0#8)
  refine ⟨markMd5_free (chunks_byte 0#8), s, reached, writes, fun same => ?_⟩
  rw [buffer, chunk] at same
  exact absurd (List.append_right_eq_self.mp same) (List.cons_ne_nil _ _)

end Bifferboard.Upload
