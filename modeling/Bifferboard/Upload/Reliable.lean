import Mathlib.Algebra.GroupWithZero.Nat
import Bifferboard.Upload.Safety

/-!
# Uploads over a network that keeps its datagrams

If nothing is lost and no wait times out, it does not matter when the board gets
round to its requests: `Board.finish` says what it will have answered, and how it
will stand, when it has served all that is on its way. Seen like that the client
works alone, and `OnTrack` lists where it can be. An upload goes wrong only at a
chunk whose number does not fit in the request.
-/

namespace Bifferboard.Upload
open Nor Transition

/-! ## What is on its way to the board -/

namespace Board

/-- What is answered to requests, and the board after them. It does not serve any
after the release. -/
def finish (md5 : Md5) (b : Board) : List Request → List Answer × Board
  | [] => ([], b)
  | r :: rest =>
    if b.running then
      ((b.handle md5 r).1 ++ (finish md5 (b.handle md5 r).2 rest).1,
        (finish md5 (b.handle md5 r).2 rest).2)
    else ([], b)

variable {md5 : Md5} {b : Board}

theorem finish_stopped (stopped : b.running = false) (reqs : List Request) :
    b.finish md5 reqs = ([], b) := by
  cases reqs with
  | nil => rfl
  | cons r rest => simp [finish, stopped]

theorem finish_cons (running : b.running = true) (r : Request) (rest : List Request) :
    b.finish md5 (r :: rest) = ((b.handle md5 r).1 ++ ((b.handle md5 r).2.finish md5 rest).1,
      ((b.handle md5 r).2.finish md5 rest).2) := by
  simp [finish, running]

theorem finish_append (reqs more : List Request) :
    b.finish md5 (reqs ++ more) =
      ((b.finish md5 reqs).1 ++ ((b.finish md5 reqs).2.finish md5 more).1,
        ((b.finish md5 reqs).2.finish md5 more).2) := by
  induction reqs generalizing b with
  | nil => rfl
  | cons r rest ih =>
    cases running : b.running with
    | true => simp [finish_cons running, ih]
    | false => simp [finish_stopped running]

theorem handle_length (r : Request) : (b.handle md5 r).1.length ≤ 1 := by
  cases r <;> simp [handle]

end Board

/-! ## The conversation -/

/-- The requests for chunks from the first one on. -/
def uploads (parts : List (List Byte)) : List Request :=
  (parts.mapIdx fun k chunk => attemptRequests chunk ++ [.write k]).flatten

theorem uploads_concat (parts : List (List Byte)) (chunk : List Byte) :
    uploads (parts ++ [chunk]) = uploads parts ++ (attemptRequests chunk ++ [.write parts.length]) := by
  simp [uploads]

/-- All that the client sends when all goes well. -/
def conversation (image : List Byte) : List Request :=
  .attn :: uploads (chunks image) ++ [.release]

/-! ## What is left to do -/

/-- How often the client still acts, if each chunk needs one attempt. -/
def Client.toDo (c : Client) : Nat :=
  let later := ((chunks c.rest).map fun chunk => (addRequests chunk).length + 4).sum + 2
  match c.pc with
  | .attn => later + 1
  | .awaitAttn | .nextChunk | .awaitWrite => later
  | .reset => later + (addRequests c.chunk).length + 3
  | .add left => later + (addRequests left).length + 2
  | .awaitDigest | .write => later + 1
  | .release => 1
  | .awaitRelease | .done | .raised _ => 0

theorem Client.Acts.toDo_lt {c c' : Client} {new : List Request} (acts : c.Acts new c') :
    c'.toDo < c.toDo ∧ new.length ≤ 1 := by
  cases acts with
  | nextChunk more =>
    simp only [toDo, chunks_cons more, List.map_cons, List.sum_cons]
    exact ⟨by omega, Nat.zero_le _⟩
  | @add rest offset chunk attempt left more =>
    have next : (addRequests left).length = (addRequests (left.drop 512)).length + 1 := by
      rw [addRequests, if_neg more, List.length_cons]
    simp only [toDo, next]
    exact ⟨by omega, Nat.le_refl _⟩
  | noChunk | outOfRange =>
    simp only [toDo]
    exact ⟨by omega, Nat.zero_le _⟩
  | attn | reset | digest | write | release =>
    simp only [toDo]
    exact ⟨by omega, Nat.le_refl _⟩

/-! ## The client on its own -/

/-- Where the client can be, with what it has sent, the answers that it has not had
yet and the board as it will be. -/
inductive OnTrack (md5 : Md5) (image : List Byte) :
    Client → List Request → List Answer → Board → Prop
  | attn : OnTrack md5 image ⟨image, 0, [], 0, .attn⟩ [] [] ⟨[], [], true⟩
  | awaitAttn : OnTrack md5 image ⟨image, 0, [], 0, .awaitAttn⟩ [.attn] [.attn] ⟨[], [], true⟩
  | nextChunk {past rest chunk buffer} (cut : past ++ chunks rest = chunks image)
      (small : past.length ≤ 0x100000000) :
      OnTrack md5 image ⟨rest, past.length, chunk, 0, .nextChunk⟩ (.attn :: uploads past) []
        ⟨buffer, past.flatten, true⟩
  | reset {past rest chunk buffer} (cut : past ++ chunk :: chunks rest = chunks image) :
      OnTrack md5 image ⟨rest, past.length, chunk, 0, .reset⟩ (.attn :: uploads past) []
        ⟨buffer, past.flatten, true⟩
  | add {past rest front left added}
      (cut : past ++ (front ++ left) :: chunks rest = chunks image)
      (parts : added ++ addRequests left = addRequests (front ++ left)) :
      OnTrack md5 image ⟨rest, past.length, front ++ left, 0, .add left⟩
        (.attn :: uploads past ++ .reset :: added) [] ⟨front, past.flatten, true⟩
  | awaitDigest {past rest chunk} (cut : past ++ chunk :: chunks rest = chunks image) :
      OnTrack md5 image ⟨rest, past.length, chunk, 0, .awaitDigest⟩
        (.attn :: uploads past ++ attemptRequests chunk)
        [.digest (md5.digest chunk) (md5.length_digest _)] ⟨chunk, past.flatten, true⟩
  | write {past rest chunk} (cut : past ++ chunk :: chunks rest = chunks image) :
      OnTrack md5 image ⟨rest, past.length, chunk, 0, .write⟩
        (.attn :: uploads past ++ attemptRequests chunk) [] ⟨chunk, past.flatten, true⟩
  | awaitWrite {past rest chunk} (cut : past ++ chunk :: chunks rest = chunks image)
      (small : past.length < 0x100000000) :
      OnTrack md5 image ⟨rest, past.length, chunk, 0, .awaitWrite⟩
        (.attn :: uploads (past ++ [chunk])) [.write] ⟨chunk, (past ++ [chunk]).flatten, true⟩
  | release {rest offset chunk buffer} (small : (chunks image).length ≤ 0x100000000) :
      OnTrack md5 image ⟨rest, offset, chunk, 0, .release⟩ (.attn :: uploads (chunks image)) []
        ⟨buffer, (chunks image).flatten, true⟩
  | awaitRelease {rest offset chunk buffer} (small : (chunks image).length ≤ 0x100000000) :
      OnTrack md5 image ⟨rest, offset, chunk, 0, .awaitRelease⟩ (conversation image) [.release]
        ⟨buffer, (chunks image).flatten, false⟩
  | done {rest offset chunk buffer} (small : (chunks image).length ≤ 0x100000000) :
      OnTrack md5 image ⟨rest, offset, chunk, 0, .done⟩ (conversation image) []
        ⟨buffer, (chunks image).flatten, false⟩
  | raised {past rest chunk reqs b} (cut : past ++ chunk :: chunks rest = chunks image)
      (large : 0x100000000 ≤ past.length) :
      OnTrack md5 image ⟨rest, past.length, chunk, 0, .raised Client.rangeError⟩ reqs [] b

theorem chunks_nil : chunks [] = [] := by
  rw [chunks, if_pos rfl]

theorem addRequests_nil : addRequests [] = [] := by
  rw [addRequests, if_pos List.take_nil]

namespace OnTrack
variable {md5 : Md5} {image : List Byte} {c c' : Client} {sent : List Request}
  {answers : List Answer} {b : Board}

theorem silent (h : OnTrack md5 image c sent answers b) : OnTrack md5 image c (sent ++ [])
    (answers ++ (b.finish md5 []).1) (b.finish md5 []).2 := by
  rw [List.append_nil, Board.finish, List.append_nil]
  exact h

theorem act (h : OnTrack md5 image c sent answers b) {new : List Request} (acts : c.Acts new c') :
    OnTrack md5 image c' (sent ++ new) (answers ++ (b.finish md5 new).1) (b.finish md5 new).2 := by
  cases h with
  | attn =>
    cases acts
    exact .awaitAttn
  | @nextChunk past rest chunk buffer cut small =>
    cases acts with
    | nextChunk more =>
      rw [chunks_cons more] at cut
      exact silent (.reset cut)
    | noChunk =>
      rw [chunks_nil, List.append_nil] at cut
      subst cut
      exact silent (.release small)
  | @reset past rest chunk buffer cut =>
    cases acts
    exact @add md5 image past rest [] chunk [] cut rfl
  | @add past rest front left added cut parts =>
    cases acts with
    | digest =>
      rw [addRequests_nil, List.append_nil, List.append_nil] at parts
      subst parts
      rw [List.append_nil] at cut ⊢
      rw [List.append_assoc]
      exact .awaitDigest cut
    | add more =>
      rw [addRequests, if_neg more, List.append_cons] at parts
      have split : front ++ left = front ++ left.take 512 ++ left.drop 512 := by
        rw [List.append_assoc, List.take_append_drop]
      rw [split] at cut parts ⊢
      rw [List.append_assoc (.attn :: uploads past)]
      exact .add cut parts
  | @write past rest chunk cut =>
    cases acts with
    | write inRange =>
      have asked : OnTrack md5 image _ _ _ _ := .awaitWrite cut inRange
      rw [uploads_concat, List.flatten_append, List.flatten_singleton, ← List.append_assoc] at asked
      exact asked
    | outOfRange large => exact silent (.raised cut large)
  | release small =>
    cases acts
    exact .awaitRelease small
  | awaitAttn | awaitDigest | awaitWrite | awaitRelease | done | raised => cases acts

/-- The answer that the client waits for takes it on. -/
theorem receive {cmd : Word} {a : Answer} (waiting : c.awaited = some cmd)
    (h : OnTrack md5 image c sent (a :: answers) b) :
    OnTrack md5 image (c.receive md5 cmd a.encode) sent answers b ∧
      (c.receive md5 cmd a.encode).toDo = c.toDo := by
  generalize all : a :: answers = expected at h
  cases h with
  | awaitAttn =>
    cases all
    cases waiting
    rw [Client.receive_attn md5 rfl]
    exact ⟨@nextChunk md5 image [] image [] [] rfl (Nat.zero_le _), rfl⟩
  | awaitDigest cut =>
    cases all
    cases waiting
    rw [Client.receive_digest md5 rfl, if_pos rfl]
    exact ⟨.write cut, rfl⟩
  | @awaitWrite past rest chunk cut small =>
    cases all
    cases waiting
    rw [Client.receive_write md5 rfl]
    have length : (past ++ [chunk]).length = past.length + 1 := List.length_append
    rw [← length]
    rw [List.append_cons] at cut
    exact ⟨.nextChunk cut (length ▸ small), rfl⟩
  | awaitRelease small =>
    cases all
    cases waiting
    rw [Client.receive_release md5 rfl]
    exact ⟨.done small, rfl⟩
  | attn | nextChunk | reset | add | write | release | done | raised => cases all

/-- There are no second attempts, and only one way to fail. -/
theorem first_attempt (h : OnTrack md5 image c sent answers b) : c.attempt = 0 ∧
    ∀ text, c.pc = .raised text → 0x100000000 < (chunks image).length := by
  cases h with
  | raised cut large =>
    refine ⟨rfl, fun _ _ => ?_⟩
    rw [← cut, List.length_append, List.length_cons]
    omega
  | attn | awaitAttn | nextChunk | reset | add | awaitDigest | write | awaitWrite | release
    | awaitRelease | done => exact ⟨rfl, fun _ failed => by cases failed⟩

/-- Unless the client has come to an end it can go on, if only with an answer. -/
theorem progress (h : OnTrack md5 image c sent answers b) (idle : c.act = none)
    (unanswered : c.awaited ≠ none → answers = []) :
    (c.pc = .done ∧ sent = conversation image ∧ b.file = (chunks image).flatten ∧
      (chunks image).length ≤ 0x100000000) ∨
    c.pc = .raised Client.rangeError := by
  cases h with
  | done small => exact .inl ⟨rfl, rfl, rfl, small⟩
  | raised => exact .inr rfl
  | awaitAttn | awaitDigest | awaitWrite | awaitRelease => cases unanswered (Option.some_ne_none _)
  | nextChunk | add | write =>
    simp only [Client.act] at idle
    split at idle <;> cases idle
  | attn | reset | release => cases idle

end OnTrack

/-! ## Runs -/

/-- Nothing is lost and nothing times out. -/
def Action.Reliable : Action → Prop
  | .client | .receive | .board => True
  | .timeout | .loseRequest _ | .loseAnswer _ => False

/-- The system, and all that the client has sent. -/
structure Recorded where
  system : System
  sent : List Datagram

namespace Recorded

def start (image : List Byte) : Recorded := ⟨System.start image, []⟩

/-- What the client sends in a step. -/
def emitted (a : Action) (s : System) : List Datagram :=
  match a with
  | .client => (s.client.act.map Prod.fst).getD []
  | _ => []

def step (md5 : Md5) (a : Action) (x : Recorded) : Option Recorded :=
  (x.system.step md5 a).map fun s => ⟨s, x.sent ++ emitted a x.system⟩

/-- A request costs the board a step and may cost the client one. -/
def toDo (x : Recorded) : Nat :=
  3 * x.system.client.toDo + 2 * x.system.requests.length + x.system.answers.length

/-- The client is on its track, once the board has served what is on its way. -/
def Follows (md5 : Md5) (image : List Byte) (x : Recorded) : Prop :=
  ∃ (sent pending : List Request) (answers : List Answer),
    x.sent = sent.map Request.encode ∧ x.system.requests = pending.map Request.encode ∧
    x.system.answers = answers.map Answer.encode ∧
    OnTrack md5 image x.system.client sent (answers ++ (x.system.board.finish md5 pending).1)
      (x.system.board.finish md5 pending).2

namespace Follows
variable {md5 : Md5} {image : List Byte} {x x' : Recorded}

theorem initial (md5 : Md5) (image : List Byte) : Follows md5 image (start image) :=
  ⟨[], [], [], rfl, rfl, rfl, .attn⟩

theorem client (h : Follows md5 image x) (taken : x.step md5 .client = some x') :
    Follows md5 image x' ∧ x'.toDo < x.toDo := by
  obtain ⟨sent, pending, answers, log, requests, same, track⟩ := h
  obtain ⟨s, stepped, rfl⟩ := Option.map_eq_some_iff.mp taken
  obtain ⟨reqs, c, acts, acted, rfl⟩ := System.step_client stepped
  obtain ⟨less, single⟩ := acts.toDo_lt
  constructor
  · refine ⟨sent ++ reqs, pending ++ reqs, answers, ?_, ?_, same, ?_⟩
    · simp [emitted, acted, log]
    · simp [requests]
    · rw [Board.finish_append, ← List.append_assoc]
      exact track.act acts
  · simp only [toDo, List.length_append, List.length_map]
    omega

theorem board (h : Follows md5 image x) (taken : x.step md5 .board = some x') :
    Follows md5 image x' ∧ x'.toDo < x.toDo := by
  obtain ⟨sent, pending, answers, log, requests, same, track⟩ := h
  obtain ⟨s, stepped, rfl⟩ := Option.map_eq_some_iff.mp taken
  obtain ⟨r, rest, rfl, running, rfl⟩ := System.step_board requests stepped
  have short : (x.system.board.handle md5 r).1.length ≤ 1 := Board.handle_length r
  constructor
  · refine ⟨sent, rest, answers ++ (x.system.board.handle md5 r).1, ?_, rfl, ?_, ?_⟩
    · simp [emitted, log]
    · simp [same]
    · rw [Board.finish_cons running, ← List.append_assoc] at track
      exact track
  · simp only [toDo, requests, List.map_cons, List.length_cons, List.length_append, List.length_map]
    omega

theorem receive (h : Follows md5 image x) (taken : x.step md5 .receive = some x') :
    Follows md5 image x' ∧ x'.toDo < x.toDo := by
  obtain ⟨sent, pending, answers, log, requests, same, track⟩ := h
  obtain ⟨s, stepped, rfl⟩ := Option.map_eq_some_iff.mp taken
  obtain ⟨cmd, a, rest, rfl, waiting, rfl⟩ := System.step_receive same stepped
  obtain ⟨track', unchanged⟩ := track.receive waiting
  constructor
  · refine ⟨sent, pending, rest, ?_, requests, rfl, track'⟩
    simp [emitted, log]
  · simp only [toDo, unchanged, same, List.map_cons, List.length_cons]
    omega

/-- What a run of the network that loses nothing keeps, and that it comes to an end. -/
theorem step {a : Action} (h : Follows md5 image x) (reliable : a.Reliable)
    (taken : x.step md5 a = some x') : Follows md5 image x' ∧ x'.toDo < x.toDo := by
  cases a with
  | client => exact h.client taken
  | receive => exact h.receive taken
  | board => exact h.board taken
  | timeout | loseRequest | loseAnswer => exact absurd reliable id

theorem first_attempt (h : Follows md5 image x) : x.system.client.attempt = 0 ∧
    ∀ text, x.system.client.pc = .raised text → 0x100000000 < (chunks image).length := by
  obtain ⟨_, _, _, -, -, -, track⟩ := h
  exact track.first_attempt

/-- Where nothing more can be done, the client has come to an end. -/
theorem stuck (h : Follows md5 image x) (stuck : Stuck (Recorded.step md5) (fun _ a => a.Reliable) x) :
    (x.system.client.pc = .done ∧ x.sent = (conversation image).map Request.encode ∧
      x.system.board.file = (chunks image).flatten ∧ (chunks image).length ≤ 0x100000000) ∨
    x.system.client.pc = .raised Client.rangeError := by
  obtain ⟨sent, pending, answers, log, requests, same, track⟩ := h
  have idle : x.system.client.act = none := by
    have none := stuck .client trivial
    simpa [Recorded.step, System.step] using none
  have served : x.system.board.finish md5 pending = ([], x.system.board) := by
    have none := stuck .board trivial
    cases pending with
    | nil => rfl
    | cons r rest =>
      apply Board.finish_stopped
      cases running : x.system.board.running with
      | false => rfl
      | true => simp [Recorded.step, System.step, running, requests] at none
  rw [served, List.append_nil] at track
  have unanswered : x.system.client.awaited ≠ none → answers = [] := by
    intro waiting
    obtain ⟨cmd, awaited⟩ := Option.ne_none_iff_exists.mp waiting
    have none := stuck .receive trivial
    cases answers with
    | nil => rfl
    | cons a rest => simp [Recorded.step, System.step, ← awaited, same] at none
  rcases track.progress idle unanswered with ⟨ended, all, file, small⟩ | failed
  · exact .inl ⟨ended, by rw [log, all], file, small⟩
  · exact .inr failed

end Follows

/-- Some run comes to an end. -/
theorem exists_end (md5 : Md5) (image : List Byte) :
    ∃ x, Reach (step md5) (fun _ a => a.Reliable) (start image) x ∧
      Stuck (step md5) (fun _ a => a.Reliable) x :=
  exists_stuck (Follows.initial md5 image) fun _ _ _ follows reliable taken =>
    follows.step reliable taken

end Recorded

/-! ## The writes -/

/-- The requests to write among some requests. -/
def writes (reqs : List Request) : List Datagram :=
  (reqs.map Request.encode).filter fun d => command d = some typeDataWrite

theorem writes_append (reqs more : List Request) :
    writes (reqs ++ more) = writes reqs ++ writes more := by
  simp [writes]

theorem NoWrite.writes_eq {reqs : List Request} (h : NoWrite reqs) : writes reqs = [] := by
  rw [writes, List.filter_eq_nil_iff, List.forall_mem_map]
  intro r member
  rw [r.command_encode]
  cases r with
  | write offset => exact absurd trivial (h _ member)
  | attn | reset | digest | release => decide
  | add data fits => exact of_decide_eq_false rfl

theorem addRequests_quiet (left : List Byte) : Quiet (addRequests left) := by
  fun_induction addRequests left with
  | case1 => exact Quiet.nil
  | case2 left more ih => exact List.forall_mem_cons.mpr ⟨trivial, ih⟩

theorem attemptRequests_noWrite (chunk : List Byte) : NoWrite (attemptRequests chunk) := by
  have asked : NoWrite (addRequests chunk ++ [.digest]) := (addRequests_quiet chunk).noWrite.concat id
  exact List.forall_mem_cons.mpr ⟨id, asked⟩

theorem writes_uploads (parts : List (List Byte)) :
    writes (uploads parts) = (List.range parts.length).map fun k => (Request.write k).encode := by
  induction parts using List.reverseRecOn with
  | nil => rfl
  | append_singleton parts chunk ih =>
    have last : writes [.write parts.length] = [(Request.write parts.length).encode] := by
      simp [writes, Request.command_encode, Request.command]
    rw [uploads_concat, writes_append, writes_append, (attemptRequests_noWrite chunk).writes_eq, ih,
      last, List.length_append, List.length_singleton, List.range_succ, List.map_append]
    rfl

theorem writes_conversation (image : List Byte) : writes (conversation image) =
    (List.range (chunks image).length).map fun k => (Request.write k).encode := by
  have attn : writes [.attn] = [] := (NoWrite.nil.concat (r := .attn) id).writes_eq
  have release : writes [.release] = [] := (NoWrite.nil.concat (r := .release) id).writes_eq
  rw [conversation, writes_append, release, List.append_nil, ← List.singleton_append, writes_append,
    attn, List.nil_append, writes_uploads]

/-! ## Every run -/

/-- If no datagram is lost and no answer comes too late, an upload ends, and it ends
with the image in the file of the board, written chunk by chunk at the first attempt. -/
theorem reliable_upload_exact (md5 : Md5) (image : List Byte)
    (fits : (chunks image).length ≤ 0x100000000) :
    ∃ bound, ∀ n x, Steps (Recorded.step md5) (fun _ a => a.Reliable) (Recorded.start image) n x →
      n ≤ bound ∧ (∀ text, x.system.client.pc ≠ .raised text) ∧ x.system.client.attempt = 0 ∧
      (Stuck (Recorded.step md5) (fun _ a => a.Reliable) x →
        x.system.client.pc = .done ∧ x.sent = (conversation image).map Request.encode ∧
        x.sent.filter (fun d => command d = some typeDataWrite) =
          (List.range (chunks image).length).map (fun k => pack typeDataWrite (BitVec.ofNat 32 k) []) ∧
        x.system.board.file = image ++ List.replicate (padding image) 0xff#8) := by
  refine ⟨(Recorded.start image).toDo, ?_⟩
  intro n x steps
  obtain ⟨follows, bound⟩ := steps.bounded (Recorded.Follows.initial md5 image)
    fun _ _ _ follows reliable taken => follows.step reliable taken
  obtain ⟨first, fails⟩ := follows.first_attempt
  have kept : ∀ text, x.system.client.pc ≠ .raised text := by
    intro text failed
    exact absurd (fails text failed) (Nat.not_lt_of_le fits)
  refine ⟨by omega, kept, first, ?_⟩
  · intro stuck
    rcases follows.stuck stuck with ⟨ended, sent, file, -⟩ | failed
    · refine ⟨ended, sent, ?_, ?_⟩
      · rw [sent]
        exact writes_conversation image
      · rw [file, chunks_flatten]
    · exact absurd failed (kept _)

/-- An image of one byte ends up in the file with its filling. -/
theorem reliable_upload_exact_byte :
    (chunks [0#8]).length ≤ 0x100000000 ∧
    ∃ x, Reach (Recorded.step (markMd5 [])) (fun _ a => a.Reliable) (Recorded.start [0#8]) x ∧
      x.system.client.pc = .done ∧
      x.sent.filter (fun d => command d = some typeDataWrite) = [pack typeDataWrite 0#32 []] ∧
      x.system.board.file = [0#8] ++ List.replicate 8191 0xff#8 := by
  have one : (chunks [0#8]).length = 1 := by rw [chunks_byte, List.length_singleton]
  have fits : (chunks [0#8]).length ≤ 0x100000000 := by
    rw [one]
    decide
  obtain ⟨bound, all⟩ := reliable_upload_exact (markMd5 []) [0#8] fits
  obtain ⟨x, reached, stuck⟩ := Recorded.exists_end (markMd5 []) [0#8]
  obtain ⟨n, steps⟩ := reached.steps
  obtain ⟨-, -, -, ends⟩ := all n x steps
  obtain ⟨ended, -, written, file⟩ := ends stuck
  rw [one] at written
  exact ⟨fits, x, reached, ended, written, file⟩

/-- An image that is larger by a byte than there are numbers for its chunks. -/
theorem too_large_raises : ∃ (image : List Byte) (x : Recorded),
    image.length = 8192 * 0x100000000 + 1 ∧
    Reach (Recorded.step (markMd5 [])) (fun _ a => a.Reliable) (Recorded.start image) x ∧
    x.system.client.pc = .raised Client.rangeError := by
  obtain ⟨image, length⟩ : ∃ image : List Byte, image.length = 8192 * 0x100000000 + 1 :=
    ⟨List.replicate _ 0#8, List.length_replicate⟩
  have large : 0x100000000 < (chunks image).length := by
    have count := chunks_length image
    omega
  obtain ⟨x, reached, stuck⟩ := Recorded.exists_end (markMd5 []) image
  have follows : Recorded.Follows (markMd5 []) image x :=
    reached.invariant (Recorded.Follows.initial _ _) fun _ _ _ follows reliable taken =>
      (follows.step reliable taken).1
  rcases follows.stuck stuck with ⟨-, -, -, small⟩ | failed
  · exact absurd small (Nat.not_le_of_lt large)
  · exact ⟨image, x, length, reached, failed⟩

end Bifferboard.Upload
