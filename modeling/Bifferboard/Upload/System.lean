import Bifferboard.Upload.Chunks
import Bifferboard.Upload.Packet
import Bifferboard.Transition.Reach

/-!
# The UDP uploader and the board

The client is `Run` of `bb_udp_upload.py` with `UploadBinary`, `Transfer`,
`Send` and `Receive`, stopped before every datagram it sends and wherever it
waits for one. The board is `Serve` of `bb_fake_udp_server.py`. Between them
are two queues that may lose datagrams and hold them back, but neither repeat
nor reorder them. A wait may time out at any moment.
-/

namespace Bifferboard.Upload
open Nor

/-! ## The client -/

/-- Where the client is. -/
inductive Pc where
  | attn
  | awaitAttn
  /-- At the top of the loop of `UploadBinary`. -/
  | nextChunk
  | reset
  /-- In `Transfer`, with `left` to send of the chunk. -/
  | add (left : List Byte)
  | awaitDigest
  | write
  | awaitWrite
  | release
  | awaitRelease
  | done
  | raised (text : String)
  deriving DecidableEq, Repr

structure Client where
  /-- What is left to read of the image. -/
  rest : List Byte
  offset : Nat
  chunk : List Byte
  /-- The attempts made before this one. -/
  attempt : Nat
  pc : Pc

namespace Client

/-- The command whose answer the client waits for. -/
def awaited (c : Client) : Option Word :=
  match c.pc with
  | .awaitAttn => some typeAttn
  | .awaitDigest => some typeDataDigest
  | .awaitWrite => some typeDataWrite
  | .awaitRelease => some typeRelease
  | _ => none

/-- What `struct.pack` raises for a number that does not fit in four bytes. -/
def rangeError : String := "'L' format requires 0 <= number <= 4294967295"

/-- What the client does next where it does not wait: the datagram it sends, if
any, and where that takes it. -/
def act (c : Client) : Option (List Datagram × Client) :=
  match c.pc with
  | .attn => some ([pack typeAttn 0#32 []], { c with pc := .awaitAttn })
  | .nextChunk =>
    if c.rest.take 8192 = [] then some ([], { c with pc := .release })
    else some ([], { c with rest := c.rest.drop 8192, chunk := padChunk (c.rest.take 8192),
                            attempt := 0, pc := .reset })
  | .reset => some ([pack typeDataReset 0#32 []], { c with pc := .add c.chunk })
  | .add left =>
    if left.take 512 = [] then some ([pack typeDataDigest 0#32 []], { c with pc := .awaitDigest })
    else some ([pack typeDataAdd 512#32 (left.take 512)], { c with pc := .add (left.drop 512) })
  | .write =>
    if c.offset < 0x100000000 then
      some ([pack typeDataWrite (BitVec.ofNat 32 c.offset) []], { c with pc := .awaitWrite })
    else some ([], { c with pc := .raised rangeError })
  | .release => some ([pack typeRelease 0#32 []], { c with pc := .awaitRelease })
  | _ => none

/-- `Transfer` has failed. -/
def retry (c : Client) : Client :=
  if c.attempt + 1 < 5 then { c with attempt := c.attempt + 1, pc := .reset }
  else { c with pc := .raised ("Unable to transfer chunk " ++ toString c.offset ++ " (digest error).") }

/-- What `UploadBinary` makes of the answer to `DATA_WRITE`. -/
def written (c : Client) (ok : Bool) (err : List Byte) : Client :=
  if ok = false then
    { c with pc := .raised ("No response to write request at " ++ toString c.offset) }
  else match err with
  | [err] =>
    if err ≠ 0#8 then
      { c with pc := .raised ("Error " ++ toString err.toInt ++ " writing data at "
          ++ toString c.offset) }
    else { c with offset := c.offset + 1, pc := .nextChunk }
  | _ => { c with pc := .raised "unpack requires a string argument of length 1" }

/-- What the client makes of the result of `Send`, in the call it waits in. -/
def resume (md5 : Md5) (c : Client) (ok : Bool) (buffer : List Byte) : Client :=
  match c.pc with
  | .awaitAttn => { c with pc := if ok then .nextChunk else .done }
  | .awaitDigest => if buffer = md5.digest c.chunk then { c with pc := .write } else c.retry
  | .awaitWrite => c.written ok buffer
  | .awaitRelease => { c with pc := .done }
  | _ => c

/-- One round of the loop of `Receive`. A datagram that is too short, or is not
the answer to the command, is dropped and the wait goes on. -/
def receive (md5 : Md5) (c : Client) (cmd : Word) (d : Datagram) : Client :=
  match unpack (recvfrom d) with
  | none => c
  | some (val, arg, buffer) =>
    if val ≠ cmd ||| 1#16 then c else c.resume md5 true (buffer.take arg.toNat)

end Client

/-! ## The board -/

structure Board where
  buffer : List Byte
  /-- What has been written to the flash file. -/
  file : List Byte
  running : Bool

/-- One round of `Serve`: the answer, if there is one. -/
def Board.serve (md5 : Md5) (b : Board) (d : Datagram) : List Datagram × Board :=
  match unpack (recvfrom d) with
  | none => ([], { b with running := false })
  | some (cmd, arg, data) =>
    if cmd = typeAttn then ([pack (cmd + 1#16) arg []], b)
    else if cmd = typeRelease then ([pack (cmd + 1#16) arg []], { b with running := false })
    else if cmd = typeDataReset then ([], { b with buffer := [] })
    else if cmd = typeDataAdd then ([], { b with buffer := b.buffer ++ data })
    else if cmd = typeDataDigest then
      ([pack (cmd + 1#16) (BitVec.ofNat 32 (md5.digest b.buffer).length) (md5.digest b.buffer)], b)
    else if cmd = typeDataWrite then
      ([pack (cmd + 1#16) 1#32 [0#8]], { b with file := b.file ++ b.buffer })
    else if cmd = typeEraseSector then ([pack (cmd + 1#16) 0#32 []], b)
    else ([], b)

/-! ## Both, and the network -/

structure System where
  client : Client
  board : Board
  /-- On their way to the board, the oldest first. -/
  requests : List Datagram
  /-- On their way to the client, or waiting in its socket. -/
  answers : List Datagram

inductive Action where
  | client
  | timeout
  | receive
  | board
  | loseRequest (i : Nat)
  | loseAnswer (i : Nat)
  deriving DecidableEq, Repr

namespace System

def start (image : List Byte) : System where
  client := ⟨image, 0, [], 0, .attn⟩
  board := ⟨[], [], true⟩
  requests := []
  answers := []

/-- What an action does, if it can be taken. -/
def step (md5 : Md5) (a : Action) (s : System) : Option System :=
  match a with
  | .client => s.client.act.map fun next =>
      { s with client := next.2, requests := s.requests ++ next.1 }
  | .timeout => s.client.awaited.map fun _ => { s with client := s.client.resume md5 false [] }
  | .receive =>
    match s.client.awaited, s.answers with
    | some cmd, d :: rest => some { s with client := s.client.receive md5 cmd d, answers := rest }
    | _, _ => none
  | .board =>
    match s.board.running, s.requests with
    | true, d :: rest =>
      let served := s.board.serve md5 d
      some { s with board := served.2, requests := rest, answers := s.answers ++ served.1 }
    | _, _ => none
  | .loseRequest i =>
    if i < s.requests.length then some { s with requests := s.requests.eraseIdx i } else none
  | .loseAnswer i =>
    if i < s.answers.length then some { s with answers := s.answers.eraseIdx i } else none

/-- The board is about to execute `DATA_WRITE`. -/
def ExecutesWrite (s : System) : Prop :=
  s.board.running = true ∧ s.requests.head?.bind command = some typeDataWrite

end System

/-! ## The parties by message -/

/-- `serve` on what the client sends. -/
def Board.handle (md5 : Md5) (b : Board) : Request → List Answer × Board
  | .attn => ([.attn], b)
  | .reset => ([], { b with buffer := [] })
  | .add data _ => ([], { b with buffer := b.buffer ++ data })
  | .digest => ([.digest (md5.digest b.buffer) (md5.length_digest _)], b)
  | .write _ => ([.write], { b with file := b.file ++ b.buffer })
  | .release => ([.release], { b with running := false })

theorem Board.serve_encode (md5 : Md5) (b : Board) (r : Request) :
    b.serve md5 r.encode = ((b.handle md5 r).1.map Answer.encode, (b.handle md5 r).2) := by
  cases r with
  | add data fits =>
    simp only [serve, Request.encode, unpack_pack _ _ data (Nat.le_trans fits (by decide))]
    rfl
  | digest =>
    simp only [serve, Request.encode, unpack_pack _ _ [] (Nat.zero_le _), md5.length_digest]
    rfl
  | attn | reset | write | release =>
    simp only [serve, Request.encode, unpack_pack _ _ [] (Nat.zero_le _)]
    rfl

/-- What the client can do where it does not wait, and the requests it sends. -/
inductive Client.Acts : Client → List Request → Client → Prop
  | attn {rest offset chunk attempt} :
      Acts ⟨rest, offset, chunk, attempt, .attn⟩ [.attn] ⟨rest, offset, chunk, attempt, .awaitAttn⟩
  | nextChunk {rest offset chunk attempt} (more : rest.take 8192 ≠ []) :
      Acts ⟨rest, offset, chunk, attempt, .nextChunk⟩ []
        ⟨rest.drop 8192, offset, padChunk (rest.take 8192), 0, .reset⟩
  | noChunk {offset chunk attempt} :
      Acts ⟨[], offset, chunk, attempt, .nextChunk⟩ [] ⟨[], offset, chunk, attempt, .release⟩
  | reset {rest offset chunk attempt} :
      Acts ⟨rest, offset, chunk, attempt, .reset⟩ [.reset] ⟨rest, offset, chunk, attempt, .add chunk⟩
  | add {rest offset chunk attempt left} (more : left.take 512 ≠ []) :
      Acts ⟨rest, offset, chunk, attempt, .add left⟩
        [.add (left.take 512) (List.length_take_le 512 left)]
        ⟨rest, offset, chunk, attempt, .add (left.drop 512)⟩
  | digest {rest offset chunk attempt} :
      Acts ⟨rest, offset, chunk, attempt, .add []⟩ [.digest]
        ⟨rest, offset, chunk, attempt, .awaitDigest⟩
  | write {rest offset chunk attempt} (inRange : offset < 0x100000000) :
      Acts ⟨rest, offset, chunk, attempt, .write⟩ [.write offset]
        ⟨rest, offset, chunk, attempt, .awaitWrite⟩
  | outOfRange {rest offset chunk attempt} (large : 0x100000000 ≤ offset) :
      Acts ⟨rest, offset, chunk, attempt, .write⟩ []
        ⟨rest, offset, chunk, attempt, .raised Client.rangeError⟩
  | release {rest offset chunk attempt} :
      Acts ⟨rest, offset, chunk, attempt, .release⟩ [.release]
        ⟨rest, offset, chunk, attempt, .awaitRelease⟩

theorem take_eq_nil {xs : List Byte} {n : Nat} (positive : 0 < n) (empty : xs.take n = []) :
    xs = [] := by
  rcases List.take_eq_nil_iff.mp empty with zero | nil
  · omega
  · exact nil

theorem Client.act_acts {c c' : Client} {new : List Datagram} (acted : c.act = some (new, c')) :
    ∃ reqs : List Request, new = reqs.map Request.encode ∧ c.Acts reqs c' := by
  obtain ⟨rest, offset, chunk, attempt, pc⟩ := c
  cases pc with
  | attn =>
    cases acted
    exact ⟨[.attn], rfl, .attn⟩
  | nextChunk =>
    simp only [act] at acted
    split at acted
    · rename_i empty
      cases acted
      cases take_eq_nil (by decide) empty
      exact ⟨[], rfl, .noChunk⟩
    · rename_i more
      cases acted
      exact ⟨[], rfl, .nextChunk more⟩
  | reset =>
    cases acted
    exact ⟨[.reset], rfl, .reset⟩
  | add left =>
    simp only [act] at acted
    split at acted
    · rename_i empty
      cases acted
      cases take_eq_nil (by decide) empty
      exact ⟨[.digest], rfl, .digest⟩
    · rename_i more
      cases acted
      exact ⟨[.add (left.take 512) (List.length_take_le 512 left)], rfl, .add more⟩
  | write =>
    simp only [act] at acted
    split at acted
    · rename_i inRange
      cases acted
      exact ⟨[.write offset], rfl, .write inRange⟩
    · rename_i large
      cases acted
      exact ⟨[], rfl, .outOfRange (Nat.le_of_not_lt large)⟩
  | release =>
    cases acted
    exact ⟨[.release], rfl, .release⟩
  | awaitAttn | awaitDigest | awaitWrite | awaitRelease | done | raised => cases acted

namespace Client
variable (md5 : Md5) {c : Client}

theorem receive_pack (c : Client) (cmd : Word) (arg : Dword) (data : List Byte)
    (short : data.length ≤ 994) :
    c.receive md5 cmd (pack (cmd ||| 1#16) arg data) = c.resume md5 true (data.take arg.toNat) := by
  simp only [receive, unpack_pack _ _ _ short, ne_eq, not_true_eq_false, ↓reduceIte]

theorem receive_attn (here : c.pc = .awaitAttn) :
    c.receive md5 typeAttn Answer.attn.encode = { c with pc := .nextChunk } := by
  rw [Answer.encode, receive_pack md5 c _ _ [] (Nat.zero_le _), resume, here]
  rfl

theorem receive_digest (here : c.pc = .awaitDigest) (sum : List Byte) (whole : sum.length = 16) :
    c.receive md5 typeDataDigest (Answer.digest sum whole).encode =
      if sum = md5.digest c.chunk then { c with pc := .write } else c.retry := by
  have taken : sum.take (16#32).toNat = sum := List.take_of_length_le (Nat.le_of_eq whole)
  rw [Answer.encode, receive_pack md5 c _ _ sum (by rw [whole]; decide), resume, here, taken]

theorem receive_write (here : c.pc = .awaitWrite) :
    c.receive md5 typeDataWrite Answer.write.encode =
      { c with offset := c.offset + 1, pc := .nextChunk } := by
  rw [Answer.encode, receive_pack md5 c _ _ [0#8] (by decide), resume, here]
  rfl

theorem receive_release (here : c.pc = .awaitRelease) :
    c.receive md5 typeRelease Answer.release.encode = { c with pc := .done } := by
  rw [Answer.encode, receive_pack md5 c _ _ [] (Nat.zero_le _), resume, here]

end Client

/-! ## The steps by message -/

namespace System
variable {md5 : Md5} {s s' : System}

theorem step_client (taken : s.step md5 .client = some s') : ∃ (reqs : List Request) (c : Client),
    s.client.Acts reqs c ∧ s.client.act = some (reqs.map Request.encode, c) ∧
      s' = { s with client := c, requests := s.requests ++ reqs.map Request.encode } := by
  obtain ⟨⟨new, c⟩, acted, rfl⟩ := Option.map_eq_some_iff.mp taken
  obtain ⟨reqs, rfl, acts⟩ := Client.act_acts acted
  exact ⟨reqs, c, acts, acted, rfl⟩

theorem step_receive {answers : List Answer} (same : s.answers = answers.map Answer.encode)
    (taken : s.step md5 .receive = some s') : ∃ (cmd : Word) (a : Answer) (rest : List Answer),
    answers = a :: rest ∧ s.client.awaited = some cmd ∧
      s' = { s with client := s.client.receive md5 cmd a.encode,
                    answers := rest.map Answer.encode } := by
  cases answers with
  | nil => simp [step, same] at taken
  | cons a rest =>
    cases waiting : s.client.awaited with
    | none => simp [step, waiting] at taken
    | some cmd =>
      simp only [step, waiting, same, List.map_cons] at taken
      cases taken
      exact ⟨cmd, a, rest, rfl, rfl, rfl⟩

theorem step_board {reqs : List Request} (same : s.requests = reqs.map Request.encode)
    (taken : s.step md5 .board = some s') : ∃ (r : Request) (rest : List Request),
    reqs = r :: rest ∧ s.board.running = true ∧
      s' = { s with board := (s.board.handle md5 r).2, requests := rest.map Request.encode,
                    answers := s.answers ++ (s.board.handle md5 r).1.map Answer.encode } := by
  cases reqs with
  | nil => simp [step, same] at taken
  | cons r rest =>
    cases running : s.board.running with
    | false => simp [step, running] at taken
    | true =>
      simp only [step, running, same, List.map_cons, Board.serve_encode] at taken
      cases taken
      exact ⟨r, rest, rfl, rfl, rfl⟩

end System

end Bifferboard.Upload
