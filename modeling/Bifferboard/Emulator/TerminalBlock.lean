import Mathlib.Data.List.FinRange
import Mathlib.Data.List.Perm.Basic
import Bifferboard.Emulator.Panel

/-!
# The server of the GPIO panel

A `TerminalBlock` has one `Channel` for each client. Lines from the clients set
pins, ask for the levels and subscribe to pins. Whenever the levels are worked out
they are compared with those of the last time, and the clients that have
subscribed to a pin that is different are sent a line.

A subscriber should always know the level of its pins. A new client does not change
any level, so the server does not work them out when one connects. But it may be
listed behind two that contend for a pin, and then the level cannot be worked out
any more. And a client may be found gone while the others are being told: then the
levels are worked out in the middle of that, and those who come after it are told the
old levels last.
-/

namespace Bifferboard.Panel

/-! ## Lines -/

def Drive.letter : Drive → Char
  | .high => '1'
  | .low => '0'
  | .pullUp => 'P'
  | .open => 'X'

def Drive.ofLetter (c : Char) : Option Drive :=
  if c = '1' then some .high
  else if c = '0' then some .low
  else if c = 'P' then some .pullUp
  else if c = 'X' then some .open
  else none

def Level.letter : Level → Char
  | .driven d => d.letter
  | .contention => 'E'

/-- The digits at the start of a text, at most `n` of them, and what follows. -/
def digits : (n : Nat) → List Char → List Char × List Char
  | 0, text => ([], text)
  | _ + 1, [] => ([], [])
  | n + 1, c :: text =>
    if c.isDigit then (c :: (digits n text).1, (digits n text).2) else ([], c :: text)

/-- `int`, of a text that is digits. -/
def int (text : List Char) : Nat := text.foldl (fun n c => 10 * n + (c.toNat - '0'.toNat)) 0

/-- `W (\d{1,3}) ([10PX])`, of what comes after the `W` and the space. -/
def wmatch (text : List Char) : Option (Nat × Drive) :=
  match digits 3 text with
  | ([], _) => none
  | (pin, ' ' :: val :: _) => (Drive.ofLetter val).map fun val => (int pin, val)
  | _ => none

/-- `NOTIFY (\d{1,3})`, of what comes after the space. -/
def nmatch (text : List Char) : Option Nat :=
  match digits 3 text with
  | ([], _) => none
  | (pin, _) => some (int pin)

/-- What a line from a client asks for. -/
inductive Command where
  | write (pin : Fin pinCount) (val : Drive)
  | read
  | notify (pin : Fin pinCount)
  | nothing
  deriving DecidableEq, Repr

/-- The case distinction of `found_terminator`. A line that is not understood, or
names a pin that is not there, asks for nothing. -/
def command : List Char → Command
  | 'W' :: ' ' :: text =>
    match wmatch text with
    | some (pin, val) => if inside : pin < pinCount then .write ⟨pin, inside⟩ val else .nothing
    | none => .nothing
  | ['R'] => .read
  | 'N' :: 'O' :: 'T' :: 'I' :: 'F' :: 'Y' :: ' ' :: text =>
    match nmatch text with
    | some pin => if inside : pin < pinCount then .notify ⟨pin, inside⟩ else .nothing
    | none => .nothing
  | _ => .nothing

/-! ## The server -/

/-- A line that was sent to a client. For the statements only, it comes with the
pins that the client had subscribed to by then. -/
structure Line where
  text : List Char
  subscribed : List (Fin pinCount)

/-- A client, with all that has been sent to it. -/
structure Client where
  fd : Nat
  channel : Channel
  notify : List (Fin pinCount)
  sent : List Line

/-- The client of a `Channel` that was just created. -/
def Client.new (fd : Nat) : Client := ⟨fd, .default, [], []⟩

def Client.drive (p : Fin pinCount) (c : Client) : Drive := c.channel.pins p

/-- `NotifyValues`. -/
def Client.notifyValues (out : List Level) (c : Client) : Client :=
  { c with sent := c.sent ++ [⟨'R' :: ' ' :: out.map Level.letter, c.notify⟩] }

/-- `LastResolve`: a list at first, and then the text that was sent. -/
inductive LastResolve where
  | list (pins : Fin pinCount → Drive)
  | text (out : List Level)

/-- One element of it. -/
def LastResolve.get (p : Fin pinCount) : LastResolve → Option Level
  | .list pins => some (.driven (pins p))
  | .text out => out[p.val]?

/-- The comparison with a text. A list is never equal to one. -/
def LastResolve.isText (out : List Level) : LastResolve → Bool
  | .list _ => false
  | .text last => last = out

/-- A `TerminalBlock`, with the clients in the order of `clients.keys()`. -/
structure Server where
  clients : List Client
  lastResolve : LastResolve

def Server.start : Server := ⟨[], .list Channel.default.pins⟩

/-- The levels of some pins. -/
def resolvePins (clients : List Channel) : List (Fin pinCount) → Except String (List Level)
  | [] => .ok []
  | pin :: pins =>
    match resolvePin clients pin with
    | .error text => .error text
    | .ok level =>
      match resolvePins clients pins with
      | .error text => .error text
      | .ok levels => .ok (level :: levels)

namespace Server

/-- What a client does to a pin, for all of them. -/
def drives (s : Server) (p : Fin pinCount) : List Drive := s.clients.map (Client.drive p)

def channels (s : Server) : List Channel := s.clients.map Client.channel

/-- The pins at which the levels have changed. -/
def diffs (last : LastResolve) (out : List Level) : List (Fin pinCount) :=
  (List.finRange pinCount).filter fun p => out[p.val]? ≠ last.get p

/-- A change to the client with this descriptor. -/
def update (fd : Nat) (f : Client → Client) (s : Server) : Server :=
  { s with clients := s.clients.map fun c => if c.fd = fd then f c else c }

/-- The entry of a descriptor in the dictionary. -/
def client (fd : Nat) (s : Server) : Option Client := s.clients.find? fun c => c.fd = fd

/-- The server without the client. -/
def remove (fd : Nat) (s : Server) : Server :=
  { s with clients := s.clients.filter fun c => c.fd ≠ fd }

end Server

/-- Whether a push to a client finds that its peer is gone. What has been sent to the
client so far has a say in it, so that two pushes in a row may fare differently. -/
abbrev Gone := Client → Bool

namespace Server
variable (gone : Gone)

/-- `NotifyValues`. A `push` to a peer that is gone makes `asynchat` call the client's
`handle_close`. -/
def notifyValues (handleClose : Nat → Server → Except String Server) (vals : List Level) (c : Client)
    (s : Server) : Except String Server :=
  if gone c then handleClose c.fd s else .ok (s.update c.fd (Client.notifyValues vals))

/-- `NotifyAll`, with these keys to go. The keys are those from before the loop. -/
def notifyAll (handleClose : Nat → Server → Except String Server) (vals : List Level)
    (diffs : List (Fin pinCount)) : (keys : List Nat) → Server → Except String Server
  | [], s => .ok s
  | fd :: keys, s =>
    match s.client fd with
    | none => .error ("KeyError: " ++ toString fd)
    | some obj =>
      if ∃ p ∈ obj.notify, p ∈ diffs then
        match s.notifyValues gone handleClose vals obj with
        | .error text => .error text
        | .ok s => notifyAll handleClose vals diffs keys s
      else notifyAll handleClose vals diffs keys s

/-- `Resolve`, in which so many calls of it may be nested. -/
def resolveNested : (calls : Nat) → Server → Except String (List Level × Server)
  | 0, _ => .error "RuntimeError: maximum recursion depth exceeded"
  | calls + 1, s =>
    match resolvePins s.channels (List.finRange pinCount) with
    | .error text => .error text
    | .ok out =>
      if s.lastResolve.isText out then .ok (out, s)
      else
        let handleClose := fun fd s => (resolveNested calls (remove fd s)).map Prod.snd
        match notifyAll gone handleClose out (diffs s.lastResolve out) (s.clients.map Client.fd)
          { s with lastResolve := .text out } with
        | .error text => .error text
        | .ok s => .ok (out, s)

/-- `Resolve`. A nested call has one client less. -/
def resolve (s : Server) : Except String (List Level × Server) :=
  resolveNested gone (s.clients.length + 1) s

/-- `handle_close` of the client. -/
def handleClose (fd : Nat) (s : Server) : Except String Server :=
  match resolve gone (s.remove fd) with
  | .error text => .error text
  | .ok done => .ok done.2

/-- `found_terminator` of the client, for a line from it. A client that is closed by
the time it would be answered is sent nothing. -/
def foundTerminator (fd : Nat) (data : List Char) (s : Server) : Except String Server :=
  match command data with
  | .write pin val =>
    let set := s.update fd fun c => { c with channel := c.channel.setPin pin val }
    match set.resolve gone with
    | .error text => .error text
    | .ok done => .ok done.2
  | .read =>
    match s.resolve gone with
    | .error text => .error text
    | .ok done =>
      match done.2.client fd with
      | none => .ok done.2
      | some c => done.2.notifyValues gone (handleClose gone) done.1 c
  | .notify pin => .ok (s.update fd fun c => { c with notify := c.notify ++ [pin] })
  | .nothing => .ok s

end Server

/-! ## Runs -/

/-- What can happen to the server. When a client connects, `order` is how the
dictionary lists the clients from then on. -/
inductive Event where
  | connect (fd : Nat) (order : List Client)
  | line (fd : Nat) (data : List Char) (gone : Gone)
  | close (fd : Nat) (gone : Gone)

/-- No push finds that its peer is gone: whoever leaves is noticed by a read. -/
def Event.Attended : Event → Prop
  | .connect _ _ => True
  | .line _ _ gone | .close _ gone => ∀ c, gone c = false

/-- An event during which no `Resolve` raises an exception. -/
inductive Step : Server → Event → Server → Prop
  | connect {s : Server} {fd : Nat} {order : List Client} (fresh : ∀ c ∈ s.clients, c.fd ≠ fd)
      (listed : order.Perm (.new fd :: s.clients)) :
      Step s (.connect fd order) { s with clients := order }
  | line {s s' : Server} {fd : Nat} {data : List Char} {gone : Gone}
      (connected : ∃ c ∈ s.clients, c.fd = fd) (done : s.foundTerminator gone fd data = .ok s') :
      Step s (.line fd data gone) s'
  | close {s s' : Server} {fd : Nat} {gone : Gone} (connected : ∃ c ∈ s.clients, c.fd = fd)
      (done : s.handleClose gone fd = .ok s') : Step s (.close fd gone) s'

/-- The events of a run with the states they led to, the last one first. -/
inductive Run : List (Event × Server) → Server → Prop
  | start : Run [] .start
  | next {past : List (Event × Server)} {s s' : Server} {e : Event} :
      Run past s → Step s e s' → Run ((e, s') :: past) s'

/-- The client had subscribed to the pin when it was sent its last line, which was
this one. -/
def Client.Watches (c : Client) (p : Fin pinCount) (line : Line) : Prop :=
  c.sent.getLast? = some line ∧ p ∈ line.subscribed

/-- No notification is lost: what a client was last told about a pin is what
`ResolvePin` says. -/
def Server.Told (s : Server) : Prop :=
  ∀ c ∈ s.clients, ∀ p line, c.Watches p line →
    ∃ level, resolvePin s.channels p = .ok level ∧ line.text[2 + p.val]? = some level.letter

/-! ## Working out the levels -/

theorem resolvePins_eq (clients : List Channel) (pins : List (Fin pinCount)) :
    resolvePins clients pins =
      if ∃ p ∈ pins, Conflict (clients.map fun client => client.pins p).dropLast then
        .error "KeyError: 'E'"
      else .ok (pins.map fun p => arbitrated (clients.map fun client => client.pins p)) := by
  induction pins with
  | nil => simp [resolvePins]
  | cons pin pins ih =>
    rw [resolvePins, resolvePin_eq]
    by_cases here : Conflict (clients.map fun client => client.pins pin).dropLast
    · simp [here]
    · rw [if_neg here, ih]
      by_cases later : ∃ p ∈ pins, Conflict (clients.map fun client => client.pins p).dropLast
      · simp [here, later]
      · simp [here, later]

namespace Server

/-- The levels as they should be. -/
def levels (s : Server) : List Level := (List.finRange pinCount).map fun p => arbitrated (s.drives p)

theorem levels_get (s : Server) (p : Fin pinCount) :
    s.levels[p.val]? = some (arbitrated (s.drives p)) := by
  simp [levels]

/-- Some pin cannot be worked out. -/
def Raises (s : Server) : Prop := ∃ p, Conflict (s.drives p).dropLast

/-- A client after `NotifyAll`. -/
def notified (vals : List Level) (diffs : List (Fin pinCount)) (c : Client) : Client :=
  if ∃ p ∈ c.notify, p ∈ diffs then c.notifyValues vals else c

/-- The server after its levels have been worked out, if everyone is there. -/
def resolved (s : Server) : Server :=
  if s.lastResolve.isText s.levels then s
  else ⟨s.clients.map (notified s.levels (diffs s.lastResolve s.levels)), .text s.levels⟩

/-- The descriptors are the keys of a dictionary. -/
def Distinct (s : Server) : Prop := (s.clients.map Client.fd).Nodup

theorem channels_drives (s : Server) (p : Fin pinCount) :
    (s.channels.map fun client => client.pins p) = s.drives p := by
  rw [channels, drives, List.map_map]
  rfl

theorem notified_fd (vals : List Level) (diffs : List (Fin pinCount)) (c : Client) :
    (notified vals diffs c).fd = c.fd := by
  unfold notified
  split <;> rfl

theorem map_notified_fd (vals : List Level) (diffs : List (Fin pinCount)) (clients : List Client) :
    (clients.map (notified vals diffs)).map Client.fd = clients.map Client.fd := by
  rw [List.map_map]
  exact List.map_congr_left fun c _ => notified_fd vals diffs c

theorem resolved_fds (s : Server) : s.resolved.clients.map Client.fd = s.clients.map Client.fd := by
  rw [resolved]
  split
  · rfl
  · exact map_notified_fd _ _ _

section
variable {fd : Nat} {before later : List Client} {last : LastResolve}

theorem update_absent {clients : List Client} (f : Client → Client)
    (absent : fd ∉ clients.map Client.fd) :
    (clients.map fun c => if c.fd = fd then f c else c) = clients := by
  refine (List.map_congr_left fun c member => if_neg ?_).trans (List.map_id _)
  rintro rfl
  exact absent (List.mem_map_of_mem member)

/-- The client in the middle is found under its descriptor. -/
theorem client_middle {c : Client} (absent : c.fd ∉ before.map Client.fd) :
    client c.fd ⟨before ++ c :: later, last⟩ = some c := by
  have none : before.find? (fun d => d.fd = c.fd) = none := by
    rw [List.find?_eq_none]
    intro d member
    simp only [decide_eq_true_eq]
    intro same
    exact absent (same ▸ List.mem_map_of_mem member)
  rw [client, List.find?_append, none, Option.none_or, List.find?_cons_of_pos (by simp)]

theorem update_middle {c : Client} (f : Client → Client) (absent : c.fd ∉ before.map Client.fd)
    (absent' : c.fd ∉ later.map Client.fd) :
    update c.fd f ⟨before ++ c :: later, last⟩ = ⟨before ++ f c :: later, last⟩ := by
  rw [update, List.map_append, List.map_cons, update_absent f absent, update_absent f absent',
    if_pos rfl]

end

section
variable {gone : Gone} (attended : ∀ c, gone c = false)
include attended

theorem notifyValues_attended (handleClose : Nat → Server → Except String Server) (vals : List Level)
    (c : Client) (s : Server) :
    s.notifyValues gone handleClose vals c = .ok (s.update c.fd (Client.notifyValues vals)) := by
  rw [notifyValues, attended]
  rfl

/-- If everyone is there, each client is told for itself. -/
theorem notifyAll_attended (handleClose : Nat → Server → Except String Server) (vals : List Level)
    (diffs : List (Fin pinCount)) (last : LastResolve) (before later : List Client)
    (distinct : ((before ++ later).map Client.fd).Nodup) :
    notifyAll gone handleClose vals diffs (later.map Client.fd)
      ⟨before.map (notified vals diffs) ++ later, last⟩ =
        .ok ⟨(before ++ later).map (notified vals diffs), last⟩ := by
  induction later generalizing before with
  | nil => simp [notifyAll]
  | cons c later ih =>
    have split := distinct
    rw [List.map_append, List.map_cons, List.nodup_append, List.nodup_cons] at split
    obtain ⟨-, ⟨behind, -⟩, apart⟩ := split
    have ahead : c.fd ∉ (before.map (notified vals diffs)).map Client.fd := by
      rw [map_notified_fd]
      exact fun member => apart _ member _ List.mem_cons_self rfl
    have next := ih (before ++ [c]) (by rwa [List.append_assoc])
    rw [List.append_assoc, List.map_append] at next
    rw [List.map_cons, notifyAll, client_middle ahead]
    dsimp only
    split
    · rename_i told
      have here : [c].map (notified vals diffs) = [c.notifyValues vals] := by
        simp [notified, told]
      rw [notifyValues_attended attended, update_middle _ ahead behind]
      rw [here, List.append_assoc] at next
      exact next
    · rename_i quiet
      have here : [c].map (notified vals diffs) = [c] := by simp [notified, quiet]
      rw [here, List.append_assoc] at next
      exact next

theorem resolve_cases {s : Server} (distinct : s.Distinct) :
    s.Raises ∧ s.resolve gone = .error "KeyError: 'E'" ∨
    ¬ s.Raises ∧ s.resolve gone = .ok (s.levels, s.resolved) := by
  rw [resolve, resolveNested, resolvePins_eq]
  simp only [channels_drives, List.mem_finRange, true_and]
  by_cases raises : ∃ p, Conflict (s.drives p).dropLast
  · left
    rw [if_pos raises]
    exact ⟨raises, rfl⟩
  · right
    rw [if_neg raises]
    refine ⟨raises, ?_⟩
    change (if s.lastResolve.isText s.levels then _ else _) = _
    rw [resolved]
    split
    · rfl
    · have told (handleClose : Nat → Server → Except String Server) :=
        notifyAll_attended attended handleClose s.levels (diffs s.lastResolve s.levels)
          (.text s.levels) [] s.clients distinct
      simp only [List.map_nil, List.nil_append] at told
      change (match notifyAll gone _ s.levels (diffs s.lastResolve s.levels) _
        ⟨s.clients, .text s.levels⟩ with | .error _ => _ | .ok _ => _) = _
      rw [told]
      rfl

/-- What is done after `Resolve`, if it does not raise. -/
theorem of_resolve {s s' : Server} {next : List Level × Server → Except String Server}
    (distinct : s.Distinct)
    (done : (match s.resolve gone with
      | .error text => .error text
      | .ok result => next result) = Except.ok s') :
    ¬ s.Raises ∧ next (s.levels, s.resolved) = .ok s' := by
  rcases resolve_cases attended distinct with ⟨-, error⟩ | ⟨fine, result⟩
  · simp only [error] at done
    cases done
  · simp only [result] at done
    exact ⟨fine, done⟩

theorem resolve_of_fine {s : Server} (distinct : s.Distinct) (fine : ¬ s.Raises) :
    s.resolve gone = .ok (s.levels, s.resolved) := by
  rcases resolve_cases attended distinct with ⟨raises, -⟩ | ⟨-, result⟩
  · exact absurd raises fine
  · exact result

end

theorem resolved_channels (s : Server) : s.resolved.channels = s.channels := by
  rw [resolved]
  split
  · rfl
  · rw [channels, channels, List.map_map]
    apply List.map_congr_left
    intro c _
    simp only [Function.comp, notified]
    split
    · rfl
    · rfl

theorem drives_of_channels {s s' : Server} (same : s'.channels = s.channels) (p : Fin pinCount) :
    s'.drives p = s.drives p := by
  rw [← channels_drives, same, channels_drives]

end Server

/-! ## What clients know -/

/-- The client is subscribed to the pins of its last line, and the line agrees with
the levels of the last time. -/
def Client.Knows (last : LastResolve) (c : Client) : Prop :=
  ∀ p line, c.Watches p line → p ∈ c.notify ∧
    ∃ level, last.get p = some level ∧ line.text[2 + p.val]? = some level.letter

theorem Client.knows_of_silent {last : LastResolve} {c : Client} (silent : c.sent = []) :
    c.Knows last := by
  intro p line watches
  rw [Client.Watches, silent] at watches
  cases watches.1

/-- A client that has just been told the levels. -/
theorem Client.knows_notifyValues (out : List Level) (full : out.length = pinCount) (c : Client) :
    (c.notifyValues out).Knows (.text out) := by
  rintro p line ⟨last, subscribed⟩
  simp only [Client.notifyValues, List.getLast?_append_cons, List.getLast?_singleton,
    Option.some.injEq] at last
  subst last
  refine ⟨subscribed, ?_⟩
  have inside : p.val < out.length := by
    rw [full]
    exact p.isLt
  refine ⟨out[p.val], List.getElem?_eq_getElem inside, ?_⟩
  have skip : 2 + p.val = p.val + 1 + 1 := by omega
  rw [skip]
  simp [inside]

/-- Nothing new for a client that is not subscribed to anything that is different. -/
theorem Client.Knows.quiet {last : LastResolve} {out : List Level} {c : Client} (knows : c.Knows last)
    (quiet : ¬ ∃ p ∈ c.notify, p ∈ Server.diffs last out) : c.Knows (.text out) := by
  intro p line watches
  obtain ⟨subscribed, level, known, told⟩ := knows p line watches
  refine ⟨subscribed, level, ?_, told⟩
  have same : p ∉ Server.diffs last out := fun changed => quiet ⟨p, subscribed, changed⟩
  simp only [Server.diffs, List.mem_filter, List.mem_finRange, true_and, ne_eq, decide_not,
    Bool.not_eq_true', decide_eq_false_iff_not, not_not] at same
  exact same.trans known

/-- The server remembers the levels, and every client knows what it should. -/
structure Server.Inv (s : Server) : Prop where
  distinct : s.Distinct
  current : ∀ p, s.lastResolve.get p = some (arbitrated (s.drives p))
  knows : ∀ c ∈ s.clients, c.Knows s.lastResolve

namespace Server

theorem isText_iff {out : List Level} {last : LastResolve} :
    last.isText out = true ↔ last = .text out := by
  cases last with
  | list pins => simp [LastResolve.isText]
  | text last => simp [LastResolve.isText]

theorem resolved_lastResolve (s : Server) : s.resolved.lastResolve = .text s.levels := by
  rw [resolved]
  split
  · rename_i same
    exact isText_iff.mp same
  · rfl

theorem length_levels (s : Server) : s.levels.length = pinCount := by
  rw [levels, List.length_map, List.length_finRange]

/-- Working out the levels brings everyone up to date. -/
theorem resolved_inv {s : Server} (distinct : s.Distinct)
    (knows : ∀ c ∈ s.clients, c.Knows s.lastResolve) : s.resolved.Inv := by
  constructor
  · rwa [Distinct, resolved_fds]
  · intro p
    rw [resolved_lastResolve, drives_of_channels s.resolved_channels]
    exact s.levels_get p
  · rw [resolved_lastResolve]
    intro c member
    rw [resolved] at member
    split at member
    · rename_i same
      rw [← isText_iff.mp same]
      exact knows c member
    · obtain ⟨old, before, rfl⟩ := List.mem_map.mp member
      rw [notified]
      split
      · exact Client.knows_notifyValues _ s.length_levels old
      · rename_i quiet
        exact (knows old before).quiet quiet

/-- Under the invariant it only depends on the order of the clients whether a
notification is lost. -/
theorem Inv.told_iff {s : Server} (h : s.Inv) : s.Told ↔
    ∀ c ∈ s.clients, ∀ p line, c.Watches p line → ¬ Conflict (s.drives p).dropLast := by
  constructor
  · intro told c member p line watches clash
    obtain ⟨level, ok, -⟩ := told c member p line watches
    rw [resolvePin_eq, channels_drives, if_pos clash] at ok
    cases ok
  · intro fine c member p line watches
    obtain ⟨-, level, known, text⟩ := h.knows c member p line watches
    rw [h.current p] at known
    obtain rfl := Option.some.inj known
    refine ⟨_, ?_, text⟩
    rw [resolvePin_eq, channels_drives, if_neg (fine c member p line watches)]

theorem Inv.told {s : Server} (h : s.Inv) (fine : ¬ s.Raises) : s.Told :=
  h.told_iff.mpr fun _ _ p _ _ clash => fine ⟨p, clash⟩

theorem resolved_fine {s : Server} (fine : ¬ s.Raises) : ¬ s.resolved.Raises := by
  rintro ⟨p, clash⟩
  rw [drives_of_channels s.resolved_channels] at clash
  exact fine ⟨p, clash⟩

/-- A change that each client survives. -/
theorem update_knows {s : Server} {last : LastResolve} {f : Client → Client} (fd : Nat)
    (kept : ∀ c : Client, c.Knows last → (f c).Knows last) (knows : ∀ c ∈ s.clients, c.Knows last) :
    ∀ c ∈ (s.update fd f).clients, c.Knows last := by
  intro c member
  obtain ⟨old, before, rfl⟩ := List.mem_map.mp member
  split
  · exact kept old (knows old before)
  · exact knows old before

/-- What the change leaves alone in a client is the same for all of them. -/
theorem map_update {β : Type} {s : Server} {f : Client → Client} (fd : Nat) {g : Client → β}
    (kept : ∀ c : Client, g (f c) = g c) : (s.update fd f).clients.map g = s.clients.map g := by
  rw [update, List.map_map]
  apply List.map_congr_left
  intro c _
  simp only [Function.comp]
  split
  · exact kept c
  · rfl

theorem update_distinct {s : Server} {f : Client → Client} (fd : Nat)
    (kept : ∀ c : Client, (f c).fd = c.fd) (distinct : s.Distinct) : (s.update fd f).Distinct := by
  rwa [Distinct, map_update fd kept]

theorem update_channels {s : Server} {f : Client → Client} (fd : Nat)
    (kept : ∀ c : Client, (f c).channel = c.channel) : (s.update fd f).channels = s.channels :=
  map_update fd kept

theorem Inv.of_channels {s s' : Server} (h : s.Inv) (distinct : s'.Distinct)
    (channels : s'.channels = s.channels) (last : s'.lastResolve = s.lastResolve)
    (knows : ∀ c ∈ s'.clients, c.Knows s.lastResolve) : s'.Inv := by
  constructor
  · exact distinct
  · intro p
    rw [last, drives_of_channels channels]
    exact h.current p
  · rw [last]
    exact knows

end Server

theorem arbitrated_congr {drives drives' : List Drive}
    (same : ∀ d, d ≠ .open → (d ∈ drives' ↔ d ∈ drives)) :
      arbitrated drives' = arbitrated drives := by
  have high := same .high (by decide)
  have low := same .low (by decide)
  have pullUp := same .pullUp (by decide)
  have conflict : Conflict drives' ↔ Conflict drives := and_congr high low
  simp only [arbitrated, conflict, high, low, pullUp]

/-- The order in which a new client is listed is harmless: for no pin that someone
watches, those before the last contend. -/
def Careful : Event → Prop
  | .connect _ order =>
    ∀ c ∈ order, ∀ p line, c.Watches p line → ¬ Conflict (order.map (Client.drive p)).dropLast
  | _ => True

namespace Step
variable {s s' : Server} {e : Event}

theorem connect_inv {fd : Nat} {order : List Client} (h : s.Inv)
    (fresh : ∀ c ∈ s.clients, c.fd ≠ fd) (listed : order.Perm (.new fd :: s.clients)) :
    Server.Inv { s with clients := order } := by
  constructor
  · refine (listed.map Client.fd).nodup_iff.mpr (List.nodup_cons.mpr ⟨?_, h.distinct⟩)
    intro member
    obtain ⟨c, old, same⟩ := List.mem_map.mp member
    exact fresh c old same
  · intro p
    have same : arbitrated (order.map (Client.drive p)) = arbitrated (s.drives p) := by
      apply arbitrated_congr
      intro d driven
      rw [(listed.map (Client.drive p)).mem_iff, List.map_cons, List.mem_cons]
      exact or_iff_right driven
    exact (h.current p).trans (congrArg some same.symm)
  · intro c member
    rcases List.mem_cons.mp (listed.mem_iff.mp member) with rfl | old
    · exact Client.knows_of_silent rfl
    · exact h.knows c old

section
variable {gone : Gone} (attended : ∀ c, gone c = false)
include attended

/-- The client that has asked is told the levels, after they have been worked out. -/
theorem answered {fd : Nat} {done : Server} (h : done.Inv) (fine : ¬ done.Raises) {out : List Level}
    (last : done.lastResolve = .text out) (full : out.length = pinCount)
    (pushed : (match done.client fd with
      | none => .ok done
      | some c => done.notifyValues gone (Server.handleClose gone) out c) = Except.ok s') :
    s'.Inv ∧ ¬ s'.Raises := by
  cases found : done.client fd with
  | none =>
    simp only [found] at pushed
    obtain rfl := Except.ok.inj pushed
    exact ⟨h, fine⟩
  | some c =>
    simp only [found, Server.notifyValues_attended attended] at pushed
    obtain rfl := Except.ok.inj pushed
    have channels := Server.update_channels (s := done) (f := Client.notifyValues out) c.fd
      (fun _ => rfl)
    have distinct := Server.update_distinct (s := done) (f := Client.notifyValues out) c.fd
      (fun _ => rfl) h.distinct
    refine ⟨h.of_channels distinct channels rfl ?_, ?_⟩
    · apply Server.update_knows c.fd _ h.knows
      intro c _
      rw [last]
      exact Client.knows_notifyValues _ full c
    · rintro ⟨p, clash⟩
      rw [Server.drives_of_channels channels] at clash
      exact fine ⟨p, clash⟩

/-- What a line does that asks for the levels to be worked out. -/
theorem line_cases {fd : Nat} {data : List Char} (done : s.foundTerminator gone fd data = .ok s')
    (h : s.Inv) :
    s'.Inv ∧ (¬ s'.Raises ∨ s' = s ∨
      ∃ pin, s' = s.update fd fun c => { c with notify := c.notify ++ [pin] }) := by
  unfold Server.foundTerminator at done
  cases asked : command data with
  | write pin val =>
    simp only [asked] at done
    have distinct := Server.update_distinct fd
      (f := fun c => { c with channel := c.channel.setPin pin val }) (fun _ => rfl) h.distinct
    have knows := Server.update_knows fd
      (f := fun c => { c with channel := c.channel.setPin pin val }) (fun _ kept => kept) h.knows
    obtain ⟨fine, set⟩ := Server.of_resolve attended distinct done
    obtain rfl := Except.ok.inj set
    exact ⟨Server.resolved_inv distinct knows, .inl (Server.resolved_fine fine)⟩
  | read =>
    simp only [asked] at done
    obtain ⟨fine, pushed⟩ := Server.of_resolve attended h.distinct done
    obtain ⟨inv, fine⟩ := answered attended (Server.resolved_inv h.distinct h.knows)
      (Server.resolved_fine fine) s.resolved_lastResolve s.length_levels pushed
    exact ⟨inv, .inl fine⟩
  | notify pin =>
    simp only [asked] at done
    obtain rfl := Except.ok.inj done
    have channels := Server.update_channels (s := s)
      (f := fun c => { c with notify := c.notify ++ [pin] }) fd (fun _ => rfl)
    have distinct := Server.update_distinct (s := s)
      (f := fun c => { c with notify := c.notify ++ [pin] }) fd (fun _ => rfl) h.distinct
    refine ⟨h.of_channels distinct channels rfl ?_, .inr (.inr ⟨pin, rfl⟩)⟩
    apply Server.update_knows fd _ h.knows
    intro c knows p line watches
    obtain ⟨subscribed, rest⟩ := knows p line watches
    exact ⟨List.mem_append_left _ subscribed, rest⟩
  | nothing =>
    simp only [asked] at done
    obtain rfl := Except.ok.inj done
    exact ⟨h, .inr (.inl rfl)⟩

theorem close_inv {fd : Nat} (done : s.handleClose gone fd = .ok s') (h : s.Inv) :
    s'.Inv ∧ ¬ s'.Raises := by
  have distinct : (s.remove fd).Distinct := h.distinct.sublist (List.filter_sublist.map _)
  obtain ⟨fine, closed⟩ := Server.of_resolve attended distinct done
  obtain rfl := Except.ok.inj closed
  refine ⟨Server.resolved_inv distinct ?_, Server.resolved_fine fine⟩
  intro c member
  exact h.knows c (List.mem_filter.mp member).1

end

/-- A new subscription does not make anyone watch a pin. -/
theorem told_subscribe (fd : Nat) (pin : Fin pinCount) (told : s.Told) :
    (s.update fd fun c => { c with notify := c.notify ++ [pin] }).Told := by
  have channels := Server.update_channels (s := s)
    (f := fun c => { c with notify := c.notify ++ [pin] }) fd (fun _ => rfl)
  intro c member p line watches
  rw [channels]
  obtain ⟨old, before, rfl⟩ := List.mem_map.mp member
  split at watches
  · exact told old before p line watches
  · exact told old before p line watches

theorem inv (step : Step s e s') (attended : e.Attended) (h : s.Inv) : s'.Inv := by
  cases step with
  | connect fresh listed => exact connect_inv h fresh listed
  | line connected done => exact (line_cases attended done h).1
  | close connected done => exact (close_inv attended done h).1

/-- A step loses a notification exactly if a client is listed carelessly. -/
theorem told_iff (step : Step s e s') (attended : e.Attended) (h : s.Inv) (told : s.Told) :
    s'.Told ↔ Careful e := by
  cases step with
  | connect fresh listed => exact (connect_inv h fresh listed).told_iff
  | line connected done =>
    refine iff_of_true ?_ trivial
    obtain ⟨inv, fine | rfl | ⟨pin, rfl⟩⟩ := line_cases attended done h
    · exact inv.told fine
    · exact told
    · exact told_subscribe _ pin told
  | close connected done =>
    obtain ⟨inv, fine⟩ := close_inv attended done h
    exact iff_of_true (inv.told fine) trivial

end Step

namespace Run
variable {past : List (Event × Server)} {s : Server}

theorem start_inv : Server.start.Inv where
  distinct := List.nodup_nil
  current := fun _ => rfl
  knows := fun _ none => absurd none List.not_mem_nil

theorem inv (run : Run past s) (attended : ∀ x ∈ past, x.1.Attended) : s.Inv := by
  induction run with
  | start => exact start_inv
  | next _ step ih =>
    obtain ⟨here, before⟩ := List.forall_mem_cons.mp attended
    exact step.inv here (ih before)

theorem told (run : Run past s) (all : ∀ x ∈ past, x.2.Told) : s.Told := by
  cases run with
  | start => exact fun _ none => absurd none List.not_mem_nil
  | next _ _ => exact all _ List.mem_cons_self

end Run

/-- All along a run without exceptions, in which nobody is found gone while it is being
told something, no notification is lost exactly if every new client is listed with care. -/
theorem told_iff_careful {past : List (Event × Server)} {s : Server} (run : Run past s)
    (attended : ∀ x ∈ past, x.1.Attended) :
    (∀ x ∈ past, x.2.Told) ↔ ∀ x ∈ past, Careful x.1 := by
  induction run with
  | start => simp
  | next before step ih =>
    obtain ⟨here, attended⟩ := List.forall_mem_cons.mp attended
    simp only [List.forall_mem_cons]
    rw [← ih attended]
    constructor
    · rintro ⟨told, all⟩
      exact ⟨(step.told_iff here (before.inv attended) (before.told all)).mp told, all⟩
    · rintro ⟨careful, all⟩
      exact ⟨(step.told_iff here (before.inv attended) (before.told all)).mpr careful, all⟩

/-- Everyone is there. -/
def noneGone : Gone := fun _ => false

/-- A single client that subscribes, asks and drives its pin. -/
theorem single_client_told : ∃ past s, Run past s ∧ past.length = 4 ∧ ∀ x ∈ past, x.2.Told := by
  have run := Run.start.next (e := .connect 4 _) (.connect (by decide) (.refl _))
  have run := run.next (e := .line 4 "NOTIFY 7".toList noneGone) (.line (by decide) rfl)
  have run := run.next (e := .line 4 "R".toList noneGone) (.line (by decide) rfl)
  have run := run.next (e := .line 4 "W 7 P".toList noneGone) (.line (by decide) rfl)
  refine ⟨_, _, run, rfl, (told_iff_careful run ?_).mpr ?_⟩
  · simp [Event.Attended, noneGone]
  · simp [Careful, Client.Watches, Client.new, Server.start]

/-- A subscriber to pin 0 has been told of a contention between two others, when
a fourth client connects. -/
theorem fourth_client_hides_contention : ∃ past s, Run past s ∧ (∀ x ∈ past, x.1.Attended) ∧
    ¬ s.Told := by
  have run := Run.start.next (e := .connect 4 _) (.connect (by decide) (.refl _))
  have run := run.next (e := .line 4 "NOTIFY 0".toList noneGone) (.line (by decide) rfl)
  have run := run.next (e := .line 4 "R".toList noneGone) (.line (by decide) rfl)
  have run := run.next (e := .connect 5 _)
    (.connect (by decide) (List.perm_append_singleton _ _))
  have run := run.next (e := .line 5 "W 0 1".toList noneGone) (.line (by decide) rfl)
  have run := run.next (e := .connect 6 _)
    (.connect (by decide) (List.perm_append_singleton _ _))
  have run := run.next (e := .line 6 "W 0 0".toList noneGone) (.line (by decide) rfl)
  have run := run.next (e := .connect 7 _)
    (.connect (by decide) (List.perm_append_singleton _ _))
  refine ⟨_, _, run, ?_, ?_⟩
  · simp [Event.Attended, noneGone]
  · intro told
    obtain ⟨level, now, -⟩ := told _ (.head _) ⟨0, by decide⟩ _ ⟨rfl, .head _⟩
    cases now

/-- The first client, which drives pin 1, is found gone when it is told of pin 0. The other one
is told of pin 1, and then of pin 0, with the old level of pin 1. -/
theorem gone_client_hides_level : ∃ past s, Run past s ∧ (∀ x ∈ past, Careful x.1) ∧ ¬ s.Told := by
  have run := Run.start.next (e := .connect 4 _) (.connect (by decide) (.refl _))
  have run := run.next (e := .line 4 "NOTIFY 0".toList noneGone) (.line (by decide) rfl)
  have run := run.next (e := .line 4 "W 1 1".toList noneGone) (.line (by decide) rfl)
  have run := run.next (e := .connect 5 _)
    (.connect (by decide) (List.perm_append_singleton _ _))
  have run := run.next (e := .line 5 "NOTIFY 0".toList noneGone) (.line (by decide) rfl)
  have run := run.next (e := .line 5 "NOTIFY 1".toList noneGone) (.line (by decide) rfl)
  have run := run.next (e := .line 5 "W 0 1".toList fun c => c.fd = 4) (.line (by decide) rfl)
  have alone (d : Drive) : ¬ Conflict [d] := by cases d <;> decide
  refine ⟨_, _, run, ?_, ?_⟩
  · simp only [List.forall_mem_cons]
    exact ⟨trivial, trivial, trivial, fun _ _ _ _ _ => alone _, trivial, trivial,
      fun _ _ _ _ _ none => absurd none.1 List.not_mem_nil, fun _ none => absurd none List.not_mem_nil⟩
  · intro told
    obtain ⟨level, now, letter⟩ := told _ (.head _) ⟨1, by decide⟩ _ ⟨rfl, .tail _ (.head _)⟩
    obtain rfl := Except.ok.inj now
    exact absurd letter (by decide)

end Bifferboard.Panel
