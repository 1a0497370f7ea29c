import Bifferboard.Heating.Relay

/-!
# Messages for the display

Messages go through a file. As long as requests do not overlap, they are sent on whole, in
order and at most once, but one that comes between the end of the file and its removal
is lost.

`InOrder` says where `chmon` is with the file. While it reads, the file may have got another
name already or none, so what has the name is of no interest until it has been removed.
-/

namespace Bifferboard.Heating
open Nor Config

section
variable {F : Type} (c : Libc F) {h h' : House F} {a : Action} {past : List (Action × House F)}

/-- A request comes in when no other one is running. -/
def Alone (a : Action) (h : House F) : Prop :=
  match a with
  | .message _ _ => h.messages.writers = []
  | _ => True

/-- The messages that have been sent on, and the one that is next. -/
def House.Relays (h : House F) (files : List Nat) : Prop :=
  (h.relayed ++ files.map h.messages.content).Sublist h.messages.posted

/-- Where `chmon` is with the file. -/
def InOrder (h : House F) : Prop :=
  match h.pc with
  | .reading inode copied => h.messages.Kept inode ∧ copied <+: h.messages.content inode ∧ h.Relays [inode]
  | .relayed => h.Relays []
  | _ => h.Relays h.messages.named.toList

theorem inOrder_reading {inode : Nat} {copied : List Byte} (pc : h.pc = .reading inode copied) :
    InOrder h ↔ h.messages.Kept inode ∧ copied <+: h.messages.content inode ∧ h.Relays [inode] := by
  rw [InOrder, pc]

theorem inOrder_relayed (pc : h.pc = .relayed) : InOrder h ↔ h.Relays [] := by
  rw [InOrder, pc]

theorem InOrder.sublist (right : InOrder h) : h.Relays [] := by
  have less (files : List Nat) (relays : h.Relays files) : h.Relays [] := by
    refine List.Sublist.trans ?_ relays
    rw [List.map_nil, List.append_nil]
    exact List.sublist_append_left _ _
  unfold InOrder at right
  split at right
  · exact less _ right.2.2
  · exact right
  · exact less _ right

theorem inOrder_elsewhere (elsewhere : h.pc.Elsewhere) :
    InOrder h ↔ h.Relays h.messages.named.toList := by
  unfold InOrder
  split
  · rename_i pc
    exact absurd pc (elsewhere.1 _ _)
  · rename_i pc
    exact absurd pc elsewhere.2
  · exact Iff.rfl

/-- `h'` has got no further with messages than `h`. -/
structure Unmoved (h h' : House F) : Prop where
  pc : h'.pc = h.pc
  relayed : h'.relayed = h.relayed

theorem InOrder.unmoved (right : InOrder h) (same : Unmoved h h') (messages : h'.messages = h.messages) :
    InOrder h' := by
  unfold InOrder House.Relays at *
  rw [same.pc, same.relayed, messages]
  exact right

/-! ## The main loop -/

theorem InOrder.top (right : InOrder h) (tidy : h.messages.Tidy) (pc : h.pc = .top) (taken : Nat) :
    InOrder (h.checkMessages taken) := by
  have relays := (inOrder_elsewhere (by rw [pc]; exact ⟨fun _ _ => Pc.noConfusion, Pc.noConfusion⟩)).mp right
  unfold House.checkMessages
  cases named : h.messages.named with
  | some inode =>
    rw [named] at relays
    exact ⟨tidy.kept inode named, List.nil_prefix, relays⟩
  | none => exact (inOrder_elsewhere ⟨fun _ _ => Pc.noConfusion, Pc.noConfusion⟩).mpr relays

theorem InOrder.reading (right : InOrder h) {inode : Nat} {copied : List Byte}
    (pc : h.pc = .reading inode copied) (taken : Nat) : InOrder (h.copyByte taken inode copied) := by
  obtain ⟨kept, done, relays⟩ := (inOrder_reading pc).mp right
  unfold House.copyByte
  cases next : (h.messages.content inode)[copied.length]? with
  | some byte =>
    refine ⟨kept, ?_, relays⟩
    obtain ⟨rest, whole⟩ := done
    change copied ++ [byte] <+: h.messages.content inode
    rw [← whole, List.getElem?_append_right (Nat.le_refl _), Nat.sub_self] at next
    cases rest with
    | nil => cases next
    | cons first rest =>
      cases next
      exact ⟨rest, by rw [List.append_assoc]; exact whole⟩
  | none =>
    have all := done.eq_of_length_le (List.getElem?_eq_none_iff.mp next)
    change ((h.relayed ++ [copied]) ++ []).Sublist h.messages.posted
    rw [all, List.append_nil]
    exact relays

/-- The file, and where `chmon` is with it. -/
def Ordered (h : House F) : Prop := h.messages.Tidy ∧ InOrder h

theorem Ordered.host (right : Ordered h) {taken : Nat} (step : h.host c taken = some h') :
    Ordered h' := by
  obtain ⟨tidy, right⟩ := right
  have wrote := House.host_wrote c step
  by_cases top : h.pc = .top
  · rw [House.host, top] at step
    cases step
    refine ⟨?_, right.top tidy top taken⟩
    unfold House.checkMessages
    split <;> exact tidy
  by_cases relayed : h.pc = .relayed
  · rw [House.host, relayed] at step
    cases step
    exact ⟨tidy.unlink, (inOrder_elsewhere ⟨fun _ _ => Pc.noConfusion, Pc.noConfusion⟩).mpr right.sublist⟩
  by_cases reading : ∃ inode copied, h.pc = .reading inode copied
  · obtain ⟨inode, copied, pc⟩ := reading
    rw [House.host, pc] at step
    cases step
    refine ⟨?_, right.reading pc taken⟩
    unfold House.copyByte
    split <;> exact tidy
  · have elsewhere : h.pc.Elsewhere := ⟨fun inode copied pc => reading ⟨inode, copied, pc⟩, relayed⟩
    obtain ⟨messages, same⟩ := wrote.messages elsewhere
    refine ⟨messages ▸ tidy, (inOrder_elsewhere (wrote.elsewhere elsewhere top)).mpr ?_⟩
    unfold House.Relays
    rw [messages, same]
    exact (inOrder_elsewhere elsewhere).mp right

/-! ## The requests -/

theorem Ordered.call (right : Ordered h) {k : Nat} (same : Unmoved h h')
    (call : h'.messages = h.messages.next k) : Ordered h' := by
  obtain ⟨tidy, right⟩ := right
  have called := tidy.next k
  rw [← call] at called
  have grows : h.messages.posted.Sublist h'.messages.posted := by
    rcases called.names with ⟨posted, -⟩ | ⟨inode, -, more⟩
    · rw [posted]
    · rw [more]
      exact List.sublist_append_left _ _
  have relays {files : List Nat} (kept : ∀ inode ∈ files, h.messages.Kept inode)
      (relays : h.Relays files) : h'.Relays files := by
    unfold House.Relays
    rw [same.relayed, List.map_congr_left fun inode member => (called.files inode (kept inode member)).2]
    exact relays.trans grows
  refine ⟨called.tidy, ?_⟩
  by_cases relayed : h.pc = .relayed
  · exact (inOrder_relayed (same.pc.trans relayed)).mpr (relays (by simp) right.sublist)
  by_cases reading : ∃ inode copied, h.pc = .reading inode copied
  · obtain ⟨inode, copied, pc⟩ := reading
    obtain ⟨kept, done, order⟩ := (inOrder_reading pc).mp right
    obtain ⟨kept', file⟩ := called.files inode kept
    exact (inOrder_reading (same.pc.trans pc)).mpr ⟨kept', file ▸ done, relays (by simpa using kept) order⟩
  · have elsewhere : h.pc.Elsewhere := ⟨fun inode copied pc => reading ⟨inode, copied, pc⟩, relayed⟩
    refine (inOrder_elsewhere (same.pc ▸ elsewhere)).mpr ?_
    rcases called.names with ⟨-, named | gone⟩ | ⟨inode, named, posted⟩
    · rw [named]
      exact relays (fun inode member => tidy.kept inode (Option.mem_toList.mp member))
        ((inOrder_elsewhere elsewhere).mp right)
    · rw [gone]
      exact relays (by simp) right.sublist
    · have before := right.sublist
      rw [House.Relays, List.map_nil, List.append_nil] at before
      unfold House.Relays
      rw [named, posted, same.relayed]
      exact before.append (List.Sublist.refl _)

theorem Ordered.step (right : Ordered h) (alone : Alone a h) (step : h.step c a = some h') :
    Ordered h' := by
  cases House.step_cases c step with
  | host next => exact right.host c next
  | refused => exact right
  | message posts => exact ⟨right.1.begin alone (.inl rfl), right.2⟩
  | messageCall => exact right.call ⟨rfl, rfl⟩ rfl
  | board | lose | loseLine | therm | thermCall => exact ⟨right.1, right.2.unmoved ⟨rfl, rfl⟩ rfl⟩

/-- If requests do not overlap, the messages that are sent on are among those that have been
posted, in the same order and each at most once. -/
theorem messages_in_order {relay : Bool} {file : Option (List Byte)} {settings : Spool}
    {tempFile : Option (List Byte)}
    (run : Transition.Trace (House.step c) (.start c relay (.holding file) settings tempFile) past h)
    (alone : ∀ x ∈ past, Alone x.1 x.2) : h.relayed.Sublist h.messages.posted := by
  have start : InOrder (House.start c relay (.holding file) settings tempFile) := by
    cases file <;> exact List.Sublist.refl _
  have right : Ordered h := run.invariant (P := Ordered) (G := Alone)
    ⟨Spool.holding_tidy file, start⟩ alone fun a _ _ right alone step => right.step c alone step
  have order := right.2.sublist
  rwa [House.Relays, List.map_nil, List.append_nil] at order

/-- A file that nobody touches is sent on. -/
theorem relay_trace {inode : Nat} (pc : h.pc = .reading inode []) :
    ∃ past h', Transition.Trace (House.step c) h past h' ∧ (∀ x ∈ past, Alone x.1 x.2) ∧
      h'.relayed = h.relayed ++ [h.messages.content inode] := by
  obtain ⟨past, h₁, copy, hosts, pc₁, same, relayed, -⟩ := copy_trace c (h.messages.content inode) [] pc
    (List.append_nil _).symm
  rw [List.nil_append] at pc₁
  have step : h₁.step c (.host 0) = some { h₁ with
      pc := .relayed, relayed := h₁.relayed ++ [h.messages.content inode] } := by
    rw [House.step, House.host, pc₁]
    dsimp only
    rw [House.copyByte, same, List.getElem?_eq_none (Nat.le_refl _)]
  refine ⟨_, _, copy.next _ step, ?_, by rw [relayed]⟩
  rw [List.forall_mem_cons]
  refine ⟨trivial, fun x member => ?_⟩
  rw [(hosts x member).1]
  trivial

/-- What a request posts that is alone can be sent on, from the start. -/
theorem posted_trace (relay : Bool) (settings : Spool) {stack : Stack} {data text : List Byte}
    (posts : House.mainMessage c stack data = .posts text) :
    ∃ past h, Transition.Trace (House.step c) (.start c relay (.holding none) settings none) past h ∧
      (∀ x ∈ past, Alone x.1 x.2) ∧ h.relayed = [text] := by
  have begun : Transition.Trace (House.step c) (.start c relay (.holding none) settings none) [] _ := .start
  have step : (House.start c relay (.holding none) settings none).step c (.message stack data) =
      some { House.start c relay (.holding none) settings none with
        messages := (Spool.holding none).begin ⟨text, .atUnlink⟩ } := by
    rw [House.step, posts]
    rfl
  have request := ((begun.next _ step).next (.messageCall 0) rfl).next (.messageCall 0) rfl
  have opened := ((request.next (.messageCall 0) rfl).next (.messageCall 0) rfl).next (.host 1) rfl
  have continued {past : List (Action × House F)} {h : House F}
      (run : Transition.Trace (House.step c) (.start c relay (.holding none) settings none) past h)
      (alone : ∀ x ∈ past, Alone x.1 x.2) (pc : h.pc = .reading 0 []) (first : h.relayed = [])
      (file : h.messages.content 0 = text) : ∃ past h,
        Transition.Trace (House.step c) (.start c relay (.holding none) settings none) past h ∧
          (∀ x ∈ past, Alone x.1 x.2) ∧ h.relayed = [text] := by
    obtain ⟨later, h', relay, alone', relayed⟩ := relay_trace c pc
    rw [first, file] at relayed
    exact ⟨_, h', run.trans relay, List.forall_mem_append.mpr ⟨alone', alone⟩, relayed⟩
  have whole : text ++ ([] : List Byte).drop text.length = text := by simp
  exact continued opened (by simp [Alone, House.start, Spool.holding]) rfl rfl whole

/-- A letter is posted and sent on. -/
theorem messages_in_order_letter : ∃ past h,
    Transition.Trace (House.step digits) (newHouse false none) past h ∧ h.relayed ≠ [] ∧
      h.relayed.Sublist h.messages.posted := by
  have encodes : Encodes (ascii "a") (ascii "a") := .plain (by decide) (by decide) (by decide) .nil
  let stack : Stack := ⟨List.replicate 1024 0#8, List.length_replicate, fun _ => 0#8⟩
  have posts := mainMessage_encodes digits encodes (by decide) (by decide) (by decide) (by decide)
    (show stack.unencoded _ = 0#8 from rfl)
  obtain ⟨past, h, run, alone, relayed⟩ := posted_trace digits false (.holding none) posts
  refine ⟨past, h, run, ?_, messages_in_order digits run alone⟩
  rw [relayed]
  exact List.cons_ne_nil _ _

end

end Bifferboard.Heating
