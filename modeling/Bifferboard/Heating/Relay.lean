import Mathlib.Data.List.TakeWhile
import Bifferboard.Heating.Controller

/-!
# Who switches the relay

The relay is where the last sign on the line puts it, and `chmon` believes it to be
where its own last sign has put it. The two stay together exactly as long as no
message and no temperature has another sign in it, and no sign gets lost that counts. Once
they are apart they stay apart, until `chmon` wants to switch the other way.
-/

namespace Bifferboard.Heating
open Nor Config

/-! ## Signs -/

def signOf (b : Byte) : Option Bool :=
  if b = cmdRelayHigh then some true else if b = cmdRelayLow then some false else none

/-- What is done to the relay. -/
def signs (bytes : List Byte) : List Bool := bytes.filterMap signOf

/-- Where the relay is, after some bytes. -/
def switched (relay : Bool) (bytes : List Byte) : Bool := (signs bytes).getLast?.getD relay

theorem switched_append (relay : Bool) (a b : List Byte) :
    switched relay (a ++ b) = switched (switched relay a) b := by
  unfold switched signs
  rw [List.filterMap_append, List.getLast?_append]
  cases (b.filterMap signOf).getLast? <;> rfl

theorem switched_silent {bytes : List Byte} (silent : signs bytes = []) (relay : Bool) :
    switched relay bytes = relay := by
  unfold switched
  rw [silent]
  rfl

theorem switched_congr {a b : List Byte} (same : signs a = signs b) (relay : Bool) :
    switched relay a = switched relay b := by
  rw [switched, switched, same]

/-- It does not matter where the relay was, if there is a sign. -/
theorem switched_of_signs {bytes : List Byte} (some_ : signs bytes ≠ []) (relay relay' : Bool) :
    switched relay bytes = switched relay' bytes := by
  unfold switched
  rw [List.getLast?_eq_getLast_of_ne_nil some_]
  rfl

/-- A byte is not missed if it is no sign, if another sign comes after it, or if the relay is
there already. -/
theorem switched_eraseIdx_iff (relay : Bool) (bytes : List Byte) (k : Nat) :
    switched relay (bytes.eraseIdx k) = switched relay bytes ↔
      ∀ on, bytes[k]?.bind signOf = some on →
        signs (bytes.drop (k + 1)) ≠ [] ∨ switched relay (bytes.take k) = on := by
  rw [List.eraseIdx_eq_take_drop_succ, switched_append]
  cases found : bytes[k]? with
  | none =>
    have behind := List.getElem?_eq_none_iff.mp found
    rw [List.take_of_length_le behind, List.drop_eq_nil_of_le (Nat.le_succ_of_le behind)]
    exact iff_of_true rfl fun on none => by cases none
  | some byte =>
    have whole : bytes.take k ++ ([byte] ++ bytes.drop (k + 1)) = bytes := by
      obtain ⟨inside, rfl⟩ := List.getElem?_eq_some_iff.mp found
      rw [List.singleton_append, List.getElem_cons_drop, List.take_append_drop]
    have split : switched relay bytes =
        switched (switched (switched relay (bytes.take k)) [byte]) (bytes.drop (k + 1)) := by
      rw [← switched_append, ← switched_append, whole]
    rw [split, Option.bind_some]
    generalize switched relay (bytes.take k) = before
    cases sign : signOf byte with
    | none =>
      have plain : signs [byte] = [] := List.filterMap_cons_none sign
      rw [switched_silent plain]
      exact iff_of_true rfl fun on none => by cases none
    | some on =>
      have set : switched before [byte] = on := by simp [switched, signs, sign]
      rw [set]
      by_cases last : signs (bytes.drop (k + 1)) = []
      · simp [switched_silent last, last]
      · exact iff_of_true (switched_of_signs last _ _) fun _ _ => .inl last

theorem loop_relay (temp : List Byte) (b : Byte) (s : Board) :
    (s.loop temp b).relay = switched s.relay [b] := by
  unfold Board.loop switched signs signOf
  by_cases high : b = cmdRelayHigh
  · simp [high]
  by_cases low : b = cmdRelayLow
  · simp [low, show ¬ cmdRelayLow = cmdRelayHigh by decide]
  · simp only [high, low, if_false, List.filterMap_cons, List.filterMap_nil]
    split_ifs <;> rfl

section
variable {F : Type} (c : Libc F) {h h' : House F} {a : Action} {past : List (Action × House F)}

/-- Where the relay will be, once the Arduino has read everything. -/
def House.settled (h : House F) : Bool := switched h.board.relay h.wire

/-- `update_relay` sends a sign in the next step. -/
def House.Switching (h : House F) : Prop := h.pc = .relay ∧ h.newState c ≠ h.lastState

instance : Decidable (h.Switching c) := inferInstanceAs (Decidable (_ ∧ _))

theorem output_switching (switching : h.Switching c) :
    h.output c = [if h.newState c then cmdRelayHigh else cmdRelayLow] ∧ h.belief c = h.newState c := by
  obtain ⟨pc, switches⟩ := switching
  refine ⟨?_, if_pos pc⟩
  rw [House.output, pc]
  exact if_pos switches

theorem belief_still (still : ¬ h.Switching c) : h.belief c = h.lastState := by
  unfold House.belief
  split
  · rename_i pc
    by_contra differs
    exact still ⟨pc, differs⟩
  · rfl

/-! ## What a step does to the relay -/

/-- Where the relay will be after a step. -/
def House.settles (a : Action) (h : House F) : Bool :=
  match a with
  | .host taken => switched h.settled ((h.output c).take taken)
  | .lose k => switched h.board.relay (h.wire.eraseIdx k)
  | _ => h.settled

/-- Where `chmon` will believe it to be. -/
def House.believes (a : Action) (h : House F) : Bool :=
  match a with
  | .host _ => h.belief c
  | _ => h.lastState

/-- It does not matter how far the Arduino has got. -/
theorem board_settled {byte : Byte} {rest : List Byte} (line : h.wire = byte :: rest) (temp : List Byte) :
    switched (h.board.loop temp byte).relay rest = h.settled := by
  rw [loop_relay, House.settled, line]
  exact (switched_append _ [byte] rest).symm

theorem step_settled (step : h.step c a = some h') :
    h'.settled = h.settles c a ∧ h'.lastState = h.believes c a := by
  cases House.step_cases c step with
  | host next =>
    have wrote := House.host_wrote c next
    refine ⟨?_, wrote.lastState⟩
    rw [House.settled, wrote.relay, wrote.wire, switched_append]
    rfl
  | board line => exact ⟨board_settled line _, rfl⟩
  | lose | loseLine | refused | message | messageCall | therm | thermCall => exact ⟨rfl, rfl⟩

/-- A sign that is taken puts the relay where `chmon` believes it to be. -/
theorem settles_switching {taken : Nat} (switching : h.Switching c) (kept : taken ≠ 0) :
    h.settles c (.host taken) = h.belief c := by
  obtain ⟨output, belief⟩ := output_switching c switching
  change switched h.settled ((h.output c).take taken) = _
  rw [output, belief, List.take_of_length_le (by simpa using Nat.one_le_iff_ne_zero.mpr kept)]
  cases h.newState c <;> rfl

/-! ## When chmon is right -/

/-- The step does nothing to the relay that `chmon` does not know of: the sign of
`update_relay` is taken, nothing else that is taken contradicts it, and a sign that is lost
is followed by another one on the line, or would have done nothing. -/
def Harmless (a : Action) (h : House F) : Prop :=
  match a with
  | .host taken => (h.Switching c → taken ≠ 0) ∧
      (¬ h.Switching c → switched h.lastState ((h.output c).take taken) = h.lastState)
  | .lose k => ∀ on, h.wire[k]?.bind signOf = some on →
      signs (h.wire.drop (k + 1)) ≠ [] ∨ switched h.board.relay (h.wire.take k) = on
  | _ => True

theorem settles_iff (a : Action) (right : h.settled = h.lastState) :
    h.settles c a = h.believes c a ↔ Harmless c a h := by
  cases a with
  | host taken =>
    by_cases switching : h.Switching c
    · by_cases kept : taken ≠ 0
      · refine iff_of_true (settles_switching c switching kept) ⟨fun _ => kept, ?_⟩
        intro still
        exact absurd switching still
      · obtain rfl := not_not.mp kept
        refine iff_of_false ?_ fun harmless => kept (harmless.1 switching)
        change switched h.settled [] ≠ h.belief c
        rw [(output_switching c switching).2, switched_silent rfl, right]
        exact switching.2.symm
    · change switched h.settled _ = h.belief c ↔ _
      rw [belief_still c switching, right]
      simp [Harmless, switching]
  | lose k =>
    change _ = h.lastState ↔ _
    rw [← right]
    exact switched_eraseIdx_iff _ _ _
  | board | loseLine | message | messageCall | therm | thermCall => exact iff_of_true right trivial

/-- From a start with the relay off, the relay is where `chmon` believes it to be, all
along a run, exactly if every step of it is harmless. -/
theorem relay_follows_iff {messages settings : Spool} {tempFile : Option (List Byte)}
    (run : Transition.Trace (House.step c) (.start c false messages settings tempFile) past h) :
    (∀ x ∈ past, x.2.settled = x.2.lastState) ∧ h.settled = h.lastState ↔
      ∀ x ∈ past, Harmless c x.1 x.2 := by
  apply run.always_iff (P := fun h => h.settled = h.lastState) (G := Harmless c) rfl
  intro a h h' right step
  obtain ⟨settled, last⟩ := step_settled c step
  rw [settled, last]
  exact settles_iff c a right

/-- Whole degrees, and one digit of them. -/
def digits : Libc Int where
  scanFloat text := text.head?.map fun b => b.toNat - 0x30
  scanInt text := text.head?.map fun b => b.toNat - 0x30
  scanHex := ⟨false, fun _ => 0#32⟩
  print2 n := [BitVec.ofNat 8 (0x30 + n.toNat % 10)]
  print1 n := [BitVec.ofNat 8 (0x30 + n.toNat % 10)]
  ofInt n := n
  above now therm := decide (therm < now)
  below now therm := decide (now < therm)

/-- A house where nothing has been set. -/
def newHouse (relay : Bool) (message : Option (List Byte)) : House Int :=
  .start digits relay (.holding message) (.holding none) none

/-- A message is a plus sign, and the port takes it. -/
theorem relay_follows_iff_plus : ∃ past h,
    Transition.Trace (House.step digits) (newHouse false (some (ascii "+"))) past h ∧
      h.settled ≠ h.lastState := by
  have begun : Transition.Trace (House.step digits) (newHouse false (some (ascii "+"))) [] _ := .start
  have run := (begun.next (.host 1) rfl).next (.host 1) rfl
  refine ⟨_, _, run, fun same => ?_⟩
  have harmless := (relay_follows_iff digits run).mp ⟨by decide, same⟩
  exact absurd ((harmless _ List.mem_cons_self).2 (by decide)) (by decide)

/-! ## When chmon is wrong -/

/-- No sign is put on the line or gets lost but what `update_relay` sends, and that is
taken. -/
def Silent (a : Action) (h : House F) : Prop :=
  match a with
  | .host taken => (h.Switching c → taken ≠ 0) ∧
      (¬ h.Switching c → signs ((h.output c).take taken) = [])
  | .lose k => ∀ byte ∈ h.wire[k]?, signOf byte = none
  | _ => True

/-- The step is that of `update_relay`, and it sends a sign. -/
def Switched (a : Action) (h : House F) : Prop :=
  match a with
  | .host _ => h.Switching c
  | _ => False

instance : Decidable (Silent c a h) :=
  match a with
  | .host _ => inferInstanceAs (Decidable ((_ → _) ∧ (_ → _)))
  | .lose k => inferInstanceAs (Decidable (∀ byte ∈ h.wire[k]?, _))
  | .board _ | .loseLine _ | .message _ _ | .messageCall _ | .therm _ | .thermCall _ =>
    .isTrue trivial

instance : Decidable (Switched c a h) :=
  match a with
  | .host _ => inferInstanceAs (Decidable (h.Switching c))
  | .board _ | .lose _ | .loseLine _ | .message _ _ | .messageCall _ | .therm _ | .thermCall _ =>
    .isFalse id

theorem settles_lose {k : Nat} (plain : ∀ byte ∈ h.wire[k]?, signOf byte = none) :
    h.settles c (.lose k) = h.settled := by
  refine (switched_eraseIdx_iff _ _ _).mpr fun on sign => ?_
  obtain ⟨byte, found, some_⟩ := Option.bind_eq_some_iff.mp sign
  rw [plain byte found] at some_
  cases some_

theorem silent_kept (silent : Silent c a h) (still : ¬ Switched c a h) :
    h.settles c a = h.settled ∧ h.believes c a = h.lastState := by
  cases a with
  | host taken => exact ⟨switched_silent (silent.2 still) _, belief_still c still⟩
  | lose k => exact ⟨settles_lose c silent, rfl⟩
  | board | loseLine | message | messageCall | therm | thermCall => exact ⟨rfl, rfl⟩

theorem switched_right (silent : Silent c a h) (switching : Switched c a h) :
    h.settles c a = h.believes c a := by
  cases a with
  | host taken => exact settles_switching c switching (silent.1 switching)
  | board | lose | loseLine | message | messageCall | therm | thermCall => exact switching.elim

/-- Where `chmon` is wrong about the relay, it stays wrong, exactly until `update_relay`
sends a sign. -/
theorem wrong_until_switch (wrong : h.settled ≠ h.lastState)
    (run : Transition.Trace (House.step c) h past h') (silent : ∀ x ∈ past, Silent c x.1 x.2) :
    h'.settled ≠ h'.lastState ↔ ∀ x ∈ past, ¬ Switched c x.1 x.2 := by
  induction run with
  | start => exact iff_of_true wrong (by simp)
  | @next past h₁ h₂ a _ step ih =>
    obtain ⟨settled, last⟩ := step_settled c step
    rw [List.forall_mem_cons] at silent ⊢
    by_cases switching : Switched c a h₁
    · rw [settled, last]
      refine iff_of_false (not_not_intro (switched_right c silent.1 switching)) ?_
      intro never
      exact never.1 switching
    · obtain ⟨kept, same⟩ := silent_kept c silent.1 switching
      rw [settled, last, kept, same, ih silent.2]
      exact (and_iff_right switching).symm

/-- The relay was left on. It is warm enough, and stays on. -/
theorem wrong_until_switch_warm : ∃ past h,
    Transition.Trace (House.step digits) (newHouse true none) past h ∧ h.pc = .display ∧
      h.settled ≠ h.lastState := by
  have begun : Transition.Trace (House.step digits) (newHouse true none) [] _ := .start
  have asked := ((begun.next (.host 1) rfl).next (.host 1) rfl).next (.host 1) rfl
  have run := (((asked.next (.host 1) rfl).next (.host 1) rfl).next (.host 1) rfl).next (.host 1) rfl
  refine ⟨_, _, run, rfl, (wrong_until_switch digits (by decide) run ?_).mpr ?_⟩
  · simp only [List.forall_mem_cons]
    decide
  · simp only [List.forall_mem_cons]
    decide

/-! ## A minus sign in a message -/

theorem Encodes.length_le {s e : List Byte} (h : Encodes s e) : s.length ≤ e.length := by
  induction h with
  | nil => exact Nat.le_refl _
  | space _ ih => exact Nat.succ_le_succ ih
  | escape _ _ _ ih => exact Nat.le_trans (Nat.succ_le_succ ih) (Nat.le_add_right _ 2)
  | plain _ _ _ _ ih => exact Nat.succ_le_succ ih

theorem CString.text_eq {m : Mem} {a : Nat} {s : List Byte} (h : CString m a s) {size : Nat}
    (within : s.length < size) : m.text a size = s := by
  obtain ⟨more, rfl⟩ := Nat.exists_eq_add_of_lt within
  rw [Mem.text, show s.length + more + 1 = s.length + 1 + more by omega, Mem.load_add, h.2,
    List.append_assoc]
  exact takeWhile_terminated _ h.1

theorem Encodes.complete {s e : List Byte} (h : Encodes s e) : Complete e := by
  induction h with
  | nil => simp [Complete]
  | space _ ih => simpa [Complete] using ih
  | escape _ _ _ ih => simpa [Complete] using ih
  | plain _ _ percent _ ih => simpa [Complete, percent] using ih

theorem scanned_field {e : List Byte} (some_ : e ≠ []) (noSpace : ∀ b ∈ e, isSpace b = false)
    (stack : Stack) : House.scanned stack (ascii "message=" ++ e) =
      e ++ 0#8 :: stack.encoded.drop (e.length + 1) := by
  have eight : (ascii "message=").length = 8 := by decide
  have kept : e.dropWhile isSpace = e := by
    cases e with
    | nil => rfl
    | cons b rest => exact List.dropWhile_cons_of_neg (by simp [noSpace b List.mem_cons_self])
  have whole : e.takeWhile (fun b => ¬ isSpace b) = e := by
    rw [List.takeWhile_eq_self_iff]
    intro b member
    simp [noSpace b member]
  have field : House.scanMessage (ascii "message=" ++ e) = some e := by
    unfold House.scanMessage
    rw [List.take_left' eight, if_pos rfl, List.drop_left' eight, kept, whole]
    exact if_neg some_
  rw [House.scanned, field]

/-- What the web page sends, in a buffer that is clean enough, goes into the file with
blanks behind it. -/
theorem mainMessage_encodes {s e : List Byte} (encodes : Encodes s e) (nonzero : 0#8 ∉ s)
    (some_ : e ≠ []) (noSpace : ∀ b ∈ e, isSpace b = false) (short : e.length ≤ 992) {stack : Stack}
    (clean : stack.unencoded s.length = 0#8) :
    House.mainMessage c stack (ascii "message=" ++ e) =
      .posts (s ++ List.replicate (16 - s.length) 0x20#8) := by
  have eight : (ascii "message=").length = 8 := by decide
  have length := encodes.length_le
  obtain ⟨returned, string⟩ := (decode_exact_iff c.scanHex s e (stack.encoded.drop (e.length + 1))
    stack.unencoded nonzero encodes).mpr clean
  obtain ⟨n, written, -, bound, -⟩ := writes_eq c.scanHex (stack.encoded.drop (e.length + 1)) 0 0
    stack.unencoded (encodes.nonzero nonzero) encodes.complete
  have inside : ∀ i ∈ (decode c.scanHex (e ++ 0#8 :: stack.encoded.drop (e.length + 1))
      stack.unencoded).writes, i < 1024 := by
    intro i member
    rw [decode, written, List.mem_append, List.mem_range'_1, List.mem_singleton] at member
    omega
  have text := string.text_eq (show s.length < 1024 by omega)
  unfold House.mainMessage
  rw [if_neg (by rw [List.length_append, eight]; omega), scanned_field some_ noSpace]
  dsimp only
  rw [text, if_pos ⟨returned, inside, by omega⟩]

theorem signs_minus {s : List Byte} (minus : cmdRelayLow ∈ s) (plus : cmdRelayHigh ∉ s) (n : Nat)
    (relay : Bool) : switched relay (s ++ List.replicate n 0x20#8) = false := by
  have all : ∀ b ∈ signs s, b = false := by
    intro b member
    obtain ⟨byte, inside, sign⟩ := List.mem_filterMap.mp member
    unfold signOf at sign
    rw [if_neg (ne_of_mem_of_not_mem inside plus)] at sign
    obtain ⟨-, same⟩ := Option.ite_none_right_eq_some.mp sign
    exact (Option.some.inj same).symm
  have some_ : signs s ≠ [] := by
    apply List.ne_nil_of_mem (a := false)
    exact List.mem_filterMap.mpr ⟨cmdRelayLow, minus, by decide⟩
  have blanks : signs (List.replicate n 0x20#8) = [] := by
    unfold signs
    rw [List.filterMap_replicate_of_none (by decide)]
  rw [switched_append, switched_silent blanks]
  unfold switched
  rw [List.getLast?_eq_getLast_of_ne_nil some_]
  exact all _ (List.getLast_mem some_)

/-- `chmon` does not switch, and the signs that it puts on the line are those of messages.
None gets lost. -/
def Quiet (a : Action) (h : House F) : Prop :=
  match a with
  | .host taken => ¬ h.Switching c ∧ signs ((h.output c).take taken) = signs (h.copying c)
  | .lose k => ∀ byte ∈ h.wire[k]?, signOf byte = none
  | _ => True

theorem step_copied (step : h.step c a = some h') (other : ∀ taken, a ≠ .host taken) :
    h'.copied = h.copied := by
  cases House.step_cases c step with
  | host => exact absurd rfl (other _)
  | board | lose | loseLine | refused | message | messageCall | therm | thermCall => rfl

/-- `chmon` has done nothing to the relay since `h₀` but what messages say. -/
def Obeys (h₀ h : House F) : Prop :=
  ∃ new, h.copied = h₀.copied ++ new ∧ h.settled = switched h₀.settled new ∧ h.lastState = h₀.lastState

theorem Obeys.step {h₀ : House F} (obeys : Obeys h₀ h) (quiet : Quiet c a h)
    (step : h.step c a = some h') : Obeys h₀ h' := by
  obtain ⟨new, copied, settled, last⟩ := obeys
  obtain ⟨settles, believes⟩ := step_settled c step
  cases a with
  | host taken =>
    obtain ⟨still, same⟩ := quiet
    refine ⟨new ++ h.copying c, ?_, ?_, ?_⟩
    · rw [(House.host_wrote c step).copied, copied, List.append_assoc]
    · rw [settles, switched_append, ← settled]
      exact switched_congr same _
    · rw [believes, ← last]
      exact belief_still c still
  | lose k =>
    refine ⟨new, ?_, ?_, believes.trans last⟩
    · rw [step_copied c step fun taken => Action.noConfusion, copied]
    · rw [settles, settles_lose c quiet, settled]
  | board | loseLine | message | messageCall | therm | thermCall =>
    refine ⟨new, ?_, settles.trans settled, believes.trans last⟩
    rw [step_copied c step fun taken => Action.noConfusion, copied]

/-- A message with a minus sign in it, typed into the web page, switches the heating off
once it has been sent on. `chmon` believes it to be on, and does not switch it on again
before it wants it off. -/
theorem minus_switches_off {s e : List Byte} (encodes : Encodes s e) (nonzero : 0#8 ∉ s)
    (noSpace : ∀ b ∈ e, isSpace b = false) (short : e.length ≤ 992) (stack : Stack)
    (clean : stack.unencoded s.length = 0#8) (minus : cmdRelayLow ∈ s) (plus : cmdRelayHigh ∉ s) :
    ∃ text, House.mainMessage c stack (ascii "message=" ++ e) = .posts text ∧
      ∀ (h h' : House F) (past : List (Action × House F)) (before later : List Byte),
        h.lastState = true → Transition.Trace (House.step c) h past h' →
        (∀ x ∈ past, Quiet c x.1 x.2) → h'.copied = h.copied ++ (before ++ text ++ later) →
        signs later = [] → h'.settled = false ∧ h'.lastState = true := by
  have some_ : e ≠ [] := by
    rintro rfl
    have length := encodes.length_le
    exact absurd minus (by rw [List.length_eq_zero_iff.mp (Nat.le_zero.mp length)]; simp)
  refine ⟨_, mainMessage_encodes c encodes nonzero some_ noSpace short clean, ?_⟩
  intro h h' past before later on run quiet relayed silent
  obtain ⟨new, copied, settled, last⟩ : Obeys h h' := run.invariant (P := Obeys h) (G := Quiet c)
    ⟨[], (List.append_nil _).symm, rfl, rfl⟩ quiet fun a _ _ obeys quiet step => obeys.step c quiet step
  rw [copied] at relayed
  rw [settled, List.append_cancel_left relayed, last]
  refine ⟨?_, on⟩
  rw [switched_append, switched_silent silent, switched_append, signs_minus minus plus]

/-- A file that nobody touches is copied. -/
theorem copy_trace {inode : Nat} {done : List Byte} (rest more : List Byte)
    (pc : h.pc = .reading inode done) (file : h.messages.content inode = done ++ rest ++ more) :
    ∃ past h', Transition.Trace (House.step c) h past h' ∧ (∀ x ∈ past, x.1 = .host 1 ∧ Quiet c x.1 x.2) ∧
      h'.pc = .reading inode (done ++ rest) ∧ h'.messages = h.messages ∧ h'.relayed = h.relayed ∧
      h'.copied = h.copied ++ rest := by
  induction rest using List.reverseRecOn generalizing more with
  | nil => exact ⟨[], h, .start, by simp, by simpa using pc, rfl, rfl, by simp⟩
  | append_singleton rest byte ih =>
    obtain ⟨past, h₁, run, quiet, pc₁, same, relayed, copied⟩ := ih (byte :: more) (by simpa using file)
    have next : (h₁.messages.content inode)[(done ++ rest).length]? = some byte := by
      rw [same, file]
      simp
    have output : h₁.output c = [byte] := by
      rw [House.output, pc₁]
      dsimp only
      rw [next]
      rfl
    have step : h₁.step c (.host 1) = some { h₁.write 1 [byte] with
        pc := .reading inode (done ++ rest ++ [byte]) } := by
      rw [House.step, House.host, pc₁]
      dsimp only
      rw [House.copyByte, next]
    have copying : h₁.copying c = [byte] := by
      rw [House.copying, pc₁]
      exact output
    refine ⟨_, _, run.next _ step, ?_, by rw [List.append_assoc], same, relayed, ?_⟩
    · rw [List.forall_mem_cons]
      refine ⟨⟨rfl, fun switching => ?_, ?_⟩, quiet⟩
      · rw [switching.1] at pc₁
        cases pc₁
      · rw [output, copying]
        rfl
    · rw [(House.host_wrote c step).copied, copied, copying, List.append_assoc]

/-- `a-b` is sent to a warm house. -/
theorem minus_switches_off_word : ∃ (h h' : House Int) (past : List (Action × House Int)),
    Transition.Trace (House.step digits) h past h' ∧ h.settled = true ∧ h'.settled = false ∧
      h'.lastState = true := by
  have encodes : Encodes (ascii "a-b") (ascii "a-b") :=
    .plain (by decide) (by decide) (by decide)
      (.plain (by decide) (by decide) (by decide) (.plain (by decide) (by decide) (by decide) .nil))
  obtain ⟨text, -, off⟩ := minus_switches_off digits encodes (by decide) (by decide) (by decide)
    ⟨List.replicate 1024 0#8, List.length_replicate, fun _ => 0#8⟩ rfl (by decide) (by decide)
  let h : House Int := { newHouse true (some text) with lastState := true, pc := .reading 0 [] }
  obtain ⟨past, h', run, quiet, -, -, -, copied⟩ := copy_trace digits (h := h) text [] rfl
    (List.append_nil _).symm
  have result := off h h' past [] [] rfl run (fun x member => (quiet x member).2) (by simpa using copied) rfl
  exact ⟨h, h', past, run, rfl, result⟩

end

end Bifferboard.Heating
