import Mathlib.Data.List.Perm.Basic
import Bifferboard.Heating.Relay

/-!
# Answers that are left behind

`chmon` asks for the temperature once in a round and reads one line. A question mark
in a message asks too, and a line that comes late is read in the next round. From
then on every temperature is older by one answer, until one gets lost.
-/

namespace Bifferboard.Heating
open Nor Config

section
variable {F : Type} (c : Libc F) {h h' : House F} {past : List (Action × House F)}

/-- How many answers `chmon` has asked for and not read. -/
def House.unread (h : House F) : Nat := h.wire.count cmdGetTemp + h.board.sent.length

/-- How many it has asked for and will not get. -/
def House.unanswered (h : House F) : Nat := h.lost.count cmdGetTemp + h.unheard

/-- How often a text asks for the temperature. -/
def questions (text : List Byte) : Nat := text.count cmdGetTemp

/-- What the answers come from that have not been read. -/
structure Late (h : House F) : Prop where
  sum : h.unread + h.unanswered =
    questions h.copied + h.missed + (if h.pc = .asked then 1 else 0)
  short : ∀ line ∈ h.board.sent, line.length ≤ 19

/-- What the Arduino sends fits in the buffer of `get_temperature`, with the line end. -/
def Action.Short : Action → Prop
  | .board temp => temp.length ≤ 18
  | _ => True

instance (a : Action) : Decidable a.Short :=
  match a with
  | .board temp => inferInstanceAs (Decidable (temp.length ≤ 18))
  | .host _ | .lose _ | .loseLine _ | .message _ _ | .messageCall _ | .therm _ | .thermCall _ =>
    .isTrue trivial

/-- Numbers are printed without a question mark. -/
def PlainNumbers : Prop := ∀ x, cmdGetTemp ∉ c.print2 x ∧ cmdGetTemp ∉ c.print1 x

theorem displayText_plain (plain : PlainNumbers c) (h : House F) :
    (House.displayText c h).count cmdGetTemp = 0 := by
  obtain ⟨notNow, -⟩ := plain h.temperatureNow
  obtain ⟨-, notTherm⟩ := plain h.thermostatTemperature
  have rest : cmdGetTemp ∉ ascii " (" ∧ cmdGetTemp ∉ ascii ") " ∧ cmdGetTemp ∉ ascii "on " ∧
      cmdGetTemp ∉ ascii "off" := by decide
  rw [List.count_eq_zero]
  unfold House.displayText
  split <;> simp [notNow, notTherm, rest]

/-- `chmon` asks where it should, and with what it copies. -/
theorem output_questions (plain : PlainNumbers c) : (h.output c).count cmdGetTemp =
    questions (h.copying c) + (if h.pc = .asking then 1 else 0) := by
  have sign : ∀ on : Bool, [if on then cmdRelayHigh else cmdRelayLow].count cmdGetTemp = 0 := by decide
  unfold House.copying House.output questions
  cases pc : h.pc with
  | top =>
    dsimp only
    split <;> rfl
  | relay =>
    dsimp only
    split
    · exact sign _
    · rfl
  | text => exact displayText_plain c plain h
  | reading | relayed | asking | asked | thermostat | scanning | unset | setting | display => rfl

/-- `get_temperature` reads an answer or counts it as missed. -/
theorem getTemperature_sent (short : ∀ line ∈ h.board.sent, line.length ≤ 19) :
    (h.getTemperature c).board.sent.length + h.missed + 1 =
      h.board.sent.length + (h.getTemperature c).missed ∧
    (∀ line ∈ (h.getTemperature c).board.sent, line.length ≤ 19) ∧
    (h.getTemperature c).unheard = h.unheard := by
  unfold House.getTemperature
  cases sent : h.board.sent with
  | nil =>
    rw [sent] at short
    refine ⟨?_, ?_, rfl⟩
    · rw [sent]
      simp only [List.length_nil]
      omega
    · rw [sent]
      exact short
  | cons line rest =>
    have fits := short line (by rw [sent]; exact List.mem_cons_self)
    dsimp only
    rw [if_pos fits]
    refine ⟨?_, ?_, rfl⟩
    · rw [List.length_cons]
      omega
    · intro line member
      exact short line (by rw [sent]; exact List.mem_cons_of_mem _ member)

theorem Late.host (late : Late h) (plain : PlainNumbers c) {taken : Nat}
    (step : h.host c taken = some h') : Late h' := by
  have wrote := House.host_wrote c step
  have sum := late.sum
  have asked := output_questions c plain (h := h)
  have line : h'.wire.count cmdGetTemp + h'.lost.count cmdGetTemp =
      h.wire.count cmdGetTemp + h.lost.count cmdGetTemp + (h.output c).count cmdGetTemp := by
    have parts := congrArg (List.count cmdGetTemp) (List.take_append_drop taken (h.output c))
    rw [List.count_append] at parts
    rw [wrote.wire, wrote.lost, List.count_append, List.count_append]
    omega
  have copied : questions h'.copied = questions h.copied + questions (h.copying c) := by
    rw [wrote.copied]
    exact List.count_append
  unfold House.unread House.unanswered at sum
  by_cases pc : h.pc = .asked
  · obtain ⟨read, short, unheard⟩ := getTemperature_sent c late.short
    have none : questions (h.copying c) = 0 := by
      rw [House.copying, pc]
      rfl
    rw [if_neg (by rw [pc]; exact Pc.noConfusion)] at asked
    rw [if_pos pc] at sum
    rw [House.host, pc] at step
    cases step
    refine ⟨?_, short⟩
    rw [if_neg Pc.noConfusion, copied]
    unfold House.unread House.unanswered
    dsimp only at line ⊢
    omega
  · obtain ⟨sent, missed⟩ := wrote.sent pc
    rw [if_neg pc] at sum
    refine ⟨?_, by rw [sent]; exact late.short⟩
    unfold House.unread House.unanswered
    simp only [wrote.asked]
    rw [copied, sent, missed, wrote.unheard]
    omega

theorem Late.board (late : Late h) {temp : List Byte} (short : temp.length ≤ 18) {byte : Byte}
    {rest : List Byte} (line : h.wire = byte :: rest) :
    Late { h with wire := rest, board := h.board.loop temp byte } := by
  have sum := late.sum
  unfold House.unread House.unanswered at sum
  rw [line] at sum
  by_cases asks : byte = cmdGetTemp
  · subst asks
    have loop : h.board.loop temp cmdGetTemp = { h.board with
        lcd := h.board.lcd ++ [.setCursor 0 0], sent := h.board.sent ++ [temp ++ [0x0a#8]] } := rfl
    rw [loop]
    refine ⟨?_, ?_⟩
    · refine Eq.trans ?_ sum
      unfold House.unread House.unanswered
      simp only [List.length_append, List.length_singleton, List.count_cons_self]
      omega
    · intro other member
      rcases List.mem_append.mp member with old | new
      · exact late.short other old
      · rw [List.mem_singleton.mp new, List.length_append, List.length_singleton]
        omega
  · have sent : (h.board.loop temp byte).sent = h.board.sent := by
      unfold Board.loop
      split_ifs <;> rfl
    refine ⟨?_, ?_⟩
    · refine Eq.trans ?_ sum
      unfold House.unread House.unanswered
      rw [sent, List.count_cons_of_ne asks]
    · change ∀ other ∈ (h.board.loop temp byte).sent, _
      rw [sent]
      exact late.short

theorem Late.lose (late : Late h) {k : Nat} {byte : Byte} (found : h.wire[k]? = some byte) :
    Late { h with wire := h.wire.eraseIdx k, lost := h.lost ++ [byte] } := by
  obtain ⟨inside, rfl⟩ := List.getElem?_eq_some_iff.mp found
  refine ⟨Eq.trans ?_ late.sum, late.short⟩
  have parts := (List.getElem_cons_eraseIdx_perm inside).count_eq cmdGetTemp
  rw [← List.singleton_append, List.count_append] at parts
  unfold House.unread House.unanswered
  simp only [List.count_append]
  omega

theorem Late.step (late : Late h) (plain : PlainNumbers c) {a : Action}
    (short : a.Short) (step : h.step c a = some h') : Late h' := by
  cases House.step_cases c step with
  | host next => exact late.host c plain next
  | board line => exact late.board short line
  | lose found => exact late.lose found
  | loseLine inside =>
    refine ⟨Eq.trans ?_ late.sum, fun line member => late.short line (List.mem_of_mem_eraseIdx member)⟩
    unfold House.unread House.unanswered
    simp only [List.length_eraseIdx_of_lt inside]
    omega
  | refused => exact late
  | message | messageCall | therm | thermCall => exact ⟨late.sum, late.short⟩

/-- At any time, the answers that are still to be read and those that got lost are one for
every question mark that has been copied from a message, one for every time that there was
nothing to read, and the one that `chmon` waits for. -/
theorem answers_left_behind (plain : PlainNumbers c) {relay : Bool} {messages settings : Spool}
    {tempFile : Option (List Byte)}
    (run : Transition.Trace (House.step c) (.start c relay messages settings tempFile) past h)
    (short : ∀ x ∈ past, x.1.Short) :
    h.unread + h.unanswered =
      questions h.copied + h.missed + (if h.pc = .asked then 1 else 0) := by
  have late : Late h := run.invariant (P := Late) (G := fun a _ => a.Short)
    ⟨rfl, by intro _ member; cases member⟩ short fun a _ _ late short step => late.step c plain short step
  exact late.sum

theorem digits_plain : PlainNumbers digits := by
  have digit (k : Fin 10) : cmdGetTemp ∉ [BitVec.ofNat 8 (0x30 + k)] := by
    revert k
    decide
  exact fun n =>
    ⟨digit ⟨n.toNat % 10, Nat.mod_lt _ (by decide)⟩, digit ⟨n.toNat % 10, Nat.mod_lt _ (by decide)⟩⟩

/-- A message is a question mark. It is answered, and so is `chmon`, which reads one of the two
answers. -/
theorem answers_left_behind_message : ∃ past h,
    Transition.Trace (House.step digits) (newHouse false (some (ascii "?"))) past h ∧
      h.pc = .thermostat ∧ h.unread = 1 := by
  have begun : Transition.Trace (House.step digits) (newHouse false (some (ascii "?"))) [] _ := .start
  have copied := ((begun.next (.host 1) rfl).next (.host 1) rfl).next (.host 1) rfl
  have asked := (copied.next (.host 1) rfl).next (.host 1) rfl
  have answered := ((asked.next (.board []) rfl).next (.board (ascii "7")) rfl).next (.board (ascii "8")) rfl
  have run := answered.next (.host 0) rfl
  have sum := answers_left_behind digits digits_plain run (by
    simp only [List.forall_mem_cons]
    decide)
  exact ⟨_, _, run, rfl, sum⟩

end

end Bifferboard.Heating
