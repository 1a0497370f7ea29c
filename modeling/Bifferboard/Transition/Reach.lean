import Mathlib.Data.List.Induction

/-!
# Reachable states of a transition system

A system is given by what each action does, where it is enabled. Runs may be
restricted to actions that are allowed in the state they are taken in.

`Reach.invariant`: what holds at the start and is kept by every allowed step
holds in every state reached.

`Steps.bounded` and `exists_stuck`: if every allowed step makes a number smaller,
runs end, and they end where nothing more can be done.

Where every action can always be taken, a run is the list of its actions.
`forall_prefix_iff`: if it is known which steps keep a property, it is known in
which runs it always holds. `forall_step_iff` is the same for a property of the
steps.

`Trace.always_iff` is the same as `forall_prefix_iff` where not every action can be
taken everywhere.

`run_since`: what holds of the actions since a state and of the state that they lead
to, as long as none of them is of some kind.

`outputs_eq`: two machines whose states are related answer alike.
-/

namespace Transition

variable {S A : Type} (step : A → S → Option S) (allowed : S → A → Prop)

inductive Reach (init : S) : S → Prop
  | start : Reach init init
  | next {s s' : S} (a : A) : Reach init s → allowed s a → step a s = some s' → Reach init s'

variable {step allowed} {init s s' : S}

theorem Reach.invariant {P : S → Prop} (h : Reach step allowed init s) (start : P init)
    (kept : ∀ s a s', P s → allowed s a → step a s = some s' → P s') : P s := by
  induction h with
  | start => exact start
  | next a _ may taken ih => exact kept _ a _ ih may taken

theorem Reach.mono {allowed' : S → A → Prop} (h : Reach step allowed init s)
    (weaker : ∀ s a, allowed s a → allowed' s a) : Reach step allowed' init s := by
  induction h with
  | start => exact .start
  | next a _ may taken ih => exact .next a ih (weaker _ a may) taken

theorem Reach.trans (h : Reach step allowed init s) (h' : Reach step allowed s s') :
    Reach step allowed init s' := by
  induction h' with
  | start => exact h
  | next a _ may taken ih => exact .next a ih may taken

variable (step allowed) in
/-- What is reached in `n` steps. -/
inductive Steps (init : S) : Nat → S → Prop
  | start : Steps init 0 init
  | next {n : Nat} {s s' : S} (a : A) :
      Steps init n s → allowed s a → step a s = some s' → Steps init (n + 1) s'

variable (step allowed) in
/-- No action that is allowed can be taken. -/
def Stuck (s : S) : Prop := ∀ a, allowed s a → step a s = none

theorem Reach.steps (h : Reach step allowed init s) : ∃ n, Steps step allowed init n s := by
  induction h with
  | start => exact ⟨0, .start⟩
  | next a _ may taken ih =>
    obtain ⟨n, steps⟩ := ih
    exact ⟨n + 1, .next a steps may taken⟩

section
variable {P : S → Prop} {measure : S → Nat}

theorem Steps.bounded {n : Nat} (h : Steps step allowed init n s) (start : P init)
    (kept : ∀ s a s', P s → allowed s a → step a s = some s' → P s' ∧ measure s' < measure s) :
    P s ∧ n + measure s ≤ measure init := by
  induction h with
  | start => exact ⟨start, Nat.le_of_eq (Nat.zero_add _)⟩
  | next a _ may taken ih =>
    obtain ⟨holds, bound⟩ := ih
    obtain ⟨holds', less⟩ := kept _ a _ holds may taken
    exact ⟨holds', by omega⟩

theorem exists_stuck (start : P init)
    (kept : ∀ s a s', P s → allowed s a → step a s = some s' → P s' ∧ measure s' < measure s) :
    ∃ s, Reach step allowed init s ∧ Stuck step allowed s := by
  generalize size : measure init = n
  induction n using Nat.strongRecOn generalizing init with
  | ind n ih =>
    by_cases stuck : Stuck step allowed init
    · exact ⟨init, .start, stuck⟩
    · simp only [Stuck, not_forall] at stuck
      obtain ⟨a, may, enabled⟩ := stuck
      obtain ⟨s, taken⟩ := Option.ne_none_iff_exists.mp enabled
      obtain ⟨holds, less⟩ := kept init a s start may taken.symm
      obtain ⟨last, reached, stuck⟩ := ih _ (size ▸ less) holds rfl
      exact ⟨last, (Reach.next a .start may taken.symm).trans reached, stuck⟩

end

section
variable {past : List (A × S)}

variable (step) in
/-- A run: its actions, the last one first, with the state each was taken in. -/
inductive Trace (init : S) : List (A × S) → S → Prop
  | start : Trace init [] init
  | next {past : List (A × S)} {s s' : S} (a : A) :
      Trace init past s → step a s = some s' → Trace init ((a, s) :: past) s'

theorem Trace.invariant {P : S → Prop} {G : A → S → Prop} (h : Trace step init past s) (start : P init)
    (good : ∀ x ∈ past, G x.1 x.2) (kept : ∀ a s s', P s → G a s → step a s = some s' → P s') : P s := by
  induction h with
  | start => exact start
  | next a _ taken ih =>
    rw [List.forall_mem_cons] at good
    exact kept a _ _ (ih good.2) good.1 taken

theorem Trace.trans {later : List (A × S)} (h : Trace step init past s) (h' : Trace step s later s') :
    Trace step init (later ++ past) s' := by
  induction h' with
  | start => exact h
  | next a _ taken ih => exact .next a ih taken

/-- `P` holds all along a run exactly if every step of it is `G`, where `G` is what
a step needs to keep `P`. -/
theorem Trace.always_iff {P : S → Prop} {G : A → S → Prop} (h : Trace step init past s)
    (start : P init) (kept : ∀ a s s', P s → step a s = some s' → (P s' ↔ G a s)) :
    (∀ x ∈ past, P x.2) ∧ P s ↔ ∀ x ∈ past, G x.1 x.2 := by
  induction h with
  | start => simpa using start
  | next a _ taken ih =>
    rw [List.forall_mem_cons, List.forall_mem_cons, ← ih]
    constructor
    · rintro ⟨⟨now, before⟩, afterwards⟩
      exact ⟨(kept a _ _ now taken).mp afterwards, before, now⟩
    · rintro ⟨good, before, now⟩
      exact ⟨⟨now, before⟩, (kept a _ _ now taken).mpr good⟩

end

/-- The state after a run. -/
def run (next : A → S → S) (init : S) (actions : List A) : S := actions.foldl (fun s a => next a s) init

section
variable (next : A → S → S) (init : S)

theorem run_append (actions : List A) (a : A) :
    run next init (actions ++ [a]) = next a (run next init actions) := by
  rw [run, List.foldl_append]
  rfl

theorem run_invariant {P : S → Prop} (start : P init) (kept : ∀ a s, P s → P (next a s))
    (actions : List A) : P (run next init actions) := by
  induction actions using List.reverseRecOn with
  | nil => exact start
  | append_singleton actions a ih =>
    rw [run_append]
    exact kept a _ ih

/-- `P` holds all along a run exactly if every step of it is `G`, where `G` is what
a step needs to keep `P`. -/
theorem forall_prefix_iff {I P : S → Prop} {G : A → S → Prop} (start : I init ∧ P init)
    (kept : ∀ a s, I s → I (next a s)) (step : ∀ a s, I s → P s → (P (next a s) ↔ G a s))
    (actions : List A) : (∀ done, done <+: actions → P (run next init done)) ↔
      ∀ done a, done ++ [a] <+: actions → G a (run next init done) := by
  have invariant := run_invariant next init start.1 kept
  constructor
  · intro always done a made
    have before := always done ((List.prefix_append done [a]).trans made)
    have afterwards := always (done ++ [a]) made
    rw [run_append] at afterwards
    exact (step a _ (invariant done) before).mp afterwards
  · intro good done
    induction done using List.reverseRecOn with
    | nil =>
      intro _
      exact start.2
    | append_singleton done a ih =>
      intro made
      have before := ih ((List.prefix_append done [a]).trans made)
      rw [run_append]
      exact (step a _ (invariant done) before).mpr (good done a made)

/-- All steps of a run are `H` exactly if all are `G`, where steps that are `G` keep
an invariant under which the two are the same. -/
theorem forall_step_iff {I : S → Prop} {G H : A → S → Prop} (start : I init)
    (kept : ∀ a s, I s → G a s → I (next a s)) (step : ∀ a s, I s → (H a s ↔ G a s))
    (actions : List A) : (∀ done a, done ++ [a] <+: actions → H a (run next init done)) ↔
      ∀ done a, done ++ [a] <+: actions → G a (run next init done) := by
  have invariant (good : ∀ done a, done ++ [a] <+: actions → I (run next init done) →
      G a (run next init done)) (done : List A) (made : done <+: actions) :
      I (run next init done) := by
    induction done using List.reverseRecOn with
    | nil => exact start
    | append_singleton done a ih =>
      have before := ih ((List.prefix_append done [a]).trans made)
      rw [run_append]
      exact kept a _ before (good done a made before)
  constructor
  · intro always done a made
    have before := invariant (fun done a made holds => (step a _ holds).mp (always done a made)) done
      ((List.prefix_append done [a]).trans made)
    exact (step a _ before).mp (always done a made)
  · intro good done a made
    have before := invariant (fun done a made _ => good done a made) done
      ((List.prefix_append done [a]).trans made)
    exact (step a _ before).mpr (good done a made)

theorem run_append_cons (before : List A) (a : A) (since : List A) :
    run next init (before ++ a :: since) = run next (next a (run next init before)) since := by
  rw [run, List.foldl_append]
  rfl

theorem run_since {Q : List A → S → Prop} {P : A → Prop} (start : Q [] init)
    (kept : ∀ since a s, ¬ P a → Q since s → Q (since ++ [a]) (next a s)) (since : List A)
    (quiet : ∀ a ∈ since, ¬ P a) : Q since (run next init since) := by
  induction since using List.reverseRecOn with
  | nil => exact start
  | append_singleton since a ih =>
    rw [run_append]
    apply kept
    · exact quiet a (List.mem_append_right _ List.mem_cons_self)
    · exact ih fun b member => quiet b (List.mem_append_left _ member)

end

/-- What a machine answers, action by action. -/
def outputs {O : Type} (next : A → S → O × S) : List A → S → List O
  | [], _ => []
  | a :: actions, s => (next a s).1 :: outputs next actions (next a s).2

theorem outputs_append {O : Type} (next : A → S → O × S) (actions : List A) (a : A) (s : S) :
    outputs next (actions ++ [a]) s =
      outputs next actions s ++ [(next a (run (fun a s => (next a s).2) s actions)).1] := by
  induction actions generalizing s with
  | nil => rfl
  | cons b actions ih =>
    rw [List.cons_append, outputs, ih]
    rfl

theorem outputs_eq {T O : Type} {next : A → S → O × S} {next' : A → T → O × T} {R : S → T → Prop}
    (step : ∀ a s t, R s t → (next a s).1 = (next' a t).1 ∧ R (next a s).2 (next' a t).2)
    (actions : List A) {s : S} {t : T} (start : R s t) :
    outputs next actions s = outputs next' actions t := by
  induction actions generalizing s t with
  | nil => rfl
  | cons a actions ih =>
    obtain ⟨same, related⟩ := step a s t start
    rw [outputs, outputs, same, ih related]

end Transition
