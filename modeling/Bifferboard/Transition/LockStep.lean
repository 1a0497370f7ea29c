import Mathlib.Data.List.Infix

/-!
# Lock-step transfers

A sender numbers its blocks from 1. It may repeat the last block at any time, but goes on to
the next one only when what it heard last acknowledges the last block. What it sends besides
is no block.

`LockStep.sent_iff`: the blocks that were sent are the first ones.
`LockStep.first`: where a block is sent for the first time, exactly the blocks before it have
been sent, and the one before it has just been acknowledged.
-/

namespace Transition

/-- What a party heard and sent. -/
inductive Traffic (I O : Type) where
  | heard (i : I)
  | sent (o : O)
  deriving DecidableEq, Repr

section
variable {I O : Type} (block : Nat → O → Prop) (other : O → Prop) (acks : Nat → I → Prop)

/-- The traffic of a sender, the number of the last block, and that block. -/
inductive LockStep : List (Traffic I O) → Nat → O → Prop
  | start {o : O} : block 1 o → LockStep [.sent o] 1 o
  | heard {log : List (Traffic I O)} {k : Nat} {o : O} (i : I) :
      LockStep log k o → LockStep (log ++ [.heard i]) k o
  | again {log : List (Traffic I O)} {k : Nat} {o : O} :
      LockStep log k o → LockStep (log ++ [.sent o]) k o
  | next {log : List (Traffic I O)} {k : Nat} {o o' : O} {i : I} : LockStep log k o →
      log.getLast? = some (.heard i) → acks k i → block (k + 1) o' →
      LockStep (log ++ [.sent o']) (k + 1) o'
  | other {log : List (Traffic I O)} {k : Nat} {o o' : O} :
      LockStep log k o → other o' → LockStep (log ++ [.sent o']) k o

/-- Block `k` has been sent. -/
def Sent (log : List (Traffic I O)) (k : Nat) : Prop := ∃ o, block k o ∧ Traffic.sent o ∈ log

variable {block other acks} {log : List (Traffic I O)} {n : Nat} {last : O}

theorem sent_heard (i : I) (k : Nat) : Sent block (log ++ [.heard i]) k ↔ Sent block log k := by
  simp [Sent]

theorem sent_concat (o : O) (k : Nat) :
    Sent block (log ++ [.sent o]) k ↔ Sent block log k ∨ block k o := by
  simp [Sent, and_or_left, exists_or]

theorem LockStep.last_block (h : LockStep block other acks log n last) : 1 ≤ n ∧ block n last := by
  induction h with
  | start first => exact ⟨Nat.le_refl 1, first⟩
  | heard _ _ ih | again _ ih | other _ _ ih => exact ih
  | next _ _ _ new _ => exact ⟨Nat.le_add_left 1 _, new⟩

/-- What is sent is a block or no block. -/
theorem LockStep.mem (h : LockStep block other acks log n last) {o : O}
    (member : Traffic.sent o ∈ log) : other o ∨ ∃ k, 1 ≤ k ∧ block k o := by
  induction h with
  | start first =>
    obtain rfl : o = _ := by simpa using member
    exact .inr ⟨1, Nat.le_refl 1, first⟩
  | heard i _ ih => exact ih (by simpa using member)
  | again before ih =>
    rcases List.mem_append.mp member with earlier | now
    · exact ih earlier
    · obtain rfl : o = _ := by simpa using now
      exact .inr ⟨_, before.last_block⟩
  | next _ _ _ new ih =>
    rcases List.mem_append.mp member with earlier | now
    · exact ih earlier
    · obtain rfl : o = _ := by simpa using now
      exact .inr ⟨_, Nat.le_add_left 1 _, new⟩
  | other _ none ih =>
    rcases List.mem_append.mp member with earlier | now
    · exact ih earlier
    · obtain rfl : o = _ := by simpa using now
      exact .inl none

section
variable (alone : ∀ j k o, block j o → block k o → j = k) (apart : ∀ k o, block k o → ¬ other o)
include alone apart

theorem LockStep.sent_iff (h : LockStep block other acks log n last) (k : Nat) :
    Sent block log k ↔ 1 ≤ k ∧ k ≤ n := by
  have same {o : O} {j : Nat} (is : block j o) : block k o ↔ k = j :=
    ⟨fun also => alone k j o also is, fun equal => equal ▸ is⟩
  induction h with
  | start first => simp [Sent, same first, Nat.le_antisymm_iff, and_comm]
  | heard i _ ih => exact (sent_heard i k).trans ih
  | again before ih =>
    obtain ⟨positive, is⟩ := before.last_block
    simp only [sent_concat, ih, same is]
    omega
  | next before _ _ new ih =>
    have positive := before.last_block.1
    simp only [sent_concat, ih, same new]
    omega
  | other _ none ih =>
    simp only [sent_concat, ih]
    exact or_iff_left fun is => apart _ _ is none

/-- Where block `k` is sent for the first time. -/
theorem LockStep.first (h : LockStep block other acks log n last) {before : List (Traffic I O)}
    {o : O} {k : Nat} (made : before ++ [.sent o] <+: log) (is : block k o)
    (new : ¬ Sent block before k) :
    (∀ j, Sent block before j ↔ 1 ≤ j ∧ j < k) ∧
      (1 < k → ∃ i, before.getLast? = some (.heard i) ∧ acks (k - 1) i) := by
  induction h with
  | start first =>
    obtain ⟨rfl, rfl⟩ : before = [] ∧ o = _ := by
      have short := made.length_le
      have none : before = [] := by simpa using short
      subst none
      simpa using made
    obtain rfl := alone _ _ _ is first
    refine ⟨fun j => ?_, fun more => absurd more (Nat.lt_irrefl 1)⟩
    simp [Sent]
    omega
  | heard i _ ih =>
    rcases List.prefix_concat_iff.mp made with whole | earlier
    · simp at whole
    · exact ih earlier
  | again sofar ih =>
    rcases List.prefix_concat_iff.mp made with whole | earlier
    · obtain ⟨rfl, rfl⟩ : before = _ ∧ o = _ := by simpa using whole
      obtain ⟨positive, last⟩ := sofar.last_block
      obtain rfl := alone _ _ _ is last
      exact absurd ((sofar.sent_iff alone apart _).mpr ⟨positive, Nat.le_refl _⟩) new
    · exact ih earlier
  | next sofar acked is' new' ih =>
    rcases List.prefix_concat_iff.mp made with whole | earlier
    · obtain ⟨rfl, rfl⟩ : before = _ ∧ o = _ := by simpa using whole
      obtain rfl := alone _ _ _ is new'
      refine ⟨fun j => ?_, fun _ => ⟨_, acked, is'⟩⟩
      rw [sofar.sent_iff alone apart, Nat.lt_succ_iff]
    · exact ih earlier
  | other sofar none ih =>
    rcases List.prefix_concat_iff.mp made with whole | earlier
    · obtain ⟨rfl, rfl⟩ : before = _ ∧ o = _ := by simpa using whole
      exact absurd none (apart _ _ is)
    · exact ih earlier

end

end

end Transition
