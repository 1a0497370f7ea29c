import Mathlib.Logic.Function.Iterate
import Bifferboard.R6040.Device

/-!
# The transmit loop comes to an end

`r6040_transmit` follows the next pointers of descriptors that it changes on its
way. The guest may have linked them into a cycle, or laid them over each other.
All that a round changes in memory is that one bit is cleared, the one that
allowed it, and no round sets a bit. So no address is visited twice.
-/

namespace Bifferboard.R6040
open Nor

/-- The state after `TryToSendOnePacket`. -/
def sendOne (s : State) : State := (tryToSendOnePacket s).2

/-- The only difference is that bit 15 of the halfword at `a` was set and is
clear. -/
structure ClearsOwner (m m' : Mem) (a : Nat) : Prop where
  set : (m.word a).getLsbD 15 = true
  clear : (m'.word a).getLsbD 15 = false
  other : ∀ x i, ¬ (x = a + 1 ∧ i = 7) → (m' x).getLsbD i = (m x).getLsbD i

theorem word_owner (m : Mem) (a : Nat) : (m.word a).getLsbD 15 = (m (a + 1)).getLsbD 7 := by
  change (m (a + 1) ++ m a).getLsbD 15 = _
  rw [BitVec.getLsbD_append]
  rfl

theorem hi_and_not_other (w : Word) {i : Nat} (other : i ≠ 7) :
    (w &&& ~~~0x8000#16).hi.getLsbD i = w.hi.getLsbD i := by
  have mask : ∀ i < 8, i ≠ 7 → (~~~0x8000#16).getLsbD (8 + i) = true := by decide
  rw [Word.hi, Word.hi, BitVec.getLsbD_extractLsb', BitVec.getLsbD_extractLsb', BitVec.getLsbD_and]
  by_cases inside : i < 8
  · rw [mask i inside other, Bool.and_true]
  · simp [inside]

/-- A bit of memory is clear after a round if it was clear before. -/
theorem ClearsOwner.stays {m m' : Mem} {a : Nat} (h : ClearsOwner m m' a) {x i : Nat}
    (clear : (m x).getLsbD i = false) : (m' x).getLsbD i = false := by
  by_cases here : x = a + 1 ∧ i = 7
  · obtain ⟨rfl, rfl⟩ := here
    rw [← word_owner]
    exact h.clear
  · rw [h.other x i here]
    exact clear

theorem sendOne_clears {s : State} (sent : (tryToSendOnePacket s).1 = true) :
    ClearsOwner s.ram (sendOne s).ram s.txStart.toNat := by
  have owned := tryToSend_owned sent
  have ram : (sendOne s).ram = _ := tryToSend_ram owned
  constructor
  · rw [word_owner]
    exact (Descriptor.owned_hi_iff s.ram _).mp owned
  · rw [word_owner, ram, Mem.storeWord_hi, hi_and_not]
  · intro x i other
    rw [ram]
    by_cases low : x = s.txStart.toNat
    · rw [low, Mem.storeWord_lo, lo_and_not, Mem.word, Word.lo_ofBytes]
    · by_cases high : x = s.txStart.toNat + 1
      · subst high
        have bit : i ≠ 7 := fun here => other ⟨rfl, here⟩
        rw [Mem.storeWord_hi, hi_and_not_other _ bit, Mem.word, Word.hi_ofBytes]
      · rw [Mem.storeWord_frame _ _ (by omega)]

/-- The rounds of the loop: all of the first `n` send a packet, the next one does
not. -/
structure Rounds (s : State) (n : Nat) : Prop where
  sends : ∀ k < n, (tryToSendOnePacket (sendOne^[k] s)).1 = true
  stops : (tryToSendOnePacket (sendOne^[n] s)).1 = false

theorem transmitLoop_rounds (s : State) (count : Nat) :
    ∃ n, Rounds s n ∧ transmitLoop s count = (count + n, sendOne^[n] s) := by
  induction s, count using transmitLoop.induct with
  | case1 s count sent ih =>
    obtain ⟨n, rounds, ends⟩ := ih
    rw [← sendOne] at rounds ends
    refine ⟨n + 1, ⟨?_, ?_⟩, ?_⟩
    · intro k before
      cases k with
      | zero => exact sent
      | succ k =>
        rw [Function.iterate_succ_apply]
        exact rounds.sends k (Nat.lt_of_succ_lt_succ before)
    · rw [Function.iterate_succ_apply]
      exact rounds.stops
    · rw [transmitLoop, dif_pos sent, ← sendOne, ends, Function.iterate_succ_apply, Nat.add_assoc,
        Nat.add_comm 1 n]
  | case2 s count idle =>
    obtain ⟨-, same⟩ := tryToSend_idle idle
    refine ⟨0, ⟨?_, ?_⟩, ?_⟩
    · intro k before
      exact absurd before (Nat.not_lt_zero k)
    · exact Bool.eq_false_iff.mpr idle
    · rw [transmitLoop, dif_neg idle, same, Nat.add_zero, Function.iterate_zero_apply]

theorem Rounds.clears {s : State} {n k : Nat} (h : Rounds s n) (before : k < n) :
    ClearsOwner (sendOne^[k] s).ram (sendOne^[k + 1] s).ram (sendOne^[k] s).txStart.toNat := by
  rw [Function.iterate_succ_apply']
  exact sendOne_clears (h.sends k before)

/-- What is clear stays clear until the end of the loop. -/
theorem Rounds.stays {s : State} {n j k : Nat} (h : Rounds s n) (order : j ≤ k) (before : k ≤ n)
    {x i : Nat} (clear : ((sendOne^[j] s).ram x).getLsbD i = false) :
    ((sendOne^[k] s).ram x).getLsbD i = false := by
  induction k with
  | zero =>
    obtain rfl := Nat.le_zero.mp order
    exact clear
  | succ k ih =>
    by_cases last : j = k + 1
    · subst last
      exact clear
    · exact (h.clears before).stays (ih (by omega) (by omega))

theorem Rounds.distinct {s : State} {n j k : Nat} (h : Rounds s n) (order : j < k) (before : k < n) :
    (sendOne^[j] s).txStart ≠ (sendOne^[k] s).txStart := by
  intro same
  have cleared := (h.clears (Nat.lt_trans order before)).clear
  have set := (h.clears before).set
  rw [word_owner] at cleared set
  have still := h.stays order (Nat.le_of_lt before) cleared
  rw [same, set] at still
  cases still

theorem transmit_ram (s : State) : (transmit s).ram = (transmitLoop s 0).2.ram := by
  rw [transmit]
  generalize transmitLoop s 0 = done
  by_cases some : done.1 ≠ 0
  · rw [if_pos some, State.updateIrq_ram, State.setReg_ram]
  · rw [if_neg some]

/-- From whatever memory and `TX_START`, the loop ends after some number of
packets. Each of them clears the ownership bit of its descriptor and nothing else
in memory, and no two are at the same address. -/
theorem transmit_ends (s : State) : ∃ n, Rounds s n ∧
    transmitLoop s 0 = (n, sendOne^[n] s) ∧ (transmit s).ram = (sendOne^[n] s).ram ∧
    (∀ k < n, ClearsOwner (sendOne^[k] s).ram (sendOne^[k + 1] s).ram
      (sendOne^[k] s).txStart.toNat) ∧
    ∀ j k, j < k → k < n → (sendOne^[j] s).txStart ≠ (sendOne^[k] s).txStart := by
  obtain ⟨n, rounds, ends⟩ := transmitLoop_rounds s 0
  rw [Nat.zero_add] at ends
  refine ⟨n, rounds, ends, ?_, ?_, ?_⟩
  · rw [transmit_ram, ends]
  · intro k before
    exact rounds.clears before
  · intro j k order before
    exact rounds.distinct order before

end Bifferboard.R6040
