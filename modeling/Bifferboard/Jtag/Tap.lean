import Mathlib.Algebra.BigOperators.Fin
import Mathlib.Data.List.GetD

/-!
# Test access ports

A TAP controller is clocked by rising edges of TCK and moved by TMS. A `Monitor`
watches the wires, follows the controller and notes every scan: what was shifted in
until the register was updated, and what was sampled meanwhile.
-/

namespace Tap

inductive Register where
  | instruction
  | data
  deriving DecidableEq, Repr

/-- The states of the controller. -/
inductive State where
  | testLogicReset
  | runTestIdle
  | selectScan (r : Register)
  | capture (r : Register)
  | shift (r : Register)
  | exit1 (r : Register)
  | pause (r : Register)
  | exit2 (r : Register)
  | update (r : Register)
  deriving DecidableEq, Repr

/-- The transition at a rising edge of TCK. -/
@[simp] def State.next (tms : Bool) : State → State
  | .testLogicReset => if tms then .testLogicReset else .runTestIdle
  | .runTestIdle => if tms then .selectScan .data else .runTestIdle
  | .selectScan .data => if tms then .selectScan .instruction else .capture .data
  | .selectScan .instruction => if tms then .testLogicReset else .capture .instruction
  | .capture r => if tms then .exit1 r else .shift r
  | .shift r => if tms then .exit1 r else .shift r
  | .exit1 r => if tms then .update r else .pause r
  | .pause r => if tms then .exit2 r else .pause r
  | .exit2 r => if tms then .update r else .shift r
  | .update _ => if tms then .selectScan .data else .runTestIdle

/-- Five cycles with TMS high reset the controller. -/
theorem State.five_ones (s : State) :
    ([true, true, true, true, true].foldl (fun s tms => s.next tms) s) = .testLogicReset := by
  cases s with
  | testLogicReset => rfl
  | runTestIdle => rfl
  | selectScan r => cases r <;> rfl
  | capture r => rfl
  | shift r => rfl
  | exit1 r => rfl
  | pause r => rfl
  | exit2 r => rfl
  | update r => rfl

@[simp] def State.shifts : State → Bool
  | .shift _ => true
  | _ => false

@[simp] def State.captures : State → Bool
  | .capture _ => true
  | _ => false

/-- The register that is updated. -/
@[simp] def State.updates : State → Option Register
  | .update r => some r
  | _ => none

/-! ## The wires -/

structure Levels where
  tms : Bool
  tdi : Bool
  tck : Bool
  deriving DecidableEq, Repr

/-- What happens at the wires: levels are driven, or TDO is sampled. -/
inductive Event where
  | drive (levels : Levels)
  | sample (tdo : Bool)
  deriving DecidableEq, Repr

/-- A pass through an update state, with what was shifted in at the edges with TMS
low, and what was sampled. -/
structure Scan where
  register : Register
  tdi : List Bool
  tdo : List Bool
  deriving DecidableEq, Repr

structure Monitor where
  state : State
  tck : Bool
  tdi : List Bool
  tdo : List Bool
  scans : List Scan
  deriving DecidableEq, Repr

namespace Monitor

/-- A rising edge. -/
def clock (tms tdi : Bool) (m : Monitor) : Monitor :=
  let shifted := if m.state.shifts && !tms then m.tdi ++ [tdi] else m.tdi
  let state := m.state.next tms
  { m with
    state := state
    tdi := if state.captures then [] else shifted
    tdo := if state.captures then [] else m.tdo
    scans := m.scans ++ (state.updates.map fun r => ⟨r, shifted, m.tdo⟩).toList }

def step (m : Monitor) : Event → Monitor
  | .drive l => { (if l.tck && !m.tck then m.clock l.tms l.tdi else m) with tck := l.tck }
  | .sample tdo => { m with tdo := m.tdo ++ [tdo] }

def watch (log : List Event) (m : Monitor) : Monitor := log.foldl step m

theorem watch_append (log more : List Event) (m : Monitor) :
    watch (log ++ more) m = watch more (watch log m) := List.foldl_append

end Monitor

/-! ## Clocking -/

/-- The clock goes down and up again. -/
def cycle (tms tdi : Bool) : List Event := [.drive ⟨tms, tdi, false⟩, .drive ⟨tms, tdi, true⟩]

/-- The clock goes up and down again, and TDO is sampled. -/
def pulse (tdo : Bool) : List Event :=
  [.drive ⟨false, false, true⟩, .drive ⟨false, false, false⟩, .sample tdo]

/-- Cycles that only move the controller. -/
def moves (tms : List Bool) : List Event := tms.flatMap fun tms => cycle tms false

def cycles (bits : List Bool) : List Event := bits.flatMap (cycle false)

def pulses (samples : List Bool) : List Event := samples.flatMap pulse

theorem cycles_cons (bit : Bool) (bits : List Bool) :
    cycles (bit :: bits) = cycle false bit ++ cycles bits :=
  List.flatMap_cons

theorem pulses_cons (bit : Bool) (samples : List Bool) :
    pulses (bit :: samples) = pulse bit ++ pulses samples :=
  List.flatMap_cons

/-- The samples that pulses give, if `tdo` is the level of TDO after what has happened
so far. -/
def sampled (tdo : List Event → Bool) : (n : Nat) → List Event → List Bool
  | 0, _ => []
  | n + 1, log =>
    let bit := tdo (log ++ [.drive ⟨false, false, true⟩, .drive ⟨false, false, false⟩])
    bit :: sampled tdo n (log ++ pulse bit)

theorem length_sampled (tdo : List Event → Bool) (n : Nat) (log : List Event) :
    (sampled tdo n log).length = n := by
  induction n generalizing log with
  | zero => rfl
  | succ n ih => simp [sampled, ih]

namespace Monitor

theorem watch_cycle (tms tdi : Bool) (m : Monitor) :
    watch (cycle tms tdi) m = { m.clock tms tdi with tck := true } := rfl

@[simp] theorem watch_moves_nil (m : Monitor) : watch (moves []) m = m := rfl

@[simp] theorem watch_moves_cons (bit : Bool) (tms : List Bool) (m : Monitor) :
    watch (moves (bit :: tms)) m = watch (moves tms) { m.clock bit false with tck := true } := by
  rw [moves, List.flatMap_cons, watch_append, watch_cycle, moves]

theorem state_watch_moves (tms : List Bool) (m : Monitor) :
    (watch (moves tms) m).state = tms.foldl (fun s tms => s.next tms) m.state := by
  induction tms generalizing m with
  | nil => rfl
  | cons bit tms ih =>
    rw [watch_moves_cons]
    exact ih _

/-- Bits are shifted in. -/
theorem watch_cycles (r : Register) (bits tdi tdo : List Bool) (scans : List Scan) :
    watch (cycles bits) ⟨.shift r, true, tdi, tdo, scans⟩ =
      ⟨.shift r, true, tdi ++ bits, tdo, scans⟩ := by
  induction bits generalizing tdi with
  | nil => simp [cycles, watch]
  | cons bit bits ih =>
    have first : watch (cycle false bit) ⟨.shift r, true, tdi, tdo, scans⟩ =
        ⟨.shift r, true, tdi ++ [bit], tdo, scans⟩ := by
      simp [watch_cycle, clock]
    rw [cycles_cons, watch_append, first]
    simpa using ih (tdi ++ [bit])

/-- Samples are taken, from a low clock on. -/
theorem watch_pulses (r : Register) (samples tdi tdo : List Bool) (scans : List Scan) :
    watch (pulses samples) ⟨.shift r, false, tdi, tdo, scans⟩ =
      ⟨.shift r, false, tdi ++ List.replicate samples.length false, tdo ++ samples, scans⟩ := by
  induction samples generalizing tdi tdo with
  | nil => simp [pulses, watch]
  | cons bit samples ih =>
    have first : watch (pulse bit) ⟨.shift r, false, tdi, tdo, scans⟩ =
        ⟨.shift r, false, tdi ++ [false], tdo ++ [bit], scans⟩ := by
      simp [pulse, watch, step, clock]
    rw [pulses_cons, watch_append, first]
    simpa [List.replicate_succ] using ih (tdi ++ [false]) (tdo ++ [bit])

/-- Samples are taken, from a high clock on. The first one comes without an edge. -/
theorem watch_pulses_high (r : Register) (samples : List Bool) (scans : List Scan) :
    ∃ tck tdi, watch (pulses samples) ⟨.shift r, true, [], [], scans⟩ =
      ⟨.shift r, tck, tdi, samples, scans⟩ := by
  cases samples with
  | nil => exact ⟨true, [], rfl⟩
  | cons bit samples =>
    refine ⟨false, List.replicate samples.length false, ?_⟩
    rw [pulses_cons, watch_append]
    exact watch_pulses r samples [] [bit] scans

end Monitor

/-! ## Bits as numbers -/

/-- The number with these bits, the least significant one first. -/
def value (bits : List Bool) : Nat := ∑ i : Fin bits.length, (bits.get i).toNat * 2 ^ i.val

theorem value_cons (bit : Bool) (bits : List Bool) :
    value (bit :: bits) = bit.toNat + 2 * value bits := by
  rw [value, value, Finset.mul_sum]
  refine (Fin.sum_univ_succ _).trans ?_
  congr 1
  · simp
  · apply Finset.sum_congr rfl
    intro i _
    simp [pow_succ, mul_comm, mul_assoc]

theorem testBit_value (bits : List Bool) (i : Nat) : (value bits).testBit i = bits.getD i false := by
  induction bits generalizing i with
  | nil => simp [value]
  | cons bit bits ih =>
    rw [value_cons]
    cases i with
    | zero => cases bit <;> simp [Nat.testBit_zero, Nat.add_mod]
    | succ i =>
      have half : (bit.toNat + 2 * value bits) / 2 = value bits := by
        cases bit
        · simp
        · simp only [Bool.toNat_true]
          omega
      rw [Nat.testBit_succ, half, ih, List.getD_cons_succ]

theorem value_lt (bits : List Bool) : value bits < 2 ^ bits.length := by
  apply Nat.lt_pow_two_of_testBit
  intro i high
  rw [testBit_value, List.getD_eq_default _ _ high]

/-- A number is known by its bits. -/
theorem eq_value {n : Nat} {bits : List Bool} (same : ∀ i, n.testBit i = bits.getD i false) :
    n = value bits :=
  Nat.eq_of_testBit_eq fun i => (same i).trans (testBit_value bits i).symm

end Tap
