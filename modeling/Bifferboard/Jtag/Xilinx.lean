import Mathlib.Data.Int.Bitwise
import Bifferboard.Jtag.Tap
import Bifferboard.Nor.Memory

/-!
# JTAG over a parallel port

`rdc.py` drives the test access port of the processor through a Xilinx cable, one
byte to the data port at a time, and reads TDO from the status port. All that its
functions depend on is the log of what has happened at the wires so far.
-/

namespace Bifferboard.Jtag
open Nor Tap

abbrev Log := List Event

/-! ## Xilinx -/

def bitTDI : Byte := 1#8
def bitTCK : Byte := 2#8
def bitTMS : Byte := 4#8
def bitENABLE : Byte := 0x10#8
def bitCABLE : Byte := 0x40#8

/-- The wires, by the byte at the data port. -/
def cable (b : Byte) : Levels := ⟨b &&& bitTMS ≠ 0#8, b &&& bitTDI ≠ 0#8, b &&& bitTCK ≠ 0#8⟩

def ioOutb (b : Byte) (log : Log) : Log :=
  log ++ [.drive (cable ((b &&& 7#8) ||| bitCABLE ||| bitENABLE))]

/-- What the status port shows after what has happened. -/
abbrev Status := Log → Byte

/-- The level of TDO that it stands for. -/
def tdo (p : Status) (log : Log) : Bool := p log &&& 16#8 ≠ 0#8

def ioInb (p : Status) (log : Log) : Bool × Log := (tdo p log, log ++ [.sample (tdo p log)])

def setState (tms tdi : Bool) (log : Log) : Log :=
  let val : Byte := 0#8
  let val := if tms then val ||| bitTMS else val
  let val := if tdi then val ||| bitTDI else val
  let log := ioOutb val log
  ioOutb (val ||| bitTCK) log

def fallingClock (p : Status) (tms tdi : Bool) (log : Log) : Bool × Log :=
  let val := bitTCK
  let val := if tms then val ||| bitTMS else val
  let val := if tdi then val ||| bitTDI else val
  let log := ioOutb val log
  let log := ioOutb (val &&& ~~~ bitTCK) log
  ioInb p log

/-- Some `set_state` calls with TDI low. -/
def setStates (tms : List Bool) (log : Log) : Log :=
  tms.foldl (fun log tms => setState tms false log) log

def anyToReset : Log → Log := setStates [true, true, true, true, true]
def idleToShiftIr : Log → Log := setStates [true, true, false, false]
def idleToShiftDr : Log → Log := setStates [true, false, false]
def shiftToUpdate : Log → Log := setStates [true, true]
def updateToShiftDr : Log → Log := setStates [true, false, false]
def updateToIdle : Log → Log := setStates [false]
def shiftToIdle (log : Log) : Log := setState false false (shiftToUpdate log)

/-- The loop of `shift_in`. -/
def shiftInLoop (val : Int) : (bits index : Nat) → Log → Log
  | 0, _, log => log
  | bits + 1, index, log =>
    let log := if val.land index ≠ 0 then setState false true log else setState false false log
    shiftInLoop val bits (index <<< 1) log

def shiftIn (val : Int) (bits : Nat) (log : Log) : Log := shiftInLoop val bits 1 log

/-- The loop of `shift_out`. -/
def shiftOutLoop (p : Status) : (bits index out : Nat) → Log → Nat × Log
  | 0, _, out, log => (out, log)
  | bits + 1, index, out, log =>
    let clocked := fallingClock p false false log
    let out := if clocked.1 then out ||| index else out
    shiftOutLoop p bits (index <<< 1) out clocked.2

def shiftOut (p : Status) (bits : Nat) (log : Log) : Nat × Log := shiftOutLoop p bits 1 0 log

def writeIr (command : Int) (log : Log) : Log :=
  shiftToIdle (shiftIn command 8 (idleToShiftIr log))

def readDr (p : Status) (bits : Nat) (log : Log) : Nat × Log :=
  let tmp := shiftOut p bits log
  (tmp.1, shiftToUpdate tmp.2)

def writeDr (val : Int) (bits : Nat) (log : Log) : Log := shiftToUpdate (shiftIn val bits log)

/-! ## RDC -/

/-- The loop of `ReadData`, over what is left of `xrange(0, toread)`. -/
def readLoop (p : Status) (dataBits toread : Nat) : List Nat → Log → List Nat × Log
  | [], log => ([], log)
  | i :: rest, log =>
    let word := readDr p dataBits log
    let log := if i = toread - 1 then updateToIdle word.2 else updateToShiftDr word.2
    let out := readLoop p dataBits toread rest log
    (word.1 :: out.1, out.2)

def readData (p : Status) (command : Int) (dataBits toread : Nat) (log : Log) : List Nat × Log :=
  let log := writeIr command log
  if toread ≠ 0 then readLoop p dataBits toread (List.range toread) (idleToShiftDr log)
  else ([], log)

/-- The loop of `WriteData`, over what is left of the data with its indices. -/
def writeLoop (dataBits length : Nat) : List (Int × Nat) → Log → Log
  | [], log => log
  | (val, i) :: rest, log =>
    let log := writeDr val dataBits log
    let log := if i = length - 1 then updateToIdle log else updateToShiftDr log
    writeLoop dataBits length rest log

def writeData (command : Int) (dataBits : Nat) (data : List Int) (log : Log) : Log :=
  let log := writeIr command log
  if data ≠ [] then writeLoop dataBits data.length data.zipIdx (idleToShiftDr log) else log

/-- `Status`. There is always one value. -/
def status (p : Status) (log : Log) : Nat × Log :=
  let out := readData p 0x0f 16 1 log
  (out.1.headD 0, out.2)

def resetFlags (log : Log) : Log := writeData 0x0d 32 [0x2, 0xff00, 0x9090f000] log

def memAccess (addr code : Int) (log : Log) : Log :=
  let log := idleToShiftDr (writeIr 0x11 log)
  let log := updateToShiftDr (writeDr addr 32 log)
  writeDr code 8 log

/-- The loop of `DumpMem`. -/
def dumpLoop (p : Status) : (count : Nat) → Log → List Nat × Log
  | 0, log => ([], log)
  | count + 1, log =>
    let byte := readDr p 8 (updateToShiftDr log)
    let data := dumpLoop p count byte.2
    (byte.1 :: data.1, data.2)

/-- `DumpMem`, with the codes of the characters. -/
def dumpMem (p : Status) (addr : Int) (count : Nat) (log : Log) : List Nat × Log :=
  let data := dumpLoop p count (memAccess addr 0x18 log)
  (data.1, updateToIdle data.2)

def readMem16 (p : Status) (addr : Int) (log : Log) : Nat × Log :=
  let data := readDr p 16 (updateToShiftDr (memAccess addr 0x19 log))
  (data.1, updateToIdle data.2)

def writeMem16 (addr val : Int) (log : Log) : Log :=
  updateToIdle (writeDr val 16 (updateToShiftDr (memAccess addr 0x1d log)))

/-! ## What reaches the wires -/

theorem setState_eq (tms tdi : Bool) (log : Log) : setState tms tdi log = log ++ cycle tms tdi := by
  cases tms <;> cases tdi <;> simp [setState, ioOutb, cycle] <;> decide

theorem setStates_eq (tms : List Bool) (log : Log) :
    setStates tms log = log ++ moves tms := by
  induction tms generalizing log with
  | nil => simp [setStates, moves]
  | cons bit tms ih =>
    rw [setStates, List.foldl_cons, setState_eq]
    simpa [setStates, moves] using ih (log ++ cycle bit false)

/-- The low bits of a number, the least significant one first. -/
def lowBits (val : Int) (bits : Nat) : List Bool := (List.range bits).map val.testBit

theorem land_ne_zero (val : Int) (k : Nat) : val.land (2 ^ k : Nat) ≠ 0 ↔ val.testBit k = true := by
  cases val with
  | ofNat m =>
    change ((m &&& 2 ^ k : Nat) : Int) ≠ 0 ↔ m.testBit k = true
    rw [Nat.and_two_pow]
    cases m.testBit k <;> simp
  | negSucc m =>
    change ((Nat.ldiff (2 ^ k) m : Nat) : Int) ≠ 0 ↔ (!m.testBit k) = true
    have bit : (Nat.ldiff (2 ^ k) m).testBit k = !m.testBit k := by simp [Nat.testBit_ldiff]
    rw [← bit, Int.natCast_ne_zero]
    constructor
    · intro some
      obtain ⟨i, set⟩ := Nat.exists_testBit_of_ne_zero some
      have here : i = k := by
        simp [Nat.testBit_ldiff, Nat.testBit_two_pow] at set
        exact set.1.symm
      rwa [here] at set
    · intro set none
      simp [none] at set

theorem two_pow_shiftLeft (k : Nat) : (2 ^ k) <<< 1 = 2 ^ (k + 1) := by
  rw [Nat.shiftLeft_eq, pow_succ 2 k, pow_one]

theorem shiftInLoop_eq (val : Int) (bits k : Nat) (log : Log) :
    shiftInLoop val bits (2 ^ k) log = log ++ cycles ((List.range' k bits).map val.testBit) := by
  induction bits generalizing k log with
  | zero => simp [shiftInLoop, cycles]
  | succ bits ih =>
    have here : (if val.land (2 ^ k : Nat) ≠ 0 then setState false true log else setState false false log) =
        log ++ cycle false (val.testBit k) := by
      simp only [land_ne_zero, setState_eq]
      cases val.testBit k <;> rfl
    rw [shiftInLoop, here, two_pow_shiftLeft, ih, List.range'_succ, List.map_cons, cycles_cons,
      List.append_assoc]

theorem shiftIn_eq (val : Int) (bits : Nat) (log : Log) :
    shiftIn val bits log = log ++ cycles (lowBits val bits) := by
  rw [lowBits, List.range_eq_range']
  exact shiftInLoop_eq val bits 0 log

theorem fallingClock_eq (p : Status) (log : Log) : fallingClock p false false log =
    (tdo p (log ++ [.drive ⟨false, false, true⟩, .drive ⟨false, false, false⟩]),
      log ++ pulse (tdo p (log ++ [.drive ⟨false, false, true⟩, .drive ⟨false, false, false⟩]))) := by
  have up : cable ((bitTCK &&& 7#8) ||| bitCABLE ||| bitENABLE) = ⟨false, false, true⟩ := by decide
  have down : cable (bitCABLE ||| bitENABLE) = ⟨false, false, false⟩ := by decide
  simp [fallingClock, ioOutb, ioInb, up, down, pulse]

/-- What the loop puts into the word, bit by bit. -/
theorem shiftOutLoop_eq (p : Status) (bits k out : Nat) (log : Log) :
    (shiftOutLoop p bits (2 ^ k) out log).2 = log ++ pulses (sampled (tdo p) bits log) ∧
    ∀ i, (shiftOutLoop p bits (2 ^ k) out log).1.testBit i =
      (out.testBit i || decide (k ≤ i) && (sampled (tdo p) bits log).getD (i - k) false) := by
  induction bits generalizing k out log with
  | zero => simp [shiftOutLoop, sampled, pulses]
  | succ bits ih =>
    rw [shiftOutLoop, fallingClock_eq, two_pow_shiftLeft, sampled]
    generalize tdo p (log ++ [.drive ⟨false, false, true⟩, .drive ⟨false, false, false⟩]) = bit
    obtain ⟨wires, result⟩ := ih (k + 1) (if bit then out ||| 2 ^ k else out) (log ++ pulse bit)
    refine ⟨?_, fun i => ?_⟩
    · rw [wires, pulses_cons, List.append_assoc]
    · rw [result]
      rcases Nat.lt_trichotomy i k with before | here | after
      · have other : (2 ^ k).testBit i = false := by simp [Nat.testBit_two_pow]; omega
        have early : ¬ k ≤ i := by omega
        have early' : ¬ k + 1 ≤ i := by omega
        cases bit <;> simp [other, early, early']
      · subst here
        cases bit <;> simp
      · obtain ⟨j, rfl⟩ : ∃ j, i = k + 1 + j := ⟨i - (k + 1), by omega⟩
        have other : (2 ^ k).testBit (k + 1 + j) = false := by simp [Nat.testBit_two_pow]; omega
        have index : k + 1 + j - k = j + 1 := by omega
        have reached : k ≤ k + 1 + j := by omega
        cases bit <;> simp [other, index, reached]

theorem shiftOut_eq (p : Status) (bits : Nat) (log : Log) :
    shiftOut p bits log =
      (value (sampled (tdo p) bits log), log ++ pulses (sampled (tdo p) bits log)) := by
  obtain ⟨wires, result⟩ := shiftOutLoop_eq p bits 0 0 log
  refine Prod.ext (eq_value fun i => ?_) wires
  simpa [shiftOut] using result i

end Bifferboard.Jtag
