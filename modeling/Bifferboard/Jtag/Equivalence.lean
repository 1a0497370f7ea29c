import Bifferboard.Jtag.Assembly

/-!
# Both do the same

Whatever the target answers, the operations in C and assembly drive the wires as
those in Python do, sample at the same moments and return the same.
-/

namespace Bifferboard.Gpio
open Nor Tap
open Jtag (Log Status tdo lowBits)

/-! ## Running the macros -/

theorem run_append (io : Ports) (code more : List Instr) (m : Machine) :
    run io (code ++ more) m = run io more (run io code m) := List.foldl_append

@[simp] theorem setLow_low (r : Dword) (b : Byte) : (setLow r b).setWidth 8 = b := by
  rw [setLow, BitVec.setWidth_append, dif_pos (by decide), BitVec.setWidth_eq]

@[simp] theorem setLow16_low (r : Dword) (w : Word) : (setLow16 r w).setWidth 16 = w := by
  rw [setLow16, BitVec.setWidth_append, dif_pos (by decide), BitVec.setWidth_eq]

/-- The code only uses `%eax` and `%edx`, and does this at the wires. -/
def Moves (io : Ports) (code : List Instr) (f : Log → Log) : Prop :=
  ∀ m, ∃ eax edx, run io code m = { m with eax := eax, edx := edx, log := f m.log }

section
variable {io : Ports}

theorem Moves.append {code more : List Instr} {f g : Log → Log} (h : Moves io code f)
    (h' : Moves io more g) :
    Moves io (code ++ more) fun log => g (f log) := by
  intro m
  obtain ⟨eax, edx, first⟩ := h m
  obtain ⟨eax', edx', second⟩ := h' { m with eax := eax, edx := edx, log := f m.log }
  exact ⟨eax', edx', by rw [run_append, first, second]⟩

theorem run_setState (io : Ports) (value : Byte) (m : Machine) :
    ∃ eax edx, run io (setState value) m =
    { m with eax := eax, edx := edx, log := m.log ++
        [.drive (lines (bitTDO ||| value)), .drive (lines (bitTDO ||| value ||| bitTCK))] } := by
  refine ⟨setLow (setLow m.eax (bitTDO ||| value)) (bitTDO ||| value ||| bitTCK),
    setLow16 m.edx port, ?_⟩
  simp [run, setState, exec, Machine.set8, Machine.read8, Machine.dx, Machine.get8]

theorem moves_setState10 : Moves io setState10 (Jtag.setState true false) := by
  intro m
  obtain ⟨eax, edx, done⟩ := run_setState io bitTMS m
  refine ⟨eax, edx, ?_⟩
  rw [setState10, done, Jtag.setState_eq]
  rfl

theorem moves_setState00 : Moves io setState00 (Jtag.setState false false) := by
  intro m
  obtain ⟨eax, edx, done⟩ := run_setState io 0#8 m
  refine ⟨eax, edx, ?_⟩
  rw [setState00, done, Jtag.setState_eq]
  rfl

theorem moves_idleToShiftIr : Moves io idleToShiftIr Jtag.idleToShiftIr :=
  ((moves_setState10.append moves_setState10).append moves_setState00).append moves_setState00

theorem moves_idleToShiftDr : Moves io idleToShiftDr Jtag.idleToShiftDr :=
  (moves_setState10.append moves_setState00).append moves_setState00

theorem moves_shiftToUpdate : Moves io shiftToUpdate Jtag.shiftToUpdate :=
  moves_setState10.append moves_setState10

theorem moves_updateToShiftDr : Moves io updateToShiftDr Jtag.updateToShiftDr :=
  (moves_setState10.append moves_setState00).append moves_setState00

theorem moves_updateToIdle : Moves io updateToIdle Jtag.updateToIdle := moves_setState00

theorem moves_shiftToIdle : Moves io shiftToIdle Jtag.shiftToIdle :=
  moves_shiftToUpdate.append moves_setState00

/-! ## Shifting -/

theorem lowBits_succ (x : Dword) (n : Nat) :
    lowBits x.toNat (n + 1) = x.getLsbD 0 :: lowBits (x >>> 1).toNat n := by
  rw [lowBits, lowBits, List.range_succ_eq_map, List.map_cons, List.map_map]
  congr 1
  apply List.map_congr_left
  intro i _
  change x.toNat.testBit (i + 1) = (x >>> 1).toNat.testBit i
  rw [BitVec.toNat_ushiftRight, Nat.testBit_shiftRight, Nat.add_comm]

theorem low_bit (x : Dword) : x.setWidth 8 &&& 1#8 = if x.getLsbD 0 then 1#8 else 0#8 := by
  rw [BitVec.and_one_eq_setWidth_ofBool_getLsbD, BitVec.getLsbD_setWidth]
  cases x.getLsbD 0 <;> decide

theorem run_shiftInBit (io : Ports) {m : Machine} (connected : m.dx = port) :
    ∃ eax, run io shiftInBit m =
    { m with eax := eax, ebx := m.ebx >>> 1, log := m.log ++ cycle false (m.ebx.getLsbD 0) } := by
  have down : lines (((m.ebx.setWidth 8 &&& 1#8) <<< 5) ||| bitTDO) =
      ⟨false, m.ebx.getLsbD 0, false⟩ := by
    rw [low_bit]
    cases m.ebx.getLsbD 0 <;> decide
  have up : lines (((m.ebx.setWidth 8 &&& 1#8) <<< 5) ||| bitTDO ||| bitTCK) =
      ⟨false, m.ebx.getLsbD 0, true⟩ := by
    rw [low_bit]
    cases m.ebx.getLsbD 0 <;> decide
  refine ⟨(run io shiftInBit m).eax, ?_⟩
  have wired : m.edx.setWidth 16 = port := connected
  simp only [run, shiftInBit, List.foldl, exec, Machine.set8, Machine.get8, Machine.read8,
    Machine.set, Machine.get, Machine.dx, setLow_low, wired, if_true, down, up, cycle,
    List.append_assoc, List.cons_append, List.nil_append]

theorem run_shiftInBits (io : Ports) (n : Nat) {m : Machine} (connected : m.dx = port) :
    ∃ eax, run io (List.replicate n shiftInBit).flatten m =
      { m with eax := eax, ebx := m.ebx >>> n, log := m.log ++ cycles (lowBits m.ebx.toNat n) } := by
  induction n generalizing m with
  | zero => exact ⟨m.eax, by simp [run, lowBits, cycles]⟩
  | succ n ih =>
    obtain ⟨eax, first⟩ := run_shiftInBit io connected
    obtain ⟨eax', rest⟩ := ih
      (m := ⟨eax, m.ebx >>> 1, m.edx, m.stack, m.log ++ cycle false (m.ebx.getLsbD 0)⟩) connected
    refine ⟨eax', ?_⟩
    rw [List.replicate_succ, List.flatten_cons, run_append, first, rest, lowBits_succ, cycles_cons,
      ← BitVec.shiftRight_add, List.append_assoc, Nat.add_comm n 1]

/-- `shift_in`. -/
theorem run_shiftIn (io : Ports) (n : Nat) (m : Machine) : ∃ eax edx, run io (shiftIn n) m =
    { m with
      eax := eax
      ebx := m.ebx >>> n
      edx := edx
      log := Jtag.shiftIn m.ebx.toNat n m.log } := by
  obtain ⟨eax, done⟩ := run_shiftInBits io n (m := { m with edx := setLow16 m.edx port })
    (setLow16_low m.edx port)
  refine ⟨eax, setLow16 m.edx port, ?_⟩
  rw [Jtag.shiftIn_eq]
  exact done

/-- The bit of TDO is all that is left of the byte that was read. -/
theorem masked (r : Dword) (b : Byte) : setLow r b &&& 2#32 =
    if b &&& bitTDO ≠ 0#8 then 2#32 else 0#32 := by
  have long : setLow r b &&& BitVec.twoPow 32 1 =
      if b.getLsbD 1 then BitVec.twoPow 32 1 else 0#32 := by
    have low : (setLow r b).getLsbD 1 = b.getLsbD 1 := by
      rw [setLow, BitVec.getLsbD_append]
      rfl
    rw [BitVec.and_twoPow, low]
  have short : b &&& BitVec.twoPow 8 1 = if b.getLsbD 1 then BitVec.twoPow 8 1 else 0#8 :=
    BitVec.and_twoPow b 1
  change setLow r b &&& BitVec.twoPow 32 1 = if b &&& BitVec.twoPow 8 1 ≠ 0#8 then 2#32 else 0#32
  rw [long, short]
  cases b.getLsbD 1 <;> decide

theorem run_sample (io : Ports) (n : Nat) {m : Machine} (connected : m.dx = port) :
    ∃ eax bit, bit = level io (m.log ++ [.drive ⟨false, false, true⟩, .drive ⟨false, false, false⟩]) ∧
      run io (sample n) m = { m with
        eax := eax
        ebx := m.ebx >>> 1 ||| (if bit then 2#32 else 0#32) <<< (n - 1 - 1)
        log := m.log ++ pulse bit } := by
  have up : lines (bitTDO ||| bitTCK) = ⟨false, false, true⟩ := by decide
  have down : lines bitTDO = ⟨false, false, false⟩ := by decide
  have wired : m.edx.setWidth 16 = port := connected
  refine ⟨(run io (sample n) m).eax, _, rfl, ?_⟩
  simp only [run, sample, List.foldl, exec, Machine.set8, Machine.get8, Machine.read8, Machine.set,
    Machine.get, Machine.dx, setLow_low, wired, if_true, down, up, pulse, List.append_assoc,
    List.cons_append, List.nil_append, masked, level, decide_eq_true_eq]

/-- A sample is shifted to the top of the word. -/
theorem shifted_bit {n : Nat} (bit : Bool) (wide : 2 ≤ n) (fits : n ≤ 32) (i : Nat) :
    ((if bit then 2#32 else 0#32) <<< (n - 1 - 1)).getLsbD i = (bit && decide (i + 1 = n)) := by
  cases bit with
  | false => simp
  | true =>
    change (BitVec.twoPow 32 1 <<< (n - 1 - 1)).getLsbD i = decide (i + 1 = n)
    rw [BitVec.getLsbD_shiftLeft, BitVec.getLsbD_twoPow, ← Bool.decide_coe (_ && _)]
    apply decide_eq_decide.mpr
    simp
    omega

/-- The bits of the word that is being put together, from `x` on. -/
theorem run_samples (io : Ports) (n k : Nat) (wide : 2 ≤ n) (fits : n ≤ 32) (few : k ≤ n)
    {m : Machine} (connected : m.dx = port)
    (small : ∀ i, n ≤ i → m.ebx.getLsbD i = false) :
    ∃ eax ebx, run io (List.replicate k (sample n)).flatten m =
        { m with eax := eax, ebx := ebx, log := m.log ++ pulses (sampled (level io) k m.log) } ∧
      ∀ i, ebx.getLsbD i = if i + k < n then m.ebx.getLsbD (i + k)
        else decide (i < n) && (sampled (level io) k m.log).getD (i + k - n) false := by
  induction k generalizing m with
  | zero =>
    refine ⟨m.eax, m.ebx, by simp [run, sampled, pulses], fun i => ?_⟩
    by_cases below : i < n
    · simp [below]
    · simp [below, small i (by omega)]
  | succ k ih =>
    obtain ⟨eax, bit, sampled_bit, first⟩ := run_sample io n connected
    have top (i : Nat) : (m.ebx >>> 1 ||| (if bit then 2#32 else 0#32) <<< (n - 1 - 1)).getLsbD i =
        (m.ebx.getLsbD (i + 1) || bit && decide (i + 1 = n)) := by
      rw [BitVec.getLsbD_or, BitVec.getLsbD_ushiftRight, Nat.add_comm 1 i, shifted_bit bit wide fits]
    obtain ⟨eax', ebx', rest, bits⟩ := ih (by omega) (m := ⟨eax,
      m.ebx >>> 1 ||| (if bit then 2#32 else 0#32) <<< (n - 1 - 1), m.edx, m.stack,
        m.log ++ pulse bit⟩) connected
      (fun i high => by rw [top, small (i + 1) (by omega)]; simp; omega)
    refine ⟨eax', ebx', ?_, fun i => ?_⟩
    · rw [List.replicate_succ, List.flatten_cons, run_append, first, rest, sampled, ← sampled_bit,
        pulses_cons, List.append_assoc]
    · rw [bits, sampled, ← sampled_bit, top]
      rw [← Nat.add_assoc]
      rcases Nat.lt_trichotomy (i + k + 1) n with before | here | after
      · have early : i + k < n := by omega
        have other : i + k + 1 ≠ n := by omega
        simp [before, early, other]
      · have early : i + k < n := by omega
        have inside : i < n := by omega
        simp [early, inside, small n (Nat.le_refl n), here]
      · obtain ⟨j, index⟩ : ∃ j, i + k + 1 - n = j + 1 := ⟨i + k + 1 - n - 1, by omega⟩
        have late : ¬ i + k < n := by omega
        have late' : ¬ i + k + 1 < n := by omega
        have index' : i + k - n = j := by omega
        simp [late, late', index, index']

end

/-! ## Composing code -/

section
variable {io : Ports} {stack : List Dword}

/-- The code leaves the stack alone, and does this at the wires. -/
def Does (io : Ports) (stack : List Dword) (code : List Instr) (f : Log → Log) : Prop :=
  ∀ m : Machine, m.stack = stack → ∃ eax ebx edx,
    run io code m = { m with eax := eax, ebx := ebx, edx := edx, log := f m.log }

/-- The same, with a value in `%eax` at the end. -/
def Yields (io : Ports) (stack : List Dword) (code : List Instr) (g : Log → Nat × Log) : Prop :=
  ∀ m : Machine, m.stack = stack → ∃ eax ebx edx,
    run io code m = { m with eax := eax, ebx := ebx, edx := edx, log := (g m.log).2 } ∧
      eax.toNat = (g m.log).1

theorem Moves.does {code : List Instr} {f : Log → Log} (h : Moves io code f) :
    Does io stack code f := by
  intro m _
  obtain ⟨eax, edx, done⟩ := h m
  exact ⟨eax, m.ebx, edx, done⟩

theorem Does.append {code more : List Instr} {f g : Log → Log} (h : Does io stack code f)
    (h' : Does io stack more g) : Does io stack (code ++ more) fun log => g (f log) := by
  intro m same
  obtain ⟨eax, ebx, edx, first⟩ := h m same
  obtain ⟨eax', ebx', edx', second⟩ := h' ⟨eax, ebx, edx, m.stack, f m.log⟩ same
  exact ⟨eax', ebx', edx', by rw [run_append, first, second]⟩

theorem Does.yields {code more : List Instr} {f : Log → Log} {g : Log → Nat × Log}
    (h : Does io stack code f)
    (h' : Yields io stack more g) : Yields io stack (code ++ more) fun log => g (f log) := by
  intro m same
  obtain ⟨eax, ebx, edx, first⟩ := h m same
  obtain ⟨eax', ebx', edx', second, result⟩ := h' ⟨eax, ebx, edx, m.stack, f m.log⟩ same
  exact ⟨eax', ebx', edx', by rw [run_append, first, second], result⟩

/-- The value is kept in `%ebx` while the controller is moved. -/
theorem Yields.save {code more : List Instr} {f : Log → Log} {g : Log → Nat × Log}
    (h : Yields io stack code g)
    (h' : Moves io more f) :
    Yields io stack (code ++ [.movl (.reg .eax) .ebx] ++ more ++ [.movl (.reg .ebx) .eax])
      fun log => ((g log).1, f (g log).2) := by
  intro m same
  obtain ⟨eax, ebx, edx, first, result⟩ := h m same
  obtain ⟨eax', edx', second⟩ := h' ⟨eax, eax, edx, m.stack, (g m.log).2⟩
  refine ⟨eax, eax, edx', ?_, result⟩
  rw [run_append, run_append, run_append, first]
  exact congrArg (fun m => run io [.movl (.reg .ebx) .eax] m) second

/-- An operand that only depends on the stack. -/
def Reads (stack : List Dword) (src : Source Reg 32) (v : Dword) : Prop :=
  ∀ m : Machine, m.stack = stack → m.read src = v

def Reads8 (stack : List Dword) (src : Source Reg8 8) (b : Byte) : Prop :=
  ∀ m : Machine, m.stack = stack → m.read8 src = b

theorem does_writeDr {src : Source Reg 32} {v : Dword} (reads : Reads stack src v) (n : Nat) :
    Does io stack ([.movl src .ebx] ++ writeDr n) (Jtag.writeDr v.toNat n) := by
  intro m same
  obtain ⟨eax, edx, shifted⟩ := run_shiftIn io n { m with ebx := v }
  have update : Moves io shiftToUpdate Jtag.shiftToUpdate := moves_shiftToUpdate
  obtain ⟨eax', edx', updated⟩ := update
    ⟨eax, v >>> n, edx, m.stack, Jtag.shiftIn v.toNat n m.log⟩
  refine ⟨eax', v >>> n, edx', ?_⟩
  have loaded : run io [.movl src .ebx] m = { m with ebx := v } := by
    rw [← reads m same]
    rfl
  rw [writeDr, run_append, run_append, loaded, shifted, updated]
  rfl

theorem low_byte (x : Dword) (b : Byte) : lowBits (setLow x b).toNat 8 = lowBits b.toNat 8 := by
  apply List.map_congr_left
  intro i small
  have inside : i < 8 := List.mem_range.mp small
  change (setLow x b).getLsbD i = b.getLsbD i
  rw [setLow, BitVec.getLsbD_append]
  simp [inside]

theorem does_writeIr {src : Source Reg8 8} {b : Byte} (reads : Reads8 stack src b) :
    Does io stack (writeIr src) (Jtag.writeIr b.toNat) := by
  intro m same
  have select : Moves io idleToShiftIr Jtag.idleToShiftIr := moves_idleToShiftIr
  have idle : Moves io shiftToIdle Jtag.shiftToIdle := moves_shiftToIdle
  obtain ⟨eax, edx, selected⟩ := select m
  have loaded : run io [.movb src .bl] ⟨eax, m.ebx, edx, m.stack, Jtag.idleToShiftIr m.log⟩ =
      ⟨eax, setLow m.ebx b, edx, m.stack, Jtag.idleToShiftIr m.log⟩ := by
    rw [← reads ⟨eax, m.ebx, edx, m.stack, Jtag.idleToShiftIr m.log⟩ same]
    rfl
  obtain ⟨eax₁, edx₁, shifted⟩ := run_shiftIn io 8
    ⟨eax, setLow m.ebx b, edx, m.stack, Jtag.idleToShiftIr m.log⟩
  obtain ⟨eax₂, edx₂, done⟩ := idle
    ⟨eax₁, setLow m.ebx b >>> 8, edx₁, m.stack, Jtag.shiftIn b.toNat 8 (Jtag.idleToShiftIr m.log)⟩
  refine ⟨eax₂, setLow m.ebx b >>> 8, edx₂, ?_⟩
  rw [writeIr, run_append, run_append, run_append, selected, loaded, shifted, Jtag.shiftIn_eq,
    low_byte, ← Jtag.shiftIn_eq, done]
  rfl

theorem does_memAccessImpl {value1 value2 : Source Reg 32} {addr code : Dword}
    (reads1 : Reads stack value1 addr)
    (reads2 : Reads stack value2 code) :
    Does io stack (memAccessImpl value1 value2) (Jtag.memAccess addr.toNat code.toNat) := by
  have command : Does io stack (writeIr (.imm 0x11#8)) (Jtag.writeIr (0x11#8).toNat) :=
    does_writeIr fun _ _ => rfl
  have all := (((command.append moves_idleToShiftDr.does).append (does_writeDr reads1 32)).append
    moves_updateToShiftDr.does).append (does_writeDr reads2 8)
  simp only [List.append_assoc] at all
  simp only [memAccessImpl, List.append_assoc]
  exact all

section
variable {p : Status} (agree : ∀ log, tdo p log = level io log)
include agree

theorem yields_shiftOut (n : Nat) (wide : 2 ≤ n) (fits : n ≤ 32) :
    Yields io stack (shiftOut n) (Jtag.shiftOut p n) := by
  intro m _
  obtain ⟨eax, ebx, sampled, bits⟩ := run_samples io n n wide fits (Nat.le_refl n)
    (m := ⟨m.eax, 0#32, setLow16 m.edx port, m.stack, m.log⟩) (setLow16_low m.edx port)
      (fun _ _ => by simp)
  have same : tdo p = level io := funext agree
  refine ⟨ebx, ebx, setLow16 m.edx port, ?_, ?_⟩
  · have cleared : run io [.movw port, .xorl .ebx .ebx] m =
        ⟨m.eax, 0#32, setLow16 m.edx port, m.stack, m.log⟩ := by
      simp [run, exec, Machine.set, Machine.get]
    rw [shiftOut, run_append, run_append, cleared, sampled, Jtag.shiftOut_eq, same]
    rfl
  · rw [Jtag.shiftOut_eq, same]
    apply eq_value
    intro i
    have bit := bits i
    rw [if_neg (by omega), Nat.add_sub_cancel] at bit
    by_cases inside : i < n
    · rw [decide_eq_true inside, Bool.true_and] at bit
      exact bit
    · rw [decide_eq_false inside, Bool.false_and] at bit
      rw [List.getD_eq_default _ _ (by rw [length_sampled]; omega)]
      exact bit

theorem yields_readDr (n : Nat) (wide : 2 ≤ n) (fits : n ≤ 32) :
    Yields io stack (readDr n) (Jtag.readDr p n) :=
  (yields_shiftOut agree n wide fits).save moves_shiftToUpdate

end

end

/-! ## The functions -/

/-- The stack inside a function. -/
def frame (caller : Caller) (args : List Dword) (log : Log) : List Dword :=
  caller.ebx log :: caller.edx log :: caller.address log :: args

section
variable {io : Ports} {caller : Caller} {args : List Dword} {log : Log}

theorem call_eq (io : Ports) (caller : Caller) (args : List Dword) (log : Log)
    (body : List Instr) : ∃ eax ebx edx,
    call io caller (enter ++ body ++ leave) args log =
    ((run io leave (run io body ⟨eax, ebx, edx, frame caller args log, log⟩)).eax,
      (run io leave (run io body ⟨eax, ebx, edx, frame caller args log, log⟩)).log) :=
  ⟨caller.eax log, caller.ebx log, caller.edx log, by rw [call, run_append, run_append]; rfl⟩

theorem Does.call {body : List Instr} {f : Log → Log} (h : Does io (frame caller args log) body f) :
    (call io caller (enter ++ body ++ leave) args log).2 = f log := by
  obtain ⟨eax, ebx, edx, called⟩ := call_eq io caller args log body
  obtain ⟨eax', ebx', edx', done⟩ := h ⟨eax, ebx, edx, frame caller args log, log⟩ rfl
  rw [called, done]
  rfl

theorem Yields.call {body : List Instr} {g : Log → Nat × Log}
    (h : Yields io (frame caller args log) body g) :
    (call io caller (enter ++ body ++ leave) args log).1.toNat = (g log).1 ∧
      (call io caller (enter ++ body ++ leave) args log).2 = (g log).2 := by
  obtain ⟨eax, ebx, edx, called⟩ := call_eq io caller args log body
  obtain ⟨eax', ebx', edx', done, result⟩ := h ⟨eax, ebx, edx, frame caller args log, log⟩ rfl
  rw [called, done]
  exact ⟨result, rfl⟩

end

theorem reads_first (caller : Caller) (val : Dword) (args : List Dword) (log : Log) :
    Reads (frame caller (val :: args) log) (.esp 12) val := by
  intro m same
  rw [Machine.read, same]
  rfl

theorem reads_second (caller : Caller) (first val : Dword) (log : Log) :
    Reads (frame caller [first, val] log) (.esp 16) val := by
  intro m same
  rw [Machine.read, same]
  rfl

theorem moves_port (io : Ports) : Moves io [.movw port] fun log => log :=
  fun m => ⟨m.eax, setLow16 m.edx port, rfl⟩

/-- The target, as both see it. -/
structure Target where
  status : Status
  io : Ports
  agree : ∀ log, tdo status log = level io log

/-- The cable to a target whose TDO is read from these ports: its status port has TDO in bit 4. -/
def Target.ofPorts (io : Ports) : Target where
  status log := if level io log then 16#8 else 0#8
  io := io
  agree log := by
    show decide ((if level io log then 16#8 else 0#8) &&& 16#8 ≠ 0#8) = level io log
    cases level io log <;> rfl

/-- No ports are left out by `agree`. -/
theorem Target.exists_io_eq (io : Ports) : ∃ t : Target, t.io = io := ⟨ofPorts io, rfl⟩

section
variable (t : Target) (caller : Caller) (log : Log)

theorem jtagWriteIr_eq (val : Dword) :
    (call t.io caller jtagWriteIr [val] log).2 = Jtag.writeIr (val.setWidth 8).toNat log := by
  have reads : Reads8 (frame caller [val] log) (.esp 12) (val.setWidth 8) := by
    intro m same
    rw [Machine.read8, same]
    rfl
  exact (does_writeIr reads).call

theorem jtagIdleToShiftDr_eq : (call t.io caller jtagIdleToShiftDr [] log).2 =
    Jtag.idleToShiftDr log :=
  moves_idleToShiftDr.does.call

theorem jtagUpdateToShiftDr_eq : (call t.io caller jtagUpdateToShiftDr [] log).2 =
    Jtag.updateToShiftDr log :=
  moves_updateToShiftDr.does.call

theorem jtagUpdateToIdle_eq : (call t.io caller jtagUpdateToIdle [] log).2 = Jtag.updateToIdle log :=
  moves_updateToIdle.does.call

theorem jtagWriteDr32_eq (val : Dword) :
    (call t.io caller jtagWriteDr32 [val] log).2 = Jtag.writeDr val.toNat 32 log :=
  (does_writeDr (reads_first caller val [] log) 32).call

theorem jtagReadDr_eq (n : Nat) (wide : 2 ≤ n) (fits : n ≤ 32) :
    (call t.io caller (jtagReadDr n) [] log).1.toNat = (Jtag.readDr t.status n log).1 ∧
      (call t.io caller (jtagReadDr n) [] log).2 = (Jtag.readDr t.status n log).2 :=
  (yields_readDr t.agree n wide fits).call

theorem jtagMemAccess_eq (addr code : Dword) :
    (call t.io caller jtagMemAccess [addr, code] log).2 =
      Jtag.memAccess addr.toNat code.toNat log := by
  have body := (moves_port t.io).does.append
    (does_memAccessImpl (reads_first caller addr [code] log) (reads_second caller addr code log))
  exact body.call

theorem jtagReadMem16_eq (addr : Dword) :
    (call t.io caller jtagReadMem16 [addr] log).1.toNat = (Jtag.readMem16 t.status addr.toNat log).1 ∧
      (call t.io caller jtagReadMem16 [addr] log).2 = (Jtag.readMem16 t.status addr.toNat log).2 := by
  have code : Reads (frame caller [addr] log) (.imm 0x19#32) 0x19#32 := fun _ _ => rfl
  have access := ((moves_port t.io).does.append
    (does_memAccessImpl (reads_first caller addr [] log) code)).append moves_updateToShiftDr.does
  have word := access.yields (yields_readDr t.agree 16 (by decide) (by decide))
  have body := word.save moves_updateToIdle
  exact body.call

theorem jtagWriteMem16_eq (addr val : Dword) :
    (call t.io caller jtagWriteMem16 [addr, val] log).2 =
      Jtag.writeMem16 addr.toNat val.toNat log := by
  have code : Reads (frame caller [addr, val] log) (.imm 0x1d#32) 0x1d#32 := fun _ _ => rfl
  have access := ((moves_port t.io).does.append
    (does_memAccessImpl (reads_first caller addr [val] log) code)).append moves_updateToShiftDr.does
  have written := access.append (does_writeDr (reads_second caller addr val log) 16)
  have body := written.append moves_updateToIdle.does
  have whole := body.call
  simp only [List.append_assoc] at whole
  simp only [jtagWriteMem16, List.append_assoc]
  exact whole

/-! ## The operations -/

theorem readDr_lt (p : Status) (n : Nat) (log : Log) : (Jtag.readDr p n log).1 < 2 ^ n := by
  have small := value_lt (sampled (tdo p) n log)
  rw [length_sampled] at small
  rw [Jtag.readDr, Jtag.shiftOut_eq]
  exact small

/-- The masks in C do not change anything. -/
theorem mask16 {x : Dword} (small : x.toNat < 2 ^ 16) :
    ((x &&& 0xffff#32).setWidth 16).toNat = x.toNat := by
  have low : x.toNat &&& 0xffff = x.toNat % 2 ^ 16 := Nat.and_two_pow_sub_one_eq_mod x.toNat 16
  rw [BitVec.toNat_setWidth, BitVec.toNat_and]
  change (x.toNat &&& 0xffff) % 2 ^ 16 = x.toNat
  rw [low, Nat.mod_mod, Nat.mod_eq_of_lt small]

theorem mask8 {x : Dword} (small : x.toNat < 2 ^ 8) :
    ((x &&& 0xff#32).setWidth 8).toNat = x.toNat := by
  have low : x.toNat &&& 0xff = x.toNat % 2 ^ 8 := Nat.and_two_pow_sub_one_eq_mod x.toNat 8
  rw [BitVec.toNat_setWidth, BitVec.toNat_and]
  change (x.toNat &&& 0xff) % 2 ^ 8 = x.toNat
  rw [low, Nat.mod_mod, Nat.mod_eq_of_lt small]

theorem status_eq : (status t.io caller log).1.toNat = (Jtag.status t.status log).1 ∧
    (status t.io caller log).2 = (Jtag.status t.status log).2 := by
  have python : Jtag.status t.status log =
      ((Jtag.readDr t.status 16 (Jtag.idleToShiftDr (Jtag.writeIr 0x0f log))).1,
        Jtag.updateToIdle
          (Jtag.readDr t.status 16 (Jtag.idleToShiftDr (Jtag.writeIr 0x0f log))).2) := rfl
  obtain ⟨value, wires⟩ := jtagReadDr_eq t caller (Jtag.idleToShiftDr (Jtag.writeIr 0x0f log)) 16
    (by decide) (by decide)
  have command : (call t.io caller jtagWriteIr [0x0f#32] log).2 = Jtag.writeIr 0x0f log :=
    jtagWriteIr_eq t caller log 0x0f#32
  rw [python, status, command, jtagIdleToShiftDr_eq, jtagReadDr16, jtagUpdateToIdle_eq, wires]
  refine ⟨?_, rfl⟩
  rw [mask16, value]
  rw [value]
  exact readDr_lt _ _ _

/-- After a word: the loops in C count down, those in Python up. -/
theorem advance_eq (n i : Nat) :
    (if n + 1 = 1 then (call t.io caller jtagUpdateToIdle [] log).2
      else (call t.io caller jtagUpdateToShiftDr [] log).2) =
    if i = i + (n + 1) - 1 then Jtag.updateToIdle log else Jtag.updateToShiftDr log := by
  rw [jtagUpdateToIdle_eq, jtagUpdateToShiftDr_eq]
  exact if_congr (by omega) rfl rfl

theorem readLoop_eq (n i : Nat) :
    (readLoop t.io caller n log).1.map BitVec.toNat =
        (Jtag.readLoop t.status 32 (i + n) (List.range' i n) log).1 ∧
      (readLoop t.io caller n log).2 =
        (Jtag.readLoop t.status 32 (i + n) (List.range' i n) log).2 := by
  induction n generalizing i log with
  | zero => exact ⟨rfl, rfl⟩
  | succ n ih =>
    obtain ⟨word, wires⟩ := jtagReadDr_eq t caller log 32 (by decide) (by decide)
    rw [readLoop, jtagReadDr32, advance_eq t caller _ n i, wires, List.range'_succ, Jtag.readLoop]
    generalize (if i = i + (n + 1) - 1 then Jtag.updateToIdle (Jtag.readDr t.status 32 log).2
      else Jtag.updateToShiftDr (Jtag.readDr t.status 32 log).2) = next
    obtain ⟨words, after⟩ := ih next (i + 1)
    rw [show i + 1 + n = i + (n + 1) by omega] at words after
    refine ⟨?_, after⟩
    rw [List.map_cons, words, word]

theorem writeLoop_eq (data : Nat → Dword) (words : List Dword) (i : Nat)
    (stored : ∀ j word, words[j]? = some word → data (i + j) = word) :
    writeLoop t.io caller data i words.length log =
      Jtag.writeLoop 32 (i + words.length)
        ((words.map fun word => (word.toNat : Int)).zipIdx i) log := by
  induction words generalizing i log with
  | nil => rfl
  | cons word words ih =>
    have here : data i = word := stored 0 word rfl
    have later : ∀ j word, words[j]? = some word → data (i + 1 + j) = word := by
      intro j word found
      rw [Nat.add_assoc, Nat.add_comm 1 j]
      exact stored (j + 1) word found
    rw [List.length_cons, writeLoop, here, jtagWriteDr32_eq, advance_eq t caller _ words.length i,
      ih _ (i + 1) later, List.map_cons, List.zipIdx_cons, Jtag.writeLoop,
      show i + 1 + words.length = i + (words.length + 1) by omega]

theorem command_eq (command : Byte) : (call t.io caller jtagWriteIr [command.setWidth 32] log).2 =
    Jtag.writeIr command.toNat log := by
  have same : (command.setWidth 32).setWidth 8 = command := by simp
  rw [jtagWriteIr_eq, same]

theorem readData32_eq (command : Byte) (n : Nat) :
    (readData32 t.io caller command (4 * n) log).1.map BitVec.toNat =
        (Jtag.readData t.status command.toNat 32 n log).1 ∧
      (readData32 t.io caller command (4 * n) log).2 =
        (Jtag.readData t.status command.toNat 32 n log).2 := by
  rw [readData32, Jtag.readData, command_eq]
  by_cases none : n = 0
  · subst none
    exact ⟨rfl, rfl⟩
  · have loop := readLoop_eq t caller (Jtag.idleToShiftDr (Jtag.writeIr command.toNat log)) n 0
    rw [Nat.zero_add, ← List.range_eq_range'] at loop
    rw [if_pos (by omega), if_pos none, jtagIdleToShiftDr_eq, Nat.mul_div_cancel_left n (by decide)]
    exact loop

theorem writeData_eq (command : Byte) (words : List Dword) :
    writeData t.io caller command (fun i => words.getD i 0#32) (4 * words.length) log =
      Jtag.writeData command.toNat 32 (words.map fun word => (word.toNat : Int)) log := by
  rw [writeData, Jtag.writeData, command_eq]
  cases words with
  | nil => rfl
  | cons word rest =>
    have stored : ∀ j found, (word :: rest)[j]? = some found →
        (word :: rest).getD (0 + j) 0#32 = found := by
      intro j found at_j
      rw [Nat.zero_add, List.getD_eq_getElem?_getD, at_j]
      rfl
    have loop := writeLoop_eq t caller (Jtag.idleToShiftDr (Jtag.writeIr command.toNat log))
      (fun i => (word :: rest).getD i 0#32) (word :: rest) 0 stored
    rw [if_pos (by simp), if_pos (by simp), jtagIdleToShiftDr_eq,
      Nat.mul_div_cancel_left _ (by decide), loop, List.length_map, Nat.zero_add]

theorem resetFlags_eq : resetFlags t.io caller log = Jtag.resetFlags log :=
  writeData_eq t caller log 0x0d#8 tosend

theorem dumpLoop_eq (count : Nat) :
    (dumpLoop t.io caller count log).1.map BitVec.toNat = (Jtag.dumpLoop t.status count log).1 ∧
      (dumpLoop t.io caller count log).2 = (Jtag.dumpLoop t.status count log).2 := by
  induction count generalizing log with
  | zero => exact ⟨rfl, rfl⟩
  | succ count ih =>
    obtain ⟨byte, wires⟩ := jtagReadDr_eq t caller (Jtag.updateToShiftDr log) 8 (by decide)
      (by decide)
    obtain ⟨bytes, after⟩ := ih (Jtag.readDr t.status 8 (Jtag.updateToShiftDr log)).2
    have small : (call t.io caller (jtagReadDr 8) [] (Jtag.updateToShiftDr log)).1.toNat < 2 ^ 8 := by
      rw [byte]
      exact readDr_lt _ _ _
    rw [dumpLoop, jtagUpdateToShiftDr_eq, jtagReadDr8, wires, Jtag.dumpLoop]
    refine ⟨?_, after⟩
    rw [List.map_cons, bytes, mask8 small, byte]

theorem dumpMem_eq (addr : Dword) {count : Nat} (small : count ≤ 0x80) :
    (dumpMem t.io caller addr count log).1.map BitVec.toNat =
        (Jtag.dumpMem t.status addr.toNat count (Jtag.resetFlags log)).1 ∧
      (dumpMem t.io caller addr count log).2 =
        (Jtag.dumpMem t.status addr.toNat count (Jtag.resetFlags log)).2 := by
  have access : (call t.io caller jtagMemAccess [addr, 0x18#32] (Jtag.resetFlags log)).2 =
      Jtag.memAccess addr.toNat 0x18 (Jtag.resetFlags log) := jtagMemAccess_eq t caller _ addr 0x18#32
  obtain ⟨bytes, after⟩ := dumpLoop_eq t caller
    (Jtag.memAccess addr.toNat 0x18 (Jtag.resetFlags log)) count
  rw [dumpMem, if_neg (by omega), Jtag.dumpMem]
  simp only [resetFlags_eq, access, jtagUpdateToIdle_eq, after, and_true]
  exact bytes

end

/-- What can be asked for on both sides. -/
inductive Request where
  | readMem16 (addr : Dword)
  | writeMem16 (addr val : Dword)
  | status
  | writeData (command : Byte) (data : List Dword)
  | readData (command : Byte) (toread : Nat)
  | dumpMem (addr : Dword) (count : Nat) (small : count ≤ 0x80)

/-- The operations in C and assembly, with the values that they return. -/
def native (t : Target) (caller : Caller) : Request → Log → List Nat × Log
  | .readMem16 addr, log =>
    let out := call t.io caller jtagReadMem16 [addr] log
    ([out.1.toNat], out.2)
  | .writeMem16 addr val, log => ([], (call t.io caller jtagWriteMem16 [addr, val] log).2)
  | .status, log =>
    let out := status t.io caller log
    ([out.1.toNat], out.2)
  | .writeData command data, log =>
    ([], writeData t.io caller command (fun i => data.getD i 0#32) (4 * data.length) log)
  | .readData command toread, log =>
    let out := readData32 t.io caller command (4 * toread) log
    (out.1.map BitVec.toNat, out.2)
  | .dumpMem addr count _, log =>
    let out := dumpMem t.io caller addr count log
    (out.1.map BitVec.toNat, out.2)

/-- The operations in Python. -/
def python (t : Target) : Request → Log → List Nat × Log
  | .readMem16 addr, log =>
    let out := Jtag.readMem16 t.status addr.toNat log
    ([out.1], out.2)
  | .writeMem16 addr val, log => ([], Jtag.writeMem16 addr.toNat val.toNat log)
  | .status, log =>
    let out := Jtag.status t.status log
    ([out.1], out.2)
  | .writeData command data, log =>
    ([], Jtag.writeData command.toNat 32 (data.map fun word => (word.toNat : Int)) log)
  | .readData command toread, log => Jtag.readData t.status command.toNat 32 toread log
  | .dumpMem addr count _, log => Jtag.dumpMem t.status addr.toNat count (Jtag.resetFlags log)

/-- The answers to some requests, and what has happened at the wires. -/
def serve (f : Request → Log → List Nat × Log) : List Request → Log → List (List Nat) × Log
  | [], log => ([], log)
  | request :: requests, log =>
    let answer := f request log
    let rest := serve f requests answer.2
    (answer.1 :: rest.1, rest.2)

theorem native_eq_python (t : Target) (caller : Caller) (request : Request) (log : Log) :
    native t caller request log = python t request log := by
  cases request with
  | readMem16 addr =>
    obtain ⟨value, wires⟩ := jtagReadMem16_eq t caller log addr
    simp only [native, python, value, wires]
  | writeMem16 addr val => simp only [native, python, jtagWriteMem16_eq]
  | status =>
    obtain ⟨value, wires⟩ := status_eq t caller log
    simp only [native, python, value, wires]
  | writeData command data => simp only [native, python, writeData_eq]
  | readData command toread =>
    obtain ⟨values, wires⟩ := readData32_eq t caller log command toread
    simp only [native, python, values, wires]
  | dumpMem addr count small =>
    obtain ⟨values, wires⟩ := dumpMem_eq t caller log addr small
    simp only [native, python, values, wires]

/-- Both sides give the same answers, and do the same at the wires. -/
theorem same_on_the_wires (t : Target) (caller : Caller) (requests : List Request) (log : Log) :
    serve (native t caller) requests log = serve (python t) requests log := by
  have same : native t caller = python t := by
    funext request log
    exact native_eq_python t caller request log
  rw [same]

end Bifferboard.Gpio
