import Bifferboard.Jtag.Xilinx

/-!
# What the operations do to the controller

Each operation of `rdc.py` strings together fragments that move the controller from
one state to the next. Seen from the other end of the cable it is a sequence of
scans, one for each instruction and for each word.
-/

namespace Bifferboard.Jtag
open Tap Monitor

/-! ## Operations -/

inductive Op where
  | readData (command : Int) (dataBits toread : Nat)
  | writeData (command : Int) (dataBits : Nat) (data : List Int)
  | status
  | dumpMem (addr : Int) (count : Nat)
  | readMem16 (addr : Int)
  | writeMem16 (addr val : Int)

/-- An operation, with the values that it returns. -/
def perform (p : Status) : Op → Log → List Nat × Log
  | .readData command dataBits toread, log => readData p command dataBits toread log
  | .writeData command dataBits data, log => ([], writeData command dataBits data log)
  | .status, log => ([(status p log).1], (status p log).2)
  | .dumpMem addr count, log => dumpMem p addr count log
  | .readMem16 addr, log => ([(readMem16 p addr log).1], (readMem16 p addr log).2)
  | .writeMem16 addr val, log => ([], writeMem16 addr val log)

/-- The log after some operations. -/
def performed (p : Status) (ops : List Op) (log : Log) : Log :=
  ops.foldl (fun log op => (perform p op log).2) log

/-- What is transferred in one scan. -/
inductive Transfer where
  | instr (command : Int)
  | write (val : Int) (bits : Nat)
  | read (bits : Nat)

/-- What an operation is to transfer. -/
def Op.transfers : Op → List Transfer
  | .readData command dataBits toread => .instr command :: List.replicate toread (.read dataBits)
  | .writeData command dataBits data => .instr command :: data.map fun val => .write val dataBits
  | .status => [.instr 0x0f, .read 16]
  | .dumpMem addr count =>
    [.instr 0x11, .write addr 32, .write 0x18 8] ++ List.replicate count (.read 8)
  | .readMem16 addr => [.instr 0x11, .write addr 32, .write 0x19 8, .read 16]
  | .writeMem16 addr val => [.instr 0x11, .write addr 32, .write 0x1d 8, .write val 16]

/-- There is one scan for each transfer. The bits of an instruction or of a word that
is written go out at its edges, and a word that is read is made of its samples. -/
inductive Carries : List Transfer → List Scan → List Nat → Prop
  | nil : Carries [] [] []
  | instr {transfers : List Transfer} {scans : List Scan} {values : List Nat} (command : Int) :
      Carries transfers scans values →
      Carries (.instr command :: transfers) (⟨.instruction, lowBits command 8, []⟩ :: scans) values
  | write {transfers : List Transfer} {scans : List Scan} {values : List Nat} (val : Int)
      (bits : Nat) :
      Carries transfers scans values →
      Carries (.write val bits :: transfers) (⟨.data, lowBits val bits, []⟩ :: scans) values
  | read {transfers : List Transfer} {scans : List Scan} {values : List Nat} {bits : Nat}
      {tdi samples : List Bool} (all : samples.length = bits) :
      Carries transfers scans values →
      Carries (.read bits :: transfers) (⟨.data, tdi, samples⟩ :: scans) (value samples :: values)

/-! ## Where the controller is -/

/-- The controller is in this state, after these scans. -/
def Reached (m : Monitor) (log : Log) (state : State) (scans : List Scan) : Prop :=
  ∃ tck tdi tdo, watch log m = ⟨state, tck, tdi, tdo, scans⟩

/-- A scan has just started. -/
def Started (m : Monitor) (log : Log) (r : Register) (scans : List Scan) : Prop :=
  watch log m = ⟨.shift r, true, [], [], scans⟩

variable {m : Monitor} {log : Log} {scans : List Scan}

theorem watch_setStates (tms : List Bool) : watch (setStates tms log) m =
    watch (moves tms) (watch log m) := by
  rw [setStates_eq, watch_append]

theorem Reached.idleToShiftIr (idle : Reached m log .runTestIdle scans) :
    Started m (idleToShiftIr log) .instruction scans := by
  obtain ⟨tck, tdi, tdo, same⟩ := idle
  rw [Started, Jtag.idleToShiftIr, watch_setStates, same]
  simp [clock]

theorem Reached.idleToShiftDr (idle : Reached m log .runTestIdle scans) :
    Started m (idleToShiftDr log) .data scans := by
  obtain ⟨tck, tdi, tdo, same⟩ := idle
  rw [Started, Jtag.idleToShiftDr, watch_setStates, same]
  simp [clock]

theorem Reached.updateToShiftDr (updated : Reached m log (.update .data) scans) :
    Started m (updateToShiftDr log) .data scans := by
  obtain ⟨tck, tdi, tdo, same⟩ := updated
  rw [Started, Jtag.updateToShiftDr, watch_setStates, same]
  simp [clock]

theorem Reached.updateToIdle {r : Register} (updated : Reached m log (.update r) scans) :
    Reached m (updateToIdle log) .runTestIdle scans := by
  obtain ⟨tck, tdi, tdo, same⟩ := updated
  refine ⟨true, tdi, tdo, ?_⟩
  rw [Jtag.updateToIdle, watch_setStates, same]
  simp [clock]

/-- A scan ends. -/
theorem reached_update {r : Register} {tck : Bool} {tdi tdo : List Bool}
    (shifted : watch log m = ⟨.shift r, tck, tdi, tdo, scans⟩) :
    Reached m (shiftToUpdate log) (.update r) (scans ++ [⟨r, tdi, tdo⟩]) := by
  refine ⟨true, tdi, tdo, ?_⟩
  rw [shiftToUpdate, watch_setStates, shifted]
  simp [clock]

theorem Started.shiftIn {r : Register} (started : Started m log r scans) (val : Int) (bits : Nat) :
    watch (shiftIn val bits log) m = ⟨.shift r, true, lowBits val bits, [], scans⟩ := by
  rw [shiftIn_eq, watch_append, started, watch_cycles, List.nil_append]

/-! ## Transfers -/

/-- The controller is in this state, and has seen the scans of some transfers since
there were `scans`. -/
def Carried (m : Monitor) (log : Log) (state : State) (scans : List Scan) (transfers : List Transfer)
    (values : List Nat) : Prop :=
  ∃ more, Carries transfers more values ∧ Reached m log state (scans ++ more)

theorem Carries.append {first rest : List Transfer} {scans more : List Scan}
    {values others : List Nat}
    (h : Carries first scans values) (h' : Carries rest more others) :
    Carries (first ++ rest) (scans ++ more) (values ++ others) := by
  induction h with
  | nil => exact h'
  | instr command _ ih => exact ih.instr command
  | write val bits _ ih => exact ih.write val bits
  | read all _ ih => exact ih.read all

section
variable {log' : Log} {state state' : State} {first rest : List Transfer} {values others : List Nat}

theorem Carried.trans (h : Carried m log state scans first values)
    (h' : ∀ more, Reached m log state more → Carried m log' state' more rest others) :
    Carried m log' state' scans (first ++ rest) (values ++ others) := by
  obtain ⟨more, carries, reached⟩ := h
  obtain ⟨later, carries', reached'⟩ := h' _ reached
  exact ⟨more ++ later, carries.append carries', by rwa [← List.append_assoc]⟩

/-- The controller moves on without a scan. -/
theorem Carried.move (h : Carried m log state scans first values)
    (move : ∀ more, Reached m log state more → Reached m log' state' more) :
    Carried m log' state' scans first values := by
  obtain ⟨more, carries, reached⟩ := h
  exact ⟨more, carries, move _ reached⟩

end

theorem Reached.writeIr (idle : Reached m log .runTestIdle scans) (command : Int) :
    Carried m (writeIr command log) .runTestIdle scans [.instr command] [] := by
  refine ⟨_, .instr command .nil, ?_⟩
  exact (reached_update (idle.idleToShiftIr.shiftIn command 8)).updateToIdle

theorem Started.writeDr (started : Started m log .data scans) (val : Int) (bits : Nat) :
    Carried m (writeDr val bits log) (.update .data) scans [.write val bits] [] :=
  ⟨_, .write val bits .nil, reached_update (started.shiftIn val bits)⟩

theorem Started.readDr (started : Started m log .data scans) (p : Status) (bits : Nat) :
    Carried m (readDr p bits log).2 (.update .data) scans [.read bits] [(readDr p bits log).1] := by
  obtain ⟨tck, tdi, shifted⟩ := watch_pulses_high .data (sampled (tdo p) bits log) scans
  rw [Jtag.readDr, shiftOut_eq]
  refine ⟨[⟨.data, tdi, sampled (tdo p) bits log⟩], .read (length_sampled (tdo p) bits log) .nil, ?_⟩
  apply reached_update
  rw [watch_append, started, shifted]

/-! ## Operations -/

/-- The loop of `ReadData`. All but the last word are followed by another scan. -/
theorem Started.readLoop (started : Started m log .data scans) (p : Status) (bits n i : Nat) :
    Carried m (readLoop p bits (i + (n + 1)) (List.range' i (n + 1)) log).2 .runTestIdle scans
      (List.replicate (n + 1) (.read bits))
      (readLoop p bits (i + (n + 1)) (List.range' i (n + 1)) log).1 := by
  induction n generalizing i log scans with
  | zero =>
    rw [List.range'_succ, Jtag.readLoop, if_pos (by omega)]
    exact (started.readDr p bits).move fun _ updated => updated.updateToIdle
  | succ n ih =>
    rw [List.range'_succ, Jtag.readLoop, if_neg (by omega), List.replicate_succ,
      show i + (n + 1 + 1) = i + 1 + (n + 1) by omega]
    exact (started.readDr p bits).trans fun _ updated => ih updated.updateToShiftDr (i + 1)

theorem Started.writeLoop (started : Started m log .data scans) (bits : Nat) (val : Int)
    (data : List Int) (i : Nat) :
    Carried m (writeLoop bits (i + (data.length + 1)) ((val :: data).zipIdx i) log) .runTestIdle scans
      ((val :: data).map fun val => .write val bits) [] := by
  induction data generalizing val i log scans with
  | nil =>
    rw [List.zipIdx_cons, Jtag.writeLoop, List.length_nil, if_pos (by omega)]
    exact (started.writeDr val bits).move fun _ updated => updated.updateToIdle
  | cons next data ih =>
    rw [List.zipIdx_cons, Jtag.writeLoop, List.length_cons, if_neg (by omega), List.map_cons,
      show i + (data.length + 1 + 1) = i + 1 + (data.length + 1) by omega]
    exact (started.writeDr val bits).trans fun _ updated => ih updated.updateToShiftDr next (i + 1)

theorem Reached.readData (idle : Reached m log .runTestIdle scans) (p : Status) (command : Int)
    (bits toread : Nat) :
    Carried m (readData p command bits toread log).2 .runTestIdle scans
      (.instr command :: List.replicate toread (.read bits))
        (readData p command bits toread log).1 := by
  cases toread with
  | zero => exact idle.writeIr command
  | succ n =>
    have range : List.range (n + 1) = List.range' 0 (n + 1) := List.range_eq_range'
    rw [Jtag.readData, if_pos (Nat.succ_ne_zero n), range]
    refine (idle.writeIr command).trans fun _ idle => ?_
    have loop := idle.idleToShiftDr.readLoop p bits n 0
    rwa [Nat.zero_add] at loop

theorem Reached.writeData (idle : Reached m log .runTestIdle scans) (command : Int) (bits : Nat)
    (data : List Int) :
    Carried m (writeData command bits data log) .runTestIdle scans
      (.instr command :: data.map fun val => .write val bits) [] := by
  cases data with
  | nil => exact idle.writeIr command
  | cons val data =>
    rw [Jtag.writeData, if_pos (List.cons_ne_nil val data)]
    refine (idle.writeIr command).trans fun _ idle => ?_
    have loop := idle.idleToShiftDr.writeLoop bits val data 0
    rwa [Nat.zero_add] at loop

theorem Reached.memAccess (idle : Reached m log .runTestIdle scans) (addr code : Int) :
    Carried m (memAccess addr code log) (.update .data) scans
      [.instr 0x11, .write addr 32, .write code 8] [] :=
  (idle.writeIr 0x11).trans fun _ idle =>
    (idle.idleToShiftDr.writeDr addr 32).trans fun _ updated => updated.updateToShiftDr.writeDr code 8

theorem Reached.dumpLoop (updated : Reached m log (.update .data) scans) (p : Status) (count : Nat) :
    Carried m (dumpLoop p count log).2 (.update .data) scans (List.replicate count (.read 8))
      (dumpLoop p count log).1 := by
  induction count generalizing log scans with
  | zero => exact ⟨[], .nil, by rwa [List.append_nil]⟩
  | succ count ih =>
    rw [List.replicate_succ]
    exact (updated.updateToShiftDr.readDr p 8).trans fun _ updated => ih updated

/-- An operation goes from idle to idle. -/
theorem Reached.perform (idle : Reached m log .runTestIdle scans) (p : Status) (op : Op) :
    Carried m (perform p op log).2 .runTestIdle scans op.transfers (perform p op log).1 := by
  cases op with
  | readData command bits toread => exact idle.readData p command bits toread
  | writeData command bits data => exact idle.writeData command bits data
  | status => exact idle.readData p 0x0f 16 1
  | dumpMem addr count =>
    have scanned := (idle.memAccess addr 0x18).trans fun _ updated => updated.dumpLoop p count
    exact scanned.move fun _ updated => updated.updateToIdle
  | readMem16 addr =>
    have scanned := (idle.memAccess addr 0x19).trans fun _ updated =>
      updated.updateToShiftDr.readDr p 16
    exact scanned.move fun _ updated => updated.updateToIdle
  | writeMem16 addr val =>
    have scanned := (idle.memAccess addr 0x1d).trans fun _ updated =>
      updated.updateToShiftDr.writeDr val 16
    exact scanned.move fun _ updated => updated.updateToIdle

theorem performed_idle (p : Status) (ops : List Op)
    (idle : ∃ scans, Reached m log .runTestIdle scans) :
    ∃ scans, Reached m (performed p ops log) .runTestIdle scans := by
  induction ops generalizing log with
  | nil => exact idle
  | cons op ops ih =>
    obtain ⟨scans, idle⟩ := idle
    obtain ⟨more, -, after⟩ := idle.perform p op
    exact ih ⟨_, after⟩

/-- From Run-Test/Idle on, every operation comes back to it, and does the scans that
it should. -/
theorem operations_respect_tap (p : Status) :
    (∀ tck before op,
      let start : Monitor := ⟨.runTestIdle, tck, [], [], []⟩
      let log := performed p before []
      let done := Jtag.perform p op log
      (watch done.2 start).state = .runTestIdle ∧
      ∃ scans, (watch done.2 start).scans = (watch log start).scans ++ scans ∧
        Carries op.transfers scans done.1) ∧
    ∀ log m, (watch (anyToReset log) m).state = .testLogicReset := by
  refine ⟨fun tck before op => ?_, fun log m => ?_⟩
  · intro start log done
    have fresh : Reached start [] .runTestIdle [] := ⟨tck, [], [], rfl⟩
    obtain ⟨scans, idle⟩ := performed_idle p before ⟨[], fresh⟩
    obtain ⟨more, carries, tck', tdi', tdo', after⟩ := idle.perform p op
    obtain ⟨tck, tdi, tdo, now⟩ := idle
    refine ⟨congrArg Monitor.state after, more, ?_, carries⟩
    calc (watch done.2 start).scans = scans ++ more := congrArg Monitor.scans after
      _ = (watch log start).scans ++ more := by rw [congrArg Monitor.scans now]
  · rw [anyToReset, watch_setStates, state_watch_moves]
    exact State.five_ones _

end Bifferboard.Jtag
