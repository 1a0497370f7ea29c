import Bifferboard.Netdev.Timeout

/-!
# Interrupts and polling

A packet that has come in is noticed: either the poll function is due, or the
interrupt is. This takes some care, since `MISR` shows a packet even while its
interrupt is off, and forgets it when it is read. If `r6040_interrupt` reads it on
behalf of a frame, after the poll function has seen that there is nothing more to do
and before it has said so, the packet is lost sight of. With one processor that does
not happen, since no frame is sent there.
-/

namespace Bifferboard.Netdev
open Nor R6040

theorem bit_of_line {s : State} (right : s.LineRight) (low : s.irq = false)
    (enabled : s.regs mierW = txInts) : (s.regs misrW).getLsbD 4 = false := by
  have none : s.pending = 0#16 := not_not.mp (of_decide_eq_false (right.symm.trans low))
  rw [State.pending, enabled] at none
  exact (and_txInts _).mp none

/-! ## What the driver keeps to -/

/-- The status that `r6040_interrupt` has read and not yet acted upon. -/
def IrqAt.unhandled : IrqAt → Word
  | .status _ read => read
  | _ => 0#16

/-- A bit of `MISR` is set, or has been until `r6040_interrupt` read it. -/
def Machine.flagged (m : Machine) (i : Nat) : Bool :=
  (m.nic.regs misrW).getLsbD i || m.irq.unhandled.getLsbD i

/-- The interrupts that are on while none is handled. -/
def Machine.ints (m : Machine) : Word :=
  if m.scheduled = true ∨ m.poll ≠ .out then txInts else intMask

/-- What `MIER` is, and what it is going to be. -/
def Machine.IrqRight (m : Machine) : Prop :=
  match m.irq with
  | .out => m.nic.LineRight ∧ m.nic.regs mierW = m.ints
  | .saved saved => m.nic.regs mierW = m.ints ∧ saved = m.ints
  | .masked saved | .status saved _ | .handled saved => m.nic.regs mierW = mskInt ∧ saved = m.ints

/-- No frame is being sent or freed. -/
def Machine.Quiet (m : Machine) : Prop := m.irq = .out ∧ (m.nic.regs misrW).getLsbD 4 = false

def Machine.PollRight (m : Machine) : Prop :=
  match m.poll with
  | .out => True
  | .rx count _ => m.scheduled = true ∧ count ≤ napiWeight
  | .done workDone => m.scheduled = true ∧ workDone ≤ napiWeight ∧ m.Quiet
  | .completed => m.scheduled = false ∧ m.Quiet
  | .enabling enabled => m.scheduled = false ∧ enabled = txInts ∧ m.Quiet

/-- The poll function is going to look at the ring. -/
def Machine.Attentive (m : Machine) : Prop :=
  m.scheduled = true ∧ (m.poll = .out ∨ (∃ count j, m.poll = .rx count j) ∨ m.poll = .done napiWeight)

/-- What holds between any two steps on one processor. -/
structure Watch (m : Machine) : Prop where
  bits : m.flagged 1 = false
  irq : m.IrqRight
  poll : m.PollRight
  rx : m.passed.length < m.accepted.length → m.flagged 0 = true ∨ m.Attentive
  tx : m.freed.length < m.queued.length → m.flagged 4 = true

/-- One processor: while an interrupt is handled, nothing else runs. The poll function
is interrupted before it goes on, and frames are sent from within it only by those who
are handed a packet. -/
def OneCpu (m : Machine) : Action → Prop
  | .xmit _ _ => m.irq = .out ∧ (m.poll = .out ∨ ∃ count j, m.poll = .rx count j)
  | .softirq => m.irq = .out
  | .poll _ => m.irq = .out ∧ m.nic.irq = false
  | .timeout => False
  | _ => True

theorem OneCpu.harmless {m : Machine} {a : Action} (may : OneCpu m a) : Harmless m a := by
  rintro rfl
  exact may.elim

section
variable {m m' : Machine}

theorem Machine.IrqRight.congr (h : m.IrqRight) (irq : m'.irq = m.irq) (ints : m'.ints = m.ints)
    (mier : m'.nic.regs mierW = m.nic.regs mierW) (line : m.nic.LineRight → m'.nic.LineRight) :
    m'.IrqRight := by
  unfold Machine.IrqRight at h ⊢
  rw [irq, ints, mier]
  cases at_ : m.irq with
  | out =>
    rw [at_] at h
    exact ⟨line h.1, h.2⟩
  | _ =>
    rw [at_] at h
    exact h

theorem Machine.PollRight.congr (h : m.PollRight) (poll : m'.poll = m.poll)
    (scheduled : m'.scheduled = m.scheduled) (quiet : m.Quiet → m'.Quiet) : m'.PollRight := by
  unfold Machine.PollRight at h ⊢
  rw [poll, scheduled]
  cases at_ : m.poll with
  | out => trivial
  | rx count j =>
    rw [at_] at h
    exact h
  | done workDone =>
    rw [at_] at h
    exact ⟨h.1, h.2.1, quiet h.2.2⟩
  | completed =>
    rw [at_] at h
    exact ⟨h.1, quiet h.2⟩
  | enabling enabled =>
    rw [at_] at h
    exact ⟨h.1, h.2.1, quiet h.2.2⟩

/-- While a frame is sent or freed, the poll function is not past its loop. -/
theorem Machine.PollRight.early (h : m.PollRight) (busy : ¬ m.Quiet) :
    m.poll = .out ∨ ∃ count j, m.poll = .rx count j := by
  unfold Machine.PollRight at h
  cases at_ : m.poll with
  | out => exact .inl rfl
  | rx count j => exact .inr ⟨count, j, rfl⟩
  | done workDone =>
    rw [at_] at h
    exact absurd h.2.2 busy
  | completed =>
    rw [at_] at h
    exact absurd h.2 busy
  | enabling enabled =>
    rw [at_] at h
    exact absurd h.2.2 busy

/-- Being scheduled once more does not matter then. -/
theorem Machine.PollRight.schedule (h : m.PollRight)
    (early : m.poll = .out ∨ ∃ count j, m.poll = .rx count j) (poll : m'.poll = m.poll)
    (scheduled : m'.scheduled = m.scheduled ∨ m'.scheduled = true) : m'.PollRight := by
  unfold Machine.PollRight at h ⊢
  rw [poll]
  rcases early with out | ⟨count, j, rx⟩
  · rw [out]
    trivial
  · rw [rx] at h ⊢
    refine ⟨?_, h.2⟩
    rcases scheduled with same | set
    · exact same.trans h.1
    · exact set

theorem Machine.ints_tx (m : Machine) : m.ints.getLsbD 4 = true := by
  unfold Machine.ints
  split <;> decide

end

namespace Watch
variable {base : List (List Byte)} {m m' : Machine}

/-! ## A packet comes in -/

theorem receive (h : Watch m) (p : Packet) : Watch { m with
    nic := (receiveOnePacket p.bytes m.nic).2,
    accepted := if (receiveOnePacket p.bytes m.nic).1 = 0 then m.accepted ++ [p] else m.accepted } := by
  by_cases owned : (Descriptor.read m.nic.ram m.nic.rxStart.toNat).Owned
  swap
  · rw [receive_refused owned]
    exact ⟨h.bits, h.irq, h.poll, h.rx, h.tx⟩
  have effect : ReceiveEffect p.bytes m.nic (receiveOnePacket p.bytes m.nic).2 := receive_effect owned
  have misr : (receiveOnePacket p.bytes m.nic).2.regs misrW = m.nic.regs misrW ||| 1#16 := by
    rw [receive_owned_regs owned, State.rxStartSet, State.setReg_other _ (by decide),
      State.setReg_other _ (by decide), State.setReg_same]
  have line : m.nic.LineRight → (receiveOnePacket p.bytes m.nic).2.LineRight := receive_lineRight _
  generalize (receiveOnePacket p.bytes m.nic).2 = nic at effect misr line
  generalize (if (receiveOnePacket p.bytes m.nic).1 = 0 then m.accepted ++ [p] else m.accepted) = accepted
  have other (i : Nat) (notRx : i ≠ 0) :
      Machine.flagged { m with nic := nic, accepted := accepted } i = m.flagged i := by
    unfold Machine.flagged
    rw [effect.misr i notRx]
  refine ⟨?_, h.irq.congr rfl rfl (effect.regs mierW (by decide)) line, h.poll.congr rfl rfl ?_, ?_, ?_⟩
  · rw [other 1 (by decide)]
    exact h.bits
  · rintro ⟨irq, bit⟩
    exact ⟨irq, (effect.misr 4 (by decide)).trans bit⟩
  · intro _
    left
    unfold Machine.flagged
    rw [misr]
    simp
  · intro unfreed
    rw [other 4 (by decide)]
    exact h.tx unfreed

/-! ## An interrupt is handled -/

/-- Past its loop the poll function is not interrupted. -/
theorem early (h : Watch m) (busy : m.irq = .out → m.nic.irq = true) :
    m.poll = .out ∨ ∃ count j, m.poll = .rx count j := by
  by_cases out : m.irq = .out
  swap
  · exact h.poll.early fun quiet => out quiet.1
  have irq := h.irq
  unfold Machine.IrqRight at irq
  rw [out] at irq
  by_cases idle : m.poll = .out
  · exact .inl idle
  apply h.poll.early
  intro quiet
  have pending : m.nic.pending = 0#16 := by
    rw [State.pending, irq.2, Machine.ints, if_pos (.inr idle)]
    exact (and_txInts _).mpr quiet.2
  have low := irq.1.trans (decide_eq_false (not_not_intro pending))
  exact Bool.false_ne_true (low.symm.trans (busy out))

theorem interrupt (h : Watch m) (step : m.step .interrupt = some m') : Watch m' := by
  unfold Machine.step at step
  dsimp only at step
  split at step
  swap
  · cases step
  rename_i may
  obtain ⟨out, line⟩ := may
  rw [ioread16_mier] at step
  cases step
  have irq := h.irq
  unfold Machine.IrqRight at irq
  rw [out] at irq
  have flagged (i : Nat) : Machine.flagged { m with irq := .saved (m.nic.regs mierW) } i = m.flagged i := by
    unfold Machine.flagged
    rw [out]
    rfl
  refine ⟨(flagged 1).trans h.bits, ⟨irq.2, irq.2⟩, ?_, ?_, ?_⟩
  · exact h.poll.schedule (h.early fun _ => line) rfl (.inl rfl)
  · rw [flagged]
    exact h.rx
  · rw [flagged]
    exact h.tx

/-- `MIER` is written by `r6040_interrupt`. -/
theorem setMier (h : Watch m) (val : Word) (next : IrqAt) (was : m.irq ≠ .out)
    (handled : m.irq.unhandled = 0#16) (handled' : next.unhandled = 0#16)
    (right : Machine.IrqRight { m with nic := iowrite16 val mier m.nic, irq := next }) :
    Watch { m with nic := iowrite16 val mier m.nic, irq := next } := by
  have misr : (iowrite16 val mier m.nic).regs misrW = m.nic.regs misrW := by
    rw [iowrite16_mier, State.updateIrq_regs, State.setReg_other _ (by decide)]
  have flagged (i : Nat) :
      Machine.flagged { m with nic := iowrite16 val mier m.nic, irq := next } i = m.flagged i := by
    unfold Machine.flagged
    rw [misr, handled, handled']
  refine ⟨(flagged 1).trans h.bits, right, ?_, ?_, ?_⟩
  · exact h.poll.schedule (h.early fun out => absurd out was) rfl (.inl rfl)
  · rw [flagged]
    exact h.rx
  · rw [flagged]
    exact h.tx

/-- `MISR` is read. -/
theorem readMisr (h : Watch m) {saved : Word} (masked : m.irq = .masked saved) :
    Watch { m with nic := m.nic.setReg misrW 0#16, irq := .status saved (m.nic.regs misrW) } := by
  have irq := h.irq
  unfold Machine.IrqRight at irq
  rw [masked] at irq
  have flagged (i : Nat) : Machine.flagged { m with
      nic := m.nic.setReg misrW 0#16, irq := .status saved (m.nic.regs misrW) } i = m.flagged i := by
    unfold Machine.flagged
    rw [State.setReg_same, masked]
    simp [IrqAt.unhandled]
  refine ⟨(flagged 1).trans h.bits, ⟨?_, irq.2⟩, ?_, ?_, ?_⟩
  · exact (State.setReg_other _ (by decide) _).trans irq.1
  · refine h.poll.schedule (h.early ?_) rfl (.inl rfl)
    intro out
    cases out.symm.trans masked
  · rw [flagged]
    exact h.rx
  · rw [flagged]
    exact h.tx

/-- The status is acted upon. -/
theorem handleStatus (h : Watch m) (sides : Sides base m) {saved status : Word}
    (here : m.irq = .status saved status) :
    Watch { (if status &&& txInts ≠ 0#16 then (m.rxInterrupt status).tx else m.rxInterrupt status) with
      irq := .handled (Machine.restored saved status) } := by
  have irq := h.irq
  unfold Machine.IrqRight at irq
  rw [here] at irq
  obtain ⟨mier, right⟩ := irq
  have early := h.early fun out => by cases out.symm.trans here
  have bit (j : Nat) (set : m.flagged j = true) : (m.nic.regs misrW).getLsbD j = true ∨
      status.getLsbD j = true := by
    unfold Machine.flagged at set
    rw [here] at set
    exact (Bool.or_eq_true _ _).mp set
  obtain ⟨lp, stats, stopped, freed, eq, unfreed, -⟩ := act_eq sides status
  rw [eq]
  refine ⟨?_, ⟨mier, ?_⟩, ?_, ?_, ?_⟩
  · have bits := h.bits
    unfold Machine.flagged at bits ⊢
    rw [(Bool.or_eq_false_iff.mp bits).1]
    simp [IrqAt.unhandled]
  · -- the interrupts of packets go off with `scheduled`
    unfold Machine.ints at right ⊢
    unfold Machine.restored
    by_cases rx : status &&& rxInts ≠ 0#16
    · rw [if_pos rx, decide_eq_true rx, Bool.or_true, if_pos (.inl rfl), right]
      split <;> decide
    · rw [if_neg rx, decide_eq_false rx, Bool.or_false]
      exact right
  · refine h.poll.schedule early rfl ?_
    by_cases rx : status &&& rxInts ≠ 0#16
    · right
      exact (congrArg (m.scheduled || ·) (decide_eq_true rx)).trans (Bool.or_true _)
    · left
      exact (congrArg (m.scheduled || ·) (decide_eq_false rx)).trans (Bool.or_false _)
  · intro waiting
    have going : m.poll = .out ∨ (∃ count j, m.poll = .rx count j) ∨ m.poll = .done napiWeight := by
      rcases early with out | rx
      · exact .inl out
      · exact .inr (.inl rx)
    rcases h.rx waiting with set | attentive
    · rcases bit 0 set with misr | read
      · left
        unfold Machine.flagged
        rw [misr]
        rfl
      · right
        refine ⟨?_, going⟩
        have rx : status &&& rxInts ≠ 0#16 := and_ne_zero_of_bit read (by decide)
        exact (congrArg (m.scheduled || ·) (decide_eq_true rx)).trans (Bool.or_true _)
    · right
      exact ⟨congrArg (· || decide (status &&& rxInts ≠ 0#16)) attentive.1, going⟩
  · intro fewer
    obtain ⟨before, none⟩ := unfreed fewer
    have misr := (bit 4 (h.tx before)).resolve_right (by rw [none]; exact Bool.false_ne_true)
    unfold Machine.flagged
    rw [misr]
    rfl

theorem handler (h : Watch m) (sides : Sides base m) (step : m.irqStep = some m') : Watch m' := by
  have irq := h.irq
  have bits := h.bits
  unfold Machine.IrqRight at irq
  unfold Machine.irqStep at step
  split at step
  · cases step
  · rename_i saved here
    rw [here] at irq
    cases step
    refine h.setMier _ _ ?_ ?_ rfl ⟨mier_written _ _, irq.2⟩
    · rw [here]
      exact IrqAt.noConfusion
    · rw [here]
      rfl
  · rename_i saved here
    rw [ioread16_misr] at step
    cases step
    exact h.readMisr here
  · rename_i saved status here
    rw [here] at irq
    split at step
    · rename_i nothing
      cases step
      have zero : status = 0#16 := by
        refine nothing.resolve_right ?_
        rintro rfl
        unfold Machine.flagged at bits
        rw [here] at bits
        have set : (0xffff#16).getLsbD 1 = true := by decide
        exact Bool.false_ne_true ((Bool.or_eq_false_iff.mp bits).2.symm.trans set)
      refine h.setMier _ _ ?_ ?_ rfl ⟨mier_lineRight _ _, (mier_written _ _).trans irq.2⟩
      · rw [here]
        exact IrqAt.noConfusion
      · rw [here]
        exact zero
    · cases step
      exact h.handleStatus sides here
  · rename_i saved here
    rw [here] at irq
    cases step
    refine h.setMier _ _ ?_ ?_ rfl ⟨mier_lineRight _ _, (mier_written _ _).trans irq.2⟩
    · rw [here]
      exact IrqAt.noConfusion
    · rw [here]
      rfl

/-! ## Polling -/

theorem ints_of_scheduled (m : Machine) (due : m.scheduled = true ∨ m.poll ≠ .out) : m.ints = txInts :=
  if_pos due

theorem softirq (h : Watch m) (step : m.step .softirq = some m') : Watch m' := by
  unfold Machine.step at step
  dsimp only at step
  split at step
  swap
  · cases step
  rename_i ready
  cases step
  refine ⟨h.bits, h.irq.congr rfl ?_ rfl id, ⟨ready.1, Nat.zero_le _⟩, ?_, h.tx⟩
  · rw [ints_of_scheduled m (.inl ready.1)]
    exact ints_of_scheduled _ (.inl ready.1)
  · intro waiting
    refine (h.rx waiting).imp_right ?_
    intro attentive
    exact ⟨attentive.1, .inr (.inl ⟨_, _, rfl⟩)⟩

/-- A round of `r6040_rx` touches the memory only. -/
theorem round_eq (m : Machine) (alloc : Option Dword) (count j : Nat) : ∃ ram lp stats data,
    { Machine.giveBack j (m.rxPacket alloc j) with poll := .rx (count + 1) (m.lp.rx.vndescp j) } =
      { m with nic := { m.nic with ram := ram }, lp := lp, stats := stats,
               passed := m.passed ++ [data], poll := .rx (count + 1) (m.lp.rx.vndescp j) } := by
  unfold Machine.rxPacket Machine.giveBack
  dsimp only
  split
  · exact ⟨_, _, _, _, rfl⟩
  · split <;> exact ⟨_, _, _, _, rfl⟩

/-- Another packet is passed on. -/
theorem pollRound (h : Watch m) {count j : Nat} (here : m.poll = .rx count j) (more : count < napiWeight)
    (alloc : Option Dword) : Watch { Machine.giveBack j (m.rxPacket alloc j) with
      poll := .rx (count + 1) (m.lp.rx.vndescp j) } := by
  have right := h.poll
  unfold Machine.PollRight at right
  rw [here] at right
  obtain ⟨ram, lp, stats, data, eq⟩ := round_eq m alloc count j
  rw [eq]
  refine ⟨h.bits, h.irq.congr rfl ?_ rfl id, ⟨right.1, more⟩, ?_, h.tx⟩
  · rw [ints_of_scheduled m (.inl right.1)]
    exact ints_of_scheduled _ (.inl right.1)
  · intro _
    right
    exact ⟨right.1, .inr (.inl ⟨_, _, rfl⟩)⟩

/-- The loop of `r6040_rx` is over. -/
theorem pollOver (h : Watch m) (sides : Sides base m) {count j : Nat} (here : m.poll = .rx count j)
    (out : m.irq = .out) (low : m.nic.irq = false)
    (ended : ¬ (count < napiWeight ∧ m.status m.lp.rx j &&& dscOwnerMac = 0#16)) :
    Watch { m with lp := { m.lp with rxRemovePtr := j }, poll := .done count } := by
  obtain ⟨r, rx⟩ := sides.rx
  have waits := rx.waiting_iff
  rw [show m.rxPointer = j by rw [Machine.rxPointer, here]] at waits
  have irq := h.irq
  unfold Machine.IrqRight at irq
  rw [out] at irq
  have right := h.poll
  unfold Machine.PollRight at right
  rw [here] at right
  have ints : m.ints = txInts := ints_of_scheduled m (.inl right.1)
  have quiet : m.Quiet := ⟨out, bit_of_line irq.1 low (irq.2.trans ints)⟩
  refine ⟨h.bits, h.irq.congr rfl ?_ rfl id, ⟨right.1, right.2, quiet⟩, ?_, h.tx⟩
  · rw [ints]
    exact ints_of_scheduled _ (.inl right.1)
  · intro waiting
    right
    refine ⟨right.1, .inr (.inr ?_)⟩
    -- with packets left, the loop has ended for its limit
    have limit : ¬ count < napiWeight := fun less => ended ⟨less, waits.mpr waiting⟩
    exact congrArg PollAt.done (Nat.le_antisymm right.2 (Nat.le_of_not_lt limit))

/-- `napi_complete`. -/
theorem pollComplete (h : Watch m) {workDone : Nat} (here : m.poll = .done workDone)
    (less : workDone < napiWeight) : Watch { m with scheduled := false, poll := .completed } := by
  have right := h.poll
  unfold Machine.PollRight at right
  rw [here] at right
  refine ⟨h.bits, h.irq.congr rfl ?_ rfl id, ⟨rfl, right.2.2⟩, ?_, h.tx⟩
  · rw [ints_of_scheduled m (.inl right.1)]
    exact ints_of_scheduled _ (.inr PollAt.noConfusion)
  · intro waiting
    left
    refine (h.rx waiting).resolve_right ?_
    rintro ⟨-, idle | ⟨_, _, rx⟩ | limit⟩
    · cases here.symm.trans idle
    · cases here.symm.trans rx
    · cases here.symm.trans limit
      exact Nat.lt_irrefl _ less

/-- With all its budget used the poll function stays scheduled. -/
theorem pollAgain (h : Watch m) {workDone : Nat} (here : m.poll = .done workDone) :
    Watch { m with poll := .out } := by
  have right := h.poll
  unfold Machine.PollRight at right
  rw [here] at right
  refine ⟨h.bits, h.irq.congr rfl ?_ rfl id, trivial, ?_, h.tx⟩
  · rw [ints_of_scheduled m (.inl right.1)]
    exact ints_of_scheduled _ (.inl right.1)
  · intro _
    right
    exact ⟨right.1, .inl rfl⟩

/-- Past `napi_complete` only `MISR` has a packet noticed. -/
theorem flagged_of_unscheduled (h : Watch m) (unscheduled : m.scheduled = false)
    (waiting : m.passed.length < m.accepted.length) : m.flagged 0 = true := by
  refine (h.rx waiting).resolve_right ?_
  rintro ⟨scheduled, -⟩
  exact Bool.false_ne_true (unscheduled.symm.trans scheduled)

theorem pollRead (h : Watch m) (here : m.poll = .completed) (out : m.irq = .out) :
    Watch { m with poll := .enabling (m.nic.regs mierW) } := by
  have irq := h.irq
  unfold Machine.IrqRight at irq
  rw [out] at irq
  have right := h.poll
  unfold Machine.PollRight at right
  rw [here] at right
  have ints : m.ints = txInts := ints_of_scheduled m (.inr (by rw [here]; exact PollAt.noConfusion))
  refine ⟨h.bits, h.irq.congr rfl ?_ rfl id, ⟨right.1, irq.2.trans ints, right.2⟩, ?_, h.tx⟩
  · rw [ints]
    exact ints_of_scheduled _ (.inr PollAt.noConfusion)
  · intro waiting
    exact .inl (h.flagged_of_unscheduled right.1 waiting)

theorem pollEnable (h : Watch m) {enabled : Word} (here : m.poll = .enabling enabled)
    (out : m.irq = .out) :
    Watch { m with nic := iowrite16 (enabled ||| rxInts) mier m.nic, poll := .out } := by
  have right := h.poll
  unfold Machine.PollRight at right
  rw [here] at right
  have misr : (iowrite16 (enabled ||| rxInts) mier m.nic).regs misrW = m.nic.regs misrW := by
    rw [iowrite16_mier, State.updateIrq_regs, State.setReg_other _ (by decide)]
  have flagged (i : Nat) : Machine.flagged { m with
      nic := iowrite16 (enabled ||| rxInts) mier m.nic, poll := .out } i = m.flagged i := by
    unfold Machine.flagged
    rw [misr]
  refine ⟨(flagged 1).trans h.bits, ?_, trivial, ?_, ?_⟩
  · unfold Machine.IrqRight
    rw [out]
    refine ⟨mier_lineRight _ _, (mier_written _ _).trans ?_⟩
    unfold Machine.ints
    rw [right.2.1, right.1]
    rfl
  · intro waiting
    left
    rw [flagged]
    exact h.flagged_of_unscheduled right.1 waiting
  · rw [flagged]
    exact h.tx

theorem pollStep (h : Watch m) (sides : Sides base m) (out : m.irq = .out) (low : m.nic.irq = false)
    {alloc : Option Dword} (step : m.pollStep alloc = some m') : Watch m' := by
  unfold Machine.pollStep at step
  split at step
  · cases step
  · rename_i here
    split at step
    · rename_i more
      cases step
      exact h.pollRound here more.1 alloc
    · rename_i ended
      cases step
      exact h.pollOver sides here out low ended
  · rename_i here
    split at step
    · rename_i less
      cases step
      exact h.pollComplete here less
    · cases step
      exact h.pollAgain here
  · rename_i here
    rw [ioread16_mier] at step
    cases step
    exact h.pollRead here out
  · rename_i here
    cases step
    exact h.pollEnable here out

/-! ## Sending -/

/-- A frame has been handed to the device. Stated for any `nic`, so that the device need
not be evaluated. -/
theorem sent (h : Watch m) {v : Machine} {skb : SkBuff} {nic : State} (kicked : Kicked v skb nic)
    (regs : v.nic.regs = m.nic.regs) (early : m.poll = .out ∨ ∃ count j, m.poll = .rx count j)
    (nic' : m'.nic = nic) (irq : m'.irq = m.irq) (poll : m'.poll = m.poll)
    (scheduled : m'.scheduled = m.scheduled) (accepted : m'.accepted = m.accepted)
    (passed : m'.passed = m.passed) : Watch m' := by
  have misr : m'.nic.regs misrW = m.nic.regs misrW ||| 0x10#16 := by rw [nic', kicked.misr, regs]
  have flagged (i : Nat) (notTx : i ≠ 4) : m'.flagged i = m.flagged i := by
    have bit : (0x10#16).getLsbD i = false := by
      rw [show (0x10#16) = BitVec.twoPow 16 4 by decide, BitVec.getLsbD_twoPow]
      simp [notTx.symm]
    unfold Machine.flagged
    rw [misr, irq, BitVec.getLsbD_or, bit, Bool.or_false]
  have ints : m'.ints = m.ints := by
    unfold Machine.ints
    rw [scheduled, poll]
  refine ⟨?_, ?_, h.poll.schedule early poll (.inl scheduled), ?_, ?_⟩
  · rw [flagged 1 (by decide)]
    exact h.bits
  · refine h.irq.congr irq ints ?_ ?_
    · rw [nic', kicked.regs _ (by decide), regs]
    · intro _
      rw [nic']
      exact kicked.line
  · rw [accepted, passed, flagged 0 (by decide)]
    unfold Machine.Attentive
    rw [scheduled, poll]
    exact h.rx
  · intro _
    unfold Machine.flagged
    rw [misr, BitVec.getLsbD_or, show (0x10#16).getLsbD 4 = true by decide, Bool.or_true, Bool.true_or]

theorem xmit (h : Watch m) (sides : Sides base m) {data : Dword} {bytes : List Byte}
    (early : m.poll = .out ∨ ∃ count j, m.poll = .rx count j)
    (step : m.step (.xmit data bytes) = some m') : Watch m' := by
  unfold Machine.step at step
  dsimp only at step
  split at step
  swap
  · cases step
  rename_i unused
  obtain ⟨unused, short⟩ := unused
  cases step
  by_cases free : m.lp.txFreeDesc = 0
  · rw [Machine.startXmit, if_pos free]
    exact ⟨h.bits, h.irq.congr rfl rfl rfl id, h.poll.congr rfl rfl id, h.rx, h.tx⟩
  · have kicked := (sides.stored unused).tx.idle.kicked
      (show (⟨data, bytes.length⟩ : SkBuff).len < 2 ^ 16 from short)
    rw [Machine.startXmit, if_neg free]
    exact h.sent kicked rfl early rfl rfl rfl rfl rfl rfl

theorem step (h : Watch m) (sides : Sides base m) {a : Action} (may : OneCpu m a)
    (step : m.step a = some m') : Watch m' := by
  cases a with
  | receive p =>
    unfold Machine.step at step
    dsimp only at step
    split at step
    · cases step
      exact h.receive p
    · cases step
  | interrupt => exact h.interrupt step
  | handler => exact h.handler sides step
  | softirq => exact h.softirq step
  | poll alloc =>
    unfold Machine.step at step
    dsimp only at step
    split at step
    · exact h.pollStep sides may.1 may.2 step
    · cases step
  | xmit data bytes => exact h.xmit sides may.2 step
  | timeout => exact may.elim

end Watch

/-! ## Runs -/

section
variable {devAddr : Word × Word × Word} {rxDma txDma : Dword} {datas : List Dword} {nic : State}
variable {m₀ m : Machine}

theorem Opened.watch (h : Opened rxDma txDma datas nic m) (fresh : nic.regs misrW = 0#16) : Watch m := by
  have scheduled : m.scheduled = false := congrArg Machine.scheduled h.machine
  have poll : m.poll = .out := congrArg Machine.poll h.machine
  have irq : m.irq = .out := congrArg Machine.irq h.machine
  have queued : m.queued = [] := congrArg Machine.queued h.machine
  have accepted : m.accepted = [] := congrArg Machine.accepted h.machine
  refine ⟨?_, ?_, ?_, ?_, ?_⟩
  · unfold Machine.flagged
    rw [h.reset.misr, irq]
    simp [fresh, IrqAt.unhandled]
  · unfold Machine.IrqRight
    rw [irq]
    refine ⟨h.reset.line, h.reset.mier.trans ?_⟩
    unfold Machine.ints
    rw [scheduled, poll]
    rfl
  · unfold Machine.PollRight
    rw [poll]
    trivial
  · rw [accepted]
    intro waiting
    exact absurd waiting (Nat.not_lt_zero _)
  · rw [queued]
    intro unfreed
    exact absurd unfreed (Nat.not_lt_zero _)

theorem reach_watch (layout : Layout rxDma txDma datas)
    (opened : openDevice devAddr rxDma txDma datas nic = some m₀) (fresh : nic.regs misrW = 0#16)
    (reached : Transition.Reach (fun a m => m.step a) OneCpu m₀ m) : Sides nic.sent m ∧ Watch m := by
  have start := openDevice_opened layout opened
  apply reached.invariant (P := fun m => Sides nic.sent m ∧ Watch m)
  · exact ⟨start.sides layout, start.watch fresh⟩
  · rintro s a s' ⟨sides, watch⟩ may step
    exact ⟨sides.step may.harmless step, watch.step sides may step⟩

/-- With one processor, while no interrupt is handled, the line is up if there are
buffers to be freed, or if a packet waits and the poll function is not due. -/
theorem interrupt_not_lost (layout : Layout rxDma txDma datas)
    (opened : openDevice devAddr rxDma txDma datas nic = some m₀) (fresh : nic.regs misrW = 0#16)
    (reached : Transition.Reach (fun a m => m.step a) OneCpu m₀ m) (irq : m.irq = .out) :
    (m.freed.length < m.queued.length → m.nic.irq = true) ∧
    (m.passed.length < m.accepted.length → m.poll = .out → m.scheduled = false → m.nic.irq = true) := by
  obtain ⟨-, watch⟩ := reach_watch layout opened fresh reached
  have right := watch.irq
  unfold Machine.IrqRight at right
  rw [irq] at right
  have bit (i : Nat) (set : m.flagged i = true) : (m.nic.regs misrW).getLsbD i = true := by
    unfold Machine.flagged at set
    rw [irq] at set
    simpa [IrqAt.unhandled] using set
  constructor
  · intro unfreed
    apply line_of_bit right.1 (bit 4 (watch.tx unfreed))
    rw [right.2]
    exact m.ints_tx
  · intro waiting idle unscheduled
    apply line_of_bit right.1 (bit 0 (watch.flagged_of_unscheduled unscheduled waiting))
    rw [right.2, Machine.ints, unscheduled, idle]
    decide

/-- A frame is out, and its buffer is not freed yet. -/
theorem interrupt_not_lost_byte : ∃ m₀ m,
    openDevice (0#16, 0#16, 0#16) 0x10000#32 0x20000#32 someBuffers (initPci fun _ => 0#8) = some m₀ ∧
    m₀.step (.xmit 0x1000#32 [0xaa#8]) = some m ∧ m.nic.irq = true := by
  obtain ⟨m₀, opened⟩ := someBuffers_opened
  have start := openDevice_opened someBuffers_layout opened
  have free : m₀.lp.txFreeDesc ≠ 0 := by
    rw [start.rings.txFreeDesc]
    decide
  have irq : m₀.irq = .out := congrArg Machine.irq start.machine
  have poll : m₀.poll = .out := congrArg Machine.poll start.machine
  have none : m₀.freed = [] := congrArg Machine.freed start.machine
  obtain ⟨m, step, queued, freed, -, irq', -⟩ := xmit_taken (someBuffers_unused_byte start) (by decide) free
  have reached : Transition.Reach (fun a m => Machine.step a m) OneCpu m₀ m :=
    .next (.xmit 0x1000#32 [0xaa#8]) .start ⟨irq, .inl poll⟩ step
  refine ⟨m₀, m, opened, step, ?_⟩
  apply (interrupt_not_lost someBuffers_layout opened rfl reached (irq'.trans irq)).1
  rw [freed, none, queued, List.length_append]
  exact Nat.succ_pos _

end

/-! ## Two processors -/

section
variable {base : List (List Byte)} {m m' : Machine}

/-- Only a restart of the device changes `MCR0`. -/
theorem mcr0_kept (sides : Sides base m) {a : Action} (other : a ≠ .timeout)
    (step : m.step a = some m') : m'.nic.regs mcr0W = m.nic.regs mcr0W := by
  have mier (val : Word) : (iowrite16 val mier m.nic).regs mcr0W = m.nic.regs mcr0W := by
    rw [iowrite16_mier, State.updateIrq_regs, State.setReg_other _ (by decide)]
  cases a with
  | receive p =>
    unfold Machine.step at step
    dsimp only at step
    split at step
    · cases step
      by_cases owned : (Descriptor.read m.nic.ram m.nic.rxStart.toNat).Owned
      · exact (receive_effect owned).regs mcr0W (by decide)
      · rw [receive_refused owned]
    · cases step
  | interrupt =>
    unfold Machine.step at step
    dsimp only at step
    split at step
    · cases step
      rfl
    · cases step
  | handler =>
    change m.irqStep = some m' at step
    unfold Machine.irqStep at step
    split at step
    · cases step
    · cases step
      exact mier _
    · rw [ioread16_misr] at step
      cases step
      exact State.setReg_other _ (by decide) _
    · rename_i status _
      split at step
      · cases step
        exact mier _
      · obtain ⟨lp, stats, stopped, freed, eq, -⟩ := act_eq sides status
        dsimp only at step
        rw [eq] at step
        cases step
        rfl
    · cases step
      exact mier _
  | softirq =>
    unfold Machine.step at step
    dsimp only at step
    split at step
    · cases step
      rfl
    · cases step
  | poll alloc =>
    unfold Machine.step at step
    dsimp only at step
    split at step
    swap
    · cases step
    unfold Machine.pollStep at step
    split at step
    · cases step
    · rename_i count j here
      split at step
      · cases step
        obtain ⟨ram, lp, stats, data, eq⟩ := Watch.round_eq m alloc count j
        rw [eq]
      · cases step
        rfl
    · split at step <;>
      · cases step
        rfl
    · cases step
      rfl
    · cases step
      exact mier _
  | xmit data bytes =>
    unfold Machine.step at step
    dsimp only at step
    split at step
    swap
    · cases step
    rename_i unused
    obtain ⟨unused, short⟩ := unused
    cases step
    by_cases free : m.lp.txFreeDesc = 0
    · rw [Machine.startXmit, if_pos free]
    · have kicked := (sides.stored unused).tx.idle.kicked
        (show (⟨data, bytes.length⟩ : SkBuff).len < 2 ^ 16 from short)
      rw [Machine.startXmit, if_neg free]
      exact kicked.regs mcr0W (by decide)
  | timeout => exact absurd rfl other

theorem step_poll_none (m : Machine) : m.step (.poll none) = m.pollStep none := by
  unfold Machine.step
  dsimp only
  rw [if_pos]
  intro _ listed
  cases listed

/-- The end of `r6040_poll`, with nothing coming between. -/
theorem poll_completed {workDone : Nat} (done : m.poll = .done workDone) (less : workDone < napiWeight)
    (mier : m.nic.regs mierW = txInts) :
    Transition.Reach (fun a m => Machine.step a m) Harmless m { m with
      scheduled := false, poll := .out, nic := iowrite16 (txInts ||| rxInts) Netdev.mier m.nic } := by
  have harmless (m : Machine) : Harmless m (.poll none) := fun timeout => Action.noConfusion timeout
  have first : m.step (.poll none) = some { m with scheduled := false, poll := .completed } := by
    rw [step_poll_none, Machine.pollStep, done]
    exact if_pos less
  have second : Machine.step (.poll none) { m with scheduled := false, poll := .completed } =
      some { m with scheduled := false, poll := .enabling txInts } := by
    rw [step_poll_none, Machine.pollStep, ioread16_mier, mier]
  have third : Machine.step (.poll none) { m with scheduled := false, poll := .enabling txInts } =
      some { m with scheduled := false, poll := .out,
                    nic := iowrite16 (txInts ||| rxInts) Netdev.mier m.nic } := by
    rw [step_poll_none, Machine.pollStep]
  exact .next (.poll none) (.next (.poll none) (.next (.poll none) .start (harmless _) first)
    (harmless _) second) (harmless _) third

theorem xmit_kicked (sides : Sides base m) {data : Dword} {bytes : List Byte}
    (unused : m.Unused data.toNat bytes.length) (short : bytes.length < 2 ^ 16)
    (free : m.lp.txFreeDesc ≠ 0) :
    ∃ m' v, m.step (.xmit data bytes) = some m' ∧ Kicked v ⟨data, bytes.length⟩ m'.nic ∧
      v.nic.regs = m.nic.regs ∧ m'.irq = m.irq ∧ m'.poll = m.poll ∧ m'.accepted = m.accepted ∧
      m'.passed = m.passed := by
  have kicked := (sides.stored unused).tx.idle.kicked
    (show (⟨data, bytes.length⟩ : SkBuff).len < 2 ^ 16 from short)
  unfold Machine.step
  dsimp only
  rw [if_pos ⟨unused, short⟩, Machine.startXmit, if_neg free]
  exact ⟨_, _, rfl, kicked, rfl, rfl, rfl, rfl, rfl⟩

/-- A packet comes in, a frame is sent, and its interrupt is handled before the poll
function ends. -/
theorem unnoticed (sides : Sides base m) (watch : Watch m) {workDone : Nat}
    (done : m.poll = .done workDone) (less : workDone < napiWeight)
    (through : m.passed.length = m.accepted.length) (free : m.lp.txFreeDesc ≠ 0)
    (enabled : canReceive m.nic = true) (p : Packet) {data : Dword} {bytes : List Byte}
    (unused : m.Unused data.toNat bytes.length) (short : bytes.length < 2 ^ 16) :
    ∃ m', Transition.Reach (fun a m => Machine.step a m) Harmless m m' ∧ m'.irq = .out ∧
      m'.poll = .out ∧ m'.scheduled = false ∧ m'.accepted = m.accepted ++ [p] ∧ m'.passed = m.passed ∧
      m'.nic.irq = false := by
  have harmless (m : Machine) (a : Action) (other : a ≠ .timeout) : Harmless m a :=
    fun timeout => absurd timeout other
  obtain ⟨r, rx⟩ := sides.rx
  have poll := watch.poll
  unfold Machine.PollRight at poll
  rw [done] at poll
  obtain ⟨scheduled, -, out, -⟩ := poll
  have irq := watch.irq
  unfold Machine.IrqRight at irq
  rw [out] at irq
  have mier : m.nic.regs mierW = txInts := irq.2.trans (Watch.ints_of_scheduled m (.inl scheduled))
  have owned : (Descriptor.read m.nic.ram m.nic.rxStart.toNat).Owned := by
    rw [rx.accepts_iff, through]
    exact Nat.lt_add_of_pos_right (by decide)
  -- the packet
  have first := step_receive enabled owned p
  have effect : ReceiveEffect p.bytes m.nic (receiveOnePacket p.bytes m.nic).2 := receive_effect owned
  have sides₁ := sides.step (harmless _ _ Action.noConfusion) first
  have reached₁ := Transition.Reach.next (.receive p) .start (harmless _ _ Action.noConfusion) first
  generalize (receiveOnePacket p.bytes m.nic).2 = nic at effect sides₁ reached₁
  -- the frame
  obtain ⟨m₂, v, second, kicked, regs, irq₂, poll₂, accepted₂, passed₂⟩ :=
    xmit_kicked sides₁ unused short free
  have sides₂ := sides₁.step (harmless _ _ Action.noConfusion) second
  have mier₂ : m₂.nic.regs mierW = txInts := by
    rw [kicked.regs _ (by decide), regs]
    exact (effect.regs mierW (by decide)).trans mier
  have misr₂ (i : Nat) (notRx : i ≠ 0) : (m₂.nic.regs misrW).getLsbD i =
      ((m.nic.regs misrW).getLsbD i || (0x10#16).getLsbD i) := by
    rw [kicked.misr, regs, BitVec.getLsbD_or]
    exact congrArg (· || _) (effect.misr i notRx)
  have set : (m₂.nic.regs misrW).getLsbD 4 = true := by
    rw [misr₂ 4 (by decide)]
    exact Bool.or_true _
  have clear : (m₂.nic.regs misrW).getLsbD 1 = false := by
    rw [misr₂ 1 (by decide), (Bool.or_eq_false_iff.mp watch.bits).1]
    decide
  -- its interrupt
  obtain ⟨m₃, reached₃, irq₃, misr₃, mier₃, -, poll₃, accepted₃, passed₃, -⟩ :=
    interrupt_handled
      (fun m => ⟨harmless m .interrupt Action.noConfusion, harmless m .handler Action.noConfusion⟩)
      sides₂ (irq₂.trans out) (line_of_bit kicked.line set (by rw [mier₂]; decide))
      (by intro zero; rw [zero] at set; exact absurd set (by decide))
      (by intro ones; rw [ones] at clear; exact absurd clear (by decide))
  rw [mier₂] at mier₃
  -- the end of the poll function
  have reached₄ := poll_completed ((poll₃.trans poll₂).trans done) less (mier₃.trans (by
    unfold Machine.restored
    split <;> decide))
  have right := mier_lineRight m₃.nic (txInts ||| rxInts)
  have pending : (iowrite16 (txInts ||| rxInts) Netdev.mier m₃.nic).pending = 0#16 := by
    rw [State.pending, misr_kept, misr₃, BitVec.zero_and]
  refine ⟨_, ((Transition.Reach.next _ reached₁ (harmless _ _ Action.noConfusion) second).trans
    reached₃).trans reached₄, irq₃, rfl, rfl, accepted₃.trans accepted₂, passed₃.trans passed₂, ?_⟩
  exact right.trans (decide_eq_false (not_not_intro pending))

end

/-- The interrupt of a frame that another processor sends, while the poll function is
between its loop and `napi_complete`, makes a packet that has just come in wait for
the next one. -/
theorem interrupt_lost {devAddr : Word × Word × Word} {rxDma txDma : Dword} {datas : List Dword}
    {nic : State} {m₀ m : Machine} (layout : Layout rxDma txDma datas)
    (opened : openDevice devAddr rxDma txDma datas nic = some m₀) (fresh : nic.regs misrW = 0#16)
    (reached : Transition.Reach (fun a m => m.step a) OneCpu m₀ m) {workDone : Nat}
    (done : m.poll = .done workDone) (less : workDone < napiWeight)
    (through : m.passed.length = m.accepted.length) (going : m.stopped = false)
    (p : Packet) {data : Dword} {bytes : List Byte} (unused : m.Unused data.toNat bytes.length)
    (short : bytes.length < 2 ^ 16) :
    ∃ m', Transition.Reach (fun a m => m.step a) Harmless m m' ∧ m'.irq = .out ∧ m'.poll = .out ∧
      m'.scheduled = false ∧ m'.accepted = m.accepted ++ [p] ∧ m'.passed = m.passed ∧
      m'.nic.irq = false := by
  obtain ⟨sides, watch⟩ := reach_watch layout opened fresh reached
  have counted := (reach_sides layout opened (reached.mono fun _ _ => OneCpu.harmless)).2
  have free : m.lp.txFreeDesc ≠ 0 := of_decide_eq_false (counted.stopped.symm.trans going)
  have start := openDevice_opened layout opened
  have enabled := (reached.invariant (P := fun m => Sides nic.sent m ∧ canReceive m.nic = true)
    ⟨start.sides layout, start.enabled⟩ (by
      rintro s a s' ⟨sides, enabled⟩ may step
      have other : a ≠ .timeout := by
        rintro rfl
        exact may.elim
      refine ⟨sides.step may.harmless step, ?_⟩
      rw [canReceive, mcr0_kept sides other step]
      exact enabled)).2
  exact unnoticed sides watch done less through free enabled p unused short

/-- A packet of one byte has come in and has been dealt with. -/
theorem someBuffers_done : ∃ m₀ m,
    openDevice (0#16, 0#16, 0#16) 0x10000#32 0x20000#32 someBuffers (initPci fun _ => 0#8) = some m₀ ∧
    Transition.Reach (fun a m => Machine.step a m) OneCpu m₀ m ∧ m.poll = .done 1 ∧
    m.passed.length = m.accepted.length ∧ m.stopped = false := by
  obtain ⟨m₀, m, opened, reached, poll, accepted, passed, queued, irq, low, -⟩ :=
    someBuffers_polling (show ∀ m, OneCpu m (.receive somePacket) from fun _ => trivial)
      (fun _ => ⟨trivial, trivial⟩) (fun _ out => out)
  have waiting : m.passed.length < m.accepted.length := by
    rw [passed, accepted]
    exact Nat.one_pos
  obtain ⟨r, rx⟩ := (reach_watch someBuffers_layout opened rfl reached).1.rx
  have free : m.status m.lp.rx m.lp.rxRemovePtr &&& dscOwnerMac = 0#16 := by
    have found := rx.waiting_iff.mpr waiting
    rwa [Machine.rxPointer, poll] at found
  have first := step_poll_none m
  rw [Machine.pollStep, poll] at first
  dsimp only at first
  rw [if_pos ⟨by decide, free⟩] at first
  obtain ⟨ram, lp, stats, data, eq⟩ := Watch.round_eq m none 0 m.lp.rxRemovePtr
  have reached₁ : Transition.Reach (fun a m => Machine.step a m) OneCpu m₀ _ :=
    .next (.poll none) reached ⟨irq, low⟩ (first.trans (congrArg some eq))
  have through : (m.passed ++ [data]).length = m.accepted.length := by
    rw [passed, accepted]
    rfl
  obtain ⟨r₁, rx₁⟩ := (reach_watch someBuffers_layout opened rfl reached₁).1.rx
  have ended := mt rx₁.waiting_iff.mp (Nat.not_lt_of_ge (Nat.le_of_eq through.symm))
  have second := step_poll_none { m with
    nic := { m.nic with ram := ram }, lp := lp, stats := stats, passed := m.passed ++ [data],
    poll := .rx 1 (m.lp.rx.vndescp m.lp.rxRemovePtr) }
  rw [Machine.pollStep] at second
  dsimp only at second
  rw [if_neg fun both => ended both.2] at second
  have reached₂ : Transition.Reach (fun a m => Machine.step a m) OneCpu m₀ _ :=
    .next (.poll none) reached₁ ⟨irq, low⟩ second
  obtain ⟨sides, counted⟩ := reach_sides someBuffers_layout opened
    (reached₂.mono fun _ _ => OneCpu.harmless)
  have count := sides.tx.count
  refine ⟨m₀, _, opened, reached₂, rfl, through, counted.stopped.trans (decide_eq_false ?_)⟩
  rw [show Machine.queued _ = [] from queued, show txDcnt = 128 from rfl, List.length_nil] at count
  dsimp only at count ⊢
  omega

theorem interrupt_lost_byte : ∃ m₀ m,
    openDevice (0#16, 0#16, 0#16) 0x10000#32 0x20000#32 someBuffers (initPci fun _ => 0#8) = some m₀ ∧
    Transition.Reach (fun a m => Machine.step a m) Harmless m₀ m ∧ m.irq = .out ∧ m.poll = .out ∧
    m.scheduled = false ∧ m.passed.length < m.accepted.length ∧ m.nic.irq = false := by
  obtain ⟨m₀, m, opened, reached, done, through, going⟩ := someBuffers_done
  have unused : m.Unused (0#32).toNat ([] : List Byte).length :=
    ⟨.inl (Nat.zero_le _), .inl (Nat.zero_le _), fun _ _ _ _ => .inl (Nat.zero_le _)⟩
  obtain ⟨m', later, irq, poll, unscheduled, accepted, passed, line⟩ := interrupt_lost
    someBuffers_layout opened rfl reached done (by decide) through going ⟨[0x55#8], by decide⟩ unused
    (by decide)
  refine ⟨m₀, m', opened, (reached.mono fun _ _ => OneCpu.harmless).trans later, irq, poll, unscheduled, ?_,
    line⟩
  rw [passed, accepted, through, List.length_append]
  exact Nat.lt_succ_self _

end Bifferboard.Netdev
