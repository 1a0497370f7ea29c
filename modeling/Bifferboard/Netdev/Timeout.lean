import Bifferboard.Netdev.Traffic

/-!
# The transmit timeout

`r6040_tx_timeout` reads `MISR`, for its message, and starts the device anew. The
device forgets where it was in the rings, the driver does not. So the next frame is
not sent and the next packet is not seen, unless the driver happens to be at the
beginning of its ring.

There is no help in it for a queue that has stopped either. The frames have all been
sent, and the status that would have `r6040_tx` called is lost.
-/

namespace Bifferboard.Netdev
open Nor R6040

/-- The machine after `r6040_tx_timeout`. -/
structure Restarted (m w : Machine) : Prop where
  reset : Reset m.lp (m.nic.setReg misrW 0#16) w.nic
  enabled : canReceive w.nic = true
  others : { w with nic := m.nic, stats := m.stats } = m

theorem Sides.txTimeout {base : List (List Byte)} {m : Machine} (h : Sides base m) :
    Restarted m m.txTimeout := by
  have reset : Reset m.lp (m.nic.setReg misrW 0#16) (initMacRegs m.lp (m.nic.setReg misrW 0#16)) :=
    initMacRegs_reset h.first_free
  have enabled : canReceive (initMacRegs m.lp (m.nic.setReg misrW 0#16)) = true :=
    initMacRegs_canReceive h.first_free
  rw [Machine.txTimeout, ioread16_mier, ioread16_misr]
  exact ⟨reset, enabled, rfl⟩

namespace Restarted
variable {m w : Machine}

theorem lp (h : Restarted m w) : w.lp = m.lp := by
  have same := congrArg Machine.lp h.others
  exact same

theorem ram (h : Restarted m w) : w.nic.ram = m.nic.ram := h.reset.ram

theorem misr (h : Restarted m w) : w.nic.regs misrW = 0#16 :=
  h.reset.misr.trans (State.setReg_same _ _ _)

end Restarted

/-! ## A queue that has stopped -/

/-- All descriptors are in use, and nothing is left that would have them freed. -/
structure Deaf (m : Machine) : Prop where
  full : m.lp.txFreeDesc = 0
  misr : (m.nic.regs misrW).getLsbD 4 = false
  irq : ∀ saved status, m.irq = .status saved status → status.getLsbD 4 = false

/-- The frames are the same. -/
def SameQueue (m m' : Machine) : Prop := m'.queued = m.queued ∧ m'.freed = m.freed

namespace Deaf
variable {base : List (List Byte)} {m m' : Machine}

theorem handler (h : Deaf m) (step : m.irqStep = some m') : Deaf m' ∧ SameQueue m m' := by
  have mier (val : Word) : (iowrite16 val mier m.nic).regs misrW = m.nic.regs misrW := by
    rw [iowrite16_mier, State.updateIrq_regs, State.setReg_other _ (by decide)]
  unfold Machine.irqStep at step
  split at step
  · cases step
  · cases step
    refine ⟨⟨h.full, ?_, ?_⟩, rfl, rfl⟩
    · rw [mier]
      exact h.misr
    · intro _ _ at_
      cases at_
  · rw [ioread16_misr] at step
    cases step
    refine ⟨⟨h.full, ?_, ?_⟩, rfl, rfl⟩
    · rw [State.setReg_same]
      rfl
    · intro saved status here
      cases here
      exact h.misr
  · rename_i saved status here
    have quiet := h.irq saved status here
    split at step
    · cases step
      refine ⟨⟨h.full, ?_, ?_⟩, rfl, rfl⟩
      · rw [mier]
        exact h.misr
      · intro _ _ at_
        cases at_
    · -- the status has nothing for `r6040_tx`
      have nothing : ¬ (status &&& txInts ≠ 0#16) := not_not_intro ((and_txInts status).mpr quiet)
      dsimp only at step
      rw [if_neg nothing] at step
      cases step
      unfold Machine.rxInterrupt
      split
      · exact ⟨⟨h.full, h.misr, by intro _ _ at_; cases at_⟩, rfl, rfl⟩
      · exact ⟨⟨h.full, h.misr, by intro _ _ at_; cases at_⟩, rfl, rfl⟩
  · cases step
    refine ⟨⟨h.full, ?_, ?_⟩, rfl, rfl⟩
    · rw [mier]
      exact h.misr
    · intro _ _ at_
      cases at_

theorem poll (h : Deaf m) {alloc : Option Dword} (step : m.pollStep alloc = some m') :
    Deaf m' ∧ SameQueue m m' := by
  unfold Machine.pollStep at step
  split at step
  · cases step
  · split at step
    · cases step
      unfold Machine.rxPacket Machine.giveBack
      dsimp only
      split
      · exact ⟨⟨h.full, h.misr, h.irq⟩, rfl, rfl⟩
      · split <;> exact ⟨⟨h.full, h.misr, h.irq⟩, rfl, rfl⟩
    · cases step
      exact ⟨⟨h.full, h.misr, h.irq⟩, rfl, rfl⟩
  · split at step
    · cases step
      exact ⟨⟨h.full, h.misr, h.irq⟩, rfl, rfl⟩
    · cases step
      exact ⟨⟨h.full, h.misr, h.irq⟩, rfl, rfl⟩
  · cases step
    exact ⟨⟨h.full, h.misr, h.irq⟩, rfl, rfl⟩
  · cases step
    refine ⟨⟨h.full, ?_, h.irq⟩, rfl, rfl⟩
    rw [iowrite16_mier, State.updateIrq_regs, State.setReg_other _ (by decide)]
    exact h.misr

theorem receive (h : Deaf m) (p : Packet) :
    ((receiveOnePacket p.bytes m.nic).2.regs misrW).getLsbD 4 = false := by
  by_cases owned : (Descriptor.read m.nic.ram m.nic.rxStart.toNat).Owned
  · rw [(receive_effect owned).misr 4 (by decide)]
    exact h.misr
  · rw [receive_refused owned]
    exact h.misr

theorem restart (full : m.lp.txFreeDesc = 0)
    (irq : ∀ saved status, m.irq = .status saved status → status.getLsbD 4 = false)
    {w : Machine} (restarted : Restarted m w) : Deaf w ∧ SameQueue m w := by
  have irq' := congrArg Machine.irq restarted.others
  have queued := congrArg Machine.queued restarted.others
  have freed := congrArg Machine.freed restarted.others
  refine ⟨⟨?_, ?_, ?_⟩, queued, freed⟩
  · rw [restarted.lp]
    exact full
  · rw [restarted.misr]
    rfl
  · intro saved status here
    exact irq saved status (irq'.symm.trans here)

theorem step (h : Deaf m) (sides : Sides base m) {a : Action} (step : m.step a = some m') :
    Deaf m' ∧ SameQueue m m' := by
  cases a with
  | receive p =>
    unfold Machine.step at step
    dsimp only at step
    split at step
    · cases step
      exact ⟨⟨h.full, h.receive p, h.irq⟩, rfl, rfl⟩
    · cases step
  | interrupt =>
    unfold Machine.step at step
    dsimp only at step
    split at step
    · cases step
      exact ⟨⟨h.full, h.misr, by intro _ _ at_; cases at_⟩, rfl, rfl⟩
    · cases step
  | handler => exact h.handler step
  | softirq =>
    unfold Machine.step at step
    dsimp only at step
    split at step
    · cases step
      exact ⟨⟨h.full, h.misr, h.irq⟩, rfl, rfl⟩
    · cases step
  | poll alloc =>
    unfold Machine.step at step
    dsimp only at step
    split at step
    · exact h.poll step
    · cases step
  | xmit data bytes =>
    unfold Machine.step at step
    dsimp only at step
    split at step
    · cases step
      rw [Machine.startXmit, if_pos h.full]
      exact ⟨⟨h.full, h.misr, h.irq⟩, rfl, rfl⟩
    · cases step
  | timeout =>
    cases step
    exact restart h.full h.irq sides.txTimeout

end Deaf

section
variable {devAddr : Word × Word × Word} {rxDma txDma : Dword} {datas : List Dword} {nic : State}
variable {m₀ m : Machine}

/-- Once `r6040_tx_timeout` has been called for a queue that has stopped, while no
interrupt is being handled, the queue stays so, and no frame is taken or freed. -/
theorem stopped_for_good (layout : Layout rxDma txDma datas)
    (opened : openDevice devAddr rxDma txDma datas nic = some m₀)
    (reached : Transition.Reach (fun a m => m.step a) Harmless m₀ m) (stopped : m.stopped = true)
    (irq : m.irq = .out) (harmless : Harmless m .timeout) {m' : Machine}
    (later : Transition.Reach (fun a m => m.step a) Harmless m.txTimeout m') :
    m'.stopped = true ∧ m'.queued = m.queued ∧ m'.freed = m.freed := by
  obtain ⟨sides, counted⟩ := reach_sides layout opened reached
  have full : m.lp.txFreeDesc = 0 := of_decide_eq_true (counted.stopped.symm.trans stopped)
  have restarted := Deaf.restart full (by intro _ _ here; cases irq.symm.trans here) sides.txTimeout
  have all := later.invariant (P := fun m' =>
    Sides nic.sent m' ∧ Counted m' ∧ Deaf m' ∧ SameQueue m m')
    ⟨sides.step harmless rfl, counted.step sides (a := .timeout) rfl, restarted⟩ (by
      rintro s a s' ⟨sides, counted, deaf, same⟩ may step
      obtain ⟨deaf', same'⟩ := deaf.step sides step
      exact ⟨sides.step may step, counted.step sides step, deaf', same'.1.trans same.1,
        same'.2.trans same.2⟩)
  obtain ⟨-, counted', deaf, same⟩ := all
  exact ⟨counted'.stopped.trans (decide_eq_true deaf.full), same⟩

/-- The device is at the beginning of the rings if whole rounds have been made. -/
theorem harmless_of_rounds {base : List (List Byte)} (sides : Sides base m)
    (queued : m.queued.length % txDcnt = 0) (accepted : m.accepted.length % rxDcnt = 0) :
    Harmless m .timeout := by
  intro _
  obtain ⟨r, rx⟩ := sides.rx
  have insert := sides.tx.insert
  constructor
  · apply BitVec.eq_of_toNat_eq
    rw [sides.tx.idle.start, insert, queued, Ring.desc, Nat.mul_zero, Nat.add_zero]
  · apply BitVec.eq_of_toNat_eq
    rw [rx.start, rx.n, accepted, rx.desc, Ring.desc, Nat.mul_zero, Nat.add_zero]

/-- As many frames as there are descriptors, while no interrupt is handled. -/
theorem fill_queue (layout : Layout rxDma txDma datas)
    (opened : openDevice devAddr rxDma txDma datas nic = some m₀) {data : Dword} {bytes : List Byte}
    (unused : m₀.Unused data.toNat bytes.length) (short : bytes.length < 2 ^ 16) {n : Nat}
    (enough : n ≤ txDcnt) : ∃ m, Transition.Reach (fun a m => Machine.step a m) Harmless m₀ m ∧
      m.queued.length = n ∧ m.freed = [] ∧ m.accepted = [] ∧ m.irq = .out ∧
      m.lp.rx = m₀.lp.rx ∧ m.lp.tx.dma = m₀.lp.tx.dma := by
  induction n with
  | zero =>
    have machine := (openDevice_opened layout opened).machine
    have queued : m₀.queued = [] := congrArg Machine.queued machine
    have freed : m₀.freed = [] := congrArg Machine.freed machine
    have accepted : m₀.accepted = [] := congrArg Machine.accepted machine
    have irq : m₀.irq = .out := congrArg Machine.irq machine
    exact ⟨m₀, .start, by rw [queued]; rfl, freed, accepted, irq, rfl, rfl⟩
  | succ n ih =>
    obtain ⟨m, reached, queued, freed, accepted, irq, rx, tx⟩ := ih (Nat.le_of_succ_le enough)
    have count := (reach_sides layout opened reached).1.tx.count
    rw [freed] at count
    have free : m.lp.txFreeDesc ≠ 0 := by
      rw [List.length_nil] at count
      omega
    have unused' : m.Unused data.toNat bytes.length := by
      unfold Machine.Unused
      rw [rx, tx]
      exact unused
    obtain ⟨m', step, queued', freed', accepted', irq', rx', tx'⟩ := xmit_taken unused' short free
    have harmless : Harmless m (.xmit data bytes) := by
      intro timeout
      cases timeout
    refine ⟨m', .next _ reached harmless step, ?_, freed'.trans freed, accepted'.trans accepted,
      irq'.trans irq, rx'.trans rx, tx'.trans tx⟩
    rw [queued', List.length_append, queued, List.length_singleton]

theorem stopped_for_good_full : ∃ m₀ m,
    openDevice (0#16, 0#16, 0#16) 0x10000#32 0x20000#32 someBuffers (initPci fun _ => 0#8) = some m₀ ∧
    Transition.Reach (fun a m => Machine.step a m) Harmless m₀ m ∧ m.txTimeout.stopped = true ∧
    m.txTimeout.queued.length = txDcnt := by
  obtain ⟨m₀, opened⟩ := someBuffers_opened
  have start := openDevice_opened someBuffers_layout opened
  obtain ⟨m, reached, queued, freed, accepted, irq, -⟩ := fill_queue someBuffers_layout opened
    (someBuffers_unused_byte start) (by decide) (Nat.le_refl txDcnt)
  obtain ⟨sides, counted⟩ := reach_sides someBuffers_layout opened reached
  have count := sides.tx.count
  rw [queued, freed, List.length_nil] at count
  have full : m.lp.txFreeDesc = 0 := by omega
  have harmless := harmless_of_rounds sides (by rw [queued]; decide) (by rw [accepted]; rfl)
  obtain ⟨stopped, same, -⟩ := stopped_for_good someBuffers_layout opened reached
    (counted.stopped.trans (decide_eq_true full)) irq harmless .start
  exact ⟨m₀, m, opened, reached, stopped, (congrArg List.length same).trans queued⟩

end

/-! ## The rings -/

section
variable {base : List (List Byte)} {m w : Machine}

/-- What a frame does to a device that is at the beginning of the transmit ring. -/
theorem kick_at_start (v : Machine) (skb : SkBuff) (linked : RingLinked v.lp.tx txDcnt v.nic.ram)
    (free : ∀ j < txDcnt, ¬ (Descriptor.read v.nic.ram (v.lp.tx.desc j)).Owned)
    (inside : v.lp.txInsertPtr < txDcnt) (start : v.nic.txStart = v.lp.tx.dma)
    (short : skb.len < 2 ^ 16) :
    (iowrite16 0x01#16 mtpr { v.nic with ram := handOver v skb }).sent ≠ v.nic.sent ↔
      v.lp.txInsertPtr = 0 := by
  have first : v.nic.txStart.toNat = v.lp.tx.desc 0 := by
    rw [start, Ring.desc, Nat.mul_zero, Nat.add_zero]
  by_cases here : v.lp.txInsertPtr = 0
  · have idle : TxIdle v := ⟨linked, free, inside, by rw [here]; exact first⟩
    refine iff_of_true ?_ here
    rw [(idle.kicked short).sent]
    simp
  · refine iff_of_false (not_not_intro ?_) here
    -- the descriptor that the device looks at is another one
    have same : Descriptor.read (handOver v skb) (v.lp.tx.desc 0) =
        Descriptor.read v.nic.ram (v.lp.tx.desc 0) := by
      apply Descriptor.read_congr
      intro i small
      apply handOver_frame
      unfold Ring.desc
      omega
    have unowned : ¬ (Descriptor.read ({ v.nic with ram := handOver v skb } : State).ram
        ({ v.nic with ram := handOver v skb } : State).txStart.toNat).Owned := by
      rw [show ({ v.nic with ram := handOver v skb } : State).txStart = v.nic.txStart from rfl, first]
      rw [same]
      exact free 0 (by decide)
    rw [iowrite16, writew_mtpr rfl, if_pos (by decide), transmit_idle unowned]
    rfl

theorem timeout_xmit (sides : Sides base m) (counted : Counted m) (restarted : Restarted m w)
    (going : m.stopped = false) {data : Dword} {bytes : List Byte} {m' : Machine}
    (step : w.step (.xmit data bytes) = some m') :
    m'.nic.sent ≠ m.nic.sent ↔ m.queued.length % txDcnt = 0 := by
  have free : w.lp.txFreeDesc ≠ 0 := by
    rw [restarted.lp]
    exact of_decide_eq_false (counted.stopped.symm.trans going)
  unfold Machine.step at step
  dsimp only at step
  split at step
  swap
  · cases step
  rename_i unused
  obtain ⟨unused, short⟩ := unused
  cases step
  have unused' : m.Unused data.toNat bytes.length := by
    unfold Machine.Unused at unused ⊢
    rwa [restarted.lp] at unused
  have prepared := (sides.stored unused').tx.idle
  rw [Machine.startXmit, if_neg free, ← sides.tx.insert]
  have start : w.nic.txStart = w.lp.tx.dma := by
    rw [restarted.lp]
    exact restarted.reset.txStart
  have sent : w.nic.sent = m.nic.sent := restarted.reset.sent
  have result := kick_at_start { w with nic := { w.nic with
    ram := w.nic.ram.store data.toNat bytes } } ⟨data, bytes.length⟩
    (by rw [restarted.lp, restarted.ram]; exact prepared.linked)
    (by rw [restarted.lp, restarted.ram]; exact prepared.free)
    (by rw [restarted.lp]; exact prepared.inside) start short
  rw [← sent, ← restarted.lp]
  exact result

theorem timeout_receive (sides : Sides base m) (restarted : Restarted m w)
    (through : m.passed.length = m.accepted.length) {p : Packet} {m' : Machine}
    (step : w.step (.receive p) = some m') : m'.accepted = m.accepted ++ [p] ∧
    (m'.status m'.lp.rx m'.rxPointer &&& dscOwnerMac = 0#16 ↔ m.passed.length % rxDcnt = 0) := by
  obtain ⟨r, rx⟩ := sides.rx
  have accepted := congrArg Machine.accepted restarted.others
  have pointer := congrArg Machine.rxPointer restarted.others
  have positive : 0 < r.n := r.positive
  have empty (j : Nat) (below : j < r.n) : r.slots rxView m.nic.ram j = none := by
    have holds := rx.system.holds
    rw [show m.rxSystem.given = m.passed.length from rfl, through,
      ← List.length_map (cut maxBufSize)] at holds
    exact holds.empty below
  have start : w.nic.rxStart.toNat = r.desc 0 := by
    rw [restarted.reset.rxStart, rx.desc, Ring.desc, Nat.mul_zero, Nat.add_zero]
  have owned : (Descriptor.read w.nic.ram w.nic.rxStart.toNat).Owned := by
    rw [start, restarted.ram]
    exact (slot_none_iff r m.nic.ram 0).mp (empty 0 positive)
  have size : w.nic.bufferSize = maxBufSize := restarted.reset.bufferSize
  obtain ⟨d, dbp, dnx, free, dlen, ok, ram, -⟩ := receive_accepted p owned (by rw [size]; decide)
  rw [start, restarted.ram] at dbp dnx
  rw [start, restarted.ram, size, dbp,
    show (Descriptor.read m.nic.ram (r.desc 0)).dbp.toNat = r.buf 0 from
      rx.system.linked.dbp 0 positive] at ram
  rw [size] at dlen
  have fits : (cut maxBufSize p).length ≤ r.room 0 := by
    rw [rx.room, cut, List.length_take]
    omega
  -- the packet goes to the first descriptor, and all others are empty
  obtain ⟨-, slots⟩ := rx_fill rx.system.linked positive fits dbp dnx free dlen
  unfold Machine.step at step
  dsimp only at step
  rw [if_pos restarted.enabled, ok] at step
  cases step
  refine ⟨congrArg (· ++ [p]) accepted, ?_⟩
  have below : m.passed.length % r.n < r.n := Nat.mod_lt _ positive
  have here : r.slots rxView (receiveOnePacket p.bytes w.nic).2.ram (m.passed.length % r.n) = none ↔
      m.passed.length % r.n ≠ 0 := by
    rw [ram]
    refine (Eq.congr_left (slots _ below)).trans ?_
    by_cases zero : m.passed.length % r.n = 0
    · rw [zero, Function.update_self]
      simp
    · rw [Function.update_of_ne zero]
      exact iff_of_true (empty _ below) zero
  rw [slot_none_iff] at here
  have status : (Machine.status { w with nic := (receiveOnePacket p.bytes w.nic).2 } w.lp.rx
      w.rxPointer &&& dscOwnerMac = 0#16) ↔
      ¬ (r.descriptor (receiveOnePacket p.bytes w.nic).2.ram (m.passed.length % r.n)).Owned := by
    rw [Descriptor.Owned, not_not, DescriptorRing.descriptor, rx.desc, rx.n, ← rx.pointer, ← pointer,
      ← restarted.lp]
    rfl
  refine status.trans ?_
  rw [here, not_not, rx.n]

end

/-- After `r6040_tx_timeout` the next frame is sent exactly if the driver is at the
beginning of the transmit ring, and the next packet is seen exactly if it is at the
beginning of the receive ring. -/
theorem timeout_loses_place {devAddr : Word × Word × Word} {rxDma txDma : Dword} {datas : List Dword}
    {nic : State} {m₀ m : Machine} (layout : Layout rxDma txDma datas)
    (opened : openDevice devAddr rxDma txDma datas nic = some m₀)
    (reached : Transition.Reach (fun a m => m.step a) Harmless m₀ m) :
    (m.stopped = false → ∀ data bytes m', m.txTimeout.step (.xmit data bytes) = some m' →
      (m'.nic.sent ≠ m.nic.sent ↔ m.queued.length % txDcnt = 0)) ∧
    (m.passed.length = m.accepted.length → ∀ p m', m.txTimeout.step (.receive p) = some m' →
      m'.accepted = m.accepted ++ [p] ∧
      (m'.status m'.lp.rx m'.rxPointer &&& dscOwnerMac = 0#16 ↔ m.passed.length % rxDcnt = 0)) := by
  obtain ⟨sides, counted⟩ := reach_sides layout opened reached
  constructor
  · intro going data bytes m' step
    exact timeout_xmit sides counted sides.txTimeout going step
  · intro through p m' step
    exact timeout_receive sides sides.txTimeout through step

/-- With one frame sent, a timeout makes the next one stay in memory. -/
theorem timeout_loses_place_byte : ∃ m₀ m m',
    openDevice (0#16, 0#16, 0#16) 0x10000#32 0x20000#32 someBuffers (initPci fun _ => 0#8) = some m₀ ∧
    Transition.Reach (fun a m => Machine.step a m) Harmless m₀ m ∧
    m.txTimeout.step (.xmit 0x1000#32 [0xaa#8]) = some m' ∧ m'.nic.sent = m.nic.sent := by
  obtain ⟨m₀, opened⟩ := someBuffers_opened
  have start := openDevice_opened someBuffers_layout opened
  have unused := someBuffers_unused_byte start
  obtain ⟨m, reached, queued, freed, -, -, rx, tx⟩ := fill_queue someBuffers_layout opened unused
    (by decide) (show 1 ≤ txDcnt by decide)
  obtain ⟨sides, counted⟩ := reach_sides someBuffers_layout opened reached
  have count := sides.tx.count
  rw [queued, freed, List.length_nil] at count
  have free : m.lp.txFreeDesc ≠ 0 := by
    rw [show txDcnt = 128 from rfl] at count
    omega
  have restarted := sides.txTimeout
  have unused' : m.txTimeout.Unused (0x1000#32).toNat [0xaa#8].length := by
    unfold Machine.Unused at unused ⊢
    rwa [restarted.lp, rx, tx]
  obtain ⟨m', step, -⟩ := xmit_taken unused' (by decide) (by rw [restarted.lp]; exact free)
  have lost := (timeout_loses_place someBuffers_layout opened reached).1
    (counted.stopped.trans (decide_eq_false free)) 0x1000#32 [0xaa#8] m' step
  rw [queued] at lost
  exact ⟨m₀, m, m', opened, reached, step, not_not.mp (mt lost.mp (by decide))⟩

end Bifferboard.Netdev
