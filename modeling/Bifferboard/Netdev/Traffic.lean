import Bifferboard.Netdev.System

/-!
# The traffic of whole runs

What goes through the two rings over every run from `r6040_open` on: the frames that
are sent and the packets that are passed up, in their order, and what is counted for
them. A packet of one byte is followed from the network to the stack.
-/

namespace Bifferboard.Netdev
open Nor R6040

/-! ## Interrupts -/

theorem and_txInts (w : Word) : w &&& txInts = 0#16 ↔ w.getLsbD 4 = false :=
  and_bit_eq_zero_iff w (show 4 < 16 by decide)

theorem and_ne_zero_of_bit {w mask : Word} {i : Nat} (bit : w.getLsbD i = true)
    (listed : mask.getLsbD i = true) : w &&& mask ≠ 0#16 := by
  intro zero
  have both := congrArg (fun v : Word => v.getLsbD i) zero
  simp [bit, listed] at both

theorem line_of_bit {s : State} (right : s.LineRight) {i : Nat}
    (bit : (s.regs misrW).getLsbD i = true) (enabled : (s.regs mierW).getLsbD i = true) :
    s.irq = true := right.trans (decide_eq_true (and_ne_zero_of_bit bit enabled))

theorem mier_written (nic : State) (val : Word) : (iowrite16 val mier nic).regs mierW = val := by
  rw [iowrite16_mier, State.updateIrq_regs, State.setReg_same]

theorem mier_lineRight (nic : State) (val : Word) : (iowrite16 val mier nic).LineRight := by
  rw [iowrite16_mier]
  exact lineRight_updateIrq _

section
variable {base : List (List Byte)} {m : Machine}

theorem rxInterrupt_eq (m : Machine) (status : Word) : ∃ stats, m.rxInterrupt status = { m with
    stats := stats, scheduled := m.scheduled || decide (status &&& rxInts ≠ 0#16) } := by
  unfold Machine.rxInterrupt
  split
  · rename_i some
    rw [decide_eq_true some, Bool.or_true]
    exact ⟨_, rfl⟩
  · rename_i none
    refine ⟨m.stats, ?_⟩
    rw [decide_eq_false none, Bool.or_false]

/-- What `r6040_interrupt` does about its status, and what it leaves alone. -/
theorem act_eq (sides : Sides base m) (status : Word) : ∃ lp stats stopped freed,
    (if status &&& txInts ≠ 0#16 then (m.rxInterrupt status).tx else m.rxInterrupt status) = { m with
      lp := lp, stats := stats, stopped := stopped, freed := freed,
      scheduled := m.scheduled || decide (status &&& rxInts ≠ 0#16) } ∧
    (freed.length < m.queued.length → m.freed.length < m.queued.length ∧ status.getLsbD 4 = false) ∧
    lp.rx = m.lp.rx ∧ lp.tx.dma = m.lp.tx.dma := by
  obtain ⟨stats, eq⟩ := rxInterrupt_eq m status
  have received := sides.rxInterrupt status
  rw [eq] at received ⊢
  split
  · obtain ⟨-, all, lp, stats, stopped, freed, eq, rx, -, dma⟩ := received.tx.tx
    refine ⟨lp, stats, stopped, freed, eq, ?_, rx, dma⟩
    rw [eq] at all
    intro fewer
    rw [show freed = _ from all, List.length_map] at fewer
    exact absurd fewer (Nat.lt_irrefl _)
  · rename_i none
    refine ⟨m.lp, stats, m.stopped, m.freed, rfl, ?_, rfl, rfl⟩
    intro fewer
    exact ⟨fewer, (and_txInts status).mp (not_not.mp none)⟩

theorem misr_kept (nic : State) (val : Word) :
    (iowrite16 val mier nic).regs misrW = nic.regs misrW := by
  rw [iowrite16_mier, State.updateIrq_regs, State.setReg_other _ (by decide)]

/-- An interrupt that nothing comes between. -/
theorem interrupt_handled {allowed : Machine → Action → Prop}
    (may : ∀ m, allowed m .interrupt ∧ allowed m .handler) (sides : Sides base m) (out : m.irq = .out)
    (line : m.nic.irq = true) (some : m.nic.regs misrW ≠ 0#16) (sane : m.nic.regs misrW ≠ 0xffff#16) :
    ∃ m', Transition.Reach (fun a m => Machine.step a m) allowed m m' ∧ m'.irq = .out ∧
      m'.nic.regs misrW = 0#16 ∧
      m'.nic.regs mierW = Machine.restored (m.nic.regs mierW) (m.nic.regs misrW) ∧ m'.nic.LineRight ∧
      m'.poll = m.poll ∧ m'.accepted = m.accepted ∧ m'.passed = m.passed ∧ m'.queued = m.queued ∧
      m'.scheduled = (m.scheduled || decide (m.nic.regs misrW &&& rxInts ≠ 0#16)) ∧
      m'.lp.rx = m.lp.rx ∧ m'.lp.tx.dma = m.lp.tx.dma := by
  have harmless (m : Machine) : Harmless m .interrupt ∧ Harmless m .handler :=
    ⟨fun timeout => Action.noConfusion timeout, fun timeout => Action.noConfusion timeout⟩
  let saved : Machine := { m with irq := .saved (m.nic.regs mierW) }
  have first : m.step .interrupt = .some saved := by
    unfold Machine.step
    dsimp only
    rw [if_pos ⟨out, line⟩, ioread16_mier]
  let masked : Machine := { saved with
    nic := iowrite16 mskInt Netdev.mier m.nic, irq := .masked (m.nic.regs mierW) }
  have second : saved.step .handler = .some masked := rfl
  let read : Machine := { masked with
    nic := masked.nic.setReg misrW 0#16, irq := .status (m.nic.regs mierW) (m.nic.regs misrW) }
  have third : masked.step .handler = .some read := by
    change Option.some { masked with
      nic := (ioread16 misr masked.nic).2
      irq := .status (m.nic.regs mierW) (ioread16 misr masked.nic).1 } = _
    rw [ioread16_misr, misr_kept]
  have reached : Transition.Reach (fun a m => Machine.step a m) allowed m read :=
    .next .handler (.next .handler (.next .interrupt .start (may _).1 first) (may _).2 second) (may _).2 third
  have sides' : Sides base read :=
    ((sides.step (harmless _).1 first).step (harmless _).2 second).step (harmless _).2 third
  obtain ⟨lp, stats, stopped, freed, eq, -, rx, dma⟩ := act_eq sides' (m.nic.regs misrW)
  have fourth : read.step .handler = .some { read with
      lp := lp, stats := stats, stopped := stopped, freed := freed,
      irq := .handled (Machine.restored (m.nic.regs mierW) (m.nic.regs misrW)),
      scheduled := read.scheduled || decide (m.nic.regs misrW &&& rxInts ≠ 0#16) } := by
    change (if m.nic.regs misrW = 0x0000#16 ∨ m.nic.regs misrW = 0xffff#16 then _ else _) = _
    rw [if_neg (not_or_intro some sane), eq]
  refine ⟨_, .next .handler (.next .handler reached (may _).2 fourth) (may _).2 rfl, rfl, ?_,
    mier_written _ _, mier_lineRight _ _, rfl, rfl, rfl, rfl, rfl, rx, dma⟩
  exact (misr_kept _ _).trans (State.setReg_same _ _ _)

end

/-! ## Whole runs -/

section
variable {devAddr : Word × Word × Word} {rxDma txDma : Dword} {datas : List Dword} {nic : State}
variable {m₀ m : Machine}

theorem Opened.counted (h : Opened rxDma txDma datas nic m) : Counted m := by
  have stats : m.stats = {} := congrArg Machine.stats h.machine
  have stopped : m.stopped = false := congrArg Machine.stopped h.machine
  have queued : m.queued = [] := congrArg Machine.queued h.machine
  have passed : m.passed = [] := congrArg Machine.passed h.machine
  refine ⟨?_, ?_, ?_, ?_, ?_, ?_⟩
  · rw [stopped, h.rings.txFreeDesc]
    rfl
  all_goals simp [stats, queued, passed]

theorem reach_sides (layout : Layout rxDma txDma datas)
    (opened : openDevice devAddr rxDma txDma datas nic = some m₀)
    (reached : Transition.Reach (fun a m => m.step a) Harmless m₀ m) :
    Sides nic.sent m ∧ Counted m := by
  have start := openDevice_opened layout opened
  apply reached.invariant (P := fun m => Sides nic.sent m ∧ Counted m)
  · exact ⟨start.sides layout, start.counted⟩
  · intro m a m' both may step
    exact ⟨both.1.step may step, both.2.step both.1 step⟩

/-- A frame that is taken. -/
theorem xmit_taken {data : Dword} {bytes : List Byte} (unused : m.Unused data.toNat bytes.length)
    (short : bytes.length < 2 ^ 16) (free : m.lp.txFreeDesc ≠ 0) :
    ∃ m', m.step (.xmit data bytes) = some m' ∧ m'.queued = m.queued ++ [(⟨data, bytes.length⟩, bytes)] ∧
      m'.freed = m.freed ∧ m'.accepted = m.accepted ∧ m'.irq = m.irq ∧ m'.lp.rx = m.lp.rx ∧
      m'.lp.tx.dma = m.lp.tx.dma := by
  unfold Machine.step
  dsimp only
  rw [if_pos ⟨unused, short⟩]
  refine ⟨_, rfl, ?_⟩
  rw [Machine.startXmit, if_neg free]
  exact ⟨rfl, rfl, rfl, rfl, rfl, rfl⟩

/-- Memory that is neither in the rings nor in the buffers is free for a frame. -/
theorem Opened.unused (h : Opened rxDma txDma datas nic m) {a n : Nat}
    (rx : Machine.Apart a n rxDma.toNat (32 * rxDcnt)) (tx : Machine.Apart a n txDma.toNat (32 * txDcnt))
    (buffers : ∀ buffer ∈ datas, Machine.Apart a n buffer.toNat maxBufSize) : m.Unused a n := by
  refine ⟨h.rings.rxRing ▸ rx, h.rings.txRing ▸ tx, ?_⟩
  intro j below skb here
  obtain ⟨buffer, listed, ptr, -⟩ := h.rings.skbPtr j below
  cases ptr.symm.trans here
  exact buffers buffer (List.mem_of_getElem? listed)

/-- The frames that have been sent are those `r6040_start_xmit` has accepted, and
`r6040_tx` frees their buffers in the same order. -/
theorem frames_sent_in_order (layout : Layout rxDma txDma datas)
    (opened : openDevice devAddr rxDma txDma datas nic = some m₀)
    (reached : Transition.Reach (fun a m => m.step a) Harmless m₀ m) :
    (∃ frames, m.nic.sent = nic.sent ++ frames ∧ List.Forall₂ Carries frames m.queued) ∧
    m.freed <+: m.queued.map Prod.fst ∧ m.tx.freed = m.queued.map Prod.fst ∧
    (∀ skb, (m.startXmit skb).1 = false ↔ m.queued.length = m.freed.length + txDcnt) ∧
    (m.stopped = true ↔ m.queued.length = m.freed.length + txDcnt) := by
  obtain ⟨sides, counted⟩ := reach_sides layout opened reached
  have count := sides.tx.count
  have full : m.lp.txFreeDesc = 0 ↔ m.queued.length = m.freed.length + txDcnt := by omega
  refine ⟨sides.tx.sent, sides.tx.freed, sides.tx.tx.2.1, ?_, ?_⟩
  · intro skb
    rw [← full, Machine.startXmit]
    split
    · rename_i none
      exact ⟨fun _ => none, fun _ => rfl⟩
    · rename_i some
      exact ⟨fun taken => absurd taken.symm Bool.false_ne_true, fun none => absurd none some⟩
  · rw [counted.stopped, decide_eq_true_iff]
    exact full

/-- Buffers one behind the other. -/
def someBuffers : List Dword := (List.range rxDcnt).map fun i => BitVec.ofNat 32 (0x100000 + 0x600 * i)

theorem someBuffer_toNat {i : Nat} (below : i < rxDcnt) :
    (BitVec.ofNat 32 (0x100000 + 0x600 * i)).toNat = 0x100000 + 0x600 * i := by
  unfold rxDcnt at below
  rw [BitVec.toNat_ofNat]
  exact Nat.mod_eq_of_lt (by omega)

theorem someBuffers_above {data : Dword} (listed : data ∈ someBuffers) : 0x100000 ≤ data.toNat := by
  obtain ⟨i, below, rfl⟩ := List.mem_map.mp listed
  rw [someBuffer_toNat (List.mem_range.mp below)]
  exact Nat.le_add_right _ _

theorem someBuffers_layout : Layout 0x10000#32 0x20000#32 someBuffers := by
  refine ⟨by decide, by decide, by decide, ?_, ?_, ?_⟩
  · intro data listed
    exact .inr (Nat.le_trans (by decide) (someBuffers_above listed))
  · intro data listed
    exact .inr (Nat.le_trans (by decide) (someBuffers_above listed))
  · rw [someBuffers, List.pairwise_map]
    refine List.pairwise_lt_range.imp_of_mem ?_
    intro i j low high less
    left
    rw [someBuffer_toNat (List.mem_range.mp low), someBuffer_toNat (List.mem_range.mp high), maxBufSize]
    omega

theorem someBuffers_opened : ∃ m₀,
    openDevice (0#16, 0#16, 0#16) 0x10000#32 0x20000#32 someBuffers (initPci fun _ => 0#8) = some m₀ :=
  openDevice_enough _ _ _ _ _ (by rw [someBuffers, List.length_map, List.length_range])

theorem someBuffers_unused (opened : Opened 0x10000#32 0x20000#32 someBuffers nic m) {a n : Nat}
    (low : a + n ≤ 0x100000) (rx : Machine.Apart a n 0x10000 (32 * rxDcnt))
    (tx : Machine.Apart a n 0x20000 (32 * txDcnt)) : m.Unused a n := by
  apply opened.unused rx tx
  intro buffer listed
  exact .inl (Nat.le_trans low (someBuffers_above listed))

theorem someBuffers_unused_byte (opened : Opened 0x10000#32 0x20000#32 someBuffers nic m) :
    m.Unused (0x1000#32).toNat [0xaa#8].length :=
  someBuffers_unused opened (by decide) (by decide) (by decide)

/-- A frame of one byte, after the device has been opened. -/
theorem someBuffers_xmit : ∃ m₀ m,
    openDevice (0#16, 0#16, 0#16) 0x10000#32 0x20000#32 someBuffers (initPci fun _ => 0#8) = some m₀ ∧
    Transition.Reach (fun a m => Machine.step a m) Harmless m₀ m ∧
    m.queued = [(⟨0x1000#32, 1⟩, [0xaa#8])] := by
  obtain ⟨m₀, opened⟩ := someBuffers_opened
  have start := openDevice_opened someBuffers_layout opened
  have none : m₀.queued = [] := congrArg Machine.queued start.machine
  have free : m₀.lp.txFreeDesc ≠ 0 := by
    rw [start.rings.txFreeDesc]
    decide
  obtain ⟨m, step, queued, -⟩ := xmit_taken (someBuffers_unused_byte start) (by decide) free
  have harmless : Harmless m₀ (.xmit 0x1000#32 [0xaa#8]) := by
    intro timeout
    cases timeout
  rw [none] at queued
  exact ⟨m₀, m, opened, .next (.xmit 0x1000#32 [0xaa#8]) .start harmless step, queued⟩

theorem frames_sent_in_order_byte : ∃ m₀ m,
    openDevice (0#16, 0#16, 0#16) 0x10000#32 0x20000#32 someBuffers (initPci fun _ => 0#8) = some m₀ ∧
    Transition.Reach (fun a m => Machine.step a m) Harmless m₀ m ∧
    List.Forall₂ Carries m.nic.sent [(⟨0x1000#32, 1⟩, [0xaa#8])] := by
  obtain ⟨m₀, m, opened, reached, queued⟩ := someBuffers_xmit
  obtain ⟨⟨frames, sent, carried⟩, -⟩ := frames_sent_in_order someBuffers_layout opened reached
  rw [queued] at carried
  refine ⟨m₀, m, opened, reached, ?_⟩
  rw [sent]
  exact carried

theorem slot_none_iff (r : DescriptorRing) (ram : Mem) (j : Nat) :
    r.slots rxView ram j = none ↔ (r.descriptor ram j).Owned := by
  by_cases owned : (r.descriptor ram j).Owned
  · exact iff_of_true (rx_slots_owned owned) owned
  · refine iff_of_false ?_ owned
    rw [rx_slots_free owned]
    exact Option.some_ne_none _

/-- `r6040_rx` goes on as long as there are packets. -/
theorem RxSide.waiting_iff {r : DescriptorRing} (h : RxSide m r) :
    m.status m.lp.rx m.rxPointer &&& dscOwnerMac = 0#16 ↔ m.passed.length < m.accepted.length := by
  have through := h.system.holds.drained_iff r.positive
  have count := h.count
  rw [slot_none_iff, List.length_map] at through
  rw [h.free_iff, h.pointer, ← h.n]
  rw [show m.rxSystem.nic.ram = m.nic.ram from rfl, show m.rxSystem.given = m.passed.length from rfl,
    show m.rxSystem.accepted = m.accepted from rfl] at through
  rw [through]
  omega

/-- The device accepts packets as long as the driver is not a whole round behind. -/
theorem RxSide.accepts_iff {r : DescriptorRing} (h : RxSide m r) :
    (Descriptor.read m.nic.ram m.nic.rxStart.toNat).Owned ↔
      m.accepted.length < m.passed.length + rxDcnt := by
  have room := h.system.holds.room_iff r.positive
  rw [slot_none_iff, List.length_map, h.n] at room
  have start := h.start
  rw [h.n] at start
  rw [start]
  exact room

/-- A packet for which there is a descriptor is accepted. -/
theorem step_receive (enabled : canReceive m.nic = true)
    (owned : (Descriptor.read m.nic.ram m.nic.rxStart.toNat).Owned) (p : Packet) :
    m.step (.receive p) = some { m with
      nic := (receiveOnePacket p.bytes m.nic).2, accepted := m.accepted ++ [p] } := by
  have ok : (receiveOnePacket p.bytes m.nic).1 = 0 := by rw [receiveOnePacket, if_pos owned]
  unfold Machine.step
  dsimp only
  rw [if_pos enabled, ok]
  rfl

/-- A packet of one byte. -/
def somePacket : Packet := ⟨[0x55#8], by decide⟩

/-- The packet comes in, its interrupt is handled, and `r6040_poll` is called. -/
theorem someBuffers_polling {allowed : Machine → Action → Prop}
    (receive : ∀ m, allowed m (.receive somePacket))
    (may : ∀ m, allowed m .interrupt ∧ allowed m .handler)
    (softirq : ∀ m : Machine, m.irq = .out → allowed m .softirq) : ∃ m₀ m,
    openDevice (0#16, 0#16, 0#16) 0x10000#32 0x20000#32 someBuffers (initPci fun _ => 0#8) = some m₀ ∧
    Transition.Reach (fun a m => Machine.step a m) allowed m₀ m ∧ m.poll = .rx 0 m.lp.rxRemovePtr ∧
    m.accepted = [somePacket] ∧ m.passed = [] ∧ m.queued = [] ∧ m.irq = .out ∧ m.nic.irq = false ∧
    m.Unused (0x90000#32).toNat maxBufSize := by
  obtain ⟨m₀, opened⟩ := someBuffers_opened
  have start := openDevice_opened someBuffers_layout opened
  have sides := start.sides someBuffers_layout
  have irq : m₀.irq = .out := congrArg Machine.irq start.machine
  have poll : m₀.poll = .out := congrArg Machine.poll start.machine
  have accepted : m₀.accepted = [] := congrArg Machine.accepted start.machine
  have passed : m₀.passed = [] := congrArg Machine.passed start.machine
  have queued : m₀.queued = [] := congrArg Machine.queued start.machine
  obtain ⟨r, rx⟩ := sides.rx
  have owned : (Descriptor.read m₀.nic.ram m₀.nic.rxStart.toNat).Owned := by
    rw [rx.accepts_iff, accepted, passed]
    exact Nat.add_pos_right _ (by decide)
  have first := step_receive start.enabled owned somePacket
  have reached₁ : Transition.Reach (fun a m => Machine.step a m) allowed m₀ _ :=
    .next (.receive somePacket) .start (receive m₀) first
  have sides₁ := sides.step (fun timeout => Action.noConfusion timeout) first
  have misr : (receiveOnePacket somePacket.bytes m₀.nic).2.regs misrW = 1#16 := by
    rw [receive_owned_regs owned, State.rxStartSet, State.setReg_other _ (by decide),
      State.setReg_other _ (by decide), State.setReg_same,
      show m₀.nic.regs misrW = 0#16 from start.reset.misr]
    decide
  have mier : (receiveOnePacket somePacket.bytes m₀.nic).2.regs mierW = intMask :=
    ((receive_effect owned).regs mierW (by decide)).trans start.reset.mier
  have line := line_of_bit (receive_lineRight somePacket.bytes start.reset.line) (i := 0)
    (by rw [misr]; decide) (by rw [mier]; decide)
  generalize (receiveOnePacket somePacket.bytes m₀.nic).2 = nic at misr mier line reached₁ sides₁
  obtain ⟨m₂, reached₂, irq₂, misr₂, mier₂, right₂, poll₂, accepted₂, passed₂, queued₂, scheduled₂,
      rx₂, dma₂⟩ :=
    interrupt_handled may sides₁ irq line (by rw [misr]; decide) (by rw [misr]; decide)
  have low : m₂.nic.irq = false := by
    refine right₂.trans (decide_eq_false (not_not_intro ?_))
    rw [State.pending, misr₂, BitVec.zero_and]
  have due : m₂.scheduled = true := by
    rw [scheduled₂, misr]
    exact Bool.or_eq_true_iff.mpr (.inr (by decide))
  have third : m₂.step .softirq = some { m₂ with poll := .rx 0 m₂.lp.rxRemovePtr } :=
    if_pos ⟨due, poll₂.trans poll⟩
  have unused := someBuffers_unused start (show 0x90000 + maxBufSize ≤ 0x100000 by decide)
    (by decide) (by decide)
  refine ⟨m₀, _, opened, .next .softirq (reached₁.trans reached₂) (softirq _ irq₂) third, rfl, ?_,
    passed₂.trans passed, queued₂.trans queued, irq₂, low, ?_⟩
  · rw [show Machine.accepted _ = m₂.accepted from rfl, accepted₂, accepted]
    rfl
  · unfold Machine.Unused at unused ⊢
    rw [show Machine.lp _ = m₂.lp from rfl, rx₂, dma₂]
    exact unused

/-- The statistics are those of the traffic. -/
theorem stats_of_traffic (layout : Layout rxDma txDma datas)
    (opened : openDevice devAddr rxDma txDma datas nic = some m₀)
    (reached : Transition.Reach (fun a m => m.step a) Harmless m₀ m) :
    m.stats.txPackets = BitVec.ofNat 32 m.queued.length ∧
    m.stats.txBytes = BitVec.ofNat 32 (m.queued.map fun q => q.1.len).sum ∧
    m.stats.rxPackets = BitVec.ofNat 32 m.passed.reduceOption.length ∧
    m.stats.rxBytes = BitVec.ofNat 32 (m.passed.reduceOption.map List.length).sum ∧
    m.stats.rxDropped = BitVec.ofNat 32 (m.passed.count none) + m.stats.rxMissedErrors := by
  obtain ⟨-, counted⟩ := reach_sides layout opened reached
  exact ⟨counted.txPackets, counted.txBytes, counted.rxPackets, counted.rxBytes, counted.rxDropped⟩

theorem stats_of_traffic_byte : ∃ m₀ m,
    openDevice (0#16, 0#16, 0#16) 0x10000#32 0x20000#32 someBuffers (initPci fun _ => 0#8) = some m₀ ∧
    Transition.Reach (fun a m => Machine.step a m) Harmless m₀ m ∧ m.stats.txPackets = 1#32 ∧
    m.stats.txBytes = 1#32 := by
  obtain ⟨m₀, m, opened, reached, queued⟩ := someBuffers_xmit
  obtain ⟨packets, bytes, -⟩ := stats_of_traffic someBuffers_layout opened reached
  rw [queued] at packets bytes
  exact ⟨m₀, m, opened, reached, packets, bytes⟩

end

end Bifferboard.Netdev
