import Mathlib.Data.List.ReduceOption
import Bifferboard.Netdev.Receiving

/-!
# The driver and its device

Whatever order packets, frames, interrupts and polls come in, the frames that
`r6040_start_xmit` accepts go out in order and each once, and the packets that the
device accepts come in in order and each once. The one exception is
`r6040_tx_timeout`. It makes the device start at the beginning of the rings again,
while the driver stays where it is.
-/

namespace Bifferboard.Netdev
open Nor R6040

/-! ## Single steps -/

/-- Both sides of the driver. -/
structure Sides (base : List (List Byte)) (m : Machine) : Prop where
  tx : TxSide base m
  rx : ∃ r, RxSide m r

/-- The device is the same, as far as the rings are concerned. -/
structure SameRings (s s' : State) : Prop where
  ram : s'.ram = s.ram
  sent : s'.sent = s.sent
  txStart : s'.txStart = s.txStart
  rxStart : s'.rxStart = s.rxStart
  bufferSize : s'.bufferSize = s.bufferSize

namespace SameRings
variable {s s' : State}

theorem refl (s : State) : SameRings s s := ⟨rfl, rfl, rfl, rfl, rfl⟩

theorem setReg (h : SameRings s s') {i : Nat}
    (other : i ∉ [txStartLowW, txStartHighW, rxStartLowW, rxStartHighW, mrbsrW]) (val : Word) :
    SameRings s (s'.setReg i val) := by
  have kept (j : Nat) (listed : j ∈ [txStartLowW, txStartHighW, rxStartLowW, rxStartHighW, mrbsrW]) :
      (s'.setReg i val).regs j = s'.regs j :=
    s'.setReg_other (by rintro rfl; exact other listed) val
  refine ⟨h.ram, h.sent, ?_, ?_, ?_⟩
  · rw [State.txStart, kept _ (by decide), kept _ (by decide)]
    exact h.txStart
  · rw [State.rxStart, kept _ (by decide), kept _ (by decide)]
    exact h.rxStart
  · rw [State.bufferSize, kept _ (by decide)]
    exact h.bufferSize

theorem updateIrq (h : SameRings s s') : SameRings s s'.updateIrq :=
  ⟨h.ram, h.sent, h.txStart, h.rxStart, h.bufferSize⟩

theorem mier (h : SameRings s s') (val : Word) : SameRings s (iowrite16 val mier s') := by
  rw [iowrite16_mier]
  exact (h.setReg (by decide) _).updateIrq

theorem misr (h : SameRings s s') : SameRings s (ioread16 misr s').2 := by
  rw [ioread16_misr]
  exact h.setReg (by decide) _

end SameRings

namespace Sides
variable {base : List (List Byte)} {m m' : Machine}

/-- A step that concerns neither ring. -/
theorem congr (h : Sides base m) (nic : SameRings m.nic m'.nic)
    (lp : { m'.lp with rxRemovePtr := m.lp.rxRemovePtr } = m.lp) (pointer : m'.rxPointer = m.rxPointer)
    (freed : m'.freed = m.freed) (accepted : m'.accepted = m.accepted) (passed : m'.passed = m.passed)
    (queued : m'.queued = m.queued) : Sides base m' := by
  obtain ⟨r, rx⟩ := h.rx
  have tx := congrArg Private.tx lp
  have ring := congrArg Private.rx lp
  have insert := congrArg Private.txInsertPtr lp
  have remove := congrArg Private.txRemovePtr lp
  have count := congrArg Private.txFreeDesc lp
  have same (x : Nat) : m'.nic.ram x = m.nic.ram x := congrFun nic.ram x
  exact ⟨h.tx.congr ⟨tx, insert, remove, count, fun _ _ => same _, nic.txStart, nic.sent, freed, queued⟩,
    r, rx.congr ⟨ring, congrArg Ring.dma tx, pointer, fun _ _ x _ => same x, nic.rxStart, nic.bufferSize,
    accepted, passed⟩⟩

/-- A packet that comes in is of no concern to the transmit side. -/
theorem receive_frame {r : DescriptorRing} (rx : RxSide m r) (p : Packet) :
    (∀ i < 32 * txDcnt, (receiveOnePacket p.bytes m.nic).2.ram (m.lp.tx.dma.toNat + i) =
      m.nic.ram (m.lp.tx.dma.toNat + i)) ∧
    (receiveOnePacket p.bytes m.nic).2.txStart = m.nic.txStart ∧
    (receiveOnePacket p.bytes m.nic).2.sent = m.nic.sent := by
  by_cases owned : (Descriptor.read m.nic.ram m.nic.rxStart.toNat).Owned
  swap
  · rw [receive_refused owned]
    exact ⟨fun _ _ => rfl, rfl, rfl⟩
  have effect : ReceiveEffect p.bytes m.nic (receiveOnePacket p.bytes m.nic).2 := receive_effect owned
  have below := rx.below_n m.accepted.length
  have dbp : (Descriptor.read m.nic.ram m.nic.rxStart.toNat).dbp.toNat =
      r.buf (m.accepted.length % r.n) := by
    rw [rx.start]
    exact rx.system.linked.dbp _ (Nat.mod_lt _ r.positive)
  refine ⟨?_, ?_, ?_⟩
  · intro i inside
    have buffers := rx.txApart _ below
    have rings := rx.rings
    unfold Machine.Apart at buffers rings
    apply effect.ram
    · rw [dbp, rx.bufferSize]
      omega
    · rw [rx.start, rx.desc, Ring.desc]
      omega
  · rw [State.txStart, effect.regs _ (by decide), effect.regs _ (by decide)]
    rfl
  · rw [receiveOnePacket, if_pos owned]
    simp only [State.rxStartSet, State.setReg_sent, State.updateIrq_sent]

theorem receive (h : Sides base m) (p : Packet) : Sides base { m with
    nic := (receiveOnePacket p.bytes m.nic).2,
    accepted := if (receiveOnePacket p.bytes m.nic).1 = 0 then m.accepted ++ [p] else m.accepted } := by
  obtain ⟨r, rx⟩ := h.rx
  obtain ⟨ram, start, sent⟩ := receive_frame rx p
  exact ⟨h.tx.congr ⟨rfl, rfl, rfl, rfl, ram, start, sent, rfl, rfl⟩, r, rx.receive p⟩

/-- `r6040_tx` is of no concern to the receive side. -/
theorem freeing (h : Sides base m) : Sides base m.tx := by
  obtain ⟨kept, -, lp, stats, stopped, freed, eq, rx, ptr, dma⟩ := h.tx.tx
  obtain ⟨r, side⟩ := h.rx
  refine ⟨kept, r, side.congr ?_⟩
  rw [eq]
  refine ⟨rx, dma, ?_, fun _ _ _ _ => rfl, rfl, rfl, rfl, rfl⟩
  simp only [Machine.rxPointer, ptr]

theorem rxInterrupt (h : Sides base m) (status : Word) : Sides base (m.rxInterrupt status) := by
  unfold Machine.rxInterrupt
  split
  · exact h.congr (.refl _) rfl rfl rfl rfl rfl rfl
  · exact h

theorem handler (h : Sides base m) (step : m.irqStep = some m') : Sides base m' := by
  unfold Machine.irqStep at step
  split at step
  · cases step
  · cases step
    exact h.congr ((SameRings.refl _).mier _) rfl rfl rfl rfl rfl rfl
  · cases step
    exact h.congr (SameRings.refl _).misr rfl rfl rfl rfl rfl rfl
  · rename_i saved status _
    split at step
    · cases step
      exact h.congr ((SameRings.refl _).mier _) rfl rfl rfl rfl rfl rfl
    · cases step
      have received := h.rxInterrupt status
      split
      · exact received.freeing.congr (.refl _) rfl rfl rfl rfl rfl rfl
      · exact received.congr (.refl _) rfl rfl rfl rfl rfl rfl
  · cases step
    exact h.congr ((SameRings.refl _).mier _) rfl rfl rfl rfl rfl rfl

/-- A round of `r6040_rx` is of no concern to the transmit side. -/
theorem round (h : Sides base m) {count j : Nat} (here : m.poll = .rx count j) {alloc : Option Dword}
    (unused : ∀ data ∈ alloc, m.Unused data.toNat maxBufSize)
    (free : m.status m.lp.rx j &&& dscOwnerMac = 0#16) :
    Sides base { Machine.giveBack j (m.rxPacket alloc j) with
      poll := .rx (count + 1) (m.lp.rx.vndescp j) } := by
  obtain ⟨r, rx⟩ := h.rx
  have free' := (rx.free_iff j).mp free
  have below : j < rxDcnt := by
    have pointer := rx.pointer
    rw [Machine.rxPointer, here] at pointer
    rw [show j = _ from pointer]
    exact Nat.mod_lt _ (by decide)
  have noError : ¬ (m.status m.lp.rx j &&& dscRxErr ≠ 0#16) := by
    rw [rx.no_error below free']
    decide
  -- what is written lies in the receive ring
  have kept (ram : Mem) (same : ∀ x, x < m.lp.rx.desc j ∨ m.lp.rx.desc j + 8 ≤ x → ram x = m.nic.ram x) :
      ∀ i < 32 * txDcnt, ram (m.lp.tx.dma.toNat + i) = m.nic.ram (m.lp.tx.dma.toNat + i) := by
    intro i inside
    have rings := rx.rings
    unfold Machine.Apart at rings
    apply same
    unfold Ring.desc
    omega
  cases alloc with
  | none =>
    refine ⟨h.tx.congr ?_, r, rx.round_dropped here free'⟩
    rw [Machine.rxPacket, if_neg noError]
    refine ⟨rfl, rfl, rfl, rfl, kept _ ?_, rfl, rfl, rfl, rfl⟩
    intro x outside
    have away : x < m.lp.rx.desc j ∨ m.lp.rx.desc j + 2 ≤ x := by omega
    exact Mem.storeWord_frame _ _ away
  | some data =>
    refine ⟨h.tx.congr ?_, rx.round_passed here free' (unused data rfl)⟩
    rw [Machine.rxPacket, if_neg noError]
    refine ⟨rfl, rfl, rfl, rfl, kept _ ?_, rfl, rfl, rfl, rfl⟩
    intro x outside
    have away : x < m.lp.rx.desc j ∨ m.lp.rx.desc j + 2 ≤ x := by omega
    exact (Mem.storeWord_frame _ _ away).trans (storeDword_frame _ _ (by omega))

theorem poll (h : Sides base m) {alloc : Option Dword}
    (unused : ∀ data ∈ alloc, m.Unused data.toNat maxBufSize) (step : m.pollStep alloc = some m') :
    Sides base m' := by
  unfold Machine.pollStep at step
  split at step
  · cases step
  · rename_i count j here
    split at step
    · rename_i more
      cases step
      exact h.round here unused more.2
    · cases step
      refine h.congr (.refl _) rfl ?_ rfl rfl rfl rfl
      rw [Machine.rxPointer, Machine.rxPointer, here]
  · rename_i workDone here
    have pointer : m.rxPointer = m.lp.rxRemovePtr := by rw [Machine.rxPointer, here]
    split at step
    · cases step
      exact h.congr (.refl _) rfl pointer.symm rfl rfl rfl rfl
    · cases step
      exact h.congr (.refl _) rfl pointer.symm rfl rfl rfl rfl
  · rename_i here
    have pointer : m.rxPointer = m.lp.rxRemovePtr := by rw [Machine.rxPointer, here]
    cases step
    exact h.congr (.refl m.nic) rfl pointer.symm rfl rfl rfl rfl
  · rename_i enabled here
    have pointer : m.rxPointer = m.lp.rxRemovePtr := by rw [Machine.rxPointer, here]
    cases step
    exact h.congr ((SameRings.refl _).mier _) rfl pointer.symm rfl rfl rfl rfl

/-- An area apart from the receive ring and its buffers is apart from every entry. -/
theorem entry_outside {r : DescriptorRing} (rx : RxSide m r) {a n : Nat}
    (ring : Machine.Apart a n m.lp.rx.dma.toNat (32 * rxDcnt))
    (buffers : ∀ j < rxDcnt, Machine.Apart a n (r.buf j) maxBufSize) {j x : Nat} (below : j < rxDcnt)
    (entry : r.InEntry j x) : x < a ∨ a + n ≤ x := by
  have buffer := buffers j below
  unfold Machine.Apart at ring buffer
  rcases entry with ⟨lower, upper⟩ | ⟨lower, upper⟩
  · rw [rx.desc, Ring.desc] at lower upper
    omega
  · rw [rx.room] at upper
    omega

/-- The kernel prepares a buffer in memory that the driver does not use. -/
theorem stored (h : Sides base m) {a : Nat} {bytes : List Byte} (unused : m.Unused a bytes.length) :
    Sides base { m with nic := { m.nic with ram := m.nic.ram.store a bytes } } := by
  obtain ⟨r, rx⟩ := h.rx
  obtain ⟨rxRing, txRing, buffers⟩ := unused
  refine ⟨h.tx.congr ⟨rfl, rfl, rfl, rfl, ?_, rfl, rfl, rfl, rfl⟩,
    r, rx.congr ⟨rfl, rfl, rfl, ?_, rfl, rfl, rfl, rfl⟩⟩
  · intro i inside
    unfold Machine.Apart at txRing
    exact Mem.store_frame _ (by omega)
  · intro j below x entry
    refine Mem.store_frame _ (entry_outside rx rxRing ?_ below entry)
    intro k below
    obtain ⟨data, skb, here⟩ := rx.skb k below
    rw [← here]
    exact buffers k below _ skb

/-- A frame that is sent is of no concern to the receive side. Stated for any `nic`,
so that the device need not be evaluated. -/
theorem kicked_rx {r : DescriptorRing} (rx : RxSide m r) {skb : SkBuff} {nic : State}
    (kicked : Kicked m skb nic) (inside : m.lp.txInsertPtr < txDcnt) (same : m'.nic = nic)
    (ring : m'.lp.rx = m.lp.rx) (txDma : m'.lp.tx.dma = m.lp.tx.dma) (pointer : m'.rxPointer = m.rxPointer)
    (accepted : m'.accepted = m.accepted) (passed : m'.passed = m.passed) : RxSide m' r := by
  refine rx.congr ⟨ring, txDma, pointer, ?_, ?_, ?_, accepted, passed⟩
  · intro j below x entry
    -- only the descriptor that is handed over changes
    have outside : x < m.lp.tx.dma.toNat ∨ m.lp.tx.dma.toNat + 32 * txDcnt ≤ x := by
      refine entry_outside rx rx.rings.symm ?_ below entry
      intro k below
      exact (rx.txApart k below).symm
    have away : x < m.lp.tx.desc m.lp.txInsertPtr ∨ m.lp.tx.desc m.lp.txInsertPtr + 8 ≤ x := by
      unfold Ring.desc
      omega
    rw [same, kicked.ram, Mem.storeWord_frame _ _ (by omega), handOver_frame m skb away]
  · rw [same, State.rxStart, kicked.regs _ (by decide), kicked.regs _ (by decide)]
    rfl
  · rw [same, State.bufferSize, kicked.regs _ (by decide)]
    rfl

theorem startXmit (h : Sides base m) {skb : SkBuff} {bytes : List Byte} (free : m.lp.txFreeDesc ≠ 0)
    (short : skb.len < 2 ^ 16) (length : skb.len = bytes.length)
    (contents : m.nic.ram.load skb.data.toNat bytes.length = bytes)
    (apart : Machine.Apart skb.data.toNat bytes.length m.lp.tx.dma.toNat (32 * txDcnt)) :
    Sides base { (m.startXmit skb).2 with queued := m.queued ++ [(skb, bytes)] } := by
  obtain ⟨r, rx⟩ := h.rx
  refine ⟨h.tx.startXmit free short length contents apart, r, ?_⟩
  rw [Machine.startXmit, if_neg free]
  exact kicked_rx rx (h.tx.idle.kicked short) h.tx.idle.inside rfl rfl rfl rfl rfl rfl

theorem xmit (h : Sides base m) {data : Dword} {bytes : List Byte}
    (step : m.step (.xmit data bytes) = some m') : Sides base m' := by
  unfold Machine.step at step
  dsimp only at step
  split at step
  swap
  · cases step
  rename_i unused
  obtain ⟨unused, short⟩ := unused
  cases step
  have prepared := h.stored unused
  by_cases free : m.lp.txFreeDesc = 0
  · rw [Machine.startXmit, if_pos free]
    exact prepared.congr (.refl _) rfl rfl rfl rfl rfl rfl
  · have contents := Mem.load_store m.nic.ram data.toNat bytes
    have short' : (⟨data, bytes.length⟩ : SkBuff).len < 2 ^ 16 := short
    have handed := prepared.startXmit free short' rfl contents unused.2.1
    have taken : (Machine.startXmit ⟨data, bytes.length⟩
        { m with nic := { m.nic with ram := m.nic.ram.store data.toNat bytes } }).1 = true := by
      rw [Machine.startXmit, if_neg free]
    have same : (Machine.startXmit ⟨data, bytes.length⟩
        { m with nic := { m.nic with ram := m.nic.ram.store data.toNat bytes } }).2.queued =
        m.queued := by
      rw [Machine.startXmit, if_neg free]
    rw [taken, same]
    exact handed

/-- The device is made to start at the beginning of the rings, where it is anyway.
Stated for any `started`, so that the start of the device need not be evaluated. -/
theorem restarted (h : Sides base m) (tx : m.nic.txStart = m.lp.tx.dma)
    (rx : m.nic.rxStart = m.lp.rx.dma) {cleared started : State} (ram : cleared.ram = m.nic.ram)
    (sent : cleared.sent = m.nic.sent) (reset : Reset m.lp cleared started) (stats : Stats) :
    Sides base { m with nic := started, stats := stats } := by
  obtain ⟨r, rxSide⟩ := h.rx
  refine h.congr ⟨reset.ram.trans ram, reset.sent.trans sent, ?_, ?_, ?_⟩ rfl rfl rfl rfl rfl rfl
  · exact reset.txStart.trans tx.symm
  · exact reset.rxStart.trans rx.symm
  · exact reset.bufferSize.trans rxSide.bufferSize.symm

theorem first_free (h : Sides base m) : ¬ (Descriptor.read m.nic.ram m.lp.tx.dma.toNat).Owned := by
  have first := h.tx.idle.free 0 (by decide)
  rwa [Ring.desc, Nat.mul_zero, Nat.add_zero] at first

theorem timeout (h : Sides base m) (tx : m.nic.txStart = m.lp.tx.dma)
    (rx : m.nic.rxStart = m.lp.rx.dma) : Sides base m.txTimeout := by
  have reset : Reset m.lp (m.nic.setReg misrW 0#16) (initMacRegs m.lp (m.nic.setReg misrW 0#16)) :=
    initMacRegs_reset h.first_free
  have ram : (m.nic.setReg misrW 0#16).ram = m.nic.ram := rfl
  have restarted := h.restarted tx rx ram rfl reset
  rw [Machine.txTimeout, ioread16_mier, ioread16_misr]
  exact restarted _

theorem softirq (h : Sides base m) (step : m.step .softirq = some m') : Sides base m' := by
  unfold Machine.step at step
  dsimp only at step
  split at step
  · rename_i ready
    cases step
    refine h.congr (.refl _) rfl ?_ rfl rfl rfl rfl
    rw [Machine.rxPointer, Machine.rxPointer, ready.2]
  · cases step

theorem interrupt (h : Sides base m) (step : m.step .interrupt = some m') : Sides base m' := by
  unfold Machine.step at step
  dsimp only at step
  split at step
  · cases step
    exact h.congr (.refl m.nic) rfl rfl rfl rfl rfl rfl
  · cases step

end Sides

/-- `r6040_tx_timeout` is not called, except where the device is at the beginning of
both rings. -/
def Harmless (m : Machine) (a : Action) : Prop :=
  a = .timeout → m.nic.txStart = m.lp.tx.dma ∧ m.nic.rxStart = m.lp.rx.dma

theorem Sides.step {base : List (List Byte)} {m m' : Machine} (h : Sides base m) {a : Action}
    (may : Harmless m a) (step : m.step a = some m') : Sides base m' := by
  cases a with
  | receive p =>
    unfold Machine.step at step
    dsimp only at step
    split at step
    · cases step
      exact h.receive p
    · cases step
  | interrupt => exact h.interrupt step
  | handler => exact h.handler step
  | softirq => exact h.softirq step
  | poll alloc =>
    unfold Machine.step at step
    dsimp only at step
    split at step
    · rename_i unused
      exact h.poll unused step
    · cases step
  | xmit data bytes => exact h.xmit step
  | timeout =>
    obtain ⟨tx, rx⟩ := may rfl
    cases step
    exact h.timeout tx rx

/-! ## The start -/

section
variable {rxDma txDma : Dword} {datas : List Dword} {nic : State} {m : Machine}

/-- The receive ring that `r6040_up` sets up. -/
def rxRing (layout : Layout rxDma txDma datas) (enough : rxDcnt ≤ datas.length) : DescriptorRing where
  n := rxDcnt
  positive := by decide
  desc j := rxDma.toNat + 32 * j
  buf j := (datas.getD j 0#32).toNat
  room _ := maxBufSize
  descsApart := by
    intro j _ k _ other
    omega
  bufsApart := by
    intro j below k below' other
    rw [List.getD_eq_getElem _ _ (by omega), List.getD_eq_getElem _ _ (by omega)]
    rcases Nat.lt_or_gt_of_ne other with less | less
    · exact List.pairwise_iff_getElem.mp layout.buffers j k _ _ less
    · exact (List.pairwise_iff_getElem.mp layout.buffers k j _ _ less).symm
  descsBufsApart := by
    intro j below k below'
    rw [List.getD_eq_getElem _ _ (by omega)]
    have apart := layout.rxApart _ (List.getElem_mem (show k < datas.length by omega))
    unfold Machine.Apart at apart
    omega

theorem Opened.txSide (h : Opened rxDma txDma datas nic m) : TxSide nic.sent m := by
  have queued : m.queued = [] := congrArg Machine.queued h.machine
  have freed : m.freed = [] := congrArg Machine.freed h.machine
  refine ⟨⟨h.rings.txLinked, fun j below => h.rings.txFree below, ?_, ?_⟩, ?_, ?_, ?_, ?_, ?_, ?_⟩
  · rw [h.rings.txInsertPtr]
    decide
  · rw [h.reset.txStart, h.rings.txInsertPtr, Ring.desc, Nat.mul_zero, Nat.add_zero]
  · rw [queued]
    exact h.rings.txInsertPtr
  · rw [freed]
    exact h.rings.txRemovePtr
  · rw [queued, freed, h.rings.txFreeDesc]
    rfl
  · rw [queued, freed]
    exact Slots.Holds.start fun j _ => h.rings.txSkb j
  · rw [freed]
    exact List.nil_prefix
  · refine ⟨[], ?_, ?_⟩
    · rw [List.append_nil]
      exact h.reset.sent
    · rw [queued]
      exact .nil

theorem Opened.rxSide (h : Opened rxDma txDma datas nic m) (layout : Layout rxDma txDma datas) :
    ∃ r, RxSide m r := by
  have accepted : m.accepted = [] := congrArg Machine.accepted h.machine
  have passed : m.passed = [] := congrArg Machine.passed h.machine
  have poll : m.poll = .out := congrArg Machine.poll h.machine
  have enough : rxDcnt ≤ datas.length := by
    obtain ⟨data, last, -⟩ := h.rings.skbPtr (rxDcnt - 1) (by decide)
    have inside := (List.getElem?_eq_some_iff.mp last).1
    omega
  have desc (j : Nat) : (rxRing layout enough).desc j = m.lp.rx.desc j := by
    rw [Ring.desc, h.rings.rxRing]
    rfl
  have buf {j : Nat} {data : Dword} (here : datas[j]? = some data) :
      data.toNat = (rxRing layout enough).buf j := by
    change _ = (datas.getD j 0#32).toNat
    rw [List.getD_eq_getElem?_getD, here]
    rfl
  have member (j : Nat) (below : j < rxDcnt) : ∃ data ∈ datas, data.toNat = (rxRing layout enough).buf j := by
    obtain ⟨data, here, -⟩ := h.rings.skbPtr j below
    exact ⟨data, List.mem_of_getElem? here, buf here⟩
  have status (j : Nat) (below : j < rxDcnt) :
      ((rxRing layout enough).descriptor m.nic.ram j).dst = dscOwnerMac := by
    rw [DescriptorRing.descriptor, desc]
    exact h.rings.rxStatus j below
  have ready : RxReady (rxRing layout enough) m.nic := by
    refine ⟨?_, ?_, ?_, ?_, ?_, ?_⟩
    · intro j below
      obtain ⟨data, here, -, dbp⟩ := h.rings.skbPtr j below
      rw [DescriptorRing.descriptor, desc, ← buf here, ← dbp]
      rfl
    · intro j below
      rw [DescriptorRing.descriptor, desc, desc]
      exact h.rings.rxLinked.ndesc j below
    · intro j below
      rw [Descriptor.Owned, status j below]
      decide
    · rw [h.reset.rxStart, h.rings.rxRing]
      rfl
    · rw [h.reset.bufferSize]
      decide
    · intro j below
      rw [h.reset.bufferSize]
      exact Nat.le_refl _
  refine ⟨rxRing layout enough, rfl, desc, fun _ => rfl, h.rings.rxLinked.vndescp, ?_, ?_, ?_, ?_, ?_, ?_,
    ?_, ?_, ?_⟩
  · intro j below
    obtain ⟨data, here, skb, -⟩ := h.rings.skbPtr j below
    exact ⟨data, skb, buf here⟩
  · intro j below
    obtain ⟨data, listed, same⟩ := member j below
    rw [← same, h.rings.rxRing]
    exact layout.rxApart data listed
  · intro j below
    obtain ⟨data, listed, same⟩ := member j below
    rw [← same, h.rings.txRing]
    exact layout.txApart data listed
  · rw [h.rings.rxRing, h.rings.txRing]
    exact layout.rings
  · intro j below
    exact .inl (status j below)
  · rw [Machine.rxPointer, poll, passed]
    exact h.rings.rxRemovePtr
  · have started := ready.invariant
    rw [h.reset.bufferSize] at started
    rw [Machine.rxSystem, accepted, passed]
    exact started
  · rw [passed]
    exact Nat.zero_le _
  · rw [passed]
    intro i data here
    cases here

theorem Opened.sides (h : Opened rxDma txDma datas nic m) (layout : Layout rxDma txDma datas) :
    Sides nic.sent m := ⟨h.txSide, h.rxSide layout⟩

end

/-! ## What is counted -/

/-- The statistics are those of the traffic, and the queue is stopped while there is
no descriptor for another frame. -/
structure Counted (m : Machine) : Prop where
  stopped : m.stopped = decide (m.lp.txFreeDesc = 0)
  txPackets : m.stats.txPackets = BitVec.ofNat 32 m.queued.length
  txBytes : m.stats.txBytes = BitVec.ofNat 32 (m.queued.map fun q => q.1.len).sum
  rxPackets : m.stats.rxPackets = BitVec.ofNat 32 m.passed.reduceOption.length
  rxBytes : m.stats.rxBytes = BitVec.ofNat 32 (m.passed.reduceOption.map List.length).sum
  rxDropped : m.stats.rxDropped = BitVec.ofNat 32 (m.passed.count none) + m.stats.rxMissedErrors

/-- What the counters depend on is the same, and so are they. -/
structure SameCounts (m m' : Machine) : Prop where
  txPackets : m'.stats.txPackets = m.stats.txPackets
  txBytes : m'.stats.txBytes = m.stats.txBytes
  rxPackets : m'.stats.rxPackets = m.stats.rxPackets
  rxBytes : m'.stats.rxBytes = m.stats.rxBytes
  rxDropped : m'.stats.rxDropped + m.stats.rxMissedErrors = m.stats.rxDropped + m'.stats.rxMissedErrors
  queued : m'.queued = m.queued
  passed : m'.passed = m.passed

theorem countErrors_same (err : Word) (m : Machine) :
    SameCounts m { m with stats := Machine.countErrors err m.stats } := by
  unfold Machine.countErrors
  dsimp only
  split <;> split <;> exact ⟨rfl, rfl, rfl, rfl, rfl, rfl, rfl⟩

theorem SameCounts.trans {a b c : Machine} (h : SameCounts a b) (h' : SameCounts b c) : SameCounts a c :=
  have dropped : c.stats.rxDropped + a.stats.rxMissedErrors =
      a.stats.rxDropped + c.stats.rxMissedErrors := by
    have first := h.rxDropped
    have second := h'.rxDropped
    bv_omega
  ⟨h'.txPackets.trans h.txPackets, h'.txBytes.trans h.txBytes, h'.rxPackets.trans h.rxPackets,
    h'.rxBytes.trans h.rxBytes, dropped, h'.queued.trans h.queued, h'.passed.trans h.passed⟩

theorem txLoop_same (n : Nat) (m : Machine) : SameCounts m (m.txLoop n) := by
  induction n generalizing m with
  | zero => exact ⟨rfl, rfl, rfl, rfl, rfl, rfl, rfl⟩
  | succ n ih =>
    have counted := countErrors_same (ioread16 mlsr m.nic).1 m
    rw [Machine.txLoop]
    dsimp only
    split
    · exact ⟨counted.txPackets, counted.txBytes, counted.rxPackets, counted.rxBytes, counted.rxDropped,
        rfl, rfl⟩
    · refine SameCounts.trans ?_ (ih _)
      exact ⟨counted.txPackets, counted.txBytes, counted.rxPackets, counted.rxBytes, counted.rxDropped,
        rfl, rfl⟩

/-- A packet that `r6040_rx` comes to has no error. -/
theorem RxSide.round_fine {m : Machine} {r : DescriptorRing} (rx : RxSide m r) {count j : Nat}
    (here : m.poll = .rx count j) (free : m.status m.lp.rx j &&& dscOwnerMac = 0#16) :
    ¬ (m.status m.lp.rx j &&& dscRxErr ≠ 0#16) := by
  have below : j < rxDcnt := by
    have pointer := rx.pointer
    rw [Machine.rxPointer, here] at pointer
    rw [show j = _ from pointer]
    exact Nat.mod_lt _ (by decide)
  rw [rx.no_error below ((rx.free_iff j).mp free)]
  decide

namespace Counted
variable {base : List (List Byte)} {m m' : Machine}

theorem congr (h : Counted m) (same : SameCounts m m')
    (stopped : m'.stopped = decide (m'.lp.txFreeDesc = 0)) : Counted m' := by
  refine ⟨stopped, ?_, ?_, ?_, ?_, ?_⟩
  · rw [same.txPackets, same.queued]
    exact h.txPackets
  · rw [same.txBytes, same.queued]
    exact h.txBytes
  · rw [same.rxPackets, same.passed]
    exact h.rxPackets
  · rw [same.rxBytes, same.passed]
    exact h.rxBytes
  · rw [same.passed]
    have dropped := same.rxDropped
    have before := h.rxDropped
    bv_omega

theorem tx (h : Counted m) (sides : Sides base m) : Counted m.tx := by
  have all := sides.tx.tx.2.1
  have count := sides.tx.tx.1.count
  have free : (m.txLoop (txDcnt - m.lp.txFreeDesc)).lp.txFreeDesc ≠ 0 := by
    intro none
    have same : m.tx = m.txLoop (txDcnt - m.lp.txFreeDesc) := by
      rw [Machine.tx]
      exact if_neg (not_not_intro none)
    rw [all, same, none, (txLoop_same _ m).queued, List.length_map] at count
    have positive : 0 < txDcnt := by decide
    omega
  have same := txLoop_same (txDcnt - m.lp.txFreeDesc) m
  rw [Machine.tx, if_pos free]
  refine h.congr ⟨same.txPackets, same.txBytes, same.rxPackets, same.rxBytes, same.rxDropped, same.queued,
    same.passed⟩ ?_
  exact (decide_eq_false free).symm

theorem round (h : Counted m) (sides : Sides base m) {count j : Nat} (here : m.poll = .rx count j)
    (alloc : Option Dword) (free : m.status m.lp.rx j &&& dscOwnerMac = 0#16) :
    Counted { Machine.giveBack j (m.rxPacket alloc j) with
      poll := .rx (count + 1) (m.lp.rx.vndescp j) } := by
  obtain ⟨r, rx⟩ := sides.rx
  have noError := rx.round_fine here free
  cases alloc with
  | none =>
    rw [Machine.rxPacket, if_neg noError]
    refine ⟨h.stopped, h.txPackets, h.txBytes, ?_, ?_, ?_⟩
    · simp [Machine.giveBack, List.reduceOption_append, h.rxPackets]
    · simp [Machine.giveBack, List.reduceOption_append, h.rxBytes]
    · have shift (a b : Dword) : a + b + 1#32 = a + 1#32 + b := by
        rw [BitVec.add_assoc, BitVec.add_comm b, BitVec.add_assoc]
      simp [Machine.giveBack, h.rxDropped, BitVec.ofNat_add, shift]
  | some data =>
    rw [Machine.rxPacket, if_neg noError]
    refine ⟨h.stopped, h.txPackets, h.txBytes, ?_, ?_, ?_⟩
    · simp [Machine.giveBack, List.reduceOption_append, h.rxPackets, BitVec.ofNat_add]
    · simp [Machine.giveBack, List.reduceOption_append, h.rxBytes, BitVec.ofNat_add]
    · simp [Machine.giveBack, h.rxDropped]

theorem rxInterrupt (h : Counted m) (status : Word) : Counted (m.rxInterrupt status) := by
  unfold Machine.rxInterrupt
  split
  · have dropped {a b : Dword} : a + 1#32 + b = a + (b + 1#32) := by
      rw [BitVec.add_assoc, BitVec.add_comm 1#32]
    dsimp only
    split <;> split <;>
      exact h.congr ⟨rfl, rfl, rfl, rfl, by first | rfl | exact dropped, rfl, rfl⟩ h.stopped
  · exact h

theorem handler (h : Counted m) (sides : Sides base m) (step : m.irqStep = some m') : Counted m' := by
  unfold Machine.irqStep at step
  split at step
  · cases step
  · cases step
    exact h.congr ⟨rfl, rfl, rfl, rfl, rfl, rfl, rfl⟩ h.stopped
  · cases step
    exact h.congr ⟨rfl, rfl, rfl, rfl, rfl, rfl, rfl⟩ h.stopped
  · rename_i saved status _
    split at step
    · cases step
      exact h.congr ⟨rfl, rfl, rfl, rfl, rfl, rfl, rfl⟩ h.stopped
    · cases step
      have received := h.rxInterrupt status
      split
      · have freed := received.tx (sides.rxInterrupt status)
        exact freed.congr ⟨rfl, rfl, rfl, rfl, rfl, rfl, rfl⟩ freed.stopped
      · exact received.congr ⟨rfl, rfl, rfl, rfl, rfl, rfl, rfl⟩ received.stopped
  · cases step
    exact h.congr ⟨rfl, rfl, rfl, rfl, rfl, rfl, rfl⟩ h.stopped

theorem poll (h : Counted m) (sides : Sides base m) {alloc : Option Dword}
    (step : m.pollStep alloc = some m') : Counted m' := by
  unfold Machine.pollStep at step
  split at step
  · cases step
  · rename_i here
    split at step
    · rename_i more
      cases step
      exact h.round sides here alloc more.2
    · cases step
      exact h.congr ⟨rfl, rfl, rfl, rfl, rfl, rfl, rfl⟩ h.stopped
  · split at step
    · cases step
      exact h.congr ⟨rfl, rfl, rfl, rfl, rfl, rfl, rfl⟩ h.stopped
    · cases step
      exact h.congr ⟨rfl, rfl, rfl, rfl, rfl, rfl, rfl⟩ h.stopped
  · cases step
    exact h.congr ⟨rfl, rfl, rfl, rfl, rfl, rfl, rfl⟩ h.stopped
  · cases step
    exact h.congr ⟨rfl, rfl, rfl, rfl, rfl, rfl, rfl⟩ h.stopped

theorem xmit (h : Counted m) {data : Dword} {bytes : List Byte}
    (step : m.step (.xmit data bytes) = some m') : Counted m' := by
  unfold Machine.step at step
  dsimp only at step
  split at step
  swap
  · cases step
  cases step
  by_cases free : m.lp.txFreeDesc = 0
  · rw [Machine.startXmit, if_pos free]
    exact h.congr ⟨rfl, rfl, rfl, rfl, rfl, rfl, rfl⟩ (decide_eq_true free).symm
  · have going : m.stopped = false := h.stopped.trans (decide_eq_false free)
    rw [Machine.startXmit, if_neg free]
    refine ⟨?_, ?_, ?_, h.rxPackets, h.rxBytes, h.rxDropped⟩
    · exact congrArg (· || decide (m.lp.txFreeDesc - 1 = 0)) going
    · simp [h.txPackets, BitVec.ofNat_add]
    · simp [h.txBytes, BitVec.ofNat_add]

theorem step (h : Counted m) (sides : Sides base m) {a : Action} (step : m.step a = some m') :
    Counted m' := by
  cases a with
  | receive p =>
    unfold Machine.step at step
    dsimp only at step
    split at step
    · cases step
      exact h.congr ⟨rfl, rfl, rfl, rfl, rfl, rfl, rfl⟩ h.stopped
    · cases step
  | interrupt =>
    unfold Machine.step at step
    dsimp only at step
    split at step
    · cases step
      exact h.congr ⟨rfl, rfl, rfl, rfl, rfl, rfl, rfl⟩ h.stopped
    · cases step
  | handler => exact h.handler sides step
  | softirq =>
    unfold Machine.step at step
    dsimp only at step
    split at step
    · cases step
      exact h.congr ⟨rfl, rfl, rfl, rfl, rfl, rfl, rfl⟩ h.stopped
    · cases step
  | poll alloc =>
    unfold Machine.step at step
    dsimp only at step
    split at step
    · exact h.poll sides step
    · cases step
  | xmit data bytes => exact h.xmit step
  | timeout =>
    cases step
    rw [Machine.txTimeout]
    exact h.congr ⟨rfl, rfl, rfl, rfl, rfl, rfl, rfl⟩ h.stopped

end Counted

end Bifferboard.Netdev
