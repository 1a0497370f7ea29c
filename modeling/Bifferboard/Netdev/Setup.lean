import Bifferboard.R6040.Interrupt
import Bifferboard.R6040.Transmit
import Bifferboard.R6040.Widths
import Bifferboard.Netdev.Driver

/-!
# What `r6040_open` leaves behind

The rings are linked, every receive descriptor belongs to the MAC and has a buffer of
its own, no transmit descriptor does, and the device is told where the rings are.
-/

namespace Bifferboard.Netdev
open Nor R6040

/-! ## Single accesses -/

theorem and_bit_eq_zero_iff (w : Word) {bit : Nat} (small : bit < 16) :
    w &&& BitVec.twoPow 16 bit = 0#16 ↔ w.getLsbD bit = false := by
  rw [BitVec.and_twoPow]
  cases w.getLsbD bit with
  | false => simp
  | true =>
    refine iff_of_false ?_ (Ne.symm Bool.false_ne_true)
    intro zero
    have set := congrArg (fun v : Word => v.getLsbD bit) zero
    simp [small] at set

theorem storeDword_frame (m : Mem) {a x : Nat} (d : Dword) (h : x < a ∨ a + 4 ≤ x) :
    storeDword m a d x = m x := m.store_frame h

theorem dword_storeDword (m : Mem) (a : Nat) (d : Dword) : (storeDword m a d).dword a = d :=
  Mem.dword_of_load (m.load_store a _)

theorem dword_congr {m m' : Mem} {a : Nat} (same : ∀ i < 4, m' (a + i) = m (a + i)) :
    m'.dword a = m.dword a := by
  have word (i : Nat) (inside : i + 1 < 4) : m'.word (a + i) = m.word (a + i) := by
    rw [Mem.word, same i (by omega), Nat.add_assoc, same (i + 1) inside]
    rfl
  rw [Mem.dword, word 2 (by decide)]
  exact congrArg _ (word 0 (by decide))

/-- A new buffer in a descriptor. -/
theorem read_storeDword_dbp (m : Mem) (a : Nat) (d : Dword) :
    Descriptor.read (storeDword m (a + 4) d) a = { Descriptor.read m a with dbp := d } := by
  have kept (i : Nat) (apart : i < 4 ∨ 8 ≤ i) : storeDword m (a + 4) d (a + i) = m (a + i) :=
    storeDword_frame m d (by omega)
  have word (i : Nat) (apart : i + 2 ≤ 4 ∨ 8 ≤ i) :
      (storeDword m (a + 4) d).word (a + i) = m.word (a + i) := by
    rw [Mem.word, kept i (by omega), Nat.add_assoc, kept (i + 1) (by omega)]
    rfl
  have dnx : (storeDword m (a + 4) d).dword (a + 8) = m.dword (a + 8) :=
    dword_congr fun i small => storeDword_frame m d (by omega)
  simp only [Descriptor.read, dword_storeDword, dnx, word 2 (by decide), word 12 (by decide),
    word 14 (by decide), word 16 (by decide), word 18 (by decide), Descriptor.mk.injEq, and_true]
  exact word 0 (by decide)

section
variable {addr : Nat} {val : Word} {nic : State}

theorem iowrite16_plain (plain : addr % 0x100 / 2 ∉ special) :
    iowrite16 val addr nic = nic.setReg (addr % 0x100 / 2) val := by
  have kept : (val.setWidth 32).setWidth 16 = val := by simp
  rw [iowrite16, writew_ordinary plain, kept]

theorem iowrite16_mier : iowrite16 val mier nic = (nic.setReg mierW val).updateIrq := by
  have kept : (val.setWidth 32).setWidth 16 = val := by simp
  rw [iowrite16, ioportWritew]
  simp only [show mier % 0x100 / 2 = mierW from rfl, show ¬ mierW = mcr0W by decide,
    show ¬ mierW = mcr1W by decide, show ¬ mierW = mtprW by decide, show ¬ mierW = mmdioW by decide,
    show ¬ mierW = misrW by decide, ↓reduceIte, kept]

/-- A reset is complete at once. -/
theorem iowrite16_reset : iowrite16 macRst mcr1 nic = nic.setReg mcr1W 0x0010#16 := rfl

theorem ioread16_mier : ioread16 mier nic = (nic.regs mierW, nic) := by
  have kept : ((nic.regs mierW).setWidth 32).setWidth 16 = nic.regs mierW := by simp
  exact Prod.ext kept rfl

theorem ioread16_misr : ioread16 misr nic = (nic.regs misrW, nic.setReg misrW 0#16) := by
  have kept : ((nic.regs misrW).setWidth 32).setWidth 16 = nic.regs misrW := by simp
  exact Prod.ext kept rfl

theorem waitReset_eq (limit : Nat) : waitReset limit nic = nic := by
  induction limit with
  | zero => rfl
  | succ limit ih =>
    have same : ioread16 mcr1 nic = ((ioread16 mcr1 nic).1, nic) := rfl
    rw [waitReset, same]
    dsimp only
    rw [ih, ite_self]

/-- Nothing to send. -/
theorem transmit_idle (free : ¬ (Descriptor.read nic.ram nic.txStart.toNat).Owned) :
    transmit nic = nic := by
  have idle : tryToSendOnePacket nic = (false, nic) := by
    rw [tryToSendOnePacket, if_neg free]
  have loop : transmitLoop nic 0 = (0, nic) := by
    rw [transmitLoop, dif_neg (by rw [idle]; exact Bool.false_ne_true), idle]
  rw [transmit, loop]
  rfl

end

/-! ## The registers -/

/-- Nothing is different but some registers. -/
structure OnlyRegs (regs : List Nat) (s s' : State) : Prop where
  ram : s'.ram = s.ram
  sent : s'.sent = s.sent
  irq : s'.irq = s.irq
  regs : ∀ i ∉ regs, s'.regs i = s.regs i

namespace OnlyRegs
variable {regs : List Nat} {s s' s'' : State}

theorem refl (regs : List Nat) (s : State) : OnlyRegs regs s s := ⟨rfl, rfl, rfl, fun _ _ => rfl⟩

theorem trans (h : OnlyRegs regs s s') (h' : OnlyRegs regs s' s'') : OnlyRegs regs s s'' := by
  refine ⟨h'.ram.trans h.ram, h'.sent.trans h.sent, h'.irq.trans h.irq, ?_⟩
  intro i outside
  exact (h'.regs i outside).trans (h.regs i outside)

theorem setReg (h : OnlyRegs regs s s') {i : Nat} (listed : i ∈ regs) (val : Word) :
    OnlyRegs regs s (s'.setReg i val) := by
  refine ⟨h.ram, h.sent, h.irq, ?_⟩
  intro j outside
  rw [s'.setReg_other (by rintro rfl; exact outside listed), h.regs j outside]

end OnlyRegs

/-- The registers of the MDIO interface. -/
def mdioRegs : List Nat := [mmdioW, mdioReadW, mdioWriteW]

theorem mdioAccess_onlyRegs (val : Dword) (s : State) : OnlyRegs mdioRegs s (mdioAccess val s) := by
  unfold mdioAccess
  dsimp only
  split
  · exact (OnlyRegs.refl _ s).setReg (by decide) _
  · split
    · exact ⟨rfl, rfl, rfl, fun _ _ => rfl⟩
    · exact .refl _ s

theorem iowrite16_mmdio (val : Word) (s : State) : OnlyRegs mdioRegs s (iowrite16 val mmdio s) := by
  have access := mdioAccess_onlyRegs (val.setWidth 32) s
  have started : OnlyRegs mdioRegs s { mdioAccess (val.setWidth 32) s with phyOpInProgress := true } :=
    ⟨access.ram, access.sent, access.irq, access.regs⟩
  exact started.setReg (by decide) _

theorem ioread16_mmdio (s : State) : OnlyRegs mdioRegs s (ioread16 mmdio s).2 := by
  have cases : (ioread16 mmdio s).2 = if s.phyOpInProgress then
      { s with phyOpInProgress := false }.setReg mmdioW (s.regs mmdioW &&& ~~~0x6000#16) else s := by
    rw [ioread16, ioportReadw]
    simp only [show mmdio % 0x100 / 2 = mmdioW from rfl, ↓reduceIte]
    split <;> rfl
  rw [cases]
  split
  · have reset : OnlyRegs mdioRegs s { s with phyOpInProgress := false } :=
      ⟨rfl, rfl, rfl, fun _ _ => rfl⟩
    exact reset.setReg (by decide) _
  · exact .refl _ s

theorem waitClear_onlyRegs (bits : Word) (limit : Nat) (s : State) :
    OnlyRegs mdioRegs s (waitClear mmdio bits limit s).2 := by
  induction limit generalizing s with
  | zero => exact .refl _ s
  | succ limit ih =>
    rw [waitClear]
    dsimp only
    split
    · exact ioread16_mmdio s
    · exact (ioread16_mmdio s).trans (ih _)

theorem phyRead_onlyRegs (phyAddr reg : Nat) (s : State) :
    OnlyRegs mdioRegs s (phyRead phyAddr reg s).2 :=
  (iowrite16_mmdio _ s).trans (waitClear_onlyRegs _ _ _)

theorem phyWrite_onlyRegs (phyAddr reg : Nat) (val : Word) (s : State) :
    OnlyRegs mdioRegs s (phyWrite phyAddr reg val s) := by
  have data : OnlyRegs mdioRegs s (iowrite16 val mmwd s) := by
    rw [iowrite16_plain (by decide)]
    exact (OnlyRegs.refl _ s).setReg (by decide) _
  exact (data.trans (iowrite16_mmdio _ _)).trans (waitClear_onlyRegs _ _ _)

theorem upPhy_onlyRegs (s : State) : OnlyRegs mdioRegs s (upPhy s) := by
  refine .trans (.trans (.trans (.trans ?_ (phyRead_onlyRegs 30 17 _)) (phyWrite_onlyRegs 30 17 _ _))
    (phyWrite_onlyRegs 0 19 _ _)) (phyWrite_onlyRegs 0 30 _ _)
  exact (phyRead_onlyRegs 30 17 s).trans (phyWrite_onlyRegs 30 17 _ _)

/-- The registers after a reset of the MAC. -/
structure Reset (lp : Private) (s s' : State) : Prop where
  ram : s'.ram = s.ram
  sent : s'.sent = s.sent
  txStart : s'.txStart = lp.tx.dma
  rxStart : s'.rxStart = lp.rx.dma
  bufferSize : s'.bufferSize = maxBufSize
  misr : s'.regs misrW = s.regs misrW
  mier : s'.regs mierW = intMask
  line : s'.LineRight

theorem setReg_regs (s : State) (i j : Nat) (val : Word) :
    (s.setReg i val).regs j = if j = i then val else s.regs j := Function.update_apply ..

theorem resetMac_reset (lp : Private) (s : State) : Reset lp s (resetMac lp s) := by
  unfold resetMac
  simp only [iowrite16_mier, iowrite16_reset, waitReset_eq]
  simp only [iowrite16_plain (show macSm % 0x100 / 2 ∉ special by decide),
    iowrite16_plain (show mbcr % 0x100 / 2 ∉ special by decide),
    iowrite16_plain (show mrBsr % 0x100 / 2 ∉ special by decide),
    iowrite16_plain (show mtdSa0 % 0x100 / 2 ∉ special by decide),
    iowrite16_plain (show mtdSa1 % 0x100 / 2 ∉ special by decide),
    iowrite16_plain (show mrdSa0 % 0x100 / 2 ∉ special by decide),
    iowrite16_plain (show mrdSa1 % 0x100 / 2 ∉ special by decide),
    iowrite16_plain (show mtIcr % 0x100 / 2 ∉ special by decide),
    iowrite16_plain (show mrIcr % 0x100 / 2 ∉ special by decide)]
  refine ⟨rfl, rfl, ?_, ?_, ?_, ?_, ?_, lineRight_updateIrq _⟩
  · rw [State.txStart]
    simp only [State.updateIrq_regs, setReg_regs]
    exact State.start_append lp.tx.dma
  · rw [State.rxStart]
    simp only [State.updateIrq_regs, setReg_regs]
    exact State.start_append lp.rx.dma
  · rw [State.bufferSize]
    simp only [State.updateIrq_regs, setReg_regs]
    change (BitVec.ofNat 16 maxBufSize &&& 0x07fc#16).toNat = maxBufSize
    decide
  · simp only [State.updateIrq_regs, setReg_regs]
    rfl
  · simp only [State.updateIrq_regs, setReg_regs]
    rfl

theorem Reset.setReg {lp : Private} {s s' : State} (h : Reset lp s s') {i : Nat}
    (other : i ∉ [txStartLowW, txStartHighW, rxStartLowW, rxStartHighW, mrbsrW, misrW, mierW])
    (val : Word) : Reset lp s (s'.setReg i val) := by
  have kept (j : Nat)
      (listed : j ∈ [txStartLowW, txStartHighW, rxStartLowW, rxStartHighW, mrbsrW, misrW, mierW]) :
      (s'.setReg i val).regs j = s'.regs j :=
    s'.setReg_other (by rintro rfl; exact other listed) val
  refine ⟨h.ram, h.sent, ?_, ?_, ?_, ?_, ?_, ?_⟩
  · rw [State.txStart, kept _ (by decide), kept _ (by decide)]
    exact h.txStart
  · rw [State.rxStart, kept _ (by decide), kept _ (by decide)]
    exact h.rxStart
  · rw [State.bufferSize, kept _ (by decide)]
    exact h.bufferSize
  · rw [kept _ (by decide), h.misr]
  · rw [kept _ (by decide), h.mier]
  · rw [State.LineRight, State.pending, kept _ (by decide), kept _ (by decide)]
    exact h.line

/-- With nothing to send, starting the device only sets two more registers. -/
theorem initMacRegs_eq {lp : Private} {s : State}
    (free : ¬ (Descriptor.read s.ram lp.tx.dma.toNat).Owned) : initMacRegs lp s =
      ((resetMac lp s).setReg mcr0W (lp.mcr0 ||| 0x0002#16)).setReg mtprW 0#16 := by
  have idle {s' : State} (h : Reset lp s s') : transmit s' = s' := by
    apply transmit_idle
    rwa [h.ram, h.txStart]
  have reset := resetMac_reset lp s
  have kept : ((lp.mcr0 ||| 0x0002#16).setWidth 32).setWidth 16 = lp.mcr0 ||| 0x0002#16 := by simp
  have started : iowrite16 (lp.mcr0 ||| 0x0002#16) mcr0 (resetMac lp s) =
      (resetMac lp s).setReg mcr0W (lp.mcr0 ||| 0x0002#16) := by
    rw [iowrite16, writew_mcr0 rfl, idle reset, ite_self, kept]
  rw [initMacRegs, started, iowrite16, writew_mtpr rfl, if_pos (by decide),
    idle (reset.setReg (by decide) _)]
  rfl

theorem initMacRegs_reset {lp : Private} {s : State}
    (free : ¬ (Descriptor.read s.ram lp.tx.dma.toNat).Owned) : Reset lp s (initMacRegs lp s) := by
  rw [initMacRegs_eq free]
  exact ((resetMac_reset lp s).setReg (by decide) _).setReg (by decide) _

/-- The device takes packets then. -/
theorem initMacRegs_canReceive {lp : Private} {s : State}
    (free : ¬ (Descriptor.read s.ram lp.tx.dma.toNat).Owned) :
    canReceive (initMacRegs lp s) = true := by
  rw [initMacRegs_eq free, canReceive, State.setReg_other _ (by decide), State.setReg_same,
    BitVec.getLsbD_or]
  exact Bool.or_true _

/-! ## The rings -/

/-- What the loop of `r6040_init_ring_desc` does with `size` descriptors from `j` on. -/
structure RingLoop (r : Ring) (j size : Nat) (m : Mem) (done : Ring × Mem) : Prop where
  dma : done.1.dma = r.dma
  skbPtr : done.1.skbPtr = r.skbPtr
  vndescp : ∀ k, j ≤ k → k < j + size → done.1.vndescp k = k + 1
  before : ∀ k < j, done.1.vndescp k = r.vndescp k
  ndesc : ∀ k, j ≤ k → k < j + size →
    done.2.dword (r.desc k + 8) = r.dma + BitVec.ofNat 32 (32 * (k + 1))
  frame : ∀ x, (∀ k, j ≤ k → k < j + size → x < r.desc k + 8 ∨ r.desc k + 12 ≤ x) → done.2 x = m x

theorem initRingLoop_done (r : Ring) (j size : Nat) (m : Mem) :
    RingLoop r j size m (initRingLoop r j size m) := by
  induction size generalizing r j m with
  | zero =>
    refine ⟨rfl, rfl, ?_, fun _ _ => rfl, ?_, fun _ _ => rfl⟩
    · intro k low high
      omega
    · intro k low high
      omega
  | succ size ih =>
    have rest := ih { r with vndescp := Function.update r.vndescp j (j + 1) } (j + 1)
      (storeDword m (r.desc j + 8) (r.dma + BitVec.ofNat 32 (32 * (j + 1))))
    refine ⟨rest.dma, rest.skbPtr, ?_, ?_, ?_, ?_⟩
    · intro k low high
      by_cases here : k = j
      · rw [here]
        exact (rest.before j (Nat.lt_succ_self j)).trans (Function.update_self ..)
      · exact rest.vndescp k (by omega) (by omega)
    · intro k low
      exact (rest.before k (by omega)).trans (Function.update_of_ne (by omega) ..)
    · intro k low high
      by_cases here : k = j
      · subst here
        refine Eq.trans (dword_congr fun i small => ?_) (dword_storeDword m _ _)
        apply rest.frame
        intro k' low' _
        left
        unfold Ring.desc
        dsimp only
        omega
      · exact rest.ndesc k (by omega) (by omega)
    · intro x outside
      refine (rest.frame x ?_).trans (storeDword_frame m _ ?_)
      · intro k low high
        exact outside k (by omega) (by omega)
      · have here := outside j (Nat.le_refl j) (by omega)
        omega

/-- The descriptors of a ring follow each other, for the driver and for the device. -/
structure RingLinked (r : Ring) (n : Nat) (m : Mem) : Prop where
  vndescp : ∀ j < n, r.vndescp j = (j + 1) % n
  ndesc : ∀ j < n, (m.dword (r.desc j + 8)).toNat = r.desc ((j + 1) % n)

/-- A ring after `r6040_init_ring_desc`, which leaves the rest of the memory alone. -/
structure RingInit (r : Ring) (size : Nat) (m : Mem) (done : Ring × Mem) : Prop where
  dma : done.1.dma = r.dma
  skbPtr : done.1.skbPtr = r.skbPtr
  linked : RingLinked done.1 size done.2
  frame : ∀ x, (∀ k < size, x < r.desc k + 8 ∨ r.desc k + 12 ≤ x) → done.2 x = m x

theorem initRingDesc_init (r : Ring) {size : Nat} (positive : 0 < size)
    (inside : r.dma.toNat + 32 * size ≤ 2 ^ 32) (m : Mem) :
    RingInit r size m (initRingDesc r size m) := by
  have loop := initRingLoop_done r 0 size m
  have desc (k : Nat) : (initRingLoop r 0 size m).1.desc k = r.desc k := by
    rw [Ring.desc, loop.dma, Ring.desc]
  have wrap (k : Nat) (below : k < size) : (k + 1) % size = if k = size - 1 then 0 else k + 1 := by
    split
    · rw [show k + 1 = size by omega, Nat.mod_self]
    · exact Nat.mod_eq_of_lt (by omega)
  refine ⟨loop.dma, loop.skbPtr, ⟨?_, ?_⟩, ?_⟩
  · intro k below
    rw [wrap k below]
    split
    · rename_i last
      rw [last]
      exact Function.update_self ..
    · rename_i earlier
      exact (Function.update_of_ne earlier ..).trans (loop.vndescp k (Nat.zero_le k) (by omega))
  · intro k below
    rw [wrap k below]
    change ((storeDword (initRingLoop r 0 size m).2 ((initRingLoop r 0 size m).1.desc (size - 1) + 8)
      (initRingLoop r 0 size m).1.dma).dword ((initRingLoop r 0 size m).1.desc k + 8)).toNat =
      (initRingLoop r 0 size m).1.desc _
    rw [desc, desc, desc, loop.dma]
    split
    · rename_i last
      rw [last, dword_storeDword]
      rfl
    · rename_i earlier
      have kept : (storeDword (initRingLoop r 0 size m).2 (r.desc (size - 1) + 8) r.dma).dword
          (r.desc k + 8) = (initRingLoop r 0 size m).2.dword (r.desc k + 8) := by
        apply dword_congr
        intro i small
        apply storeDword_frame
        unfold Ring.desc
        omega
      rw [kept, loop.ndesc k (Nat.zero_le k) (by omega), BitVec.toNat_add, BitVec.toNat_ofNat, Ring.desc]
      omega
  · intro x outside
    refine (storeDword_frame _ _ ?_).trans (loop.frame x ?_)
    · have last := outside (size - 1) (by omega)
      rw [desc]
      omega
    · intro k _ below
      exact outside k (by omega)

/-! ## The buffers -/

/-- What the loop of `r6040_alloc_rxbufs` does with `n` descriptors from `j` on. -/
structure AllocLoop (lp : Private) (j n : Nat) (datas : List Dword) (m : Mem) (lp' : Private)
    (m' : Mem) : Prop where
  others : { lp' with rx := lp.rx } = lp
  dma : lp'.rx.dma = lp.rx.dma
  vndescp : lp'.rx.vndescp = lp.rx.vndescp
  skbPtr : ∀ k, j ≤ k → k < j + n → ∃ data, datas[k - j]? = some data ∧
    lp'.rx.skbPtr k = some ⟨data, 0⟩ ∧ m'.dword (lp.rx.desc k + 4) = data
  status : ∀ k, j ≤ k → k < j + n → m'.word (lp.rx.desc k) = dscOwnerMac
  before : ∀ k < j, lp'.rx.skbPtr k = lp.rx.skbPtr k
  frame : ∀ x, (∀ k, j ≤ k → k < j + n → x < lp.rx.desc k ∨ lp.rx.desc k + 8 ≤ x) → m' x = m x

theorem allocLoop_done (lp : Private) (j n : Nat) (datas : List Dword) (m : Mem) {lp' : Private} {m' : Mem}
    (next : ∀ k, j ≤ k → k + 1 < j + n → lp.rx.vndescp k = k + 1)
    (done : allocLoop lp j n datas m = .ok (lp', m')) : AllocLoop lp j n datas m lp' m' := by
  induction n generalizing lp j datas m with
  | zero =>
    cases done
    refine ⟨rfl, rfl, rfl, ?_, ?_, fun _ _ => rfl, fun _ _ => rfl⟩
    · intro k low high
      omega
    · intro k low high
      omega
  | succ n ih =>
    cases datas with
    | nil => cases done
    | cons data datas =>
      rw [allocLoop] at done
      dsimp only at done
      have next' : allocLoop { lp with rx := { lp.rx with
          skbPtr := Function.update lp.rx.skbPtr j (some ⟨data, 0⟩) } } (j + 1) n datas
          ((storeDword m (lp.rx.desc j + 4) data).storeWord (lp.rx.desc j) dscOwnerMac) =
          .ok (lp', m') := by
        cases n with
        | zero => exact done
        | succ n =>
          rw [next j (Nat.le_refl j) (by omega)] at done
          exact done
      have rest := ih _ _ _ _ (by
        intro k low high
        exact next k (by omega) (by omega)) next'
      have kept (x : Nat) (below : x < lp.rx.desc j + 32) : m' x =
          (storeDword m (lp.rx.desc j + 4) data).storeWord (lp.rx.desc j) dscOwnerMac x := by
        apply rest.frame
        intro k low _
        left
        unfold Ring.desc at below ⊢
        dsimp only
        omega
      have others := congrArg (fun other : Private => { other with rx := lp.rx }) rest.others
      refine ⟨others, rest.dma, rest.vndescp, ?_, ?_, ?_, ?_⟩
      · intro k low high
        by_cases here : k = j
        · subst here
          refine ⟨data, by rw [Nat.sub_self]; rfl, ?_, ?_⟩
          · exact (rest.before k (Nat.lt_succ_self k)).trans (Function.update_self ..)
          · refine Eq.trans (dword_congr fun i small => ?_) (dword_storeDword m _ data)
            exact (kept _ (by omega)).trans (Mem.storeWord_frame _ _ (by omega))
        · obtain ⟨found, listed, skb, dword⟩ := rest.skbPtr k (by omega) (by omega)
          refine ⟨found, ?_, skb, dword⟩
          rw [show k - j = k - (j + 1) + 1 by omega]
          exact listed
      · intro k low high
        by_cases here : k = j
        · subst here
          rw [Mem.word, kept _ (by omega), kept _ (by omega)]
          exact Mem.word_storeWord _ _ _
        · exact rest.status k (by omega) (by omega)
      · intro k below
        exact (rest.before k (by omega)).trans (Function.update_of_ne (by omega) ..)
      · intro x outside
        have here := outside j (Nat.le_refl j) (by omega)
        refine (rest.frame x ?_).trans
          ((Mem.storeWord_frame _ _ (by omega)).trans (storeDword_frame m _ (by omega)))
        intro k low high
        exact outside k (by omega) (by omega)

/-! ## Everything -/

/-- The rings and the buffers have memory of their own. -/
structure Layout (rxDma txDma : Dword) (datas : List Dword) : Prop where
  rxInside : rxDma.toNat + 32 * rxDcnt ≤ 2 ^ 32
  txInside : txDma.toNat + 32 * txDcnt ≤ 2 ^ 32
  rings : Machine.Apart rxDma.toNat (32 * rxDcnt) txDma.toNat (32 * txDcnt)
  rxApart : ∀ data ∈ datas, Machine.Apart data.toNat maxBufSize rxDma.toNat (32 * rxDcnt)
  txApart : ∀ data ∈ datas, Machine.Apart data.toNat maxBufSize txDma.toNat (32 * txDcnt)
  buffers : datas.Pairwise fun a b => Machine.Apart a.toNat maxBufSize b.toNat maxBufSize

/-- The rings as `r6040_up` sets them up. -/
structure RingsReady (rxDma txDma : Dword) (datas : List Dword) (lp : Private) (ram : Mem) : Prop where
  rxRing : lp.rx.dma = rxDma
  txRing : lp.tx.dma = txDma
  rxLinked : RingLinked lp.rx rxDcnt ram
  txLinked : RingLinked lp.tx txDcnt ram
  skbPtr : ∀ j < rxDcnt, ∃ data, datas[j]? = some data ∧ lp.rx.skbPtr j = some ⟨data, 0⟩ ∧
    ram.dword (lp.rx.desc j + 4) = data
  rxStatus : ∀ j < rxDcnt, ram.word (lp.rx.desc j) = dscOwnerMac
  txStatus : ∀ j < txDcnt, ram.word (lp.tx.desc j) = 0#16
  txSkb : ∀ j, lp.tx.skbPtr j = none
  rxRemovePtr : lp.rxRemovePtr = 0
  txInsertPtr : lp.txInsertPtr = 0
  txRemovePtr : lp.txRemovePtr = 0
  txFreeDesc : lp.txFreeDesc = txDcnt

theorem clearRings_tx (rxDma txDma : Dword) (m : Mem) {i : Nat} (inside : i < 32 * txDcnt) :
    clearRings rxDma txDma m (txDma.toNat + i) = 0#8 := by
  have listed : i < (List.replicate (32 * txDcnt) 0#8).length := by rwa [List.length_replicate]
  rw [clearRings, Mem.store_inside _ listed, List.getD_eq_getElem _ _ listed, List.getElem_replicate]

section
variable {rxDma txDma : Dword} {datas : List Dword}

theorem ringsReady (layout : Layout rxDma txDma datas) {lp lp' : Private} {m m' : Mem}
    (rx : lp.rx = .fresh rxDma) (tx : lp.tx = .fresh txDma)
    (clear : ∀ i < 32 * txDcnt, m (txDma.toNat + i) = 0#8)
    (done : allocRxbufs (initTxbufs lp m).1 datas (initTxbufs lp m).2 = .ok (lp', m')) :
    RingsReady rxDma txDma datas lp' m' := by
  have txInit := initRingDesc_init lp.tx (show 0 < txDcnt by decide)
    (by rw [tx]; exact layout.txInside) m
  have rxInit := initRingDesc_init lp.rx (show 0 < rxDcnt by decide)
    (by rw [rx]; exact layout.rxInside) (initRingDesc lp.tx txDcnt m).2
  rw [allocRxbufs, initTxbufs] at done
  dsimp only at done
  generalize initRingDesc lp.tx txDcnt m = txDone at txInit rxInit done
  obtain ⟨txRing, txMem⟩ := txDone
  generalize initRingDesc lp.rx rxDcnt txMem = rxDone at rxInit done
  obtain ⟨rxRing, rxMem⟩ := rxDone
  dsimp only at done
  split at done
  swap
  · cases done
  rename_i loop
  cases done
  have alloc := allocLoop_done _ _ _ _ _ (by
    intro k _ below
    rw [Nat.zero_add] at below
    exact (rxInit.linked.vndescp k (Nat.lt_of_succ_lt below)).trans (Nat.mod_eq_of_lt below)) loop
  have sameTx : lp'.tx = txRing := congrArg Private.tx alloc.others
  have rxDma' : rxRing.dma = rxDma := rxInit.dma.trans (congrArg Ring.dma rx)
  have txDma' : txRing.dma = txDma := txInit.dma.trans (congrArg Ring.dma tx)
  have rxDesc (j : Nat) : lp'.rx.desc j = rxRing.desc j := by rw [Ring.desc, alloc.dma]; rfl
  have apart := layout.rings
  unfold Machine.Apart at apart
  -- the two loops over the receive ring leave the transmit ring alone
  have kept (i : Nat) (inside : i < 32 * txDcnt) : m' (txDma.toNat + i) = txMem (txDma.toNat + i) := by
    refine (alloc.frame _ ?_).trans (rxInit.frame _ ?_)
    · intro k _ below
      simp only [Ring.desc, rxDma']
      omega
    · intro k below
      simp only [Ring.desc, rx, Ring.fresh]
      omega
  refine ⟨alloc.dma.trans rxDma', by rw [sameTx, txDma'], ⟨?_, ?_⟩, ⟨?_, ?_⟩, ?_, ?_, ?_, ?_,
    congrArg Private.rxRemovePtr alloc.others, congrArg Private.txInsertPtr alloc.others,
    congrArg Private.txRemovePtr alloc.others, congrArg Private.txFreeDesc alloc.others⟩
  · intro j below
    rw [alloc.vndescp]
    exact rxInit.linked.vndescp j below
  · intro j below
    rw [rxDesc, rxDesc, ← rxInit.linked.ndesc j below]
    refine congrArg BitVec.toNat (dword_congr fun i small => alloc.frame _ ?_)
    intro k _ inside
    simp only [Ring.desc]
    omega
  · intro j below
    rw [sameTx]
    exact txInit.linked.vndescp j below
  · intro j below
    rw [sameTx, ← txInit.linked.ndesc j below]
    refine congrArg BitVec.toNat (dword_congr fun i small => ?_)
    simp only [Ring.desc, txDma', Nat.add_assoc]
    exact kept _ (by omega)
  · intro j below
    obtain ⟨data, listed, skb, dword⟩ := alloc.skbPtr j (Nat.zero_le j) (by omega)
    exact ⟨data, listed, skb, by rw [rxDesc]; exact dword⟩
  · intro j below
    rw [rxDesc]
    exact alloc.status j (Nat.zero_le j) (by omega)
  · intro j below
    have zero (i : Nat) (small : i < 2) : m' (lp'.tx.desc j + i) = 0#8 := by
      simp only [sameTx, Ring.desc, txDma', Nat.add_assoc]
      refine (kept _ (by omega)).trans ((txInit.frame _ ?_).trans (clear _ (by omega)))
      intro k inside
      simp only [Ring.desc, tx, Ring.fresh]
      omega
    rw [Mem.word, zero 1 (by decide), show m' (lp'.tx.desc j) = 0#8 from zero 0 (by decide)]
    rfl
  · intro j
    rw [sameTx, txInit.skbPtr, tx]
    rfl

/-- What `r6040_open` leaves. -/
structure Opened (rxDma txDma : Dword) (datas : List Dword) (nic : State) (m : Machine) : Prop where
  rings : RingsReady rxDma txDma datas m.lp m.nic.ram
  reset : Reset m.lp { nic with ram := m.nic.ram } m.nic
  enabled : canReceive m.nic = true
  machine : m = { m with stats := {}, stopped := false, scheduled := false, poll := .out, irq := .out,
                         freed := [], accepted := [], passed := [], queued := [] }

theorem RingsReady.txFree {lp : Private} {ram : Mem} (h : RingsReady rxDma txDma datas lp ram) {j : Nat}
    (below : j < txDcnt) : ¬ (Descriptor.read ram (lp.tx.desc j)).Owned := by
  have status : (Descriptor.read ram (lp.tx.desc j)).dst = 0#16 := h.txStatus j below
  rw [Descriptor.Owned, status]
  decide

theorem macAddress_onlyRegs (devAddr : Word × Word × Word) (nic : State) :
    OnlyRegs [mcr1W, macSm / 2, mac0W, mac1W, mac2W] nic (macAddress devAddr nic) := by
  unfold macAddress
  simp only [show iowrite16 0x01#16 mcr1 nic = nic.setReg mcr1W 0x0010#16 from rfl,
    iowrite16_plain (show macSm % 0x100 / 2 ∉ special by decide),
    iowrite16_plain (show mid0L % 0x100 / 2 ∉ special by decide),
    iowrite16_plain (show mid0M % 0x100 / 2 ∉ special by decide),
    iowrite16_plain (show mid0H % 0x100 / 2 ∉ special by decide)]
  exact ((((((OnlyRegs.refl _ nic).setReg (by decide) _).setReg (by decide) _).setReg (by decide) _).setReg
    (by decide) _).setReg (by decide) _).setReg (by decide) _

/-- Stated for any `up` and `started`, so that the start of the device need not be
evaluated. -/
theorem opened_of_reset {lp : Private} {ram : Mem} {nic address up started : State}
    (rings : RingsReady rxDma txDma datas lp ram)
    (mac : OnlyRegs [mcr1W, macSm / 2, mac0W, mac1W, mac2W] nic address)
    (phy : OnlyRegs mdioRegs { address with ram := ram } up) (reset : Reset lp up started)
    (enabled : canReceive started = true) : Opened rxDma txDma datas nic
      ⟨started, lp, {}, false, false, .out, .out, [], [], [], []⟩ := by
  have same : started.ram = ram := reset.ram.trans phy.ram
  have misr := (phy.regs misrW (by decide)).trans (mac.regs misrW (by decide))
  refine ⟨?_, ⟨rfl, ?_, reset.txStart, reset.rxStart, reset.bufferSize, ?_, reset.mier, reset.line⟩,
    enabled, rfl⟩
  · rw [same]
    exact rings
  · exact reset.sent.trans (phy.sent.trans mac.sent)
  · exact reset.misr.trans misr

theorem openDevice_opened {devAddr : Word × Word × Word} {nic : State} {m : Machine}
    (layout : Layout rxDma txDma datas)
    (done : openDevice devAddr rxDma txDma datas nic = some m) : Opened rxDma txDma datas nic m := by
  unfold openDevice at done
  dsimp only at done
  split at done
  · cases done
  rename_i lp ram allocated
  cases done
  have rings := ringsReady layout rfl rfl (fun i inside => clearRings_tx rxDma txDma _ inside) allocated
  have phy := upPhy_onlyRegs { macAddress devAddr nic with ram := ram }
  have free : ¬ (Descriptor.read (upPhy { macAddress devAddr nic with ram := ram }).ram
      lp.tx.dma.toNat).Owned := by
    have first := rings.txFree (show 0 < txDcnt by decide)
    rw [Ring.desc, Nat.mul_zero, Nat.add_zero] at first
    rwa [phy.ram]
  exact opened_of_reset rings (macAddress_onlyRegs devAddr nic) phy (initMacRegs_reset free)
    (initMacRegs_canReceive free)

theorem allocLoop_enough (lp : Private) (j : Nat) {n : Nat} {datas : List Dword} (m : Mem)
    (enough : n ≤ datas.length) : ∃ done, allocLoop lp j n datas m = .ok done := by
  induction n generalizing lp j datas m with
  | zero => exact ⟨(lp, m), by rw [allocLoop]⟩
  | succ n ih =>
    cases datas with
    | nil => cases enough
    | cons data rest =>
      rw [allocLoop]
      exact ih _ _ _ (Nat.le_of_succ_le_succ enough)

/-- Opening the device takes a buffer for every receive descriptor, and no more. -/
theorem openDevice_enough (devAddr : Word × Word × Word) (rxDma txDma : Dword) (datas : List Dword)
    (nic : State) (enough : rxDcnt ≤ datas.length) :
    ∃ m, openDevice devAddr rxDma txDma datas nic = some m := by
  unfold openDevice
  dsimp only
  split
  · rename_i failed
    unfold allocRxbufs at failed
    dsimp only at failed
    split at failed
    · cases failed
    · rename_i loop
      obtain ⟨done, ok⟩ := allocLoop_enough _ _ _ enough
      cases loop.symm.trans ok
  · exact ⟨_, rfl⟩

end

end Bifferboard.Netdev
