import Bifferboard.Netdev.Setup

/-!
# Frames on their way out

`r6040_start_xmit` hands a descriptor over and kicks the device, which sends the frame
before the kick returns. So the ring never has more than one descriptor that belongs to
the device, and what is left of a frame afterwards is its buffer, to be freed by
`r6040_tx`.
-/

namespace Bifferboard.Netdev
open Nor R6040

/-! ## One frame -/

section
variable {s : State}

/-- The device sends one frame and finds the next descriptor not to be its own. -/
theorem transmit_one (owned : (Descriptor.read s.ram s.txStart.toNat).Owned)
    (idle : ¬ (Descriptor.read (tryToSendOnePacket s).2.ram
      (tryToSendOnePacket s).2.txStart.toNat).Owned) :
    transmit s = ((tryToSendOnePacket s).2.setReg misrW
      ((tryToSendOnePacket s).2.regs misrW ||| 0x10#16)).updateIrq := by
  have first : (tryToSendOnePacket s).1 = true := by
    rw [tryToSendOnePacket, if_pos owned]
  have last : tryToSendOnePacket (tryToSendOnePacket s).2 = (false, (tryToSendOnePacket s).2) := by
    generalize (tryToSendOnePacket s).2 = s' at idle
    rw [tryToSendOnePacket, if_neg idle]
  have loop : transmitLoop s 0 = (1, (tryToSendOnePacket s).2) := by
    rw [transmitLoop, dif_pos first, transmitLoop, dif_neg, last]
    rw [last]
    exact Bool.false_ne_true
  rw [transmit, loop]
  rfl

/-- The registers that sending changes. -/
def txRegs : List Nat := [txPktCountW, txStartLowW, txStartHighW, misrW]

theorem tryToSend_regs {i : Nat} (other : i ∉ txRegs) :
    (tryToSendOnePacket s).2.regs i = s.regs i := by
  simp only [txRegs, List.mem_cons, List.not_mem_nil, or_false, not_or] at other
  obtain ⟨notCount, notLow, notHigh, -⟩ := other
  unfold tryToSendOnePacket
  dsimp only
  split
  · rw [State.txStartSet, State.setReg_other _ notHigh, State.setReg_other _ notLow]
    exact s.setReg_other notCount _
  · rfl

end

/-- What a frame is, on the wire: what the buffer holds, up to the least length with
whatever follows it in memory, and no more than the device can send. -/
structure Carries (frame : List Byte) (q : SkBuff × List Byte) : Prop where
  length : frame.length = min 2000 (max misr q.2.length)
  data : frame.take q.2.length = q.2.take 2000

/-- The memory once `r6040_start_xmit` has filled a descriptor. -/
def handOver (m : Machine) (skb : SkBuff) : Mem :=
  let a := m.lp.tx.desc m.lp.txInsertPtr
  let len := if skb.len < misr then misr else skb.len
  (storeDword (m.nic.ram.storeWord (a + 2) (BitVec.ofNat 16 len)) (a + 4) skb.data).storeWord a
    dscOwnerMac

theorem handOver_frame (m : Machine) (skb : SkBuff) {x : Nat}
    (outside : x < m.lp.tx.desc m.lp.txInsertPtr ∨ m.lp.tx.desc m.lp.txInsertPtr + 8 ≤ x) :
    handOver m skb x = m.nic.ram x := by
  rw [handOver, Mem.storeWord_frame _ _ (by omega), storeDword_frame _ _ (by omega),
    Mem.storeWord_frame _ _ (by omega)]

/-- The descriptor that is handed over. -/
structure HandedOver (m : Machine) (skb : SkBuff) (d : Descriptor) : Prop where
  dst : d.dst = dscOwnerMac
  dlen : d.dlen.toNat = max misr skb.len
  dbp : d.dbp = skb.data
  dnx : d.dnx = m.nic.ram.dword (m.lp.tx.desc m.lp.txInsertPtr + 8)

theorem handOver_read (m : Machine) {skb : SkBuff} (short : skb.len < 2 ^ 16) :
    HandedOver m skb (Descriptor.read (handOver m skb) (m.lp.tx.desc m.lp.txInsertPtr)) := by
  have len : (if skb.len < misr then misr else skb.len) = max misr skb.len := by
    split <;> omega
  have least : misr < 2 ^ 16 := by decide
  rw [handOver, Descriptor.read_storeWord_dst, read_storeDword_dbp, Descriptor.read_storeWord_dlen, len]
  refine ⟨rfl, ?_, rfl, rfl⟩
  change (BitVec.ofNat 16 (max misr skb.len)).toNat = _
  rw [BitVec.toNat_ofNat, Nat.mod_eq_of_lt (by omega)]

/-- The transmit ring between two steps: nothing belongs to the device, which waits
for the descriptor that the driver fills next. -/
structure TxIdle (m : Machine) : Prop where
  linked : RingLinked m.lp.tx txDcnt m.nic.ram
  free : ∀ j < txDcnt, ¬ (Descriptor.read m.nic.ram (m.lp.tx.desc j)).Owned
  inside : m.lp.txInsertPtr < txDcnt
  start : m.nic.txStart.toNat = m.lp.tx.desc m.lp.txInsertPtr

/-- What becomes of the device when it is kicked for a frame. -/
structure Kicked (m : Machine) (skb : SkBuff) (s : State) : Prop where
  ram : s.ram = (handOver m skb).storeWord (m.lp.tx.desc m.lp.txInsertPtr) 0#16
  sent : s.sent = m.nic.sent ++ [((handOver m skb).load skb.data.toNat (max misr skb.len)).take 2000]
  start : s.txStart = m.nic.ram.dword (m.lp.tx.desc m.lp.txInsertPtr + 8)
  misr : s.regs misrW = m.nic.regs misrW ||| 0x10#16
  regs : ∀ i ∉ mtprW :: txRegs, s.regs i = m.nic.regs i
  line : s.LineRight

/-- The descriptor behind the one that is handed over. -/
theorem TxIdle.next_free {m : Machine} (h : TxIdle m) (skb : SkBuff) :
    ¬ (Descriptor.read ((handOver m skb).storeWord (m.lp.tx.desc m.lp.txInsertPtr) 0#16)
      (m.nic.ram.dword (m.lp.tx.desc m.lp.txInsertPtr + 8)).toNat).Owned := by
  have inside : (m.lp.txInsertPtr + 1) % txDcnt < txDcnt := Nat.mod_lt _ (by decide)
  have other : (m.lp.txInsertPtr + 1) % txDcnt ≠ m.lp.txInsertPtr := by
    have bound := h.inside
    unfold txDcnt at bound ⊢
    omega
  rw [h.linked.ndesc _ h.inside]
  generalize (m.lp.txInsertPtr + 1) % txDcnt = k at inside other ⊢
  have apart : m.lp.tx.desc k + 20 ≤ m.lp.tx.desc m.lp.txInsertPtr ∨
      m.lp.tx.desc m.lp.txInsertPtr + 8 ≤ m.lp.tx.desc k := by
    unfold Ring.desc
    omega
  rw [Descriptor.read_congr (m := m.nic.ram)]
  · exact h.free k inside
  · intro i small
    rw [Mem.storeWord_frame _ _ (by omega), handOver_frame m skb (by omega)]

theorem TxIdle.kicked {m : Machine} (h : TxIdle m) {skb : SkBuff} (short : skb.len < 2 ^ 16) :
    Kicked m skb (iowrite16 0x01#16 mtpr { m.nic with ram := handOver m skb }) := by
  have handed := handOver_read m short
  have next := h.next_free skb
  have here : ({ m.nic with ram := handOver m skb } : State).txStart.toNat =
      m.lp.tx.desc m.lp.txInsertPtr := h.start
  generalize nic : ({ m.nic with ram := handOver m skb } : State) = s at here
  have ram : s.ram = handOver m skb := by rw [← nic]
  have regs (i : Nat) : s.regs i = m.nic.regs i := by rw [← nic]
  have owned : (Descriptor.read s.ram s.txStart.toNat).Owned := by
    rw [Descriptor.Owned, here, ram, handed.dst]
    decide
  obtain ⟨frame, start⟩ := Sending.tryToSend_eq owned
  have after := tryToSend_ram owned
  rw [here, ram, handed.dbp, handed.dlen] at frame
  rw [here, ram, handed.dnx] at start
  rw [here, ram, show (handOver m skb).word _ = dscOwnerMac from handed.dst,
    show dscOwnerMac &&& ~~~0x8000#16 = 0#16 by decide] at after
  have idle : ¬ (Descriptor.read (tryToSendOnePacket s).2.ram
      (tryToSendOnePacket s).2.txStart.toNat).Owned := by
    rwa [after, start]
  have quiet := (tryToSend_quiet s).misr
  have others (i : Nat) (other : i ∉ txRegs) := tryToSend_regs (s := s) other
  have sent : s.sent = m.nic.sent := by rw [← nic]
  rw [iowrite16, writew_mtpr rfl, if_pos (by decide), transmit_one owned idle]
  generalize (tryToSendOnePacket s).2 = t at frame start after quiet others
  refine ⟨after, ?_, ?_, ?_, ?_, ?_⟩
  · rw [← sent]
    exact frame
  · rw [← start]
    simp only [State.txStart, State.setReg, State.updateIrq_regs]
    rfl
  · rw [State.setReg_other _ (by decide), State.updateIrq_regs, State.setReg_same, quiet, regs]
  · intro i other
    rw [List.mem_cons, not_or] at other
    rw [State.setReg_other _ other.1, State.updateIrq_regs, State.setReg_other, others i other.2, regs]
    rintro rfl
    exact other.2 (by decide)
  · exact ((Quiet.refl _).setReg (by decide) (by decide) _).lineRight (lineRight_updateIrq _)

/-- The memory of a ring, descriptor by descriptor. -/
theorem desc_same {m m' : Mem} {r : Ring} {n : Nat}
    (same : ∀ i < 32 * n, m' (r.dma.toNat + i) = m (r.dma.toNat + i)) {j k : Nat} (below : j < n)
    (inside : k < 32) : m' (r.desc j + k) = m (r.desc j + k) := by
  have place : r.desc j + k = r.dma.toNat + (32 * j + k) := Nat.add_assoc ..
  rw [place]
  exact same _ (by omega)

theorem RingLinked.congr {m m' : Mem} {r : Ring} {n : Nat} (h : RingLinked r n m)
    (same : ∀ i < 32 * n, m' (r.dma.toNat + i) = m (r.dma.toNat + i)) : RingLinked r n m' := by
  refine ⟨h.vndescp, ?_⟩
  intro j below
  rw [← h.ndesc j below]
  refine congrArg BitVec.toNat (dword_congr fun i small => ?_)
  rw [Nat.add_assoc]
  exact desc_same same below (by omega)

theorem TxIdle.congr {m m' : Machine} (h : TxIdle m) (tx : m'.lp.tx = m.lp.tx)
    (insert : m'.lp.txInsertPtr = m.lp.txInsertPtr)
    (same : ∀ i < 32 * txDcnt, m'.nic.ram (m.lp.tx.dma.toNat + i) = m.nic.ram (m.lp.tx.dma.toNat + i))
    (start : m'.nic.txStart = m.nic.txStart) : TxIdle m' := by
  refine ⟨?_, ?_, ?_, ?_⟩
  · rw [tx]
    exact h.linked.congr same
  · intro j below
    rw [tx, Descriptor.read_congr fun i small => desc_same same below (Nat.lt_trans small (by decide))]
    exact h.free j below
  · rw [insert]
    exact h.inside
  · rw [start, tx, insert]
    exact h.start

/-- The ring after a frame: the device waits for the next descriptor. -/
theorem TxIdle.sent {m m' : Machine} (h : TxIdle m) {skb : SkBuff} (kicked : Kicked m skb m'.nic)
    (dma : m'.lp.tx.dma = m.lp.tx.dma) (vndescp : m'.lp.tx.vndescp = m.lp.tx.vndescp)
    (insert : m'.lp.txInsertPtr = m.lp.tx.vndescp m.lp.txInsertPtr) : TxIdle m' := by
  have desc (j : Nat) : m'.lp.tx.desc j = m.lp.tx.desc j := by rw [Ring.desc, dma, Ring.desc]
  have next : m'.lp.txInsertPtr = (m.lp.txInsertPtr + 1) % txDcnt :=
    insert.trans (h.linked.vndescp _ h.inside)
  have other {x : Nat} (outside : x < m.lp.tx.desc m.lp.txInsertPtr ∨
      m.lp.tx.desc m.lp.txInsertPtr + 8 ≤ x) : m'.nic.ram x = m.nic.ram x := by
    rw [kicked.ram, Mem.storeWord_frame _ _ (by omega), handOver_frame m skb outside]
  refine ⟨⟨?_, ?_⟩, ?_, ?_, ?_⟩
  · rw [vndescp]
    exact h.linked.vndescp
  · intro j below
    rw [desc, desc, ← h.linked.ndesc j below]
    refine congrArg BitVec.toNat (dword_congr fun i small => other ?_)
    unfold Ring.desc
    omega
  · intro j below
    rw [desc]
    by_cases here : j = m.lp.txInsertPtr
    · have status : (Descriptor.read m'.nic.ram (m.lp.tx.desc j)).dst = 0#16 := by
        rw [here, kicked.ram]
        exact Mem.word_storeWord _ _ _
      rw [Descriptor.Owned, status]
      decide
    · rw [Descriptor.read_congr (m := m.nic.ram)]
      · exact h.free j below
      · intro i small
        apply other
        unfold Ring.desc
        omega
  · rw [next]
    exact Nat.mod_lt _ (by decide)
  · rw [kicked.start, h.linked.ndesc _ h.inside, desc, next]

/-! ## The ring of buffers -/

/-- What holds of the transmit side between two steps. -/
structure TxSide (base : List (List Byte)) (m : Machine) : Prop where
  idle : TxIdle m
  insert : m.lp.txInsertPtr = m.queued.length % txDcnt
  remove : m.lp.txRemovePtr = m.freed.length % txDcnt
  count : m.lp.txFreeDesc + m.queued.length = txDcnt + m.freed.length
  skbs : Slots.Holds txDcnt (m.queued.map Prod.fst) m.freed.length m.lp.tx.skbPtr
  freed : m.freed <+: m.queued.map Prod.fst
  sent : ∃ frames, m.nic.sent = base ++ frames ∧ List.Forall₂ Carries frames m.queued

/-- What the transmit side depends on is the same. -/
structure SameTxSide (m m' : Machine) : Prop where
  tx : m'.lp.tx = m.lp.tx
  insert : m'.lp.txInsertPtr = m.lp.txInsertPtr
  remove : m'.lp.txRemovePtr = m.lp.txRemovePtr
  count : m'.lp.txFreeDesc = m.lp.txFreeDesc
  ram : ∀ i < 32 * txDcnt, m'.nic.ram (m.lp.tx.dma.toNat + i) = m.nic.ram (m.lp.tx.dma.toNat + i)
  start : m'.nic.txStart = m.nic.txStart
  sent : m'.nic.sent = m.nic.sent
  freed : m'.freed = m.freed
  queued : m'.queued = m.queued

namespace TxSide
variable {base : List (List Byte)} {m m' : Machine}

theorem congr (h : TxSide base m) (same : SameTxSide m m') : TxSide base m' := by
  refine ⟨h.idle.congr same.tx same.insert same.ram same.start, ?_, ?_, ?_, ?_, ?_, ?_⟩
  · rw [same.insert, same.queued]
    exact h.insert
  · rw [same.remove, same.freed]
    exact h.remove
  · rw [same.count, same.queued, same.freed]
    exact h.count
  · rw [same.queued, same.freed, same.tx]
    exact h.skbs
  · rw [same.freed, same.queued]
    exact h.freed
  · rw [same.sent, same.queued]
    exact h.sent

/-- The frame that is sent for a buffer. -/
theorem carries {skb : SkBuff} {bytes : List Byte} (length : skb.len = bytes.length)
    (contents : m.nic.ram.load skb.data.toNat bytes.length = bytes)
    (apart : Machine.Apart skb.data.toNat bytes.length m.lp.tx.dma.toNat (32 * txDcnt))
    (inside : m.lp.txInsertPtr < txDcnt) :
    Carries (((handOver m skb).load skb.data.toNat (max misr skb.len)).take 2000) (skb, bytes) := by
  have kept : (handOver m skb).load skb.data.toNat bytes.length = bytes := by
    refine Eq.trans (Mem.load_congr fun i small => handOver_frame m skb ?_) contents
    unfold Machine.Apart at apart
    unfold Ring.desc
    omega
  constructor
  · rw [List.length_take, Mem.length_load, length]
  · change List.take bytes.length _ = List.take 2000 bytes
    conv_rhs => rw [← kept]
    rw [Mem.take_load, Mem.take_load, Mem.take_load, length]
    congr 1
    omega

theorem startXmit (h : TxSide base m) {skb : SkBuff} {bytes : List Byte} (free : m.lp.txFreeDesc ≠ 0)
    (short : skb.len < 2 ^ 16) (length : skb.len = bytes.length)
    (contents : m.nic.ram.load skb.data.toNat bytes.length = bytes)
    (apart : Machine.Apart skb.data.toNat bytes.length m.lp.tx.dma.toNat (32 * txDcnt)) :
    TxSide base { (m.startXmit skb).2 with queued := m.queued ++ [(skb, bytes)] } := by
  have kicked := h.idle.kicked short
  have count := h.count
  have room : m.lp.tx.skbPtr (m.queued.length % txDcnt) = none := by
    have next := h.skbs.window m.queued.length
    rw [List.getElem?_eq_none (by rw [List.length_map])] at next
    apply next
    · have lower := h.skbs.lower
      rwa [List.length_map] at lower
    · omega
  obtain ⟨frames, sent, carried⟩ := h.sent
  rw [Machine.startXmit, if_neg free]
  dsimp only
  refine ⟨h.idle.sent kicked rfl rfl rfl, ?_, h.remove, ?_, ?_, ?_, ?_⟩
  · rw [List.length_append, ← Nat.mod_add_mod, ← h.insert]
    exact h.idle.linked.vndescp _ h.idle.inside
  · rw [List.length_append, List.length_singleton]
    dsimp only
    omega
  · have pushed := h.skbs.push (by decide) (by rw [List.length_map]; exact room) skb
    rw [List.length_map, ← h.insert] at pushed
    rw [List.map_append]
    exact pushed
  · rw [List.map_append]
    exact h.freed.trans (List.prefix_append _ _)
  · refine ⟨frames ++ [((handOver m skb).load skb.data.toNat (max misr skb.len)).take 2000], ?_, ?_⟩
    · rw [← List.append_assoc, ← sent]
      exact kicked.sent
    · exact List.rel_append carried (.cons (carries length contents apart h.idle.inside) .nil)

end TxSide

/-! ## Freeing -/

/-- A round of the loop of `r6040_tx` that finds its descriptor done with. -/
def txRound (m : Machine) : Machine :=
  let j := m.lp.txRemovePtr
  { m with
    stats := Machine.countErrors (ioread16 mlsr m.nic).1 m.stats,
    freed := m.freed ++ (m.lp.tx.skbPtr j).toList,
    lp := { m.lp with tx := { m.lp.tx with skbPtr := Function.update m.lp.tx.skbPtr j none },
                      txRemovePtr := m.lp.tx.vndescp j, txFreeDesc := m.lp.txFreeDesc + 1 } }

theorem txLoop_round (n : Nat) {m : Machine}
    (free : ¬ (Descriptor.read m.nic.ram (m.lp.tx.desc m.lp.txRemovePtr)).Owned) :
    m.txLoop (n + 1) = (txRound m).txLoop n := by
  have status : m.status m.lp.tx m.lp.txRemovePtr &&& dscOwnerMac = 0#16 := Decidable.not_not.mp free
  have same : ioread16 mlsr m.nic = ((ioread16 mlsr m.nic).1, m.nic) := rfl
  rw [Machine.txLoop, same]
  exact if_neg (not_not_intro status)

namespace TxSide
variable {base : List (List Byte)} {m : Machine}

theorem remove_free (h : TxSide base m) :
    ¬ (Descriptor.read m.nic.ram (m.lp.tx.desc m.lp.txRemovePtr)).Owned := by
  apply h.idle.free
  rw [h.remove]
  exact Nat.mod_lt _ (by decide)

/-- The oldest buffer that has not been freed yet is freed. -/
theorem round (h : TxSide base m) (more : m.freed.length < m.queued.length) :
    TxSide base (txRound m) ∧ (txRound m).freed.length = m.freed.length + 1 := by
  have below : m.freed.length % txDcnt < txDcnt := Nat.mod_lt _ (by decide)
  have count := h.count
  have inside : m.freed.length < (m.queued.map Prod.fst).length := by rwa [List.length_map]
  have oldest := h.skbs.window m.freed.length (Nat.le_refl _) (Nat.lt_add_of_pos_right (by decide))
  rw [List.getElem?_eq_getElem inside] at oldest
  have listed : (m.lp.tx.skbPtr m.lp.txRemovePtr).toList = [(m.queued.map Prod.fst)[m.freed.length]] := by
    rw [h.remove, oldest]
    rfl
  have length : (txRound m).freed.length = m.freed.length + 1 := by
    rw [txRound, listed, List.length_append, List.length_singleton]
  refine ⟨⟨?_, h.insert, ?_, ?_, ?_, ?_, h.sent⟩, length⟩
  · exact ⟨⟨h.idle.linked.vndescp, h.idle.linked.ndesc⟩, h.idle.free, h.idle.inside, h.idle.start⟩
  · rw [length, ← Nat.mod_add_mod, ← h.remove]
    exact h.idle.linked.vndescp _ (by rwa [h.remove])
  · rw [length]
    change m.lp.txFreeDesc + 1 + m.queued.length = _
    omega
  · rw [length]
    have popped := h.skbs.pop (by decide) (by rw [oldest]; exact Option.some_ne_none _)
    rw [← h.remove] at popped
    exact popped
  · rw [txRound, listed]
    exact Slots.prefix_snoc h.freed (List.getElem?_eq_getElem inside)

theorem loop (h : TxSide base m) {n : Nat} (enough : m.freed.length + n ≤ m.queued.length) :
    TxSide base (m.txLoop n) ∧ (m.txLoop n).freed.length = m.freed.length + n := by
  induction n generalizing m with
  | zero => exact ⟨h, rfl⟩
  | succ n ih =>
    obtain ⟨kept, length⟩ := h.round (by omega)
    rw [txLoop_round n h.remove_free]
    obtain ⟨rest, total⟩ := ih kept (by
      rw [length]
      exact Nat.le_trans (by omega) enough)
    exact ⟨rest, by rw [total, length]; omega⟩

/-- What the loop does not touch. -/
theorem loop_frame (h : TxSide base m) {n : Nat} (enough : m.freed.length + n ≤ m.queued.length) :
    ∃ lp stats freed, m.txLoop n = { m with lp := lp, stats := stats, freed := freed } ∧
      lp.rx = m.lp.rx ∧ lp.rxRemovePtr = m.lp.rxRemovePtr ∧ lp.tx.dma = m.lp.tx.dma := by
  induction n generalizing m with
  | zero => exact ⟨m.lp, m.stats, m.freed, rfl, rfl, rfl, rfl⟩
  | succ n ih =>
    obtain ⟨kept, length⟩ := h.round (by omega)
    rw [txLoop_round n h.remove_free]
    obtain ⟨lp, stats, freed, eq, rx, ptr, dma⟩ := ih kept (by
      rw [length]
      exact Nat.le_trans (by omega) enough)
    exact ⟨lp, stats, freed, eq, rx, ptr, dma⟩

/-- `r6040_tx` frees all buffers that have been sent, and does nothing else. -/
theorem tx (h : TxSide base m) : TxSide base m.tx ∧ m.tx.freed = m.queued.map Prod.fst ∧
    ∃ lp stats stopped freed,
      m.tx = { m with lp := lp, stats := stats, stopped := stopped, freed := freed } ∧
      lp.rx = m.lp.rx ∧ lp.rxRemovePtr = m.lp.rxRemovePtr ∧ lp.tx.dma = m.lp.tx.dma := by
  have count := h.count
  have lower := h.skbs.lower
  rw [List.length_map] at lower
  have enough : m.freed.length + (txDcnt - m.lp.txFreeDesc) ≤ m.queued.length := by omega
  obtain ⟨kept, length⟩ := h.loop enough
  obtain ⟨lp, stats, freed, eq, kept'⟩ := h.loop_frame enough
  have all : (m.txLoop (txDcnt - m.lp.txFreeDesc)).freed = m.queued.map Prod.fst := by
    have before := kept.freed
    rw [show (m.txLoop (txDcnt - m.lp.txFreeDesc)).queued = m.queued by rw [eq]] at before
    apply before.eq_of_length
    rw [length, List.length_map]
    omega
  unfold Machine.tx
  dsimp only
  split
  · refine ⟨kept.congr ⟨rfl, rfl, rfl, rfl, fun _ _ => rfl, rfl, rfl, rfl, rfl⟩, all, lp, stats, false,
      freed, ?_, kept'⟩
    rw [eq]
  · refine ⟨kept, all, lp, stats, m.stopped, freed, ?_, kept'⟩
    rw [eq]

end TxSide

end Bifferboard.Netdev
