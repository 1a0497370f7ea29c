import Bifferboard.Transition.Reach
import Bifferboard.R6040.Device
import Bifferboard.R6040.Rings

/-!
# The transmit ring

The driver fills the next descriptor that it owns, in three steps: it writes the
buffer, sets the length and hands the descriptor over. A kick makes the device send
descriptor after descriptor until it comes to one that is not its own. Kicks can
come at any time, also while a descriptor is being filled.
-/

namespace Bifferboard.R6040
open Nor

/-- What the driver is in the middle of. -/
inductive Filling where
  | idle
  /-- The frame is in its buffer. -/
  | buffered (frame : List Byte)
  /-- Its length is set, too. -/
  | sized (frame : List Byte)
  deriving DecidableEq, Repr

/-- The device, and a driver that queues frames. -/
structure TxSystem where
  nic : State
  queued : List (List Byte)
  filling : Filling
  /-- What had been queued at the last kick. -/
  kicked : List (List Byte)

inductive TxAction where
  | fill (frame : List Byte)
  | size
  | own
  /-- A write of 16 bits to `MTPR` or `MCR0`. -/
  | write (addr : Nat) (val : Dword)

/-- The write makes the device look for something to send. -/
def Kick (addr : Nat) (val : Dword) (nic : State) : Prop :=
  (addr % 0x100 / 2 = mtprW ∧ val.getLsbD 0 = true) ∨
  (addr % 0x100 / 2 = mcr0W ∧ bitSet (nic.regs mcr0W) (val.setWidth 16) 12 = true)

instance (addr : Nat) (val : Dword) (nic : State) : Decidable (Kick addr val nic) :=
  inferInstanceAs (Decidable (_ ∨ _))

/-- What an action does, if it can be taken. -/
def TxSystem.step (r : DescriptorRing) (a : TxAction) (s : TxSystem) : Option TxSystem :=
  let j := s.queued.length % r.n
  let ram := s.nic.ram
  match a, s.filling with
  | .fill frame, .idle =>
    if ¬ (r.descriptor ram j).Owned ∧ frame.length ≤ r.room j ∧ frame.length < 2 ^ 16 then
      some { s with nic := { s.nic with ram := ram.store (r.buf j) frame }, filling := .buffered frame }
    else none
  | .size, .buffered frame =>
    let sized := r.setDlen ram j (BitVec.ofNat 16 frame.length)
    some { s with nic := { s.nic with ram := sized }, filling := .sized frame }
  | .own, .sized frame =>
    let owned := r.setDst ram j ((r.descriptor ram j).dst ||| 0x8000#16)
    some { s with nic := { s.nic with ram := owned }, queued := s.queued ++ [frame], filling := .idle }
  | .write addr val, _ =>
    if addr % 0x100 / 2 = mtprW ∨ addr % 0x100 / 2 = mcr0W then
      some { s with nic := ioportWritew addr val s.nic,
                    kicked := if Kick addr val s.nic then s.queued else s.kicked }
    else none
  | _, _ => none

/-- The ring as the driver sets it up. -/
structure TxReady (r : DescriptorRing) (nic : State) : Prop where
  dbp : ∀ j < r.n, (r.descriptor nic.ram j).dbp.toNat = r.buf j
  dnx : ∀ j < r.n, (r.descriptor nic.ram j).dnx.toNat = r.desc ((j + 1) % r.n)
  free : ∀ j < r.n, ¬ (r.descriptor nic.ram j).Owned
  start : nic.txStart.toNat = r.desc 0

def TxSystem.start (nic : State) : TxSystem := ⟨nic, [], .idle, []⟩

/-- For the device a slot is full if it owns it. -/
def txView : View := ⟨fun d => decide d.Owned, fun d => d.dlen.toNat⟩

section
variable {r : DescriptorRing} {m : Mem} {j : Nat}

theorem tx_slots_owned (owned : (r.descriptor m j).Owned) :
    r.slots txView m j = some (m.load (r.buf j) (r.descriptor m j).dlen.toNat) := by
  simp [DescriptorRing.slots, txView, owned]

theorem tx_slots_free (free : ¬ (r.descriptor m j).Owned) : r.slots txView m j = none := by
  simp [DescriptorRing.slots, txView, free]

/-- Handing over an entry fills its slot. -/
theorem tx_own (linked : r.Linked txView m) (inside : j < r.n) (dst : Word) {frame : List Byte}
    (fits : frame.length ≤ r.room j) (dlen : (r.descriptor m j).dlen.toNat = frame.length)
    (contents : m.load (r.buf j) frame.length = frame) :
    r.Linked txView (r.setDst m j (dst ||| 0x8000#16)) ∧
    ∀ k < r.n, r.slots txView (r.setDst m j (dst ||| 0x8000#16)) k =
      Function.update (r.slots txView m) j (some frame) k := by
  have written := r.descriptor_setDst m j (dst ||| 0x8000#16)
  have owned : (r.descriptor (r.setDst m j (dst ||| 0x8000#16)) j).Owned := by
    rw [written]
    exact Descriptor.owned_of_or rfl
  have length : (r.descriptor (r.setDst m j (dst ||| 0x8000#16)) j).dlen.toNat = frame.length := by
    rw [written]
    exact dlen
  apply DescriptorRing.slots_setDst linked inside
  · intro _
    exact Nat.le_trans (Nat.le_of_eq length) fits
  · rw [tx_slots_owned owned, length, DescriptorRing.load_setDst _ _ inside fits, contents]

/-- Passing on an entry empties its slot. -/
theorem tx_release (linked : r.Linked txView m) (inside : j < r.n) (dst : Word) :
    r.Linked txView (r.setDst m j (dst &&& ~~~0x8000#16)) ∧
    ∀ k < r.n, r.slots txView (r.setDst m j (dst &&& ~~~0x8000#16)) k =
      Function.update (r.slots txView m) j none k := by
  have free : ¬ (r.descriptor (r.setDst m j (dst &&& ~~~0x8000#16)) j).Owned := by
    rw [r.descriptor_setDst]
    exact Descriptor.not_owned_of_and rfl
  apply DescriptorRing.slots_setDst linked inside
  · intro full
    exact absurd (of_decide_eq_true full) free
  · exact tx_slots_free free

end

/-! ## Sending -/

/-- The device has sent the first `done` of the queued frames, after those of
`base`. -/
structure Sending (r : DescriptorRing) (base queued : List (List Byte)) (done : Nat)
    (nic : State) : Prop where
  linked : r.Linked txView nic.ram
  start : nic.txStart.toNat = r.desc (done % r.n)
  holds : Slots.Holds r.n queued done (r.slots txView nic.ram)
  sent : nic.sent = base ++ (queued.take done).map (List.take 2000)

namespace Sending
variable {r : DescriptorRing} {base queued : List (List Byte)} {done : Nat} {nic : State}

/-- The device works on the descriptor of the oldest frame. -/
theorem owned (h : Sending r base queued done nic) (sent : (tryToSendOnePacket nic).1 = true) :
    (r.descriptor nic.ram (done % r.n)).Owned := by
  have owned := tryToSend_owned sent
  rw [h.start] at owned
  exact owned

theorem ram (h : Sending r base queued done nic) (sent : (tryToSendOnePacket nic).1 = true) :
    (tryToSendOnePacket nic).2.ram = r.setDst nic.ram (done % r.n)
      ((r.descriptor nic.ram (done % r.n)).dst &&& ~~~0x8000#16) := by
  rw [tryToSend_ram (tryToSend_owned sent), h.start]
  rfl

/-- The frame that is sent, and where the device goes then. -/
theorem tryToSend_eq (owned : (Descriptor.read nic.ram nic.txStart.toNat).Owned) :
    (tryToSendOnePacket nic).2.sent = nic.sent ++
      [(nic.ram.load (Descriptor.read nic.ram nic.txStart.toNat).dbp.toNat
        (Descriptor.read nic.ram nic.txStart.toNat).dlen.toNat).take 2000] ∧
    (tryToSendOnePacket nic).2.txStart = (Descriptor.read nic.ram nic.txStart.toNat).dnx := by
  have tocopy (dlen : Nat) : (if dlen > 2000 then 2000 else dlen) = min 2000 dlen := by
    split <;> omega
  rw [tryToSendOnePacket, if_pos owned, Mem.take_load, ← tocopy]
  exact ⟨rfl, State.txStart_txStartSet _ _⟩

theorem send (h : Sending r base queued done nic) (sent : (tryToSendOnePacket nic).1 = true) :
    Sending r base queued (done + 1) (tryToSendOnePacket nic).2 := by
  have inside : done % r.n < r.n := Nat.mod_lt _ r.positive
  have filled := tx_slots_owned (h.owned sent)
  have oldest := h.holds.get (Nat.le_refl done) (Nat.lt_add_of_pos_right r.positive) filled
  have more : queued.take (done + 1) = queued.take done ++
      [nic.ram.load (r.buf (done % r.n)) (r.descriptor nic.ram (done % r.n)).dlen.toNat] := by
    rw [List.take_add_one, oldest, Option.toList_some]
  have same : Descriptor.read nic.ram nic.txStart.toNat = r.descriptor nic.ram (done % r.n) := by
    rw [h.start, DescriptorRing.descriptor]
  obtain ⟨frame, next⟩ := tryToSend_eq (tryToSend_owned sent)
  rw [same, h.linked.dbp _ inside] at frame
  rw [same] at next
  obtain ⟨linked, slots⟩ := tx_release h.linked inside (r.descriptor nic.ram (done % r.n)).dst
  rw [← h.ram sent] at linked slots
  refine ⟨linked, ?_, ?_, ?_⟩
  · rw [next, ← Nat.mod_add_mod]
    exact h.linked.dnx _ inside
  · refine (h.holds.pop r.positive ?_).congr r.positive slots
    rw [filled]
    exact Option.some_ne_none _
  · rw [frame, h.sent, more, List.map_append, List.map_singleton, List.append_assoc]

/-- The loop sends all that is queued. -/
theorem loop (h : Sending r base queued done nic) (count : Nat) :
    Sending r base queued queued.length (transmitLoop nic count).2 := by
  induction nic, count using transmitLoop.induct generalizing done with
  | case1 nic count sent ih =>
    rw [transmitLoop, dif_pos sent]
    exact ih (h.send sent)
  | case2 nic count idle =>
    obtain ⟨free, same⟩ := tryToSend_idle idle
    rw [h.start] at free
    rw [transmitLoop, dif_neg idle, same, ← h.holds.drained r.positive (tx_slots_free free)]
    exact h

/-- An entry that belongs to the driver is left alone. -/
theorem loop_entry (h : Sending r base queued done nic) (count : Nat) {j : Nat} (inside : j < r.n)
    (free : ¬ (r.descriptor nic.ram j).Owned) {x : Nat} (here : r.InEntry j x) :
    (transmitLoop nic count).2.ram x = nic.ram x := by
  induction nic, count using transmitLoop.induct generalizing done with
  | case1 nic count sent ih =>
    have insideD : done % r.n < r.n := Nat.mod_lt _ r.positive
    have other : j ≠ done % r.n := by
      rintro rfl
      exact free (h.owned sent)
    have touched := r.touches_setDst nic.ram (done % r.n)
      ((r.descriptor nic.ram (done % r.n)).dst &&& ~~~0x8000#16)
    rw [← h.ram sent] at touched
    have still : ¬ (r.descriptor (tryToSendOnePacket nic).2.ram j).Owned := by
      rwa [touched.descriptor insideD inside other]
    rw [transmitLoop, dif_pos sent, ih (h.send sent) still]
    exact touched x (DescriptorRing.not_inEntry insideD inside other here)
  | case2 nic count idle => rw [transmitLoop, dif_neg idle, (tryToSend_idle idle).2]

end Sending

/-- What the ring depends on is the same. -/
structure SameTx (s s' : State) : Prop where
  ram : s'.ram = s.ram
  sent : s'.sent = s.sent
  start : s'.txStart = s.txStart

theorem SameTx.refl (s : State) : SameTx s s := ⟨rfl, rfl, rfl⟩

theorem SameTx.setReg {s s' : State} (h : SameTx s s') {i : Nat} (notLow : i ≠ txStartLowW)
    (notHigh : i ≠ txStartHighW) (val : Word) : SameTx s (s'.setReg i val) := by
  refine ⟨h.ram, h.sent, ?_⟩
  rw [← h.start, State.txStart, s'.setReg_other notLow.symm, s'.setReg_other notHigh.symm]
  rfl

theorem Sending.sameTx {r : DescriptorRing} {base queued : List (List Byte)} {done : Nat}
    {s s' : State} (h : Sending r base queued done s) (same : SameTx s s') :
    Sending r base queued done s' := by
  refine ⟨?_, ?_, ?_, ?_⟩
  · rw [same.ram]
    exact h.linked
  · rw [same.start]
    exact h.start
  · rw [same.ram]
    exact h.holds
  · rw [same.sent]
    exact h.sent

theorem SameTx.updateIrq {s s' : State} (h : SameTx s s') : SameTx s s'.updateIrq := by
  refine ⟨h.ram, h.sent, ?_⟩
  rw [← h.start]
  simp only [State.txStart, State.updateIrq]

theorem transmit_sameTx (s : State) : SameTx (transmitLoop s 0).2 (transmit s) := by
  unfold transmit
  dsimp only
  split
  · apply SameTx.updateIrq
    exact (SameTx.refl _).setReg (by decide) (by decide) _
  · exact .refl _

section
variable {addr : Nat} {val : Dword} {s : State}

theorem writew_mtpr (here : addr % 0x100 / 2 = mtprW) : ioportWritew addr val s =
    if val.getLsbD 0 then (transmit s).setReg mtprW ((val &&& ~~~1#32).setWidth 16)
    else s.setReg mtprW (val.setWidth 16) := by
  unfold ioportWritew
  dsimp only
  rw [here, if_neg (by decide), if_neg (by decide), if_pos rfl]

theorem writew_mcr0 (here : addr % 0x100 / 2 = mcr0W) : ioportWritew addr val s =
    (if bitSet (s.regs mcr0W) (val.setWidth 16) 12 then transmit s else s).setReg mcr0W
      (val.setWidth 16) := by
  unfold ioportWritew
  dsimp only
  rw [here, if_pos rfl]

theorem kick_mtpr (here : addr % 0x100 / 2 = mtprW) : Kick addr val s ↔ val.getLsbD 0 = true := by
  have other : ¬ mtprW = mcr0W := by decide
  simp [Kick, here, other]

theorem kick_mcr0 (here : addr % 0x100 / 2 = mcr0W) :
    Kick addr val s ↔ bitSet (s.regs mcr0W) (val.setWidth 16) 12 = true := by
  have other : ¬ mcr0W = mtprW := by decide
  simp [Kick, here, other]

/-- A write to one of the two registers is a kick, or does nothing to the ring. -/
theorem writew_sameTx (register : addr % 0x100 / 2 = mtprW ∨ addr % 0x100 / 2 = mcr0W) :
    SameTx (if Kick addr val s then (transmitLoop s 0).2 else s) (ioportWritew addr val s) := by
  have sending := transmit_sameTx s
  rcases register with here | here
  · rw [writew_mtpr here]
    by_cases kick : Kick addr val s
    · rw [if_pos kick, if_pos ((kick_mtpr here).mp kick)]
      exact sending.setReg (by decide) (by decide) _
    · rw [if_neg kick, if_neg ((kick_mtpr here).not.mp kick)]
      exact (SameTx.refl s).setReg (by decide) (by decide) _
  · rw [writew_mcr0 here]
    by_cases kick : Kick addr val s
    · rw [if_pos kick, if_pos ((kick_mcr0 here).mp kick)]
      exact sending.setReg (by decide) (by decide) _
    · rw [if_neg kick, if_neg ((kick_mcr0 here).not.mp kick)]
      exact (SameTx.refl s).setReg (by decide) (by decide) _

end

/-! ## Filling -/

/-- The descriptor that is being filled belongs to the driver, and has what the
driver has written so far. -/
def Filling.Right (r : DescriptorRing) (m : Mem) (j : Nat) : Filling → Prop
  | .idle => True
  | .buffered frame => ¬ (r.descriptor m j).Owned ∧ frame.length ≤ r.room j ∧ frame.length < 2 ^ 16 ∧
      m.load (r.buf j) frame.length = frame
  | .sized frame => ¬ (r.descriptor m j).Owned ∧ frame.length ≤ r.room j ∧
      (r.descriptor m j).dlen.toNat = frame.length ∧ m.load (r.buf j) frame.length = frame

/-- What holds between the device and the driver. -/
structure TxInvariant (r : DescriptorRing) (base : List (List Byte)) (s : TxSystem) : Prop where
  kicked : s.kicked <+: s.queued
  sending : Sending r base s.queued s.kicked.length s.nic
  filling : s.filling.Right r s.nic.ram (s.queued.length % r.n)

theorem TxReady.invariant {r : DescriptorRing} {nic : State} (ready : TxReady r nic) :
    TxInvariant r nic.sent (.start nic) := by
  refine ⟨List.nil_prefix, ⟨⟨ready.dbp, ready.dnx, ?_⟩, ?_, ?_, ?_⟩, trivial⟩
  · intro j inside full
    have free : ¬ (r.descriptor (TxSystem.start nic).nic.ram j).Owned := ready.free j inside
    simp [txView, free] at full
  · exact ready.start.trans (congrArg r.desc (Nat.zero_mod r.n).symm)
  · apply Slots.Holds.start
    intro j inside
    exact tx_slots_free (ready.free j inside)
  · exact (List.append_nil _).symm

namespace TxInvariant
variable {r : DescriptorRing} {base : List (List Byte)} {s s' : TxSystem}

/-- A change to the entry that is being filled does not concern the device. -/
theorem sending_touches (h : TxInvariant r base s) {m : Mem} {j : Nat} (inside : j < r.n)
    (touched : r.Touches j s.nic.ram m)
    (dbp : (r.descriptor m j).dbp = (r.descriptor s.nic.ram j).dbp)
    (dnx : (r.descriptor m j).dnx = (r.descriptor s.nic.ram j).dnx)
    (before : ¬ (r.descriptor s.nic.ram j).Owned) (free : ¬ (r.descriptor m j).Owned) :
    Sending r base s.queued s.kicked.length { s.nic with ram := m } := by
  refine ⟨touched.linked h.sending.linked inside dbp dnx ?_, h.sending.start, ?_, h.sending.sent⟩
  · intro full
    simp [txView, free] at full
  · apply h.sending.holds.congr r.positive
    intro k insideK
    rw [touched.slots_update h.sending.linked inside (tx_slots_free free) k insideK,
      ← tx_slots_free before, Function.update_eq_self]

theorem fill (h : TxInvariant r base s) {frame : List Byte}
    (step : s.step r (.fill frame) = some s') : TxInvariant r base s' := by
  have inside : s.queued.length % r.n < r.n := Nat.mod_lt _ r.positive
  cases filling : s.filling with
  | idle =>
    simp only [TxSystem.step, filling, Option.ite_none_right_eq_some] at step
    obtain ⟨⟨free, fits, short⟩, after⟩ := step
    cases after
    have same := DescriptorRing.descriptor_store s.nic.ram inside fits
    have still : ¬ (r.descriptor (s.nic.ram.store (r.buf (s.queued.length % r.n)) frame)
        (s.queued.length % r.n)).Owned := by
      rwa [same]
    refine ⟨h.kicked, ?_, still, fits, short, Mem.load_store _ _ _⟩
    exact h.sending_touches inside (DescriptorRing.touches_store _ _ fits) (by rw [same]) (by rw [same])
      free still
  | buffered | sized => simp [TxSystem.step, filling] at step

theorem size (h : TxInvariant r base s) (step : s.step r .size = some s') : TxInvariant r base s' := by
  have inside : s.queued.length % r.n < r.n := Nat.mod_lt _ r.positive
  cases filling : s.filling with
  | buffered frame =>
    have right := h.filling
    rw [filling] at right
    obtain ⟨free, fits, short, contents⟩ := right
    simp only [TxSystem.step, filling, Option.some.injEq] at step
    cases step
    have written := r.descriptor_setDlen s.nic.ram (s.queued.length % r.n) (BitVec.ofNat 16 frame.length)
    have still : ¬ (r.descriptor (r.setDlen s.nic.ram (s.queued.length % r.n)
        (BitVec.ofNat 16 frame.length)) (s.queued.length % r.n)).Owned := by
      rw [written]
      exact free
    refine ⟨h.kicked, ?_, still, fits, ?_, ?_⟩
    · exact h.sending_touches inside (DescriptorRing.touches_setDlen _ _ _) (by rw [written])
        (by rw [written]) free still
    · rw [written, BitVec.toNat_ofNat, Nat.mod_eq_of_lt short]
    · rw [DescriptorRing.load_setDlen _ _ inside fits]
      exact contents
  | idle | sized => simp [TxSystem.step, filling] at step

theorem own (h : TxInvariant r base s) (step : s.step r .own = some s') : TxInvariant r base s' := by
  have inside : s.queued.length % r.n < r.n := Nat.mod_lt _ r.positive
  cases filling : s.filling with
  | sized frame =>
    have right := h.filling
    rw [filling] at right
    obtain ⟨free, fits, dlen, contents⟩ := right
    simp only [TxSystem.step, filling, Option.some.injEq] at step
    cases step
    obtain ⟨linked, slots⟩ := tx_own h.sending.linked inside
      (r.descriptor s.nic.ram (s.queued.length % r.n)).dst fits dlen contents
    refine ⟨h.kicked.trans (List.prefix_append _ _), ⟨linked, h.sending.start, ?_, ?_⟩, trivial⟩
    · exact (h.sending.holds.push r.positive (tx_slots_free free) frame).congr r.positive slots
    · rw [List.take_append_of_le_length h.kicked.length_le]
      exact h.sending.sent
  | idle | buffered => simp [TxSystem.step, filling] at step

end TxInvariant

/-- What the driver has written is still there, if the entry is as it was. -/
theorem Filling.Right.congr {r : DescriptorRing} {m m' : Mem} {j : Nat} {filling : Filling}
    (h : filling.Right r m j)
    (same : ¬ (r.descriptor m j).Owned → ∀ x, r.InEntry j x → m' x = m x) : filling.Right r m' j := by
  have entry (free : ¬ (r.descriptor m j).Owned) : r.descriptor m' j = r.descriptor m j := by
    apply Descriptor.read_congr
    intro i small
    apply same free
    left
    omega
  have buffer (free : ¬ (r.descriptor m j).Owned) {n : Nat} (fits : n ≤ r.room j) :
      m'.load (r.buf j) n = m.load (r.buf j) n := by
    apply Mem.load_congr
    intro i small
    apply same free
    right
    omega
  cases filling with
  | idle => trivial
  | buffered frame =>
    obtain ⟨free, fits, short, contents⟩ := h
    refine ⟨?_, fits, short, ?_⟩
    · rwa [entry free]
    · rw [buffer free fits]
      exact contents
  | sized frame =>
    obtain ⟨free, fits, dlen, contents⟩ := h
    refine ⟨?_, fits, ?_, ?_⟩
    · rwa [entry free]
    · rw [entry free]
      exact dlen
    · rw [buffer free fits]
      exact contents

namespace TxInvariant
variable {r : DescriptorRing} {base : List (List Byte)} {s s' : TxSystem}

theorem write (h : TxInvariant r base s) {addr : Nat} {val : Dword}
    (step : s.step r (.write addr val) = some s') : TxInvariant r base s' := by
  have inside : s.queued.length % r.n < r.n := Nat.mod_lt _ r.positive
  simp only [TxSystem.step, Option.ite_none_right_eq_some] at step
  obtain ⟨register, after⟩ := step
  cases after
  have same : SameTx (if Kick addr val s.nic then (transmitLoop s.nic 0).2 else s.nic)
      (ioportWritew addr val s.nic) := writew_sameTx register
  by_cases kick : Kick addr val s.nic
  · rw [if_pos kick] at same
    refine ⟨?_, ?_, ?_⟩
    · rw [if_pos kick]
    · rw [if_pos kick]
      exact (h.sending.loop 0).sameTx same
    · apply h.filling.congr
      intro free x here
      rw [same.ram]
      exact h.sending.loop_entry 0 inside free here
  · rw [if_neg kick] at same
    refine ⟨?_, ?_, ?_⟩
    · rw [if_neg kick]
      exact h.kicked
    · rw [if_neg kick]
      exact h.sending.sameTx same
    · apply h.filling.congr
      intro _ x _
      rw [same.ram]

/-- Once everything has been sent, the device owns nothing. -/
theorem free (h : TxInvariant r base s) (all : s.kicked = s.queued) {j : Nat} (inside : j < r.n) :
    ¬ (r.descriptor s.nic.ram j).Owned := by
  have holds := h.sending.holds
  rw [all] at holds
  intro owned
  have filled := tx_slots_owned owned
  rw [holds.empty inside] at filled
  cases filled

end TxInvariant

/-- The frames that are sent are those that were queued before the last kick, in
order and each once, and after a kick all descriptors belong to the driver. -/
theorem tx_fifo (r : DescriptorRing) (nic : State) (ready : TxReady r nic) (s : TxSystem)
    (reached : Transition.Reach (TxSystem.step r) (fun _ _ => True) (.start nic) s) :
    s.nic.sent = nic.sent ++ s.kicked.map (List.take 2000) ∧ s.kicked <+: s.queued ∧
    ∀ addr val s', Kick addr val s.nic → s.step r (.write addr val) = some s' →
      s'.kicked = s.queued ∧ ∀ j < r.n, ¬ (r.descriptor s'.nic.ram j).Owned := by
  have invariant : TxInvariant r nic.sent s := by
    refine reached.invariant ready.invariant ?_
    intro s a s' h _ step
    cases a with
    | fill frame => exact h.fill step
    | size => exact h.size step
    | own => exact h.own step
    | write addr val => exact h.write step
  refine ⟨?_, invariant.kicked, ?_⟩
  · rw [invariant.sending.sent, ← List.prefix_iff_eq_take.mp invariant.kicked]
  · intro addr val s' kick step
    have next := invariant.write step
    simp only [TxSystem.step, Option.ite_none_right_eq_some] at step
    obtain ⟨_, after⟩ := step
    cases after
    refine ⟨if_pos kick, ?_⟩
    intro j inside
    exact next.free (if_pos kick) inside

/-- The memory once a frame is in an entry and the device owns it. -/
def DescriptorRing.queue (r : DescriptorRing) (m : Mem) (j : Nat) (frame : List Byte) : Mem :=
  let sized := r.setDlen (m.store (r.buf j) frame) j (BitVec.ofNat 16 frame.length)
  r.setDst sized j ((r.descriptor sized j).dst ||| 0x8000#16)

theorem reach_queued {r : DescriptorRing} {init nic : State} {queued kicked : List (List Byte)}
    (reached : Transition.Reach (TxSystem.step r) (fun _ _ => True) (.start init)
      ⟨nic, queued, .idle, kicked⟩)
    (frame : List Byte) (free : ¬ (r.descriptor nic.ram (queued.length % r.n)).Owned)
    (fits : frame.length ≤ r.room (queued.length % r.n)) (short : frame.length < 2 ^ 16) :
    Transition.Reach (TxSystem.step r) (fun _ _ => True) (.start init)
      ⟨{ nic with ram := r.queue nic.ram (queued.length % r.n) frame }, queued ++ [frame], .idle,
        kicked⟩ := by
  have filled : TxSystem.step r (.fill frame) ⟨nic, queued, .idle, kicked⟩ =
      some ⟨{ nic with ram := nic.ram.store (r.buf (queued.length % r.n)) frame }, queued,
        .buffered frame, kicked⟩ := if_pos ⟨free, fits, short⟩
  exact ((reached.next _ trivial filled).next .size trivial rfl).next .own trivial rfl

/-- The device, with the small ring set up for sending. -/
def smallSender : State := (initPci (smallMemory 0#16)).txStartSet 0x1000#32

theorem smallSender_ready : TxReady smallRing smallSender := by
  refine ⟨by decide, by decide, by decide, ?_⟩
  rw [smallSender, State.txStart_txStartSet]
  rfl

/-- Two frames are queued, and the device is kicked. -/
theorem tx_fifo_two : TxReady smallRing smallSender ∧ ∃ s : TxSystem,
    Transition.Reach (TxSystem.step smallRing) (fun _ _ => True) (.start smallSender) s ∧
    s.queued = [[0xaa#8], [0xbb#8]] ∧ s.nic.sent = [[0xaa#8], [0xbb#8]] := by
  have queued₁ := reach_queued (.start : Transition.Reach (TxSystem.step smallRing) (fun _ _ => True)
    (.start smallSender) ⟨smallSender, [], .idle, []⟩) [0xaa#8] (by decide) (by decide) (by decide)
  have queued₂ := reach_queued queued₁ [0xbb#8] (by decide) (by decide) (by decide)
  have kick (nic : State) (queued : List (List Byte)) :
      TxSystem.step smallRing (.write 0x14 1#32) ⟨nic, queued, .idle, []⟩ =
        some ⟨ioportWritew 0x14 1#32 nic, queued, .idle, queued⟩ := by
    unfold TxSystem.step
    exact if_pos (.inl rfl)
  have reached := queued₂.next _ trivial (kick _ _)
  exact ⟨smallSender_ready, _, reached, rfl, (tx_fifo smallRing smallSender smallSender_ready _ reached).1⟩

end Bifferboard.R6040
