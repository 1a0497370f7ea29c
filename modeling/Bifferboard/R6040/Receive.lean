import Bifferboard.Transition.Reach
import Bifferboard.R6040.Device
import Bifferboard.R6040.Rings

/-!
# The receive ring

The device puts packets into the descriptors it owns, one after the other, and
the driver follows it around the ring, takes the packets out and gives the
descriptors back. The two never look at anything but the descriptor they have come
to. Still the driver gets all packets that the device has accepted, in order.
-/

namespace Bifferboard.R6040
open Nor

/-- A packet from the network, with a length that its sender can express. -/
structure Packet where
  bytes : List Byte
  short : bytes.length + 4 < 2 ^ 32

/-- The device, and a driver that walks the ring. -/
structure RxSystem where
  nic : State
  /-- The packets `ReceiveOnePacket` returned 0 for. -/
  accepted : List Packet
  /-- What the driver has taken out of the ring. -/
  taken : List (List Byte)
  /-- How many descriptors the driver has given back. -/
  given : Nat

inductive RxAction where
  | receive (p : Packet)
  | take
  | give

/-- What an action does, if it can be taken. The driver does not take a packet
from a descriptor that it still holds. -/
def RxSystem.step (r : DescriptorRing) (a : RxAction) (s : RxSystem) : Option RxSystem :=
  match a with
  | .receive p =>
    let received := receiveOnePacket p.bytes s.nic
    some { s with nic := received.2,
                  accepted := if received.1 = 0 then s.accepted ++ [p] else s.accepted }
  | .take =>
    let d := r.descriptor s.nic.ram (s.taken.length % r.n)
    if s.taken.length < s.given + r.n ∧ ¬ d.Owned then
      some { s with taken := s.taken ++ [s.nic.ram.load d.dbp.toNat (d.dlen.toNat - 4)] }
    else none
  | .give =>
    let j := s.given % r.n
    if s.given < s.taken.length then
      let ram := r.setDst s.nic.ram j ((r.descriptor s.nic.ram j).dst ||| 0x8000#16)
      some { s with nic := { s.nic with ram := ram }, given := s.given + 1 }
    else none

/-- The ring as the driver sets it up. -/
structure RxReady (r : DescriptorRing) (nic : State) : Prop where
  dbp : ∀ j < r.n, (r.descriptor nic.ram j).dbp.toNat = r.buf j
  dnx : ∀ j < r.n, (r.descriptor nic.ram j).dnx.toNat = r.desc ((j + 1) % r.n)
  owned : ∀ j < r.n, (r.descriptor nic.ram j).Owned
  start : nic.rxStart.toNat = r.desc 0
  least : 4 ≤ nic.bufferSize
  room : ∀ j < r.n, nic.bufferSize ≤ r.room j

def RxSystem.start (nic : State) : RxSystem := ⟨nic, [], [], 0⟩

/-- For the driver a slot is full if the device has let go of it. -/
def rxView : View := ⟨fun d => !decide d.Owned, fun d => d.dlen.toNat - 4⟩

/-- What arrives of a packet. -/
def cut (size : Nat) (p : Packet) : List Byte := p.bytes.take (size - 4)

/-! ## One packet -/

section
variable {r : DescriptorRing} {m : Mem} {j : Nat}

theorem rx_slots_owned (owned : (r.descriptor m j).Owned) : r.slots rxView m j = none := by
  simp [DescriptorRing.slots, rxView, owned]

theorem rx_slots_free (free : ¬ (r.descriptor m j).Owned) :
    r.slots rxView m j = some (m.load (r.buf j) ((r.descriptor m j).dlen.toNat - 4)) := by
  simp [DescriptorRing.slots, rxView, free]

/-- The memory once the device has put `data` into an entry. -/
theorem rx_fill (linked : r.Linked rxView m) (inside : j < r.n) {d : Descriptor} {data : List Byte}
    (fits : data.length ≤ r.room j) (dbp : d.dbp = (r.descriptor m j).dbp)
    (dnx : d.dnx = (r.descriptor m j).dnx) (free : ¬ d.Owned) (dlen : d.dlen.toNat - 4 = data.length) :
    r.Linked rxView (d.write (m.store (r.buf j) data) (r.desc j)) ∧
    ∀ k < r.n, r.slots rxView (d.write (m.store (r.buf j) data) (r.desc j)) k =
      Function.update (r.slots rxView m) j (some data) k := by
  have apart := r.descsBufsApart j inside j inside
  have touched : r.Touches j m (d.write (m.store (r.buf j) data) (r.desc j)) := by
    intro x outside
    rw [Descriptor.write_frame, DescriptorRing.touches_store m j fits x outside]
    unfold DescriptorRing.InEntry at outside
    omega
  have written : r.descriptor (d.write (m.store (r.buf j) data) (r.desc j)) j = d :=
    Descriptor.read_write _ _ _
  have contents : (d.write (m.store (r.buf j) data) (r.desc j)).load (r.buf j) data.length = data := by
    refine Eq.trans ?_ (m.load_store (r.buf j) data)
    apply Mem.load_congr
    intro i small
    apply Descriptor.write_frame
    omega
  refine ⟨touched.linked linked inside ?_ ?_ ?_, touched.slots_update linked inside ?_⟩
  · rw [written, dbp]
  · rw [written, dnx]
  · intro _
    rw [written]
    exact Nat.le_trans (Nat.le_of_eq dlen) fits
  · have free' : ¬ (r.descriptor (d.write (m.store (r.buf j) data) (r.desc j)) j).Owned := by
      rwa [written]
    rw [rx_slots_free free', written, dlen, contents]

/-- Giving back an entry empties its slot. -/
theorem rx_give (linked : r.Linked rxView m) (inside : j < r.n) (dst : Word) :
    r.Linked rxView (r.setDst m j (dst ||| 0x8000#16)) ∧
    ∀ k < r.n, r.slots rxView (r.setDst m j (dst ||| 0x8000#16)) k =
      Function.update (r.slots rxView m) j none k := by
  have owned : (r.descriptor (r.setDst m j (dst ||| 0x8000#16)) j).Owned := by
    rw [r.descriptor_setDst]
    exact Descriptor.owned_of_or rfl
  apply DescriptorRing.slots_setDst linked inside
  · intro full
    simp [rxView, owned] at full
  · exact rx_slots_owned owned

end

theorem receive_refused {buf : List Byte} {s : State}
    (free : ¬ (Descriptor.read s.ram s.rxStart.toNat).Owned) : receiveOnePacket buf s = (-1, s) := by
  rw [receiveOnePacket, if_neg free]

namespace State
variable (s : State)

theorem bufferSize_lt : s.bufferSize < 2 ^ 16 := BitVec.isLt _

theorem tocopy_le (len : Nat) : s.tocopy len ≤ s.bufferSize := by
  unfold tocopy
  split
  · exact Nat.le_refl _
  · rename_i fits
    exact Nat.le_of_not_gt fits

theorem tocopy_lt (len : Nat) : s.tocopy len < 2 ^ 16 :=
  Nat.lt_of_le_of_lt (s.tocopy_le len) s.bufferSize_lt

/-- Taken as an `int`, a length that has wrapped is negative. -/
theorem copied_eq (len : Nat) : (s.copyLength len).toInt.toNat = s.tocopy len - 4 := by
  have limit := s.tocopy_lt len
  have wraps : (s.copyLength len).toNat = (2 ^ 32 - 4 + s.tocopy len) % 2 ^ 32 := by
    rw [copyLength, BitVec.toNat_sub, BitVec.toNat_ofNat, BitVec.toNat_ofNat]
    omega
  rw [BitVec.toInt_eq_toNat_cond, wraps]
  split <;> omega

end State

/-- What the device does with a packet it accepts: it stores the packet, passes
the descriptor on and goes to the next one. -/
theorem receive_accepted (p : Packet) {s : State}
    (owned : (Descriptor.read s.ram s.rxStart.toNat).Owned) (least : 4 ≤ s.bufferSize) :
    ∃ d : Descriptor,
      d.dbp = (Descriptor.read s.ram s.rxStart.toNat).dbp ∧
      d.dnx = (Descriptor.read s.ram s.rxStart.toNat).dnx ∧ ¬ d.Owned ∧
      d.dlen.toNat - 4 = (cut s.bufferSize p).length ∧
      (receiveOnePacket p.bytes s).1 = 0 ∧
      (receiveOnePacket p.bytes s).2.ram =
        d.write (s.ram.store d.dbp.toNat (cut s.bufferSize p)) s.rxStart.toNat ∧
      (receiveOnePacket p.bytes s).2.rxStart = d.dnx ∧
      (receiveOnePacket p.bytes s).2.bufferSize = s.bufferSize := by
  have short := p.short
  have limit := s.bufferSize_lt
  have tocopy : s.tocopy p.bytes.length = (cut s.bufferSize p).length + 4 := by
    rw [State.tocopy, Nat.mod_eq_of_lt short, cut, List.length_take]
    split <;> omega
  have copied : p.bytes.take ((cut s.bufferSize p).length + 4 - 4) = cut s.bufferSize p := by
    rw [Nat.add_sub_cancel, cut, List.length_take, List.take_eq_take_iff]
    omega
  have length : (cut s.bufferSize p).length + 4 < 2 ^ 16 := by
    rw [cut, List.length_take]
    omega
  rw [receiveOnePacket, if_pos owned]
  dsimp only
  rw [s.copied_eq, tocopy, copied]
  refine ⟨(Descriptor.read s.ram s.rxStart.toNat).received _, rfl, rfl, ?_, ?_, rfl, rfl,
    State.rxStart_rxStartSet _ _, ?_⟩
  · exact Descriptor.not_owned_of_and rfl
  · rw [Descriptor.received, BitVec.toNat_ofNat, Nat.mod_eq_of_lt length, Nat.add_sub_cancel]
  · rw [State.bufferSize, State.rxStartSet, State.setReg_other _ (by decide),
      State.setReg_other _ (by decide)]
    rfl

/-! ## Runs -/

/-- What holds between the device and the driver. -/
structure RxInvariant (r : DescriptorRing) (size : Nat) (s : RxSystem) : Prop where
  bufferSize : s.nic.bufferSize = size
  linked : r.Linked rxView s.nic.ram
  start : s.nic.rxStart.toNat = r.desc (s.accepted.length % r.n)
  holds : Slots.Holds r.n (s.accepted.map (cut size)) s.given (r.slots rxView s.nic.ram)
  given : s.given ≤ s.taken.length
  taken : s.taken <+: s.accepted.map (cut size)

section
variable {r : DescriptorRing} {size : Nat} {s : RxSystem}

theorem RxReady.invariant {nic : State} (ready : RxReady r nic) :
    RxInvariant r nic.bufferSize (.start nic) := by
  refine ⟨rfl, ⟨ready.dbp, ready.dnx, ?_⟩, ?_, ?_, Nat.le_refl 0, List.nil_prefix⟩
  · intro j inside full
    have owned : (r.descriptor (RxSystem.start nic).nic.ram j).Owned := ready.owned j inside
    simp [rxView, owned] at full
  · exact ready.start.trans (congrArg r.desc (Nat.zero_mod r.n).symm)
  · apply Slots.Holds.start
    intro j inside
    exact rx_slots_owned (ready.owned j inside)

theorem RxInvariant.receive (h : RxInvariant r size s) (least : 4 ≤ size)
    (room : ∀ j < r.n, size ≤ r.room j) (p : Packet) {s' : RxSystem}
    (step : s.step r (.receive p) = some s') : RxInvariant r size s' := by
  have inside : s.accepted.length % r.n < r.n := Nat.mod_lt _ r.positive
  cases step
  by_cases owned : (Descriptor.read s.nic.ram s.nic.rxStart.toNat).Owned
  · obtain ⟨d, dbp, dnx, free, dlen, accepted, ram, start, kept⟩ :=
      receive_accepted p owned (h.bufferSize ▸ least)
    rw [h.start] at dbp dnx ram owned
    rw [h.bufferSize] at dlen ram
    have fits : (cut size p).length ≤ r.room (s.accepted.length % r.n) := by
      have limit := room _ inside
      rw [cut, List.length_take]
      omega
    have place : d.dbp.toNat = r.buf (s.accepted.length % r.n) := by
      rw [dbp]
      exact h.linked.dbp _ inside
    rw [place] at ram
    obtain ⟨linked, slots⟩ := rx_fill h.linked inside fits dbp dnx free dlen
    have pushed := h.holds.push r.positive
      (by rw [List.length_map]; exact rx_slots_owned owned) (cut size p)
    rw [List.length_map] at pushed
    refine ⟨kept.trans h.bufferSize, ?_, ?_, ?_, h.given, ?_⟩
    · rw [ram]
      exact linked
    · rw [start, dnx, if_pos accepted, List.length_append, ← Nat.mod_add_mod]
      exact h.linked.dnx _ inside
    · rw [if_pos accepted, List.map_append, ram]
      exact pushed.congr r.positive slots
    · rw [if_pos accepted, List.map_append]
      exact h.taken.trans (List.prefix_append _ _)
  · rw [receive_refused owned]
    exact ⟨h.bufferSize, h.linked, h.start, h.holds, h.given, h.taken⟩

theorem RxInvariant.take (h : RxInvariant r size s) {s' : RxSystem}
    (step : s.step r .take = some s') : RxInvariant r size s' := by
  have inside : s.taken.length % r.n < r.n := Nat.mod_lt _ r.positive
  simp only [RxSystem.step, Option.ite_none_right_eq_some] at step
  obtain ⟨⟨unheld, free⟩, after⟩ := step
  cases after
  have found := rx_slots_free free
  rw [← h.linked.dbp _ inside] at found
  have next := h.holds.get h.given unheld found
  refine ⟨h.bufferSize, h.linked, h.start, h.holds, ?_, Slots.prefix_snoc h.taken next⟩
  rw [List.length_append]
  exact Nat.le_succ_of_le h.given

theorem RxInvariant.give (h : RxInvariant r size s) {s' : RxSystem}
    (step : s.step r .give = some s') : RxInvariant r size s' := by
  have inside : s.given % r.n < r.n := Nat.mod_lt _ r.positive
  have bounded : s.taken.length ≤ (s.accepted.map (cut size)).length := h.taken.length_le
  simp only [RxSystem.step, Option.ite_none_right_eq_some] at step
  obtain ⟨held, after⟩ := step
  cases after
  obtain ⟨linked, slots⟩ := rx_give h.linked inside (r.descriptor s.nic.ram (s.given % r.n)).dst
  have filled : r.slots rxView s.nic.ram (s.given % r.n) ≠ none := by
    have positive := r.positive
    rw [h.holds.window s.given (Nat.le_refl _) (by omega), List.getElem?_eq_getElem (by omega)]
    exact Option.some_ne_none _
  exact ⟨h.bufferSize, linked, h.start, (h.holds.pop r.positive filled).congr r.positive slots, held,
    h.taken⟩

end

/-- The packets that the driver takes are those that the device has accepted, in
order and each once, and never are more than `n` of them on their way. -/
theorem rx_fifo (r : DescriptorRing) (nic : State) (ready : RxReady r nic) (s : RxSystem)
    (reached : Transition.Reach (RxSystem.step r) (fun _ _ => True) (.start nic) s) :
    s.taken <+: s.accepted.map (fun p => p.bytes.take (min p.bytes.length (nic.bufferSize - 4))) ∧
    s.accepted.length ≤ s.taken.length + r.n := by
  have invariant : RxInvariant r nic.bufferSize s := by
    refine reached.invariant ready.invariant ?_
    intro s a s' h _ step
    cases a with
    | receive p => exact h.receive ready.least ready.room p step
    | take => exact h.take step
    | give => exact h.give step
  have same : (fun p : Packet => p.bytes.take (min p.bytes.length (nic.bufferSize - 4))) =
      cut nic.bufferSize := by
    funext p
    rw [cut, List.take_eq_take_iff]
    omega
  refine ⟨?_, ?_⟩
  · rw [same]
    exact invariant.taken
  · have outstanding := invariant.holds.upper
    have given := invariant.given
    rw [List.length_map] at outstanding
    omega

/-- The device, with the small ring set up for it. -/
def smallNic : State := (initPci (smallMemory 0x8000#16)).rxStartSet 0x1000#32

theorem smallNic_ready : RxReady smallRing smallNic := by
  have size : smallNic.bufferSize = 0x600 := by decide
  refine ⟨by decide, by decide, by decide, ?_, ?_, ?_⟩
  · rw [smallNic, State.rxStart_rxStartSet]
    rfl
  · rw [size]
    decide
  · intro j _
    rw [size]
    exact Nat.le_refl _

/-- Two packets come in, one after the other, and are taken out. -/
theorem rx_fifo_two : RxReady smallRing smallNic ∧ ∃ s : RxSystem,
    Transition.Reach (RxSystem.step smallRing) (fun _ _ => True) (.start smallNic) s ∧
    s.taken = [[0xaa#8], [0xbb#8]] ∧
    s.taken <+: s.accepted.map
      (fun p => p.bytes.take (min p.bytes.length (smallNic.bufferSize - 4))) := by
  let first : Packet := ⟨[0xaa#8], by decide⟩
  let second : Packet := ⟨[0xbb#8], by decide⟩
  let nic₁ := (receiveOnePacket [0xaa#8] smallNic).2
  let nic₂ := (receiveOnePacket [0xbb#8] nic₁).2
  have received₁ : RxSystem.step smallRing (.receive first) (.start smallNic) =
      some ⟨nic₁, [first], [], 0⟩ := rfl
  have accepted : (receiveOnePacket [0xbb#8] nic₁).1 = 0 := by decide
  have received₂ : RxSystem.step smallRing (.receive second) ⟨nic₁, [first], [], 0⟩ =
      some ⟨nic₂, [first, second], [], 0⟩ :=
    congrArg (fun accepted => some (RxSystem.mk nic₂ accepted [] 0)) (if_pos accepted)
  have free : ∀ j < 2, ¬ (smallRing.descriptor nic₂.ram j).Owned := by decide
  have found : ∀ j < 2, nic₂.ram.load (smallRing.descriptor nic₂.ram j).dbp.toNat
      ((smallRing.descriptor nic₂.ram j).dlen.toNat - 4) = [if j = 0 then 0xaa#8 else 0xbb#8] := by
    decide
  have taken₁ : RxSystem.step smallRing .take ⟨nic₂, [first, second], [], 0⟩ =
      some ⟨nic₂, [first, second], [[0xaa#8]], 0⟩ :=
    (if_pos ⟨Nat.two_pos, free 0 (by decide)⟩).trans
      (congrArg (fun data => some (RxSystem.mk nic₂ [first, second] [data] 0)) (found 0 (by decide)))
  have taken₂ : RxSystem.step smallRing .take ⟨nic₂, [first, second], [[0xaa#8]], 0⟩ =
      some ⟨nic₂, [first, second], [[0xaa#8], [0xbb#8]], 0⟩ :=
    (if_pos ⟨Nat.lt_succ_self 1, free 1 (by decide)⟩).trans
      (congrArg (fun data => some (RxSystem.mk nic₂ [first, second] [[0xaa#8], data] 0))
        (found 1 (by decide)))
  have reached : Transition.Reach (RxSystem.step smallRing) (fun _ _ => True) (.start smallNic)
      ⟨nic₂, [first, second], [[0xaa#8], [0xbb#8]], 0⟩ :=
    (((Transition.Reach.start.next _ trivial received₁).next _ trivial received₂).next
      _ trivial taken₁).next _ trivial taken₂
  exact ⟨smallNic_ready, _, reached, rfl, (rx_fifo smallRing smallNic smallNic_ready _ reached).1⟩

end Bifferboard.R6040
