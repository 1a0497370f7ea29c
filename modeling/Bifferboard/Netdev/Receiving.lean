import Bifferboard.R6040.Effect
import Bifferboard.Netdev.Sending

/-!
# Packets on their way in

The device fills the descriptors in turn and `r6040_rx` follows it. Every packet that is
passed on leaves with its buffer, and a new buffer takes its place in the ring; if there
is none the packet is dropped and the old buffer is used again.
-/

namespace Bifferboard.Netdev
open Nor R6040

/-! ## A ring whose buffers change -/

/-- The ring with another buffer for one of its descriptors. -/
def rebuf (r : DescriptorRing) (j b : Nat)
    (bufs : ∀ k < r.n, k ≠ j → b + r.room j ≤ r.buf k ∨ r.buf k + r.room k ≤ b)
    (descs : ∀ k < r.n, r.desc k + 20 ≤ b ∨ b + r.room j ≤ r.desc k) : DescriptorRing where
  n := r.n
  positive := r.positive
  desc := r.desc
  buf := Function.update r.buf j b
  room := r.room
  descsApart := r.descsApart
  bufsApart := by
    intro i insideI k insideK other
    by_cases hereI : i = j
    · subst hereI
      rw [Function.update_self, Function.update_of_ne other.symm]
      exact bufs k insideK other.symm
    · rw [Function.update_of_ne hereI]
      by_cases hereK : k = j
      · subst hereK
        rw [Function.update_self]
        exact (bufs i insideI hereI).symm
      · rw [Function.update_of_ne hereK]
        exact r.bufsApart i insideI k insideK other
  descsBufsApart := by
    intro i insideI k insideK
    by_cases here : k = j
    · subst here
      rw [Function.update_self]
      exact descs i insideI
    · rw [Function.update_of_ne here]
      exact r.descsBufsApart i insideI k insideK

section
variable {r : DescriptorRing} {j b : Nat}
  {bufs : ∀ k < r.n, k ≠ j → b + r.room j ≤ r.buf k ∨ r.buf k + r.room k ≤ b}
  {descs : ∀ k < r.n, r.desc k + 20 ≤ b ∨ b + r.room j ≤ r.desc k}

theorem rebuf_same : (rebuf r j b bufs descs).buf j = b := Function.update_self ..

theorem rebuf_other {k : Nat} (other : k ≠ j) : (rebuf r j b bufs descs).buf k = r.buf k :=
  Function.update_of_ne other ..

end

/-- An entry is given back to the device, perhaps with another buffer. -/
theorem rx_recycle {r r' : DescriptorRing} {m m' : Mem} {j : Nat} (linked : r.Linked rxView m)
    (inside : j < r.n) (n : r'.n = r.n) (desc : r'.desc = r.desc)
    (buf : ∀ k ≠ j, r'.buf k = r.buf k) (room : r'.room = r.room)
    (touched : r.Touches j m m') (owned : (r.descriptor m' j).Owned)
    (dbp : (r.descriptor m' j).dbp.toNat = r'.buf j)
    (dnx : (r.descriptor m' j).dnx = (r.descriptor m j).dnx) :
    r'.Linked rxView m' ∧
    ∀ k < r.n, r'.slots rxView m' k = Function.update (r.slots rxView m) j none k := by
  have same (k : Nat) : r'.descriptor m' k = r.descriptor m' k := by
    rw [DescriptorRing.descriptor, desc, DescriptorRing.descriptor]
  refine ⟨⟨?_, ?_, ?_⟩, ?_⟩
  · intro k insideK
    rw [n] at insideK
    rw [same]
    by_cases here : k = j
    · rw [here, dbp]
    · rw [touched.descriptor inside insideK here, buf k here]
      exact linked.dbp k insideK
  · intro k insideK
    rw [n] at insideK
    rw [same, n, desc]
    by_cases here : k = j
    · rw [here, dnx]
      exact linked.dnx j inside
    · rw [touched.descriptor inside insideK here]
      exact linked.dnx k insideK
  · intro k insideK full
    rw [n] at insideK
    rw [same] at full ⊢
    rw [room]
    by_cases here : k = j
    · subst here
      simp [rxView, owned] at full
    · rw [touched.descriptor inside insideK here] at full ⊢
      exact linked.fits k insideK full
  · intro k insideK
    by_cases here : k = j
    · subst here
      rw [Function.update_self]
      apply rx_slots_owned
      rwa [same]
    · rw [Function.update_of_ne here, ← touched.slots linked inside insideK here,
        DescriptorRing.slots, same, buf k here, DescriptorRing.slots]

/-! ## The receive side -/

/-- The descriptor that `r6040_rx` looks at next. -/
def Machine.rxPointer (m : Machine) : Nat :=
  match m.poll with
  | .rx _ descptr => descptr
  | _ => m.lp.rxRemovePtr

/-- The receive side as the device and a driver that walks the ring: what is taken from
a descriptor, and the descriptor itself, are dealt with at once. -/
def Machine.rxSystem (m : Machine) : RxSystem :=
  ⟨m.nic, m.accepted, (m.accepted.map (cut maxBufSize)).take m.passed.length, m.passed.length⟩

/-- The status words that a receive descriptor ever has. -/
def dscRxOk : Word := 0x4000#16

/-- What holds of the receive side between two steps. -/
structure RxSide (m : Machine) (r : DescriptorRing) : Prop where
  n : r.n = rxDcnt
  desc : ∀ j, r.desc j = m.lp.rx.desc j
  room : ∀ j, r.room j = maxBufSize
  vndescp : ∀ j < rxDcnt, m.lp.rx.vndescp j = (j + 1) % rxDcnt
  skb : ∀ j < rxDcnt, ∃ data, m.lp.rx.skbPtr j = some ⟨data, 0⟩ ∧ data.toNat = r.buf j
  rxApart : ∀ j < rxDcnt, Machine.Apart (r.buf j) maxBufSize m.lp.rx.dma.toNat (32 * rxDcnt)
  txApart : ∀ j < rxDcnt, Machine.Apart (r.buf j) maxBufSize m.lp.tx.dma.toNat (32 * txDcnt)
  rings : Machine.Apart m.lp.rx.dma.toNat (32 * rxDcnt) m.lp.tx.dma.toNat (32 * txDcnt)
  status : ∀ j < rxDcnt, (r.descriptor m.nic.ram j).dst = dscOwnerMac ∨
    (r.descriptor m.nic.ram j).dst = dscRxOk
  pointer : m.rxPointer = m.passed.length % rxDcnt
  system : RxInvariant r maxBufSize m.rxSystem
  count : m.passed.length ≤ m.accepted.length
  passed : ∀ (i : Nat) (data : List Byte), m.passed[i]? = some (some data) →
    (m.accepted.map (cut maxBufSize))[i]? = some data

/-- What the receive side depends on is the same. -/
structure SameRxSide (r : DescriptorRing) (m m' : Machine) : Prop where
  rx : m'.lp.rx = m.lp.rx
  txDma : m'.lp.tx.dma = m.lp.tx.dma
  pointer : m'.rxPointer = m.rxPointer
  ram : ∀ j < rxDcnt, ∀ x, r.InEntry j x → m'.nic.ram x = m.nic.ram x
  start : m'.nic.rxStart = m.nic.rxStart
  size : m'.nic.bufferSize = m.nic.bufferSize
  accepted : m'.accepted = m.accepted
  passed : m'.passed = m.passed

theorem RxSide.descriptor_same {r : DescriptorRing} {m m' : Mem} {j : Nat}
    (same : ∀ x, r.InEntry j x → m' x = m x) : r.descriptor m' j = r.descriptor m j := by
  apply Descriptor.read_congr
  intro i small
  apply same
  left
  omega

/-- Memory outside of the ring does not matter. -/
theorem linked_congr {r : DescriptorRing} {m m' : Mem} (linked : r.Linked rxView m)
    (same : ∀ j < r.n, ∀ x, r.InEntry j x → m' x = m x) :
    r.Linked rxView m' ∧ ∀ j < r.n, r.slots rxView m' j = r.slots rxView m j := by
  have entry (j : Nat) (inside : j < r.n) := RxSide.descriptor_same (same j inside)
  refine ⟨⟨?_, ?_, ?_⟩, ?_⟩
  · intro j inside
    rw [entry j inside]
    exact linked.dbp j inside
  · intro j inside
    rw [entry j inside]
    exact linked.dnx j inside
  · intro j inside full
    rw [entry j inside] at full ⊢
    exact linked.fits j inside full
  · intro j inside
    unfold DescriptorRing.slots
    rw [entry j inside]
    split
    · rename_i full
      congr 1
      apply Mem.load_congr
      intro i small
      apply same j inside
      right
      have fits := linked.fits j inside full
      omega
    · rfl

namespace RxSide
variable {r : DescriptorRing} {m m' : Machine}

theorem congr (h : RxSide m r) (same : SameRxSide r m m') : RxSide m' r := by
  have memory : ∀ j < r.n, ∀ x, r.InEntry j x → m'.nic.ram x = m.nic.ram x := by
    rw [h.n]
    exact same.ram
  obtain ⟨linked, slots⟩ := linked_congr h.system.linked memory
  refine ⟨h.n, ?_, h.room, ?_, ?_, ?_, ?_, ?_, ?_, ?_, ?_, ?_, ?_⟩
  · rw [same.rx]
    exact h.desc
  · rw [same.rx]
    exact h.vndescp
  · rw [same.rx]
    exact h.skb
  · rw [same.rx]
    exact h.rxApart
  · rw [same.txDma]
    exact h.txApart
  · rw [same.rx, same.txDma]
    exact h.rings
  · intro j below
    rw [descriptor_same (same.ram j below)]
    exact h.status j below
  · rw [same.pointer, same.passed]
    exact h.pointer
  · refine ⟨?_, linked, ?_, ?_, ?_, ?_⟩
    · exact same.size.trans h.system.bufferSize
    · rw [show m'.rxSystem.nic.rxStart = m.nic.rxStart from same.start,
        show m'.rxSystem.accepted = m.accepted from same.accepted]
      exact h.system.start
    · have holds := h.system.holds.congr r.positive slots
      rw [Machine.rxSystem, same.accepted, same.passed]
      exact holds
    · rw [Machine.rxSystem, same.accepted, same.passed]
      exact h.system.given
    · rw [Machine.rxSystem, same.accepted, same.passed]
      exact h.system.taken
  · rw [same.passed, same.accepted]
    exact h.count
  · rw [same.passed, same.accepted]
    exact h.passed

/-! ## A packet comes in -/

theorem below_n (h : RxSide m r) (k : Nat) : k % r.n < rxDcnt := by
  rw [← h.n]
  exact Nat.mod_lt _ r.positive

theorem bufferSize (h : RxSide m r) : m.nic.bufferSize = maxBufSize := h.system.bufferSize

/-- The device is at the descriptor that it fills next. -/
theorem start (h : RxSide m r) : m.nic.rxStart.toNat = r.desc (m.accepted.length % r.n) :=
  h.system.start

/-- What `ReceiveOnePacket` leaves in the status word. -/
theorem received_status (h : RxSide m r) (p : Packet) {j : Nat} (below : j < rxDcnt) :
    (r.descriptor (receiveOnePacket p.bytes m.nic).2.ram j).dst = dscOwnerMac ∨
    (r.descriptor (receiveOnePacket p.bytes m.nic).2.ram j).dst = dscRxOk := by
  by_cases owned : (Descriptor.read m.nic.ram m.nic.rxStart.toNat).Owned
  swap
  · rw [receive_refused owned]
    exact h.status j below
  have inside : m.accepted.length % r.n < rxDcnt := h.below_n _
  by_cases here : j = m.accepted.length % r.n
  · right
    rw [receive_owned_ram owned, DescriptorRing.descriptor, here, ← h.start, Descriptor.read_write]
    have before := h.status _ inside
    rw [DescriptorRing.descriptor, ← h.start] at before
    have status : (Descriptor.read m.nic.ram m.nic.rxStart.toNat).dst = dscOwnerMac := by
      refine before.resolve_right fun ok => ?_
      rw [Descriptor.Owned, ok] at owned
      exact owned (by decide)
    rw [Descriptor.received, status]
    change (dscOwnerMac ||| 0x4000#16) &&& ~~~0x8000#16 = dscRxOk
    decide
  · have insideJ : j < r.n := h.n ▸ below
    have insideK : m.accepted.length % r.n < r.n := Nat.mod_lt _ r.positive
    have apart := r.descsApart j insideJ _ insideK here
    have cross := r.descsBufsApart j insideJ _ insideK
    have dbp := h.system.linked.dbp _ insideK
    have same : r.descriptor (receiveOnePacket p.bytes m.nic).2.ram j = r.descriptor m.nic.ram j := by
      apply Descriptor.read_congr
      intro i small
      apply receive_frame owned
      · rw [h.start, show (Descriptor.read m.nic.ram (r.desc (m.accepted.length % r.n))).dbp.toNat = _
          from dbp, h.bufferSize]
        rw [h.room] at cross
        omega
      · rw [h.start]
        omega
    rw [same]
    exact h.status j below

theorem receive (h : RxSide m r) (p : Packet) : RxSide { m with
    nic := (receiveOnePacket p.bytes m.nic).2,
    accepted := if (receiveOnePacket p.bytes m.nic).1 = 0 then m.accepted ++ [p] else m.accepted } r := by
  have system := h.system.receive (by decide) (fun j _ => Nat.le_of_eq (h.room j).symm) p rfl
  have count := h.count
  have grown (k : Nat) (old : k < m.accepted.length) :
      ((if (receiveOnePacket p.bytes m.nic).1 = 0 then m.accepted ++ [p] else m.accepted).map
        (cut maxBufSize))[k]? = (m.accepted.map (cut maxBufSize))[k]? := by
    split
    · rw [List.map_append, List.getElem?_append_left (by rwa [List.length_map])]
    · rfl
  have taken : ((if (receiveOnePacket p.bytes m.nic).1 = 0 then m.accepted ++ [p] else m.accepted).map
      (cut maxBufSize)).take m.passed.length = (m.accepted.map (cut maxBufSize)).take m.passed.length := by
    split
    · rw [List.map_append, List.take_append_of_le_length (by rwa [List.length_map])]
    · rfl
  refine ⟨h.n, h.desc, h.room, h.vndescp, h.skb, h.rxApart, h.txApart, h.rings,
    fun j below => h.received_status p below, h.pointer, ?_, ?_, ?_⟩
  · rw [Machine.rxSystem]
    dsimp only
    rw [taken]
    exact system
  · dsimp only
    split
    · rw [List.length_append]
      exact Nat.le_add_right_of_le count
    · exact count
  · intro i data found
    have old : i < m.passed.length := (List.getElem?_eq_some_iff.mp found).1
    rw [grown i (Nat.lt_of_lt_of_le old count)]
    exact h.passed i data found

end RxSide

/-! ## A packet is passed on -/

/-- What a round of the loop of `r6040_rx` does: descriptor `j` goes back to the device,
with the buffer of `r'`. -/
structure RxRound (j : Nat) (r r' : DescriptorRing) (m m' : Machine) : Prop where
  n : r'.n = r.n
  desc : r'.desc = r.desc
  room : r'.room = r.room
  buf : ∀ k ≠ j, r'.buf k = r.buf k
  ram : r.Touches j m.nic.ram m'.nic.ram
  dst : (r.descriptor m'.nic.ram j).dst = dscOwnerMac
  dbp : (r.descriptor m'.nic.ram j).dbp.toNat = r'.buf j
  dnx : (r.descriptor m'.nic.ram j).dnx = (r.descriptor m.nic.ram j).dnx
  regs : m'.nic.regs = m.nic.regs
  dma : m'.lp.rx.dma = m.lp.rx.dma
  txDma : m'.lp.tx.dma = m.lp.tx.dma
  vndescp : m'.lp.rx.vndescp = m.lp.rx.vndescp
  skbs : ∀ k ≠ j, m'.lp.rx.skbPtr k = m.lp.rx.skbPtr k
  skb : ∃ data, m'.lp.rx.skbPtr j = some ⟨data, 0⟩ ∧ data.toNat = r'.buf j
  rxApart : Machine.Apart (r'.buf j) maxBufSize m.lp.rx.dma.toNat (32 * rxDcnt)
  txApart : Machine.Apart (r'.buf j) maxBufSize m.lp.tx.dma.toNat (32 * txDcnt)
  pointer : m'.rxPointer = m.lp.rx.vndescp j
  accepted : m'.accepted = m.accepted
  passed : ∃ outcome : Option (List Byte), m'.passed = m.passed ++ [outcome] ∧ ∀ data ∈ outcome,
    data = m.nic.ram.load (r.buf j) ((r.descriptor m.nic.ram j).dlen.toNat - 4)

namespace RxSide
variable {r r' : DescriptorRing} {m m' : Machine}

/-- A descriptor that the driver owns holds the packet whose turn it is. -/
theorem next (h : RxSide m r)
    (free : ¬ (r.descriptor m.nic.ram (m.passed.length % r.n)).Owned) :
    (m.accepted.map (cut maxBufSize))[m.passed.length]? = some (m.nic.ram.load
      (r.buf (m.passed.length % r.n))
      ((r.descriptor m.nic.ram (m.passed.length % r.n)).dlen.toNat - 4)) :=
  h.system.holds.get (Nat.le_refl _) (Nat.lt_add_of_pos_right r.positive) (rx_slots_free free)

theorem round (h : RxSide m r) {j : Nat} (here : j = m.rxPointer)
    (free : ¬ (r.descriptor m.nic.ram j).Owned) (round : RxRound j r r' m m') : RxSide m' r' := by
  have place : j = m.passed.length % r.n := by rw [here, h.pointer, h.n]
  have inside : j < r.n := place ▸ Nat.mod_lt _ r.positive
  have below : j < rxDcnt := h.n ▸ inside
  have next := h.next (place ▸ free)
  rw [← place] at next
  have more : m.passed.length < m.accepted.length := by
    have found := (List.getElem?_eq_some_iff.mp next).1
    rwa [List.length_map] at found
  obtain ⟨outcome, passed, right⟩ := round.passed
  have length : m'.passed.length = m.passed.length + 1 := by
    rw [passed, List.length_append, List.length_singleton]
  have owned : (r.descriptor m'.nic.ram j).Owned := by
    rw [Descriptor.Owned, round.dst]
    decide
  have entry (k : Nat) : r'.descriptor m'.nic.ram k = r.descriptor m'.nic.ram k := by
    rw [DescriptorRing.descriptor, round.desc, DescriptorRing.descriptor]
  obtain ⟨linked, slots⟩ := rx_recycle h.system.linked inside round.n round.desc round.buf round.room
    round.ram owned round.dbp round.dnx
  refine ⟨round.n.trans h.n, ?_, ?_, ?_, ?_, ?_, ?_, ?_, ?_, ?_, ⟨?_, linked, ?_, ?_, ?_, ?_⟩, ?_, ?_⟩
  · intro k
    rw [round.desc, h.desc, Ring.desc, Ring.desc, round.dma]
  · rw [round.room]
    exact h.room
  · rw [round.vndescp]
    exact h.vndescp
  · intro k belowK
    by_cases same : k = j
    · rw [same]
      exact round.skb
    · rw [round.skbs k same, round.buf k same]
      exact h.skb k belowK
  · intro k belowK
    rw [round.dma]
    by_cases same : k = j
    · rw [same]
      exact round.rxApart
    · rw [round.buf k same]
      exact h.rxApart k belowK
  · intro k belowK
    rw [round.txDma]
    by_cases same : k = j
    · rw [same]
      exact round.txApart
    · rw [round.buf k same]
      exact h.txApart k belowK
  · rw [round.dma, round.txDma]
    exact h.rings
  · intro k belowK
    rw [entry]
    by_cases same : k = j
    · rw [same]
      exact .inl round.dst
    · rw [round.ram.descriptor inside (h.n ▸ belowK) same]
      exact h.status k belowK
  · rw [round.pointer, h.vndescp j below, length, here, h.pointer, Nat.mod_add_mod]
  · rw [State.bufferSize, Machine.rxSystem, round.regs]
    exact h.bufferSize
  · rw [Machine.rxSystem, State.rxStart, round.regs, round.accepted, round.desc, round.n]
    exact h.start
  · have filled : r.slots rxView m.nic.ram (m.passed.length % r.n) ≠ none := by
      rw [← place, rx_slots_free free]
      exact Option.some_ne_none _
    have popped := h.system.holds.pop r.positive filled
    rw [Machine.rxSystem, round.accepted, length, round.n]
    rw [place] at slots
    exact popped.congr r.positive slots
  · rw [Machine.rxSystem, round.accepted, length]
    dsimp only
    rw [List.length_take, List.length_map]
    omega
  · rw [Machine.rxSystem]
    exact List.take_prefix _ _
  · rw [length, round.accepted]
    exact more
  · intro i data found
    rw [passed] at found
    rw [round.accepted]
    by_cases last : i = m.passed.length
    · rw [last, List.getElem?_concat_length] at found
      rw [last, next, ← right data (Option.some.inj found)]
    · have old : i < m.passed.length := by
        have found' := (List.getElem?_eq_some_iff.mp found).1
        rw [List.length_append, List.length_singleton] at found'
        omega
      rw [List.getElem?_append_left old] at found
      exact h.passed i data found

/-- The driver's look at a status word, as ownership. -/
theorem free_iff (h : RxSide m r) (j : Nat) :
    m.status m.lp.rx j &&& dscOwnerMac = 0#16 ↔ ¬ (r.descriptor m.nic.ram j).Owned := by
  rw [Descriptor.Owned, not_not, DescriptorRing.descriptor, h.desc]
  rfl

/-- A packet that the device has passed on has no error. -/
theorem no_error (h : RxSide m r) {j : Nat} (below : j < rxDcnt)
    (free : ¬ (r.descriptor m.nic.ram j).Owned) : m.status m.lp.rx j = dscRxOk := by
  have status : (r.descriptor m.nic.ram j).dst = m.status m.lp.rx j := by
    rw [DescriptorRing.descriptor, h.desc]
    rfl
  rw [← status]
  refine (h.status j below).resolve_left fun owner => ?_
  rw [Descriptor.Owned, owner] at free
  exact free (by decide)

/-- The memory after a round in which the buffer stays. -/
theorem touches_status (h : RxSide m r) (j : Nat) :
    r.Touches j m.nic.ram (m.nic.ram.storeWord (m.lp.rx.desc j) dscOwnerMac) := by
  rw [← h.desc]
  exact r.touches_setDst m.nic.ram j dscOwnerMac

theorem round_dropped (h : RxSide m r) {count j : Nat} (here : m.poll = .rx count j)
    (free : ¬ (r.descriptor m.nic.ram j).Owned) :
    RxSide { Machine.giveBack j (m.rxPacket none j) with
      poll := .rx (count + 1) (m.lp.rx.vndescp j) } r := by
  have pointer : j = m.rxPointer := by rw [Machine.rxPointer, here]
  have below : j < rxDcnt := by
    rw [pointer, h.pointer]
    exact Nat.mod_lt _ (by decide)
  have noError : ¬ (m.status m.lp.rx j &&& dscRxErr ≠ 0#16) := by
    rw [h.no_error below free]
    decide
  have written := r.descriptor_setDst m.nic.ram j dscOwnerMac
  rw [DescriptorRing.setDst, h.desc] at written
  rw [Machine.rxPacket, if_neg noError]
  refine h.round pointer free ⟨rfl, rfl, rfl, fun _ _ => rfl, h.touches_status j, ?_, ?_, ?_, rfl, rfl, rfl,
    rfl, fun _ _ => rfl, h.skb j below, h.rxApart j below, h.txApart j below, rfl, rfl, none, rfl, ?_⟩
  · exact congrArg Descriptor.dst written
  · refine (congrArg (fun d => d.dbp.toNat) written).trans ?_
    exact h.system.linked.dbp j (h.n ▸ below)
  · have dnx := congrArg Descriptor.dnx written
    exact dnx
  · intro data impossible
    cases impossible

theorem round_passed (h : RxSide m r) {count j : Nat} (here : m.poll = .rx count j)
    (free : ¬ (r.descriptor m.nic.ram j).Owned) {data : Dword}
    (unused : m.Unused data.toNat maxBufSize) :
    ∃ r', RxSide { Machine.giveBack j (m.rxPacket (some data) j) with
      poll := .rx (count + 1) (m.lp.rx.vndescp j) } r' := by
  have pointer : j = m.rxPointer := by rw [Machine.rxPointer, here]
  have below : j < rxDcnt := by
    rw [pointer, h.pointer]
    exact Nat.mod_lt _ (by decide)
  have noError : ¬ (m.status m.lp.rx j &&& dscRxErr ≠ 0#16) := by
    rw [h.no_error below free]
    decide
  obtain ⟨rxUnused, txUnused, bufsUnused⟩ := unused
  obtain ⟨old, skbPtr, oldBuf⟩ := h.skb j below
  have bufs : ∀ k < r.n, k ≠ j →
      data.toNat + r.room j ≤ r.buf k ∨ r.buf k + r.room k ≤ data.toNat := by
    intro k inside _
    obtain ⟨other, skb, buf⟩ := h.skb k (h.n ▸ inside)
    have apart := bufsUnused k (h.n ▸ inside) _ skb
    rw [h.room, h.room, ← buf]
    exact apart
  have descs : ∀ k < r.n, r.desc k + 20 ≤ data.toNat ∨ data.toNat + r.room j ≤ r.desc k := by
    intro k inside
    rw [h.n] at inside
    rw [h.room, h.desc, Ring.desc]
    unfold Machine.Apart at rxUnused
    omega
  -- the memory: the new buffer, then the status
  have written : r.descriptor ((storeDword m.nic.ram (m.lp.rx.desc j + 4) data).storeWord
      (m.lp.rx.desc j) dscOwnerMac) j =
        { r.descriptor m.nic.ram j with dst := dscOwnerMac, dbp := data } := by
    rw [DescriptorRing.descriptor, h.desc, Descriptor.read_storeWord_dst, read_storeDword_dbp,
      DescriptorRing.descriptor, h.desc]
  have touched : r.Touches j m.nic.ram ((storeDword m.nic.ram (m.lp.rx.desc j + 4) data).storeWord
      (m.lp.rx.desc j) dscOwnerMac) := by
    intro x outside
    unfold DescriptorRing.InEntry at outside
    rw [h.desc] at outside
    exact (Mem.storeWord_frame _ _ (by omega)).trans (storeDword_frame _ _ (by omega))
  refine ⟨rebuf r j data.toNat bufs descs, ?_⟩
  rw [Machine.rxPacket, if_neg noError]
  refine h.round pointer free ⟨rfl, rfl, rfl, fun k other => rebuf_other other, touched, ?_, ?_, ?_, rfl,
    rfl, rfl, rfl, fun k other => Function.update_of_ne other .., ?_, ?_, ?_, rfl, rfl, _, rfl, ?_⟩
  · exact congrArg Descriptor.dst written
  · exact (congrArg (fun d => d.dbp.toNat) written).trans rebuf_same.symm
  · have dnx := congrArg Descriptor.dnx written
    exact dnx
  · exact ⟨data, Function.update_self .., rebuf_same.symm⟩
  · rw [rebuf_same]
    exact rxUnused
  · rw [rebuf_same]
    exact txUnused
  · intro bytes found
    cases found
    rw [skbPtr, Option.getD_some, oldBuf, ← h.desc]
    rfl

end RxSide

end Bifferboard.Netdev
