import Bifferboard.R6040.Interrupt
import Bifferboard.R6040.Receive

/-!
# What a received packet changes

`ReceiveOnePacket` adds four bytes for a checksum, cuts the sum to the size of the
buffers and takes the four bytes off again, all in 32 bits without a sign. With a
buffer size of 0, which the guest may set, the last step wraps.

Apart from that a packet is received as a whole or not at all, and what it changes
is its buffer, two fields of its descriptor and four registers.
-/

namespace Bifferboard.R6040
open Nor

/-! ## The length that is copied -/

namespace State
variable (s : State)

/-- Buffers come in multiples of four bytes. -/
theorem bufferSize_mod : s.bufferSize % 4 = 0 := by
  have low : ∀ w : Word, (w &&& 0x07fc#16) &&& 3#16 = 0#16 := by
    intro w
    rw [BitVec.and_assoc, show 0x07fc#16 &&& 3#16 = 0#16 by decide, BitVec.and_zero]
  have zero := congrArg BitVec.toNat (low (s.regs mrbsrW))
  rw [BitVec.toNat_and] at zero
  exact (Nat.and_two_pow_sub_one_eq_mod _ 2).symm.trans zero

theorem bufferSize_eq_zero_iff : s.bufferSize = 0 ↔ s.regs mrbsrW &&& 0x07fc#16 = 0#16 :=
  (BitVec.toNat_eq (x := s.regs mrbsrW &&& 0x07fc#16) (y := 0#16)).symm

theorem four_le_tocopy_iff (len : Nat) : 4 ≤ s.tocopy len ↔
    s.regs mrbsrW &&& 0x07fc#16 ≠ 0#16 ∧ 4 ≤ (len + 4) % 2 ^ 32 := by
  have multiple := s.bufferSize_mod
  rw [ne_eq, ← s.bufferSize_eq_zero_iff, tocopy]
  split <;> omega

/-- No wrap, and the length is what one expects. -/
theorem copyLength_eq {len : Nat} (least : 4 ≤ s.tocopy len) :
    (s.copyLength len).toNat = s.tocopy len - 4 := by
  have limit := s.tocopy_lt len
  rw [copyLength, BitVec.toNat_sub, BitVec.toNat_ofNat, BitVec.toNat_ofNat]
  omega

end State

section
variable {buf : List Byte} {s : State}

theorem receive_owned_ram (owned : (Descriptor.read s.ram s.rxStart.toNat).Owned) :
    (receiveOnePacket buf s).2.ram =
      ((Descriptor.read s.ram s.rxStart.toNat).received (s.tocopy buf.length)).write
        (s.ram.store (Descriptor.read s.ram s.rxStart.toNat).dbp.toNat
          (buf.take (s.copyLength buf.length).toInt.toNat)) s.rxStart.toNat := by
  rw [receiveOnePacket, if_pos owned]
  simp only [State.rxStartSet, State.setReg_ram, State.updateIrq_ram]

/-- The length that the descriptor is passed on with. -/
def receivedLength (buf : List Byte) (s : State) : Nat :=
  (Descriptor.read (receiveOnePacket buf s).2.ram s.rxStart.toNat).dlen.toNat

theorem receivedLength_eq (owned : (Descriptor.read s.ram s.rxStart.toNat).Owned) :
    receivedLength buf s = s.tocopy buf.length := by
  rw [receivedLength, receive_owned_ram owned, Descriptor.read_write, Descriptor.received,
    BitVec.toNat_ofNat, Nat.mod_eq_of_lt (s.tocopy_lt _)]

/-- The packet fits its buffer: the length does not wrap, what is copied is part of
the packet, and with the checksum it is what the descriptor says and the buffer
holds. -/
structure Fits (buf : List Byte) (s : State) : Prop where
  noUnderflow : 4 ≤ s.tocopy buf.length
  copied_le : (s.copyLength buf.length).toNat ≤ buf.length
  dlen : (s.copyLength buf.length).toNat + 4 = receivedLength buf s
  room : receivedLength buf s ≤ s.bufferSize

/-- Packets fit exactly if there is room for anything at all, and 32 bits are
enough for the packet. -/
theorem fits_iff (owned : (Descriptor.read s.ram s.rxStart.toNat).Owned) : Fits buf s ↔
    s.regs mrbsrW &&& 0x07fc#16 ≠ 0#16 ∧ 4 ≤ (buf.length + 4) % 2 ^ 32 := by
  rw [← s.four_le_tocopy_iff]
  constructor
  · intro fits
    exact fits.noUnderflow
  · intro least
    have copied := s.copyLength_eq least
    refine ⟨least, ?_, ?_, ?_⟩
    · have shorter : s.tocopy buf.length ≤ (buf.length + 4) % 2 ^ 32 := by
        unfold State.tocopy
        split <;> omega
      omega
    · rw [receivedLength_eq owned]
      omega
    · rw [receivedLength_eq owned]
      exact s.tocopy_le _

end

/-- A descriptor at address 0 that the MAC owns, with a buffer at 0x2000. -/
def freshDescriptor : Descriptor := ⟨0x8000#16, 0#16, 0x2000#32, 0#32, 0#16, 0#16, 0#16, 0#16⟩

/-- The memory with that descriptor. -/
def descriptorRam : Mem := freshDescriptor.write (fun _ => 0#8) 0

/-- With the buffer size of `r6040_init_pci` a short packet fits. -/
theorem short_packet_fits : Fits (List.replicate 60 0xaa#8) (after descriptorRam []) :=
  (fits_iff (by decide)).mpr ⟨by decide, by decide⟩

/-- The guest sets the buffer size to 0. -/
theorem no_buffer_underflows :
    (Descriptor.read (after descriptorRam [.writew 0x18 0#32]).ram
      (after descriptorRam [.writew 0x18 0#32]).rxStart.toNat).Owned ∧
    (after descriptorRam [.writew 0x18 0#32]).copyLength 60 = 0xfffffffc#32 ∧
    ¬ Fits (List.replicate 60 0xaa#8) (after descriptorRam [.writew 0x18 0#32]) := by
  refine ⟨by decide, by decide, ?_⟩
  intro fits
  exact absurd fits.noUnderflow (by decide)

/-! ## All or nothing -/

/-- `r6040_receive`: the number of bytes that were taken. -/
def receive (buf : List Byte) (s : State) : Nat × State :=
  let done := receiveOnePacket buf s
  (if done.1 = 0 then buf.length else 0, done.2)

/-- Everything that a packet may change, if it is accepted. -/
structure ReceiveEffect (buf : List Byte) (s s' : State) : Prop where
  /-- Only the buffer, and `dst` and `dlen` of the descriptor. -/
  ram : ∀ x, let d := Descriptor.read s.ram s.rxStart.toNat
    ¬ (d.dbp.toNat ≤ x ∧ x < d.dbp.toNat + min buf.length (s.bufferSize - 4)) →
    ¬ (s.rxStart.toNat ≤ x ∧ x < s.rxStart.toNat + 4) → s'.ram x = s.ram x
  regs : ∀ i, i ∉ [rxStartLowW, rxStartHighW, rxPktCountW, misrW] → s'.regs i = s.regs i
  start : s'.rxStart = (Descriptor.read s.ram s.rxStart.toNat).dnx
  counter : s'.regs rxPktCountW = s.regs rxPktCountW + 1#16
  misr : ∀ i ≠ 0, (s'.regs misrW).getLsbD i = (s.regs misrW).getLsbD i
  phyRegs : s'.phyRegs = s.phyRegs
  phyOpInProgress : s'.phyOpInProgress = s.phyOpInProgress

/-- Passing a descriptor on leaves all but its first two fields as they were. -/
theorem received_write_rest (m m' : Mem) (a tocopy : Nat) {x : Nat} (above : a + 4 ≤ x)
    (below : x < a + 20) : ((Descriptor.read m a).received tocopy).write m' a x = m x := by
  obtain ⟨i, rfl⟩ := Nat.exists_eq_add_of_le above
  have rest : ((Descriptor.read m a).received tocopy).bytes.drop 4 = m.load (a + 4) 16 :=
    congrArg (List.drop 4) (Descriptor.bytes_read m a)
  have inside : i < 16 := by omega
  rw [Nat.add_assoc, Descriptor.write_inside _ _ _ (by omega), List.getD_eq_getElem?_getD,
    ← List.getElem?_drop, rest, Mem.load, List.getElem?_map, List.getElem?_range inside]
  exact congrArg m (Nat.add_assoc a 4 i)

section
variable {buf : List Byte} {s : State}

theorem receive_frame (owned : (Descriptor.read s.ram s.rxStart.toNat).Owned) {x : Nat}
    (outside : ¬ ((Descriptor.read s.ram s.rxStart.toNat).dbp.toNat ≤ x ∧
      x < (Descriptor.read s.ram s.rxStart.toNat).dbp.toNat + min buf.length (s.bufferSize - 4)))
    (notFields : ¬ (s.rxStart.toNat ≤ x ∧ x < s.rxStart.toNat + 4)) :
    (receiveOnePacket buf s).2.ram x = s.ram x := by
  rw [receive_owned_ram owned]
  by_cases here : s.rxStart.toNat ≤ x ∧ x < s.rxStart.toNat + 20
  · exact received_write_rest _ _ _ _ (by omega) here.2
  · rw [Descriptor.write_frame _ _ (by omega), s.copied_eq]
    apply Mem.store_frame
    have le := s.tocopy_le buf.length
    rw [List.length_take]
    omega

/-- The registers after a packet has been accepted. -/
theorem receive_owned_regs (owned : (Descriptor.read s.ram s.rxStart.toNat).Owned) (i : Nat) :
    (receiveOnePacket buf s).2.regs i =
      ((((s.setReg rxPktCountW (s.regs rxPktCountW + 1#16)).setReg misrW
        (s.regs misrW ||| 1#16)).rxStartSet (Descriptor.read s.ram s.rxStart.toNat).dnx).regs i) := by
  rw [receiveOnePacket, if_pos owned]
  simp only [State.rxStartSet, State.setReg, State.updateIrq_regs]
  rfl

theorem receive_effect (owned : (Descriptor.read s.ram s.rxStart.toNat).Owned) :
    ReceiveEffect buf s (receiveOnePacket buf s).2 := by
  have regs (i : Nat) : (receiveOnePacket buf s).2.regs i = _ := receive_owned_regs owned i
  have counter : (receiveOnePacket buf s).2.regs rxPktCountW = s.regs rxPktCountW + 1#16 := by
    rw [regs, State.rxStartSet, State.setReg_other _ (by decide), State.setReg_other _ (by decide),
      State.setReg_other _ (by decide), State.setReg_same]
  have misr : (receiveOnePacket buf s).2.regs misrW = s.regs misrW ||| 1#16 := by
    rw [regs, State.rxStartSet, State.setReg_other _ (by decide), State.setReg_other _ (by decide),
      State.setReg_same]
  refine ⟨fun x => receive_frame owned, ?_, ?_, counter, ?_, ?_, ?_⟩
  · intro i other
    simp only [List.mem_cons, List.not_mem_nil, or_false, not_or] at other
    obtain ⟨notLow, notHigh, notCounter, notMisr⟩ := other
    rw [regs, State.rxStartSet, State.setReg_other _ notHigh, State.setReg_other _ notLow,
      State.setReg_other _ notMisr, State.setReg_other _ notCounter]
  · rw [State.rxStart, regs, regs]
    exact State.rxStart_rxStartSet _ _
  · intro i other
    rw [misr]
    simp [other]
  · rw [receiveOnePacket, if_pos owned]
    simp only [State.rxStartSet, State.setReg_phyRegs, State.updateIrq_phyRegs]
  · rw [receiveOnePacket, if_pos owned]
    simp only [State.rxStartSet, State.setReg_phyOpInProgress, State.updateIrq_phyOpInProgress]

end

/-- A packet for which there is no descriptor changes nothing. One that is accepted
changes its buffer, two fields of its descriptor and four registers, even if
descriptor and buffer overlap. -/
theorem receive_all_or_nothing (buf : List Byte) (s : State) :
    (¬ (Descriptor.read s.ram s.rxStart.toNat).Owned → receive buf s = (0, s)) ∧
    ((Descriptor.read s.ram s.rxStart.toNat).Owned → 4 ≤ s.bufferSize →
      (receive buf s).1 = buf.length ∧ ReceiveEffect buf s (receive buf s).2) := by
  constructor
  · intro free
    rw [receive, receive_refused free]
    rfl
  · intro owned _
    have zero : (receiveOnePacket buf s).1 = 0 := by
      rw [receiveOnePacket, if_pos owned]
    refine ⟨?_, receive_effect owned⟩
    rw [receive, if_pos zero]

/-- Once, and then the descriptor is the driver's. -/
theorem received_once :
    (receive [0x55#8] (after descriptorRam [])).1 = 1 ∧
    receive [0x55#8] (after descriptorRam [.receive [0xaa#8]]) =
      (0, after descriptorRam [.receive [0xaa#8]]) :=
  ⟨((receive_all_or_nothing [0x55#8] (after descriptorRam [])).2 (by decide) (by decide)).1,
    (receive_all_or_nothing [0x55#8] (after descriptorRam [.receive [0xaa#8]])).1 (by decide)⟩

end Bifferboard.R6040
