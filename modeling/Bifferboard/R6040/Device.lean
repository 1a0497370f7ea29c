import Mathlib.Data.Finset.Card
import Mathlib.Data.Finset.Range
import Mathlib.Logic.Function.Basic
import Mathlib.Algebra.Group.Nat.Defs
import Bifferboard.R6040.Descriptor

/-!
# The emulated R6040

`r6040.c` keeps 128 word registers, the registers of the PHY and an interrupt
line, and works on descriptors in guest memory. The state of the model has all of
these, and the frames that have been passed to `qemu_send_packet`. Byte and long
accesses go through the handlers for words.
-/

namespace Bifferboard.R6040
open Nor

/-! ## Registers -/

def mcr0W : Nat := 0x00 / 2
def mcr1W : Nat := 0x04 / 2
def mtprW : Nat := 0x14 / 2
def mrbsrW : Nat := 0x18 / 2
def mmdioW : Nat := 0x20 / 2
def mdioReadW : Nat := 0x24 / 2
def mdioWriteW : Nat := 0x28 / 2
def txStartLowW : Nat := 0x2c / 2
def txStartHighW : Nat := 0x30 / 2
def rxStartLowW : Nat := 0x34 / 2
def rxStartHighW : Nat := 0x38 / 2
def misrW : Nat := 0x3c / 2
def mierW : Nat := 0x40 / 2
def rxPktCountW : Nat := 0x50 / 2
def mrcntW : Nat := 0x50 / 2
def txPktCountW : Nat := 0x5a / 2
def mtcntW : Nat := 0x5c / 2
def mac0W : Nat := 0x68 / 2
def mac1W : Nat := 0x6a / 2
def mac2W : Nat := 0x6c / 2
def mpsccrW : Nat := 0x88 / 2

structure State where
  regs : Nat → Word
  phyRegs : Nat → Word
  phyOpInProgress : Bool
  /-- The level last passed to `qemu_set_irq`. -/
  irq : Bool
  /-- The memory of the guest. -/
  ram : Mem
  /-- The frames passed to `qemu_send_packet`. -/
  sent : List (List Byte)

namespace State
variable (s : State)

def setReg (i : Nat) (val : Word) : State := { s with regs := Function.update s.regs i val }

def txStart : Dword := s.regs txStartHighW ++ s.regs txStartLowW

def txStartSet (start : Dword) : State :=
  (s.setReg txStartLowW (start.extractLsb' 0 16)).setReg txStartHighW (start.extractLsb' 16 16)

def rxStart : Dword := s.regs rxStartHighW ++ s.regs rxStartLowW

def rxStartSet (start : Dword) : State :=
  (s.setReg rxStartLowW (start.extractLsb' 0 16)).setReg rxStartHighW (start.extractLsb' 16 16)

/-- The enabled interrupts that are pending. -/
def pending : Word := s.regs misrW &&& s.regs mierW

def updateIrq : State := { s with irq := decide (s.pending ≠ 0#16) }

/-- Mark auto-negotiation complete, NIC up. -/
def physicalLinkUp : State :=
  { s with phyRegs := Function.update s.phyRegs 1 (s.phyRegs 1 ||| 0x4#16) }

@[simp] theorem setReg_same (i : Nat) (val : Word) : (s.setReg i val).regs i = val :=
  Function.update_self ..

theorem setReg_other {i j : Nat} (other : j ≠ i) (val : Word) : (s.setReg i val).regs j = s.regs j :=
  Function.update_of_ne other ..

@[simp] theorem setReg_ram (i : Nat) (val : Word) : (s.setReg i val).ram = s.ram := rfl

@[simp] theorem setReg_sent (i : Nat) (val : Word) : (s.setReg i val).sent = s.sent := rfl

@[simp] theorem setReg_phyRegs (i : Nat) (val : Word) : (s.setReg i val).phyRegs = s.phyRegs := rfl

@[simp] theorem setReg_phyOpInProgress (i : Nat) (val : Word) :
    (s.setReg i val).phyOpInProgress = s.phyOpInProgress := rfl

@[simp] theorem updateIrq_regs : s.updateIrq.regs = s.regs := rfl

@[simp] theorem updateIrq_ram : s.updateIrq.ram = s.ram := rfl

@[simp] theorem updateIrq_sent : s.updateIrq.sent = s.sent := rfl

@[simp] theorem updateIrq_phyRegs : s.updateIrq.phyRegs = s.phyRegs := rfl

@[simp] theorem updateIrq_phyOpInProgress : s.updateIrq.phyOpInProgress = s.phyOpInProgress := rfl

theorem start_append (start : Dword) : start.extractLsb' 16 16 ++ start.extractLsb' 0 16 = start := by
  rw [BitVec.extractLsb'_append_extractLsb'_eq_extractLsb' (by rfl)]
  exact BitVec.extractLsb'_eq_self

theorem txStart_txStartSet (start : Dword) : (s.txStartSet start).txStart = start := by
  have low : (s.txStartSet start).regs txStartLowW = start.extractLsb' 0 16 := by
    rw [txStartSet, setReg_other _ (by decide), setReg_same]
  rw [txStart, low, txStartSet, setReg_same, start_append]

theorem rxStart_rxStartSet (start : Dword) : (s.rxStartSet start).rxStart = start := by
  have low : (s.rxStartSet start).regs rxStartLowW = start.extractLsb' 0 16 := by
    rw [rxStartSet, setReg_other _ (by decide), setReg_same]
  rw [rxStart, low, rxStartSet, setReg_same, start_append]

end State

/-! ## Transmission -/

/-- `TryToSendOnePacket`. -/
def tryToSendOnePacket (s : State) : Bool × State :=
  let d := Descriptor.read s.ram s.txStart.toNat
  if d.Owned then
    let tocopy := if d.dlen.toNat > 2000 then 2000 else d.dlen.toNat
    let pktBuffer := s.ram.load d.dbp.toNat tocopy
    let counted := s.setReg txPktCountW (s.regs txPktCountW + 1#16)
    let written : Descriptor := { d with dst := d.dst &&& ~~~0x8000#16 }
    (true, { counted with ram := written.write s.ram s.txStart.toNat,
                          sent := s.sent ++ [pktBuffer] }.txStartSet d.dnx)
  else (false, s)

/-- How many places in memory there are at which a descriptor would belong to the
MAC. -/
def ownedPlaces (m : Mem) : Nat :=
  ((Finset.range (2 ^ 32)).filter fun a => (m (a + 1)).getLsbD 7 = true).card

theorem lo_and_not (w : Word) : (w &&& ~~~0x8000#16).lo = w.lo := by
  have mask : (~~~0x8000#16).extractLsb' 0 8 = BitVec.allOnes 8 := by decide
  rw [Word.lo, BitVec.extractLsb'_and, mask, BitVec.and_allOnes]
  rfl

theorem hi_and_not (w : Word) : (w &&& ~~~0x8000#16).hi.getLsbD 7 = false := by
  have mask : (~~~0x8000#16).getLsbD 15 = false := by decide
  rw [Word.hi, BitVec.getLsbD_extractLsb', BitVec.getLsbD_and, mask, Bool.and_false, Bool.and_false]

theorem tryToSend_owned {s : State} (sent : (tryToSendOnePacket s).1 = true) :
    (Descriptor.read s.ram s.txStart.toNat).Owned := by
  by_contra free
  rw [tryToSendOnePacket, if_neg free] at sent
  cases sent

theorem tryToSend_idle {s : State} (idle : ¬ (tryToSendOnePacket s).1 = true) :
    ¬ (Descriptor.read s.ram s.txStart.toNat).Owned ∧ (tryToSendOnePacket s).2 = s := by
  have free : ¬ (Descriptor.read s.ram s.txStart.toNat).Owned := by
    intro owned
    rw [tryToSendOnePacket, if_pos owned] at idle
    exact idle rfl
  rw [tryToSendOnePacket, if_neg free]
  exact ⟨free, rfl⟩

theorem tryToSend_ram {s : State} (owned : (Descriptor.read s.ram s.txStart.toNat).Owned) :
    (tryToSendOnePacket s).2.ram =
      s.ram.storeWord s.txStart.toNat (s.ram.word s.txStart.toNat &&& ~~~0x8000#16) := by
  rw [tryToSendOnePacket, if_pos owned]
  exact Descriptor.write_dst s.ram _ _

/-- A frame that is sent leaves one such place less. -/
theorem tryToSend_ownedPlaces (s : State) (sent : (tryToSendOnePacket s).1 = true) :
    ownedPlaces (tryToSendOnePacket s).2.ram < ownedPlaces s.ram := by
  have owned := tryToSend_owned sent
  have here := (Descriptor.owned_hi_iff s.ram _).mp owned
  rw [tryToSend_ram owned]
  apply Finset.card_lt_card
  rw [Finset.ssubset_iff_of_subset]
  · refine ⟨s.txStart.toNat, ?_, ?_⟩
    · rw [Finset.mem_filter, Finset.mem_range]
      exact ⟨s.txStart.isLt, here⟩
    · rw [Finset.mem_filter, Mem.storeWord_hi, hi_and_not]
      rintro ⟨_, set⟩
      cases set
  · intro a member
    rw [Finset.mem_filter] at member ⊢
    refine ⟨member.1, ?_⟩
    have set := member.2
    by_cases low : a + 1 = s.txStart.toNat
    · rw [low, Mem.storeWord_lo, lo_and_not, Mem.word, Word.lo_ofBytes] at set
      rwa [low]
    · by_cases high : a = s.txStart.toNat
      · rwa [high]
      · rwa [Mem.storeWord_frame _ _ (by omega)] at set

/-- The loop of `r6040_transmit`. -/
def transmitLoop (s : State) (count : Nat) : Nat × State :=
  if _sent : (tryToSendOnePacket s).1 = true then
    transmitLoop (tryToSendOnePacket s).2 (count + 1)
  else (count, (tryToSendOnePacket s).2)
termination_by ownedPlaces s.ram
decreasing_by exact tryToSend_ownedPlaces s _sent

def transmit (s : State) : State :=
  let done := transmitLoop s 0
  if done.1 ≠ 0 then (done.2.setReg misrW (done.2.regs misrW ||| 0x10#16)).updateIrq else done.2

/-! ## Reception -/

/-- The descriptor as it is passed on: received well, so many bytes, and no longer
the MAC's. -/
def Descriptor.received (d : Descriptor) (tocopy : Nat) : Descriptor :=
  { d with dst := (d.dst ||| 0x4000#16) &&& ~~~0x8000#16, dlen := BitVec.ofNat 16 tocopy }

/-- The size of a buffer, as the device is told. -/
def State.bufferSize (s : State) : Nat := (s.regs mrbsrW &&& 0x07fc#16).toNat

/-- `tocopy`, in 32 bits, once it has been cut to the size of a buffer. -/
def State.tocopy (s : State) (len : Nat) : Nat :=
  if (len + 4) % 2 ^ 32 > s.bufferSize then s.bufferSize else (len + 4) % 2 ^ 32

/-- `tocopy-4`. -/
def State.copyLength (s : State) (len : Nat) : Dword := BitVec.ofNat 32 (s.tocopy len) - 4#32

/-- `ReceiveOnePacket`. The length is passed on as an `int`, and one that is not positive
copies nothing. -/
def receiveOnePacket (buf : List Byte) (s : State) : Int × State :=
  let d := Descriptor.read s.ram s.rxStart.toNat
  if d.Owned then
    let copied := s.ram.store d.dbp.toNat (buf.take (s.copyLength buf.length).toInt.toNat)
    let stored := { s with ram := (d.received (s.tocopy buf.length)).write copied s.rxStart.toNat }
    let counted := stored.setReg rxPktCountW (stored.regs rxPktCountW + 1#16)
    let raised := (counted.setReg misrW (counted.regs misrW ||| 1#16)).updateIrq
    (0, raised.rxStartSet d.dnx)
  else (-1, s)

/-! ## Register accesses -/

/-- `BIT_SET`: the bit goes up. -/
def bitSet (old new : Word) (bit : Nat) : Bool := !old.getLsbD bit && new.getLsbD bit

/-- What a write to `MMDIO` does to the other registers. -/
def mdioAccess (val : Dword) (s : State) : State :=
  let phyExists := val &&& 0x1f00#32 = 0x100#32
  let phy := (val &&& 0x1f#32).toNat
  if val.getLsbD 13 then s.setReg mdioReadW (if phyExists then s.phyRegs phy else 0xffff#16)
  else if val.getLsbD 14 ∧ phyExists then
    { s with phyRegs := Function.update s.phyRegs phy (s.regs mdioWriteW) }
  else s

def ioportWritew (addr : Nat) (val : Dword) (s : State) : State :=
  let i := addr % 0x100 / 2
  let old := s.regs i
  if i = mcr0W then
    (if bitSet old (val.setWidth 16) 12 then transmit s else s).setReg i (val.setWidth 16)
  else if i = mcr1W then
    s.setReg i (if val.getLsbD 0 then 0x0010#16 else val.setWidth 16)
  else if i = mtprW then
    if val.getLsbD 0 then (transmit s).setReg i ((val &&& ~~~1#32).setWidth 16)
    else s.setReg i (val.setWidth 16)
  else if i = mmdioW then
    { mdioAccess val s with phyOpInProgress := true }.setReg i ((val ||| 0x6000#32).setWidth 16)
  else if i = misrW then s
  else if i = mierW then (s.setReg mierW (val.setWidth 16)).updateIrq
  else if i = mrcntW ∨ i = mtcntW then s
  else s.setReg i (val.setWidth 16)

def ioportReadw (addr : Nat) (s : State) : Dword × State :=
  let i := addr % 0x100 / 2
  let tmp := (s.regs i).setWidth 32
  if i = mmdioW then
    if s.phyOpInProgress then
      (tmp, { s with phyOpInProgress := false }.setReg i (s.regs i &&& ~~~0x6000#16))
    else (tmp, s)
  else if i = misrW then (tmp, s.setReg i 0#16)
  else if i = mrcntW ∨ i = mtcntW then (tmp, s.setReg i 0#16)
  else (tmp, s)

def ioportWriteb (addr : Nat) (val : Dword) (s : State) : State :=
  let old := s.regs (addr % 0x100 / 2)
  let byte := val.setWidth 8
  let new := if addr % 2 = 1 then Word.ofBytes old.lo byte else Word.ofBytes byte old.hi
  ioportWritew (addr % 0x100) (new.setWidth 32) s

def ioportWritel (addr : Nat) (val : Dword) (s : State) : State :=
  ioportWritew (addr + 2) (val >>> 16) (ioportWritew addr (val &&& 0xffff#32) s)

def ioportReadb (addr : Nat) (s : State) : Dword × State :=
  let (tmp, s) := ioportReadw (addr / 2 * 2) s
  (if addr % 2 = 1 then (tmp &&& 0xff00#32) >>> 8 else tmp &&& 0xff#32, s)

def ioportReadl (addr : Nat) (s : State) : Dword × State :=
  let (low, s) := ioportReadw addr s
  let (high, s) := ioportReadw (addr + 2) s
  (low ||| high <<< 16, s)

/-- The state after `r6040_init_pci`, with what memory the guest has then. -/
def initPci (ram : Mem) : State where
  regs := fun i =>
    if i = mpsccrW then 0x9f07#16
    else if i = mrbsrW then 0x600#16
    else if i = mac0W then 0x5452#16
    else if i = mac1W then 0x1200#16
    else if i = mac2W then 0x5734#16
    else 0#16
  phyRegs := fun i =>
    if i = 1 then 0x7869#16
    else if i = 2 then 0x0243#16
    else if i = 3 then 0x0c54#16
    else 0#16
  phyOpInProgress := false
  irq := false
  ram := ram
  sent := []

end Bifferboard.R6040
