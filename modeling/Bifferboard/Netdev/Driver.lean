import Bifferboard.R6040.Receive

/-!
# The Linux driver of the R6040

`r6040.c` of the kernel, on top of the emulated device. Descriptors lie in the memory
that the device sees, 32 bytes apart; what only the driver uses of them (`vndescp` and
`skb_ptr`) is kept beside it. A pointer to a descriptor is its number in the ring.

The interrupt handler and `r6040_poll` are cut into steps at their accesses to the
device, so that packets can come in between. `r6040_start_xmit` and `r6040_tx` run
under the driver's lock and are one step each.
-/

namespace Bifferboard.Netdev
open Nor R6040

/-! ## Registers -/

def mcr0 : Nat := 0x00
def mcr1 : Nat := 0x04
def mbcr : Nat := 0x08
def mtIcr : Nat := 0x0c
def mrIcr : Nat := 0x10
def mtpr : Nat := 0x14
def mrBsr : Nat := 0x18
def mlsr : Nat := 0x1c
def mmdio : Nat := 0x20
def mmrd : Nat := 0x24
def mmwd : Nat := 0x28
def mtdSa0 : Nat := 0x2c
def mtdSa1 : Nat := 0x30
def mrdSa0 : Nat := 0x34
def mrdSa1 : Nat := 0x38
def misr : Nat := 0x3c
def mier : Nat := 0x40
def mid0L : Nat := 0x68
def mid0M : Nat := 0x6a
def mid0H : Nat := 0x6c
def macSm : Nat := 0xac

def macRst : Word := 0x0001#16
def mdioWrite : Word := 0x4000#16
def mdioRead : Word := 0x2000#16
def mbcrDefault : Word := 0x012a#16
def mskInt : Word := 0x0000#16

def rxNoDesc : Word := 0x0002#16
def rxFifoFull : Word := 0x0004#16
/-- `RX_FIFO_FULL | RX_NO_DESC | RX_FINISH`. -/
def rxInts : Word := 0x0007#16
def txInts : Word := 0x0010#16
def intMask : Word := rxInts ||| txInts

def txDcnt : Nat := 0x80
def rxDcnt : Nat := 0x80
def maxBufSize : Nat := 0x600

def dscOwnerMac : Word := 0x8000#16
def dscRxErr : Word := 0x0800#16
def dscRxErrDri : Word := 0x0400#16
def dscRxErrBuf : Word := 0x0200#16
def dscRxErrLong : Word := 0x0100#16
def dscRxErrRunt : Word := 0x0080#16
def dscRxErrCrc : Word := 0x0040#16

/-- The last argument of `netif_napi_add`. -/
def napiWeight : Nat := 64

def ioread16 (addr : Nat) (nic : State) : Word × State :=
  ((ioportReadw addr nic).1.setWidth 16, (ioportReadw addr nic).2)

def iowrite16 (val : Word) (addr : Nat) (nic : State) : State :=
  ioportWritew addr (val.setWidth 32) nic

/-! ## The PHY -/

/-- The loop that waits for bits of a register to be clear, with what is left of `limit`
behind it: -1 if they never are. -/
def waitClear (addr : Nat) (bits : Word) : (limit : Nat) → State → Int × State
  | 0, nic => (-1, nic)
  | limit + 1, nic =>
    let (cmd, nic) := ioread16 addr nic
    if cmd &&& bits = 0#16 then (limit, nic) else waitClear addr bits limit nic

/-- `r6040_phy_read`, up to where the data is read. -/
def phyReadCommand (phyAddr reg : Nat) (nic : State) : Int × State :=
  let nic := iowrite16 (BitVec.ofNat 16 (mdioRead.toNat + reg + phyAddr <<< 8)) mmdio nic
  waitClear mmdio mdioRead 2048 nic

/-- `r6040_phy_read`. -/
def phyRead (phyAddr reg : Nat) (nic : State) : Word × State :=
  ioread16 mmrd (phyReadCommand phyAddr reg nic).2

/-- `r6040_phy_write`, with what is left of `limit`. -/
def phyWriteCommand (phyAddr reg : Nat) (val : Word) (nic : State) : Int × State :=
  let nic := iowrite16 val mmwd nic
  let nic := iowrite16 (BitVec.ofNat 16 (mdioWrite.toNat + reg + phyAddr <<< 8)) mmdio nic
  waitClear mmdio mdioWrite 2048 nic

/-- `r6040_phy_write`. -/
def phyWrite (phyAddr reg : Nat) (val : Word) (nic : State) : State :=
  (phyWriteCommand phyAddr reg val nic).2

/-! ## The driver's data -/

/-- The fields of `sk_buff` that the driver uses: where its data is, and how much of
it there is. -/
structure SkBuff where
  data : Dword
  len : Nat
  deriving DecidableEq, Repr

/-- A ring of descriptors: where the device finds it, and the fields of the
descriptors that the device does not use. -/
structure Ring where
  dma : Dword
  vndescp : Nat → Nat
  skbPtr : Nat → Option SkBuff

def Ring.desc (r : Ring) (j : Nat) : Nat := r.dma.toNat + 32 * j

/-- `r6040_private`. -/
structure Private where
  rx : Ring
  tx : Ring
  rxRemovePtr : Nat
  rxInsertPtr : Nat
  txInsertPtr : Nat
  txRemovePtr : Nat
  txFreeDesc : Nat
  mcr0 : Word

/-- The fields of `net_device_stats` that the driver counts in. They are `unsigned long`,
which has 32 bits here. -/
structure Stats where
  rxPackets : Dword := 0#32
  rxBytes : Dword := 0#32
  rxDropped : Dword := 0#32
  rxMissedErrors : Dword := 0#32
  rxFifoErrors : Dword := 0#32
  rxFrameErrors : Dword := 0#32
  rxLengthErrors : Dword := 0#32
  rxCrcErrors : Dword := 0#32
  txPackets : Dword := 0#32
  txBytes : Dword := 0#32
  txErrors : Dword := 0#32
  txCarrierErrors : Dword := 0#32
  deriving DecidableEq, Repr

/-- Where `r6040_poll` is. -/
inductive PollAt where
  | out
  /-- In the loop of `r6040_rx`. -/
  | rx (count descptr : Nat)
  /-- `r6040_rx` has returned. -/
  | done (workDone : Nat)
  /-- Behind `napi_complete`. -/
  | completed
  /-- `MIER` has been read. -/
  | enabling (enabled : Word)
  deriving DecidableEq, Repr

/-- Where `r6040_interrupt` is, with its local variables. -/
inductive IrqAt where
  | out
  /-- `MIER` has been read. -/
  | saved (misr : Word)
  /-- `MIER` has been cleared. -/
  | masked (misr : Word)
  /-- `MISR` has been read. -/
  | status (misr status : Word)
  /-- Only `MIER` is left to be restored. -/
  | handled (misr : Word)
  deriving DecidableEq, Repr

/-- The driver, the device and its memory, and what has happened so far. -/
structure Machine where
  nic : State
  lp : Private
  stats : Stats
  /-- `netif_stop_queue` was called last, not `netif_wake_queue`. -/
  stopped : Bool
  /-- `NAPI_STATE_SCHED`. -/
  scheduled : Bool
  poll : PollAt
  irq : IrqAt
  /-- The buffers that were freed when they had been sent. -/
  freed : List SkBuff
  /-- The packets that the device has accepted. -/
  accepted : List Packet
  /-- What became of the received packets: passed to `netif_receive_skb`, or not. -/
  passed : List (Option (List Byte))
  /-- The buffers that `r6040_start_xmit` has accepted, with their data. -/
  queued : List (SkBuff × List Byte)

/-! ## Setting up -/

/-- Storing 32 bits. -/
def storeDword (m : Mem) (a : Nat) (d : Dword) : Mem :=
  m.store a [d.byte 0, d.byte 1, d.byte 2, d.byte 3]

/-- The loop of `r6040_init_ring_desc`, from descriptor `j` on. -/
def initRingLoop (r : Ring) (j : Nat) : Nat → Mem → Ring × Mem
  | 0, m => (r, m)
  | size + 1, m =>
    initRingLoop { r with vndescp := Function.update r.vndescp j (j + 1) } (j + 1) size
      (storeDword m (r.desc j + 8) (r.dma + BitVec.ofNat 32 (32 * (j + 1))))

/-- `r6040_init_ring_desc`: the last descriptor is followed by the first one. -/
def initRingDesc (r : Ring) (size : Nat) (m : Mem) : Ring × Mem :=
  let (r, m) := initRingLoop r 0 size m
  ({ r with vndescp := Function.update r.vndescp (size - 1) 0 },
    storeDword m (r.desc (size - 1) + 8) r.dma)

/-- `r6040_init_txbufs`. -/
def initTxbufs (lp : Private) (m : Mem) : Private × Mem :=
  let (tx, m) := initRingDesc lp.tx txDcnt m
  ({ lp with txFreeDesc := txDcnt, txRemovePtr := 0, txInsertPtr := 0, tx := tx }, m)

/-- `r6040_free_rxbufs`: what is left of the ring, and the buffers that are freed. -/
def freeRxbufs (lp : Private) : Nat → Private × List SkBuff
  | 0 => (lp, [])
  | n + 1 =>
    let j := lp.rxInsertPtr
    let rest := freeRxbufs { lp with rx := { lp.rx with skbPtr := Function.update lp.rx.skbPtr j none },
                                     rxInsertPtr := lp.rx.vndescp j } n
    (rest.1, (lp.rx.skbPtr j).toList ++ rest.2)

/-- The loop of `r6040_alloc_rxbufs`. The addresses are those of the buffers that
`netdev_alloc_skb` returns; there are none left if it fails. -/
def allocLoop (lp : Private) (j : Nat) : Nat → List Dword → Mem → Except (Private × Mem) (Private × Mem)
  | 0, _, m => .ok (lp, m)
  | _ + 1, [], m => .error (lp, m)
  | n + 1, data :: rest, m =>
    let skbPtr := Function.update lp.rx.skbPtr j (some ⟨data, 0⟩)
    allocLoop { lp with rx := { lp.rx with skbPtr := skbPtr } } (lp.rx.vndescp j) n rest
      ((storeDword m (lp.rx.desc j + 4) data).storeWord (lp.rx.desc j) dscOwnerMac)

/-- `r6040_alloc_rxbufs`: an error comes with the buffers that it has freed. -/
def allocRxbufs (lp : Private) (datas : List Dword) (m : Mem) :
    Except (Private × Mem × List SkBuff) (Private × Mem) :=
  let (rx, m) := initRingDesc lp.rx rxDcnt m
  match allocLoop { lp with rxRemovePtr := 0, rxInsertPtr := 0, rx := rx } 0 rxDcnt datas m with
  | .ok done => .ok done
  | .error (lp, m) => .error ((freeRxbufs lp rxDcnt).1, m, (freeRxbufs lp rxDcnt).2)

/-- The loop that waits for the end of a reset: `limit` looks at most. -/
def waitReset : Nat → State → State
  | 0, nic => nic
  | limit + 1, nic =>
    let (cmd, nic) := ioread16 mcr1 nic
    if cmd &&& 1#16 ≠ 0#16 then nic else waitReset limit nic

/-- `r6040_init_mac_regs`, up to the point where the device may start. -/
def resetMac (lp : Private) (nic : State) : State :=
  let nic := iowrite16 mskInt mier nic
  let nic := iowrite16 macRst mcr1 nic
  let nic := waitReset 2048 nic
  let nic := iowrite16 2#16 macSm nic
  let nic := iowrite16 0#16 macSm nic
  let nic := iowrite16 mbcrDefault mbcr nic
  let nic := iowrite16 (BitVec.ofNat 16 maxBufSize) mrBsr nic
  let nic := iowrite16 (lp.tx.dma.extractLsb' 0 16) mtdSa0 nic
  let nic := iowrite16 (lp.tx.dma.extractLsb' 16 16) mtdSa1 nic
  let nic := iowrite16 (lp.rx.dma.extractLsb' 0 16) mrdSa0 nic
  let nic := iowrite16 (lp.rx.dma.extractLsb' 16 16) mrdSa1 nic
  let nic := iowrite16 0#16 mtIcr nic
  let nic := iowrite16 0#16 mrIcr nic
  iowrite16 intMask mier nic

/-- `r6040_init_mac_regs`. -/
def initMacRegs (lp : Private) (nic : State) : State :=
  let nic := iowrite16 (lp.mcr0 ||| 0x0002#16) mcr0 (resetMac lp nic)
  iowrite16 0x01#16 mtpr nic

/-- What `r6040_up` does to the PHY. -/
def upPhy (nic : State) : State :=
  let (val, nic) := phyRead 30 17 nic
  let nic := phyWrite 30 17 (val ||| 0x4000#16) nic
  let (val, nic) := phyRead 30 17 nic
  let nic := phyWrite 30 17 (~~~(~~~val ||| 0x2000#16)) nic
  let nic := phyWrite 0 19 0x0000#16 nic
  phyWrite 0 30 0x01f0#16 nic

/-- `r6040_mac_address`. -/
def macAddress (devAddr : Word × Word × Word) (nic : State) : State :=
  let nic := iowrite16 0x01#16 mcr1 nic
  let nic := iowrite16 2#16 macSm nic
  let nic := iowrite16 0#16 macSm nic
  let nic := iowrite16 devAddr.1 mid0L nic
  let nic := iowrite16 devAddr.2.1 mid0M nic
  iowrite16 devAddr.2.2 mid0H nic

/-- A ring as `pci_alloc_consistent` leaves it. -/
def Ring.fresh (dma : Dword) : Ring := ⟨dma, fun _ => 0, fun _ => none⟩

/-- The memory with the rings cleared. -/
def clearRings (rxDma txDma : Dword) (m : Mem) : Mem :=
  let m := m.store rxDma.toNat (List.replicate (32 * rxDcnt) 0#8)
  m.store txDma.toNat (List.replicate (32 * txDcnt) 0#8)

/-- `r6040_open`, with the addresses at which the rings and the buffers are
allocated. -/
def openDevice (devAddr : Word × Word × Word) (rxDma txDma : Dword) (datas : List Dword)
    (nic : State) : Option Machine :=
  let nic := macAddress devAddr nic
  let lp : Private := ⟨.fresh rxDma, .fresh txDma, 0, 0, 0, 0, 0, 0x1002#16⟩
  let (lp, ram) := initTxbufs lp (clearRings rxDma txDma nic.ram)
  match allocRxbufs lp datas ram with
  | .error _ => none
  | .ok (lp, ram) =>
    some { nic := initMacRegs lp (upPhy { nic with ram := ram }), lp := lp, stats := {},
           stopped := false, scheduled := false, poll := .out, irq := .out, freed := [],
           accepted := [], passed := [], queued := [] }

/-! ## Sending -/

namespace Machine

/-- The status word of a descriptor. -/
def status (m : Machine) (r : Ring) (j : Nat) : Word := m.nic.ram.word (r.desc j)

/-- `r6040_start_xmit`, with `NETDEV_TX_OK` as `true`. -/
def startXmit (skb : SkBuff) (m : Machine) : Bool × Machine :=
  if m.lp.txFreeDesc = 0 then (false, { m with stopped := true })
  else
    let j := m.lp.txInsertPtr
    let a := m.lp.tx.desc j
    -- the bound is the address of `MISR`, which happens to be the shortest length
    let len := if skb.len < misr then misr else skb.len
    let ram := storeDword (m.nic.ram.storeWord (a + 2) (BitVec.ofNat 16 len)) (a + 4) skb.data
    let nic := { m.nic with ram := ram.storeWord a dscOwnerMac }
    let tx := { m.lp.tx with skbPtr := Function.update m.lp.tx.skbPtr j (some skb) }
    let free := m.lp.txFreeDesc - 1
    (true, { m with
      nic := iowrite16 0x01#16 mtpr nic,
      lp := { m.lp with tx := tx, txFreeDesc := free, txInsertPtr := m.lp.tx.vndescp j },
      stopped := m.stopped || decide (free = 0),
      stats := { m.stats with txPackets := m.stats.txPackets + 1,
                              txBytes := m.stats.txBytes + BitVec.ofNat 32 skb.len } })

/-- What is counted for the value of `MLSR`. -/
def countErrors (err : Word) (s : Stats) : Stats :=
  let s := if err &&& 0x0200#16 ≠ 0#16 then { s with rxFifoErrors := s.rxFifoErrors + 1 } else s
  if err &&& (0x2000#16 ||| 0x4000#16) ≠ 0#16 then { s with txCarrierErrors := s.txCarrierErrors + 1 }
  else s

/-- The loop of `r6040_tx`, with as many rounds as there are descriptors in use. -/
def txLoop : Nat → Machine → Machine
  | 0, m => m
  | n + 1, m =>
    let (err, nic) := ioread16 mlsr m.nic
    let m := { m with nic := nic, stats := countErrors err m.stats }
    let j := m.lp.txRemovePtr
    if m.status m.lp.tx j &&& dscOwnerMac ≠ 0#16 then m
    else
      let tx := { m.lp.tx with skbPtr := Function.update m.lp.tx.skbPtr j none }
      txLoop n { m with
        freed := m.freed ++ (m.lp.tx.skbPtr j).toList,
        lp := { m.lp with tx := tx, txRemovePtr := m.lp.tx.vndescp j,
                          txFreeDesc := m.lp.txFreeDesc + 1 } }

/-- `r6040_tx`. -/
def tx (m : Machine) : Machine :=
  let m := txLoop (txDcnt - m.lp.txFreeDesc) m
  if m.lp.txFreeDesc ≠ 0 then { m with stopped := false } else m

/-- `r6040_tx_timeout`; the two registers are read for the message. -/
def txTimeout (m : Machine) : Machine :=
  let nic := (ioread16 misr (ioread16 mier m.nic).2).2
  { m with nic := initMacRegs m.lp nic, stats := { m.stats with txErrors := m.stats.txErrors + 1 } }

/-! ## Receiving -/

/-- What is counted for a descriptor with an error. -/
def countRxErrors (err : Word) (s : Stats) : Stats :=
  let s := if err &&& dscRxErrDri ≠ 0#16 then { s with rxFrameErrors := s.rxFrameErrors + 1 } else s
  let s := if err &&& dscRxErrBuf ≠ 0#16 then { s with rxLengthErrors := s.rxLengthErrors + 1 } else s
  let s := if err &&& dscRxErrLong ≠ 0#16 then { s with rxLengthErrors := s.rxLengthErrors + 1 } else s
  let s := if err &&& dscRxErrRunt ≠ 0#16 then { s with rxLengthErrors := s.rxLengthErrors + 1 } else s
  if err &&& dscRxErrCrc ≠ 0#16 then { s with rxCrcErrors := s.rxCrcErrors + 1 } else s

/-- What a round of the loop of `r6040_rx` does with the packet of a descriptor, up
to `next_descr`. `alloc` is the buffer that `netdev_alloc_skb` returns, if any. -/
def rxPacket (alloc : Option Dword) (j : Nat) (m : Machine) : Machine :=
  let err := m.status m.lp.rx j
  if err &&& dscRxErr ≠ 0#16 then
    { m with stats := countRxErrors err m.stats, passed := m.passed ++ [none] }
  else
    match alloc with
    | none =>
      { m with stats := { m.stats with rxDropped := m.stats.rxDropped + 1 },
               passed := m.passed ++ [none] }
    | some data =>
      let a := m.lp.rx.desc j
      let len := (m.nic.ram.word (a + 2)).toNat - 4
      let old := ((m.lp.rx.skbPtr j).getD ⟨0#32, 0⟩).data
      let skbPtr := Function.update m.lp.rx.skbPtr j (some ⟨data, 0⟩)
      { m with
        nic := { m.nic with ram := storeDword m.nic.ram (a + 4) data },
        lp := { m.lp with rx := { m.lp.rx with skbPtr := skbPtr } },
        passed := m.passed ++ [some (m.nic.ram.load old.toNat len)],
        stats := { m.stats with rxPackets := m.stats.rxPackets + 1,
                                rxBytes := m.stats.rxBytes + BitVec.ofNat 32 len } }

/-- Putting a descriptor back to the MAC. -/
def giveBack (j : Nat) (m : Machine) : Machine :=
  { m with nic := { m.nic with ram := m.nic.ram.storeWord (m.lp.rx.desc j) dscOwnerMac } }

/-- The next step of `r6040_poll`. -/
def pollStep (alloc : Option Dword) (m : Machine) : Option Machine :=
  match m.poll with
  | .out => none
  | .rx count descptr =>
    if count < napiWeight ∧ m.status m.lp.rx descptr &&& dscOwnerMac = 0#16 then
      some { giveBack descptr (rxPacket alloc descptr m) with
        poll := .rx (count + 1) (m.lp.rx.vndescp descptr) }
    else some { m with lp := { m.lp with rxRemovePtr := descptr }, poll := .done count }
  | .done workDone =>
    if workDone < napiWeight then some { m with scheduled := false, poll := .completed }
    else some { m with poll := .out }
  | .completed =>
    let (enabled, nic) := ioread16 mier m.nic
    some { m with nic := nic, poll := .enabling enabled }
  | .enabling enabled => some { m with nic := iowrite16 (enabled ||| rxInts) mier m.nic, poll := .out }

/-! ## Interrupts -/

/-- What `r6040_interrupt` does about `RX_INTS` in the status. -/
def rxInterrupt (status : Word) (m : Machine) : Machine :=
  if status &&& rxInts ≠ 0#16 then
    let s := m.stats
    let s := if status &&& rxNoDesc ≠ 0#16 then
      { s with rxDropped := s.rxDropped + 1, rxMissedErrors := s.rxMissedErrors + 1 } else s
    let s := if status &&& rxFifoFull ≠ 0#16 then { s with rxFifoErrors := s.rxFifoErrors + 1 } else s
    { m with stats := s, scheduled := true }
  else m

/-- The value that `MIER` is restored to. -/
def restored (saved status : Word) : Word :=
  if status &&& rxInts ≠ 0#16 then saved &&& ~~~rxInts else saved

/-- The next step of `r6040_interrupt`. -/
def irqStep (m : Machine) : Option Machine :=
  match m.irq with
  | .out => none
  | .saved saved => some { m with nic := iowrite16 mskInt mier m.nic, irq := .masked saved }
  | .masked saved =>
    let (status, nic) := ioread16 misr m.nic
    some { m with nic := nic, irq := .status saved status }
  | .status saved status =>
    if status = 0x0000#16 ∨ status = 0xffff#16 then
      some { m with nic := iowrite16 saved mier m.nic, irq := .out }
    else
      let m := rxInterrupt status m
      let m := if status &&& txInts ≠ 0#16 then tx m else m
      some { m with irq := .handled (restored saved status) }
  | .handled saved => some { m with nic := iowrite16 saved mier m.nic, irq := .out }

/-! ## Everything together -/

/-- Two areas of memory have no byte in common. -/
def Apart (a n b k : Nat) : Prop := a + n ≤ b ∨ b + k ≤ a

instance (a n b k : Nat) : Decidable (Apart a n b k) := inferInstanceAs (Decidable (_ ∨ _))

/-- An area of memory that the driver has nothing to do with at the moment. -/
def Unused (m : Machine) (a n : Nat) : Prop :=
  Apart a n m.lp.rx.dma.toNat (32 * rxDcnt) ∧ Apart a n m.lp.tx.dma.toNat (32 * txDcnt) ∧
  ∀ j < rxDcnt, ∀ skb ∈ m.lp.rx.skbPtr j, Apart a n skb.data.toNat maxBufSize

instance (m : Machine) (a n : Nat) : Decidable (m.Unused a n) :=
  inferInstanceAs (Decidable (_ ∧ _ ∧ _))

end Machine

/-- `r6040_can_receive`. -/
def canReceive (nic : State) : Bool := (nic.regs mcr0W).getLsbD 1

inductive Action where
  /-- A packet comes from the network. -/
  | receive (p : Packet)
  /-- The interrupt handler is entered. -/
  | interrupt
  /-- The handler goes on. -/
  | handler
  /-- `r6040_poll` is called. -/
  | softirq
  /-- `r6040_poll` goes on; if it asks for a buffer, it gets this. -/
  | poll (alloc : Option Dword)
  /-- The network stack puts a frame somewhere and has it sent. -/
  | xmit (data : Dword) (bytes : List Byte)
  /-- Nothing was sent for some time. -/
  | timeout

/-- What an action does, if it can be taken. New buffers, and the frames of the
network stack, are in memory that the driver does not use. -/
def Machine.step (a : Action) (m : Machine) : Option Machine :=
  match a with
  | .receive p =>
    let received := receiveOnePacket p.bytes m.nic
    if canReceive m.nic then
      some { m with nic := received.2,
                    accepted := if received.1 = 0 then m.accepted ++ [p] else m.accepted }
    else none
  | .interrupt =>
    if m.irq = .out ∧ m.nic.irq = true then
      let (saved, nic) := ioread16 mier m.nic
      some { m with nic := nic, irq := .saved saved }
    else none
  | .handler => m.irqStep
  | .softirq =>
    if m.scheduled = true ∧ m.poll = .out then some { m with poll := .rx 0 m.lp.rxRemovePtr }
    else none
  | .poll alloc =>
    if ∀ data ∈ alloc, m.Unused data.toNat maxBufSize then m.pollStep alloc else none
  | .xmit data bytes =>
    if m.Unused data.toNat bytes.length ∧ bytes.length < 2 ^ 16 then
      let stored := { m with nic := { m.nic with ram := m.nic.ram.store data.toNat bytes } }
      let (taken, m) := stored.startXmit ⟨data, bytes.length⟩
      some { m with queued := if taken then m.queued ++ [(⟨data, bytes.length⟩, bytes)] else m.queued }
    else none
  | .timeout => some m.txTimeout

end Bifferboard.Netdev
