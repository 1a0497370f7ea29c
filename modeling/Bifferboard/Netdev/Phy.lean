import Bifferboard.R6040.Mdio
import Bifferboard.Netdev.Setup

/-!
# The PHY, seen through the driver

`r6040_phy_read` and `r6040_phy_write` give a command to the device and look at
`MMDIO` until it is done, 2048 times at most. The device is done at the second look.
What comes of it is a file of registers, which are those of the PHY with address 1.
-/

namespace Bifferboard.Netdev
open Nor R6040

/-- What the kernel does with the bus, and the timer that brings the link up. -/
inductive PhyOp where
  | read (phyAddr reg : Fin 32)
  | write (phyAddr reg : Fin 32) (val : Word)
  | linkUp

/-- The operation as the driver and the device carry it out. -/
def PhyOp.run : PhyOp → State → Option Word × State
  | .read phyAddr reg, nic => let (val, nic) := phyRead phyAddr reg nic; (some val, nic)
  | .write phyAddr reg val, nic => (none, phyWrite phyAddr reg val nic)
  | .linkUp, nic => (none, nic.physicalLinkUp)

/-- The operation on a file of registers. -/
def PhyOp.onFile : PhyOp → (Nat → Word) → Option Word × (Nat → Word)
  | .read phyAddr reg, file => (some (if phyAddr.val = 1 then file reg else 0xffff#16), file)
  | .write phyAddr reg val, file => (none, if phyAddr.val = 1 then Function.update file reg val else file)
  | .linkUp, file => (none, Function.update file 1 (file 1 ||| 0x4#16))

/-! ## Commands -/

def readCommand (phyAddr reg : Nat) : Word := BitVec.ofNat 16 (mdioRead.toNat + reg + phyAddr <<< 8)
def writeCommand (phyAddr reg : Nat) : Word := BitVec.ofNat 16 (mdioWrite.toNat + reg + phyAddr <<< 8)

theorem readCommand_bits (phyAddr reg : Fin 32) :
    ((readCommand phyAddr reg).setWidth 32).getLsbD 13 = true ∧
    (ForPhy ((readCommand phyAddr reg).setWidth 32) ↔ phyAddr.val = 1) ∧
    phyReg ((readCommand phyAddr reg).setWidth 32) = reg := by
  revert phyAddr reg
  unfold ForPhy
  decide +kernel

theorem writeCommand_bits (phyAddr reg : Fin 32) :
    ((writeCommand phyAddr reg).setWidth 32).getLsbD 13 = false ∧
    ((writeCommand phyAddr reg).setWidth 32).getLsbD 14 = true ∧
    (ForPhy ((writeCommand phyAddr reg).setWidth 32) ↔ phyAddr.val = 1) ∧
    phyReg ((writeCommand phyAddr reg).setWidth 32) = reg := by
  revert phyAddr reg
  unfold ForPhy
  decide +kernel

/-! ## Waiting -/

/-- The device once it shows that it is done. -/
structure Done (s s' : State) : Prop where
  phyRegs : s'.phyRegs = s.phyRegs
  regs : ∀ i ≠ mmdioW, s'.regs i = s.regs i

theorem look_mmdio (s : State) : (ioread16 mmdio s).1 = s.regs mmdioW ∧ Done s (ioread16 mmdio s).2 := by
  have kept : ((s.regs mmdioW).setWidth 32).setWidth 16 = s.regs mmdioW := by simp
  rw [ioread16, ioportReadw, show mmdio % 0x100 / 2 = mmdioW from rfl, if_pos rfl]
  split
  · exact ⟨kept, rfl, fun i other => State.setReg_other _ other _⟩
  · exact ⟨kept, rfl, fun _ _ => rfl⟩

/-- The second look is the last. -/
theorem waitClear_done {bit : Nat} (either : bit = 13 ∨ bit = 14) {s : State} (busy : Progress true s)
    (limit : Nat) : (waitClear mmdio (BitVec.twoPow 16 bit) (limit + 2) s).1 = limit ∧
      Done s (waitClear mmdio (BitVec.twoPow 16 bit) (limit + 2) s).2 := by
  have small : bit < 16 := by omega
  have shown {b : Bool} {s : State} (h : Progress b s) : (s.regs mmdioW).getLsbD bit = b := by
    rcases either with rfl | rfl
    · exact h.reading
    · exact h.writing
  obtain ⟨first, done⟩ := look_mmdio s
  have idle : Progress false (ioread16 mmdio s).2 := progress_poll (show At mmdioW mmdio from rfl) busy
  obtain ⟨second, done'⟩ := look_mmdio (ioread16 mmdio s).2
  have going : ¬ ((ioread16 mmdio s).1 &&& BitVec.twoPow 16 bit = 0#16) := by
    rw [first, and_bit_eq_zero_iff _ small, shown busy]
    exact Ne.symm Bool.false_ne_true
  have finished : (ioread16 mmdio (ioread16 mmdio s).2).1 &&& BitVec.twoPow 16 bit = 0#16 := by
    rw [second, and_bit_eq_zero_iff _ small, shown idle]
  rw [waitClear]
  dsimp only
  rw [if_neg going, waitClear]
  dsimp only
  rw [if_pos finished]
  exact ⟨rfl, done'.phyRegs.trans done.phyRegs,
    fun i other => (done'.regs i other).trans (done.regs i other)⟩

/-! ## The two functions -/

theorem mmrd_read (s : State) : ioread16 mmrd s = (s.regs mdioReadW, s) := by
  have kept : ((s.regs mdioReadW).setWidth 32).setWidth 16 = s.regs mdioReadW := by simp
  exact Prod.ext kept rfl

theorem phyRead_eq (phyAddr reg : Fin 32) (nic : State) :
    (phyReadCommand phyAddr reg nic).1 = 2046 ∧
    (phyRead phyAddr reg nic).1 = (if phyAddr.val = 1 then nic.phyRegs reg else 0xffff#16) ∧
    (phyRead phyAddr reg nic).2.phyRegs = nic.phyRegs := by
  have here : At mmdioW mmdio := rfl
  obtain ⟨reads, forPhy, index⟩ := readCommand_bits phyAddr reg
  have busy := progress_command here ((readCommand phyAddr reg).setWidth 32) nic
  obtain ⟨left, done⟩ := waitClear_done (.inl rfl) busy 2046
  refine ⟨left, ?_⟩
  rw [writew_mmdio here, mdioAccess_read reads, index] at done
  rw [show phyRead phyAddr reg nic = ioread16 mmrd (waitClear mmdio (BitVec.twoPow 16 13) 2048
    (ioportWritew mmdio ((readCommand phyAddr reg).setWidth 32) nic)).2 from rfl, mmrd_read,
    writew_mmdio here, mdioAccess_read reads, index]
  refine ⟨?_, done.phyRegs⟩
  refine (done.regs _ (by decide)).trans ?_
  rw [State.setReg_other _ (by decide)]
  simp only [forPhy]
  exact State.setReg_same nic mdioReadW _

theorem phyWrite_eq (phyAddr reg : Fin 32) (val : Word) (nic : State) :
    (phyWriteCommand phyAddr reg val nic).1 = 2046 ∧
    (phyWrite phyAddr reg val nic).phyRegs =
      if phyAddr.val = 1 then Function.update nic.phyRegs reg val else nic.phyRegs := by
  have here : At mmdioW mmdio := rfl
  obtain ⟨notRead, writes, forPhy, index⟩ := writeCommand_bits phyAddr reg
  have given : iowrite16 val mmwd nic = nic.setReg mdioWriteW val := iowrite16_plain (by decide)
  have busy := progress_command here ((writeCommand phyAddr reg).setWidth 32) (nic.setReg mdioWriteW val)
  obtain ⟨left, done⟩ := waitClear_done (.inr rfl) busy 2046
  have command : phyWriteCommand phyAddr reg val nic = waitClear mmdio (BitVec.twoPow 16 14) 2048
      (ioportWritew mmdio ((writeCommand phyAddr reg).setWidth 32) (nic.setReg mdioWriteW val)) := by
    rw [← given]
    rfl
  refine ⟨(congrArg Prod.fst command).trans left, ?_⟩
  rw [phyWrite, command, done.phyRegs, writew_mmdio here]
  change (mdioAccess ((writeCommand phyAddr reg).setWidth 32) (nic.setReg mdioWriteW val)).phyRegs = _
  rw [mdioAccess, if_neg (by rw [notRead]; decide)]
  by_cases one : phyAddr.val = 1
  · rw [if_pos ⟨writes, forPhy.mpr one⟩, if_pos one, State.setReg_same]
    exact congrArg (Function.update nic.phyRegs · val) index
  · rw [if_neg fun both => one (forPhy.mp both.2), if_neg one]
    rfl

/-- Whatever the kernel does with the bus, and whenever the link comes up, reads give
what a file of registers would give. No command is waited for longer than two looks at
`MMDIO`. -/
theorem phy_is_register_file (ops : List PhyOp) (nic : State) :
    Transition.outputs PhyOp.run ops nic = Transition.outputs PhyOp.onFile ops nic.phyRegs ∧
    (∀ phyAddr reg : Fin 32, (phyReadCommand phyAddr reg nic).1 = 2046) ∧
    (∀ (phyAddr reg : Fin 32) (val : Word), (phyWriteCommand phyAddr reg val nic).1 = 2046) := by
  refine ⟨?_, fun phyAddr reg => (phyRead_eq phyAddr reg nic).1,
    fun phyAddr reg val => (phyWrite_eq phyAddr reg val nic).1⟩
  apply Transition.outputs_eq (R := fun nic file => nic.phyRegs = file)
  · rintro op nic file rfl
    cases op with
    | read phyAddr reg =>
      obtain ⟨-, val, same⟩ := phyRead_eq phyAddr reg nic
      exact ⟨congrArg some val, same⟩
    | write phyAddr reg val => exact ⟨rfl, (phyWrite_eq phyAddr reg val nic).2⟩
    | linkUp => exact ⟨rfl, rfl⟩
  · rfl

end Bifferboard.Netdev
