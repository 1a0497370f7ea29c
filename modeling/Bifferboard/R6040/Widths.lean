import Bifferboard.Nor.Window
import Bifferboard.R6040.Counters

/-!
# Byte, word and long accesses

Apart from eight words that do something when they are accessed, the window of the
R6040 should be a memory of 256 bytes. The device keeps words: a byte write puts its
byte into the old word, and a long access is two accesses to words.
-/

namespace Bifferboard.R6040
open Nor

/-- The words whose accesses have a meaning of their own. -/
def special : List Nat := [mcr0W, mcr1W, mtprW, mmdioW, misrW, mierW, mrcntW, mtcntW]

/-- The word at the address is an ordinary one. -/
def Ordinary (addr : Nat) : Prop := addr % 0x100 / 2 ∉ special

namespace Action

/-- An access to ordinary words, with words and longs at even addresses. -/
def Plain : Action → Prop
  | .readb addr => Ordinary addr
  | .writeb addr _ => Ordinary addr
  | .readw addr => addr % 2 = 0 ∧ Ordinary addr
  | .writew addr _ => addr % 2 = 0 ∧ Ordinary addr
  | .readl addr => addr % 2 = 0 ∧ Ordinary addr ∧ Ordinary (addr + 2)
  | .writel addr _ => addr % 2 = 0 ∧ Ordinary addr ∧ Ordinary (addr + 2)
  | _ => False

/-- The value that is read, and the device after the access. -/
def access (a : Action) (s : State) : Option Nat × State :=
  match a with
  | .readb addr => (some (ioportReadb addr s).1.toNat, a.apply s)
  | .readw addr => (some (ioportReadw addr s).1.toNat, a.apply s)
  | .readl addr => (some (ioportReadl addr s).1.toNat, a.apply s)
  | _ => (none, a.apply s)

/-- The same access to a memory of 256 bytes. -/
def onMemory (a : Action) (m : Mem) : Option Nat × Mem :=
  match a with
  | .readb addr => (some (Window.read 0x100 m 1 addr), m)
  | .readw addr => (some (Window.read 0x100 m 2 addr), m)
  | .readl addr => (some (Window.read 0x100 m 4 addr), m)
  | .writeb addr val => (none, Window.write 0x100 1 addr val.toNat m)
  | .writew addr val => (none, Window.write 0x100 2 addr val.toNat m)
  | .writel addr val => (none, Window.write 0x100 4 addr val.toNat m)
  | _ => (none, m)

end Action

/-! ## Ordinary words -/

theorem writew_ordinary {addr : Nat} (ordinary : Ordinary addr) (val : Dword) (s : State) :
    ioportWritew addr val s = s.setReg (addr % 0x100 / 2) (val.setWidth 16) := by
  simp only [Ordinary, special, List.mem_cons, List.not_mem_nil, or_false, not_or] at ordinary
  obtain ⟨mcr0, mcr1, mtpr, mmdio, misr, mier, mrcnt, mtcnt⟩ := ordinary
  rw [ioportWritew, if_neg mcr0, if_neg mcr1, if_neg mtpr, if_neg mmdio, if_neg misr, if_neg mier,
    if_neg (not_or.mpr ⟨mrcnt, mtcnt⟩)]

theorem readw_ordinary {addr : Nat} (ordinary : Ordinary addr) (s : State) :
    ioportReadw addr s = ((s.regs (addr % 0x100 / 2)).setWidth 32, s) := by
  simp only [Ordinary, special, List.mem_cons, List.not_mem_nil, or_false, not_or] at ordinary
  obtain ⟨mcr0, mcr1, mtpr, mmdio, misr, mier, mrcnt, mtcnt⟩ := ordinary
  rw [ioportReadw, if_neg mmdio, if_neg misr, if_neg (not_or.mpr ⟨mrcnt, mtcnt⟩)]

/-! ## Bytes -/

/-- The registers, byte by byte. -/
def State.bytes (s : State) : Mem := fun x =>
  if x % 2 = 0 then (s.regs (x / 2)).lo else (s.regs (x / 2)).hi

theorem State.bytes_low (s : State) (i : Nat) : s.bytes (2 * i) = (s.regs i).lo := by
  rw [State.bytes, if_pos (by omega), Nat.mul_div_cancel_left i Nat.two_pos]

theorem State.bytes_high (s : State) (i : Nat) : s.bytes (2 * i + 1) = (s.regs i).hi := by
  rw [State.bytes, if_neg (by omega), show (2 * i + 1) / 2 = i by omega]

theorem State.bytes_setReg (s : State) (i : Nat) (w : Word) :
    (s.setReg i w).bytes =
      Function.update (Function.update s.bytes (2 * i) w.lo) (2 * i + 1) w.hi := by
  funext x
  by_cases high : x = 2 * i + 1
  · rw [high, State.bytes_high, State.setReg_same, Function.update_self]
  · rw [Function.update_of_ne high]
    by_cases low : x = 2 * i
    · rw [low, State.bytes_low, State.setReg_same, Function.update_self]
    · rw [Function.update_of_ne low, State.bytes, State.bytes, s.setReg_other (by omega)]

theorem toNat_lo_hi (w : Word) : w.toNat = w.lo.toNat + 2 ^ 8 * w.hi.toNat := by
  have small := w.isLt
  rw [Word.lo, Word.hi, BitVec.extractLsb'_toNat, BitVec.extractLsb'_toNat, Nat.shiftRight_zero,
    Nat.shiftRight_eq_div_pow]
  omega

/-- A word and its two bytes. -/
theorem word_place {addr : Nat} (even : addr % 2 = 0) : ∃ i, addr % 0x100 / 2 = i ∧
    addr % 0x100 = 2 * i ∧ (addr + 1) % 0x100 = 2 * i + 1 :=
  ⟨addr % 0x100 / 2, rfl, by omega, by omega⟩

/-! ## Words -/

theorem read_word (s : State) {addr : Nat} (even : addr % 2 = 0) :
    Window.read 0x100 s.bytes 2 addr = (s.regs (addr % 0x100 / 2)).toNat := by
  obtain ⟨i, reg, low, high⟩ := word_place even
  rw [reg, Window.read, Window.read, Window.read, low, high, s.bytes_low, s.bytes_high, toNat_lo_hi]
  rfl

theorem lo_setWidth (val : Dword) : Word.lo (val.setWidth 16) = BitVec.ofNat 8 val.toNat := by
  apply BitVec.eq_of_toNat_eq
  rw [Word.lo, BitVec.extractLsb'_toNat, BitVec.toNat_setWidth, BitVec.toNat_ofNat]
  omega

theorem hi_setWidth (val : Dword) :
    Word.hi (val.setWidth 16) = BitVec.ofNat 8 (val.toNat / 2 ^ 8) := by
  apply BitVec.eq_of_toNat_eq
  rw [Word.hi, BitVec.extractLsb'_toNat, BitVec.toNat_setWidth, BitVec.toNat_ofNat,
    Nat.shiftRight_eq_div_pow]
  omega

theorem writew_agrees {addr : Nat} (even : addr % 2 = 0) (ordinary : Ordinary addr) (val : Dword)
    (s : State) : (ioportWritew addr val s).bytes = Window.write 0x100 2 addr val.toNat s.bytes := by
  obtain ⟨i, reg, low, high⟩ := word_place even
  rw [writew_ordinary ordinary, reg, s.bytes_setReg, lo_setWidth, hi_setWidth, Window.write,
    Window.write, Window.write, low, high]

theorem readw_agrees {addr : Nat} (even : addr % 2 = 0) (ordinary : Ordinary addr) (s : State) :
    (ioportReadw addr s).1.toNat = Window.read 0x100 s.bytes 2 addr := by
  rw [readw_ordinary ordinary, read_word s even]
  exact BitVec.toNat_setWidth_of_le (by decide)

/-! ## Bytes in words -/

/-- The byte at an address is one of the two of its word. -/
theorem bytes_at (s : State) (addr : Nat) : s.bytes (addr % 0x100) =
    if addr % 2 = 1 then (s.regs (addr % 0x100 / 2)).hi else (s.regs (addr % 0x100 / 2)).lo := by
  rw [State.bytes]
  by_cases odd : addr % 2 = 1
  · rw [if_pos odd, if_neg (by omega)]
  · rw [if_neg odd, if_pos (by omega)]

theorem readb_ordinary {addr : Nat} (ordinary : Ordinary addr) (s : State) :
    ioportReadb addr s = ((if addr % 2 = 1 then (s.regs (addr % 0x100 / 2)).hi
      else (s.regs (addr % 0x100 / 2)).lo).setWidth 32, s) := by
  have aligned : addr / 2 * 2 % 0x100 / 2 = addr % 0x100 / 2 := by omega
  have ordinary' : Ordinary (addr / 2 * 2) := by
    rw [Ordinary, aligned]
    exact ordinary
  rw [ioportReadb, readw_ordinary ordinary', aligned]
  dsimp only
  split
  · rw [high_byte]
  · rw [low_byte]

theorem readb_agrees {addr : Nat} (ordinary : Ordinary addr) (s : State) :
    (ioportReadb addr s).1.toNat = Window.read 0x100 s.bytes 1 addr := by
  rw [readb_ordinary ordinary, Window.read, Window.read, bytes_at]
  exact BitVec.toNat_setWidth_of_le (by decide)

theorem writeb_agrees {addr : Nat} (ordinary : Ordinary addr) (val : Dword) (s : State) :
    (ioportWriteb addr val s).bytes = Window.write 0x100 1 addr val.toNat s.bytes := by
  have masked : addr % 0x100 % 0x100 / 2 = addr % 0x100 / 2 := by omega
  have ordinary' : Ordinary (addr % 0x100) := by
    rw [Ordinary, masked]
    exact ordinary
  have byte : val.setWidth 8 = BitVec.ofNat 8 val.toNat := (BitVec.ofNat_toNat 8 val).symm
  rw [ioportWriteb, writew_ordinary ordinary', masked, Window.write, Window.write, s.bytes_setReg]
  by_cases odd : addr % 2 = 1
  · obtain ⟨i, place⟩ : ∃ i, addr % 0x100 = 2 * i + 1 := ⟨addr % 0x100 / 2, by omega⟩
    have reg : (2 * i + 1) / 2 = i := by omega
    simp only [if_pos odd, place, reg, BitVec.setWidth_setWidth_of_le _ (show 16 ≤ 32 by decide),
      BitVec.setWidth_eq, Word.lo_ofBytes, Word.hi_ofBytes, byte]
    rw [← s.bytes_low, Function.update_eq_self]
  · obtain ⟨i, place⟩ : ∃ i, addr % 0x100 = 2 * i := ⟨addr % 0x100 / 2, by omega⟩
    have reg : 2 * i / 2 = i := by omega
    simp only [if_neg odd, place, reg, BitVec.setWidth_setWidth_of_le _ (show 16 ≤ 32 by decide),
      BitVec.setWidth_eq, Word.lo_ofBytes, Word.hi_ofBytes, byte]
    rw [← s.bytes_high, Function.update_comm (by omega), Function.update_eq_self]

/-! ## Longs -/

theorem toNat_halves (d : Dword) :
    d.toNat = (d.extractLsb' 0 16).toNat + 2 ^ 16 * (d.extractLsb' 16 16).toNat := by
  have small := d.isLt
  rw [BitVec.extractLsb'_toNat, BitVec.extractLsb'_toNat, Nat.shiftRight_zero,
    Nat.shiftRight_eq_div_pow]
  omega

theorem readl_ordinary {addr : Nat} (low : Ordinary addr) (high : Ordinary (addr + 2)) (s : State) :
    ioportReadl addr s = ((s.regs (addr % 0x100 / 2)).setWidth 32 |||
      (s.regs ((addr + 2) % 0x100 / 2)).setWidth 32 <<< 16, s) := by
  simp only [ioportReadl, readw_ordinary low, readw_ordinary high]

theorem readl_agrees {addr : Nat} (even : addr % 2 = 0) (low : Ordinary addr)
    (high : Ordinary (addr + 2)) (s : State) :
    (ioportReadl addr s).1.toNat = Window.read 0x100 s.bytes 4 addr := by
  rw [Window.read_add 0x100 s.bytes 2 2, read_word s even, read_word s (by omega),
    readl_ordinary low high, toNat_halves, long_low, long_high]

theorem writel_agrees {addr : Nat} (even : addr % 2 = 0) (low : Ordinary addr)
    (high : Ordinary (addr + 2)) (val : Dword) (s : State) :
    (ioportWritel addr val s).bytes = Window.write 0x100 4 addr val.toNat s.bytes := by
  have cut : ioportWritew addr (val &&& 0xffff#32) s = ioportWritew addr val s := by
    rw [writew_ordinary low, writew_ordinary low, low_half]
  have shifted : (val >>> 16).toNat = val.toNat / 2 ^ (8 * 2) := by
    rw [BitVec.toNat_ushiftRight, Nat.shiftRight_eq_div_pow]
  rw [Window.write_add 0x100 2 2, ioportWritel, cut, writew_agrees (by omega) high,
    writew_agrees even low, shifted]

/-! ## Runs -/

/-- The device and the memory answer alike, and stay alike. -/
theorem Action.Plain.agrees {a : Action} (plain : a.Plain) (s : State) :
    (a.access s).1 = (a.onMemory s.bytes).1 ∧ (a.access s).2.bytes = (a.onMemory s.bytes).2 := by
  cases a with
  | readb addr =>
    have kept : (ioportReadb addr s).2 = s := congrArg Prod.snd (readb_ordinary plain s)
    exact ⟨congrArg some (readb_agrees plain s), congrArg State.bytes kept⟩
  | readw addr =>
    obtain ⟨even, ordinary⟩ := plain
    have kept : (ioportReadw addr s).2 = s := congrArg Prod.snd (readw_ordinary ordinary s)
    exact ⟨congrArg some (readw_agrees even ordinary s), congrArg State.bytes kept⟩
  | readl addr =>
    obtain ⟨even, low, high⟩ := plain
    have kept : (ioportReadl addr s).2 = s := congrArg Prod.snd (readl_ordinary low high s)
    exact ⟨congrArg some (readl_agrees even low high s), congrArg State.bytes kept⟩
  | writeb addr val => exact ⟨rfl, writeb_agrees plain val s⟩
  | writew addr val => exact ⟨rfl, writew_agrees plain.1 plain.2 val s⟩
  | writel addr val => exact ⟨rfl, writel_agrees plain.1 plain.2.1 plain.2.2 val s⟩
  | receive buf => exact plain.elim
  | linkUp => exact plain.elim
  | guest ram => exact plain.elim

/-- Whatever the registers hold at first, accesses of all widths read what they would
read from a memory with these bytes. -/
theorem widths_agree (s : State) (accesses : List { a : Action // a.Plain }) :
    Transition.outputs (fun a => a.1.access) accesses s =
      Transition.outputs (fun a => a.1.onMemory) accesses s.bytes := by
  refine Transition.outputs_eq (R := fun s m => s.bytes = m) ?_ accesses rfl
  rintro a s _ rfl
  exact a.2.agrees s

example : Transition.outputs (fun a : Action => a.access)
    [.writew 0x82 0x1234#32, .writeb 0x83 0xab#32, .readw 0x82, .writel 0x84 0x55667788#32, .readb 0x185]
    (initPci fun _ => 0#8) = [none, none, some 0xab34, none, some 0x77] := by decide

end Bifferboard.R6040
