import Bifferboard.Nor.Memory

/-!
# Descriptors of the R6040

Transmit and receive descriptors have the same layout. The device reads one as a
whole, changes it and writes it back as a whole. Bit 15 of `dst` says who owns the
descriptor: the MAC if it is set, the driver if it is clear.
-/

namespace Bifferboard.R6040
open Nor

/-- `Descriptor`, with the two bytes that the compiler adds at its end. -/
structure Descriptor where
  dst : Word
  dlen : Word
  dbp : Dword
  dnx : Dword
  hidx : Word
  reserved1 : Word
  reserved2 : Word
  padding : Word
  deriving DecidableEq, Repr

namespace Descriptor

def read (m : Mem) (a : Nat) : Descriptor where
  dst := m.word a
  dlen := m.word (a + 2)
  dbp := m.dword (a + 4)
  dnx := m.dword (a + 8)
  hidx := m.word (a + 12)
  reserved1 := m.word (a + 14)
  reserved2 := m.word (a + 16)
  padding := m.word (a + 18)

def bytes (d : Descriptor) : List Byte :=
  [d.dst.lo, d.dst.hi, d.dlen.lo, d.dlen.hi,
   d.dbp.byte 0, d.dbp.byte 1, d.dbp.byte 2, d.dbp.byte 3,
   d.dnx.byte 0, d.dnx.byte 1, d.dnx.byte 2, d.dnx.byte 3,
   d.hidx.lo, d.hidx.hi, d.reserved1.lo, d.reserved1.hi, d.reserved2.lo, d.reserved2.hi,
   d.padding.lo, d.padding.hi]

def write (d : Descriptor) (m : Mem) (a : Nat) : Mem := m.store a d.bytes

/-- The MAC owns it. -/
def Owned (d : Descriptor) : Prop := d.dst &&& 0x8000#16 ≠ 0#16

instance (d : Descriptor) : Decidable d.Owned := inferInstanceAs (Decidable (_ ≠ _))

theorem owned_iff (d : Descriptor) : d.Owned ↔ d.dst.getLsbD 15 = true := by
  have mask : 0x8000#16 = BitVec.twoPow 16 15 := by decide
  rw [Owned, mask, BitVec.and_twoPow]
  cases d.dst.getLsbD 15 <;> decide

theorem owned_hi_iff (m : Mem) (a : Nat) : (read m a).Owned ↔ (m (a + 1)).getLsbD 7 = true := by
  have high : (read m a).dst.getLsbD 15 = (m (a + 1)).getLsbD 7 := by
    change (m (a + 1) ++ m a).getLsbD 15 = _
    rw [BitVec.getLsbD_append]
    rfl
  rw [owned_iff, high]

theorem read_congr {m m' : Mem} {a : Nat} (same : ∀ i < 20, m' (a + i) = m (a + i)) :
    read m' a = read m a := by
  have word (i : Nat) (inside : i + 1 < 20) : m'.word (a + i) = m.word (a + i) := by
    rw [Mem.word, same i (by omega), Nat.add_assoc, same (i + 1) inside]
    rfl
  have dword (i : Nat) (inside : i + 3 < 20) : m'.dword (a + i) = m.dword (a + i) := by
    rw [Mem.dword, word i (by omega), Nat.add_assoc, word (i + 2) (by omega)]
    rfl
  simp only [read, word 2 (by decide), dword 4 (by decide), dword 8 (by decide), word 12 (by decide),
    word 14 (by decide), word 16 (by decide), word 18 (by decide), mk.injEq, and_true]
  exact word 0 (by decide)

theorem write_inside (d : Descriptor) (m : Mem) (a : Nat) {i : Nat} (inside : i < 20) :
    d.write m a (a + i) = d.bytes.getD i 0#8 := m.store_inside inside

theorem write_frame (d : Descriptor) (m : Mem) {a x : Nat} (outside : x < a ∨ a + 20 ≤ x) :
    d.write m a x = m x := m.store_frame outside

theorem read_write (d : Descriptor) (m : Mem) (a : Nat) : read (d.write m a) a = d := by
  have byte (i : Nat) (inside : i < 20) : d.write m a (a + i) = d.bytes.getD i 0#8 :=
    d.write_inside m a inside
  have first : d.write m a a = d.dst.lo := byte 0 (by decide)
  simp only [read, Mem.dword, Mem.word, Nat.add_assoc, Nat.reduceAdd, first, byte _ (by decide : 1 < 20),
    byte _ (by decide : 2 < 20), byte _ (by decide : 3 < 20), byte _ (by decide : 4 < 20),
    byte _ (by decide : 5 < 20), byte _ (by decide : 6 < 20), byte _ (by decide : 7 < 20),
    byte _ (by decide : 8 < 20), byte _ (by decide : 9 < 20), byte _ (by decide : 10 < 20),
    byte _ (by decide : 11 < 20), byte _ (by decide : 12 < 20), byte _ (by decide : 13 < 20),
    byte _ (by decide : 14 < 20), byte _ (by decide : 15 < 20), byte _ (by decide : 16 < 20),
    byte _ (by decide : 17 < 20), byte _ (by decide : 18 < 20), byte _ (by decide : 19 < 20)]
  simp only [bytes, List.getD_cons_zero, List.getD_cons_succ, Word.ofBytes_lo_hi, Dword.ofBytes_byte]

theorem bytes_read (m : Mem) (a : Nat) :
    (read m a).bytes = [m a, m (a + 1)] ++ m.load (a + 2) 18 := by
  have dword (b i : Nat) (h : i < 4) : (m.dword b).byte i = m (b + i) := m.dword_byte b i h
  simp only [bytes, read, dword _ 0 (by decide), dword _ 1 (by decide), dword _ 2 (by decide),
    dword _ 3 (by decide), Mem.word, Word.lo_ofBytes, Word.hi_ofBytes]
  rfl

/-- Writing back a descriptor with a new `dst` changes nothing else. -/
theorem write_dst (m : Mem) (a : Nat) (dst : Word) :
    write { read m a with dst := dst } m a = m.storeWord a dst := by
  have rest : bytes { read m a with dst := dst } = [dst.lo, dst.hi] ++ m.load (a + 2) 18 := by
    have drop := congrArg (List.drop 2) (bytes_read m a)
    exact congrArg ([dst.lo, dst.hi] ++ ·) drop
  rw [write, rest, ← Mem.store_append]
  apply Mem.store_load
  intro i _
  apply Mem.store_frame
  right
  exact Nat.le_add_right _ _

theorem read_storeWord_dst (m : Mem) (a : Nat) (dst : Word) :
    read (m.storeWord a dst) a = { read m a with dst := dst } := by
  rw [← write_dst, read_write]

theorem read_storeWord_dlen (m : Mem) (a : Nat) (dlen : Word) :
    read (m.storeWord (a + 2) dlen) a = { read m a with dlen := dlen } := by
  have kept (i : Nat) (apart : i < 2 ∨ 4 ≤ i) : m.storeWord (a + 2) dlen (a + i) = m (a + i) :=
    m.storeWord_frame dlen (by omega)
  have word (i : Nat) (apart : i = 0 ∨ 4 ≤ i) :
      (m.storeWord (a + 2) dlen).word (a + i) = m.word (a + i) := by
    rw [Mem.word, kept i (by omega), Nat.add_assoc, kept (i + 1) (by omega)]
    rfl
  have dword (i : Nat) (apart : 4 ≤ i) : (m.storeWord (a + 2) dlen).dword (a + i) = m.dword (a + i) := by
    rw [Mem.dword, word i (.inr apart), Nat.add_assoc, word (i + 2) (by omega)]
    rfl
  simp only [read, Mem.word_storeWord, dword 4 (by decide), dword 8 (by decide), word 12 (by decide),
    word 14 (by decide), word 16 (by decide), word 18 (by decide), mk.injEq, and_true]
  exact word 0 (.inl rfl)

theorem owned_of_or {d : Descriptor} {dst : Word} (set : d.dst = dst ||| 0x8000#16) : d.Owned := by
  have mask : (0x8000#16).getLsbD 15 = true := by decide
  rw [owned_iff, set, BitVec.getLsbD_or, mask, Bool.or_true]

theorem not_owned_of_and {d : Descriptor} {dst : Word} (cleared : d.dst = dst &&& ~~~0x8000#16) :
    ¬ d.Owned := by
  have mask : (~~~0x8000#16).getLsbD 15 = false := by decide
  rw [owned_iff, cleared, BitVec.getLsbD_and, mask, Bool.and_false]
  exact Bool.false_ne_true

end Descriptor

end Bifferboard.R6040
