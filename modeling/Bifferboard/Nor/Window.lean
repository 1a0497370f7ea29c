import Mathlib.Logic.Function.Basic
import Mathlib.Tactic.Ring
import Bifferboard.Nor.Memory

/-!
# A window of bytes

Little-endian accesses of any width to a memory of `size` bytes. Addresses are taken
modulo the size, so an access at the end of the window goes on at its start. An
access of `n + k` bytes is one of `n` bytes and one of `k` (`read_add`, `write_add`), and two values
are the same only if all bytes are (`read_eq_iff`).
-/

namespace Nor.Window
variable (size : Nat)

/-- The value of `n` bytes from address `a` on. -/
def read (m : Mem) : (n a : Nat) → Nat
  | 0, _ => 0
  | n + 1, a => (m (a % size)).toNat + 2 ^ 8 * read m n (a + 1)

/-- The low `n` bytes of `v` are stored from address `a` on. -/
def write : (n a v : Nat) → Mem → Mem
  | 0, _, _, m => m
  | n + 1, a, v, m => write n (a + 1) (v / 2 ^ 8) (Function.update m (a % size) (BitVec.ofNat 8 v))

theorem read_add (m : Mem) (n k a : Nat) :
    read size m (n + k) a = read size m n a + 2 ^ (8 * n) * read size m k (a + n) := by
  induction n generalizing a with
  | zero => simp [read]
  | succ n ih =>
    rw [Nat.succ_add, read, read, ih, Nat.mul_succ, Nat.pow_add, show a + 1 + n = a + (n + 1) by omega]
    ring

/-- The value says what every byte is. -/
theorem read_eq_iff (m m' : Mem) (n a : Nat) : read size m n a = read size m' n a ↔
    ∀ i < n, m ((a + i) % size) = m' ((a + i) % size) := by
  induction n generalizing a with
  | zero => simp [read]
  | succ n ih =>
    have low := (m (a % size)).isLt
    have low' := (m' (a % size)).isLt
    have split : read size m (n + 1) a = read size m' (n + 1) a ↔
        m (a % size) = m' (a % size) ∧ read size m n (a + 1) = read size m' n (a + 1) := by
      rw [read, read, ← BitVec.toNat_inj]
      omega
    rw [split, ih]
    constructor
    · rintro ⟨first, later⟩ i inside
      cases i with
      | zero => exact first
      | succ i =>
        rw [show a + (i + 1) = a + 1 + i by omega]
        exact later i (by omega)
    · intro same
      refine ⟨same 0 (by omega), ?_⟩
      intro i inside
      rw [show a + 1 + i = a + (i + 1) by omega]
      exact same (i + 1) (by omega)

theorem write_add (n k a v : Nat) (m : Mem) :
    write size (n + k) a v m = write size k (a + n) (v / 2 ^ (8 * n)) (write size n a v m) := by
  induction n generalizing a v m with
  | zero => simp [write]
  | succ n ih =>
    rw [Nat.succ_add, write, write, ih, Nat.div_div_eq_div_mul, ← Nat.pow_add,
      show a + 1 + n = a + (n + 1) by omega, show 8 + 8 * n = 8 * (n + 1) by omega]

end Nor.Window
