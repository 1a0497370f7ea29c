import Mathlib.Data.List.Basic
import Mathlib.Data.List.GetD

/-!
# Byte memory that programming can only clear

Generic facts about an array of bytes that is read as little-endian words,
erased to all ones over an interval and programmed by taking the conjunction
with the new value:

* `Mem.program`: one 16-bit program, the old word AND the new one;
* `Mem.programBytes`: a run of bytes, and `programBytes_add_two`, which adds
  one word at its front;
* `program_erased`: over erased bytes the conjunction is the new value;
* `dword_blank_iff`: a 32-bit read is all ones exactly when its bytes are.
-/

namespace Nor

abbrev Byte := BitVec 8
abbrev Word := BitVec 16
abbrev Dword := BitVec 32

/-- A little-endian 16-bit value. -/
def Word.ofBytes (lo hi : Byte) : Word := hi ++ lo

def Word.lo (w : Word) : Byte := w.extractLsb' 0 8

def Word.hi (w : Word) : Byte := w.extractLsb' 8 8

@[simp] theorem Word.lo_ofBytes (l h : Byte) : Word.lo (Word.ofBytes l h) = l :=
  BitVec.extractLsb'_append_eq_right

@[simp] theorem Word.hi_ofBytes (l h : Byte) : Word.hi (Word.ofBytes l h) = h :=
  BitVec.extractLsb'_append_eq_left

theorem Word.ofBytes_lo_hi (w : Word) : Word.ofBytes w.lo w.hi = w := by
  rw [Word.ofBytes, Word.lo, Word.hi, BitVec.extractLsb'_append_extractLsb'_eq_extractLsb' (by rfl)]
  exact BitVec.extractLsb'_eq_self

/-- A byte widened to a word keeps its value in the low half. -/
theorem Word.lo_setWidth : ∀ b : Byte, Word.lo (b.setWidth 16) = b := by decide

theorem Word.setWidth_ne_ones : ∀ b : Byte, b.setWidth 16 ≠ 0xffff#16 := by decide

/-- Byte `i` of a little-endian 32-bit value. -/
def Dword.byte (d : Dword) (i : Nat) : Byte := d.extractLsb' (8 * i) 8

theorem Dword.byte_bit (d : Dword) (i : Nat) {j : Nat} (h : j < 8) :
    (d.byte i).getLsbD j = d.getLsbD (8 * i + j) := by
  rw [Dword.byte, BitVec.getLsbD_extractLsb', decide_eq_true h, Bool.true_and]

theorem Dword.ofBytes_byte (d : Dword) :
    (Word.ofBytes (d.byte 2) (d.byte 3) ++ Word.ofBytes (d.byte 0) (d.byte 1) : Dword) = d := by
  simp only [Word.ofBytes, Dword.byte]
  rw [BitVec.extractLsb'_append_extractLsb'_eq_extractLsb' (by rfl),
    BitVec.extractLsb'_append_extractLsb'_eq_extractLsb' (by rfl),
    BitVec.extractLsb'_append_extractLsb'_eq_extractLsb' (by rfl)]
  exact BitVec.extractLsb'_eq_self

/-- The contents of a byte-addressed array. -/
abbrev Mem := Nat → Byte

namespace Mem

def word (m : Mem) (a : Nat) : Word := Word.ofBytes (m a) (m (a + 1))

def dword (m : Mem) (a : Nat) : Dword := m.word (a + 2) ++ m.word a

/-- Programming a word clears the bits that are clear in `w` and sets none. -/
def program (m : Mem) (a : Nat) (w : Word) : Mem := fun x =>
  if x = a then m x &&& w.lo else if x = a + 1 then m x &&& w.hi else m x

/-- `program` for a device on an 8-bit bus. -/
def programByte (m : Mem) (a : Nat) (b : Byte) : Mem := fun x =>
  if x = a then m x &&& b else m x

/-- Erasing sets every bit of an interval. -/
def erase (m : Mem) (start stop : Nat) : Mem := fun x =>
  if start ≤ x ∧ x < stop then 0xff#8 else m x

/-- Every byte of the interval is erased. -/
def Blank (m : Mem) (start stop : Nat) : Prop := ∀ x, start ≤ x → x < stop → m x = 0xff#8

/-- Programming the `n` bytes of `src` from address `a` on. -/
def programBytes (m : Mem) (a n : Nat) (src : Nat → Byte) : Mem := fun x =>
  if a ≤ x ∧ x < a + n then m x &&& src (x - a) else m x

/-- Storing the `n` bytes of `src` from address `a` on. -/
def overwrite (m : Mem) (a n : Nat) (src : Nat → Byte) : Mem := fun x =>
  if a ≤ x ∧ x < a + n then src (x - a) else m x

theorem dword_byte (m : Mem) (a i : Nat) (h : i < 4) : (m.dword a).byte i = m (a + i) := by
  have low (j : Nat) (hj : 8 * j + 8 ≤ 16) : (m.dword a).byte j = (m.word a).extractLsb' (8 * j) 8 :=
    BitVec.extractLsb'_append_eq_of_add_le hj
  have high (j : Nat) (hj : 16 ≤ 8 * j) :
      (m.dword a).byte j = (m.word (a + 2)).extractLsb' (8 * j - 16) 8 :=
    BitVec.extractLsb'_append_eq_of_le hj
  match i, h with
  | 0, _ => exact (low 0 (by omega)).trans (Word.lo_ofBytes _ _)
  | 1, _ => exact (low 1 (by omega)).trans (Word.hi_ofBytes _ _)
  | 2, _ => exact (high 2 (by omega)).trans (Word.lo_ofBytes _ _)
  | 3, _ => exact (high 3 (by omega)).trans (Word.hi_ofBytes _ _)

theorem dword_bit (m : Mem) (a : Nat) {p : Nat} (h : p < 32) :
    (m.dword a).getLsbD p = (m (a + p / 8)).getLsbD (p % 8) := by
  rw [← dword_byte m a (p / 8) (by omega), Dword.byte_bit _ _ (Nat.mod_lt p (by decide)),
    Nat.div_add_mod]

/-- A 32-bit read shows all ones exactly when its four bytes are erased. -/
theorem dword_blank_iff (m : Mem) (a : Nat) : m.dword a = 0xffffffff#32 ↔ m.Blank a (a + 4) := by
  constructor
  · intro h x lo hi
    obtain ⟨i, rfl⟩ := Nat.exists_eq_add_of_le lo
    have bound : i < 4 := by omega
    rw [← dword_byte m a i bound, h]
    match i, bound with
    | 0, _ | 1, _ | 2, _ | 3, _ => rfl
  · intro h
    have cell (i : Nat) (hi : i < 4) : m (a + i) = 0xff#8 := h _ (by omega) (by omega)
    have c0 := cell 0 (by omega)
    have c1 := cell 1 (by omega)
    have c2 := cell 2 (by omega)
    have c3 := cell 3 (by omega)
    simp only [Nat.add_zero] at c0
    simp only [dword, word, c0, c1, c2, c3, show a + 2 + 1 = a + 3 from rfl]
    rfl

theorem program_frame (m : Mem) (a : Nat) (w : Word) {x : Nat} (lo : x ≠ a) (hi : x ≠ a + 1) :
    m.program a w x = m x := by
  simp [program, lo, hi]

@[simp] theorem programBytes_zero (m : Mem) (a : Nat) (src : Nat → Byte) :
    m.programBytes a 0 src = m := by
  funext x
  simp only [programBytes, Nat.add_zero]
  split
  · omega
  · rfl

/-- A run of bytes is its first word followed by the rest of the run. -/
theorem programBytes_add_two (m : Mem) (a n : Nat) (src : Nat → Byte) :
    (m.program a (Word.ofBytes (src 0) (src 1))).programBytes (a + 2) n (fun i => src (i + 2)) =
      m.programBytes a (n + 2) src := by
  funext x
  simp only [programBytes, program, Word.lo_ofBytes, Word.hi_ofBytes]
  by_cases h0 : x = a
  · rw [if_neg (by omega), if_pos h0, if_pos (by omega), h0, Nat.sub_self]
  · by_cases h1 : x = a + 1
    · rw [if_neg (by omega), if_neg h0, if_pos h1, if_pos (by omega), h1, Nat.add_sub_cancel_left]
    · by_cases h : a + 2 ≤ x ∧ x < a + 2 + n
      · rw [if_pos h, if_neg h0, if_neg h1, if_pos (by omega),
          show x - (a + 2) + 2 = x - a by omega]
      · rw [if_neg h, if_neg h0, if_neg h1, if_neg (by omega)]

theorem programBytes_congr (m : Mem) (a n : Nat) {src src' : Nat → Byte}
    (same : ∀ i < n, src i = src' i) : m.programBytes a n src = m.programBytes a n src' := by
  funext x
  simp only [programBytes]
  split
  · rename_i inside
    rw [same (x - a) (by omega)]
  · rfl

theorem programBytes_frame (m : Mem) (a n : Nat) (src : Nat → Byte) {x : Nat}
    (h : x < a ∨ a + n ≤ x) : m.programBytes a n src x = m x := by
  simp only [programBytes]
  rw [if_neg (by omega)]

theorem and_erased : ∀ b : Byte, 0xff#8 &&& b = b := by decide

/-- Over erased bytes programming stores the new value. -/
theorem programBytes_erased (m : Mem) (a n : Nat) (src : Nat → Byte) {x : Nat}
    (lo : a ≤ x) (hi : x < a + n) (blank : m x = 0xff#8) : m.programBytes a n src x = src (x - a) := by
  simp only [programBytes, lo, hi, and_self, ↓reduceIte, blank, and_erased]

theorem program_erased (m : Mem) (a : Nat) (w : Word) (lo : m a = 0xff#8) (hi : m (a + 1) = 0xff#8) :
    m.program a w a = w.lo ∧ m.program a w (a + 1) = w.hi := by
  simp [program, lo, hi, and_erased]

/-- Programming all ones changes nothing. -/
theorem program_ones (m : Mem) (a : Nat) : m.program a 0xffff#16 = m := by
  have kept : ∀ b : Byte, b &&& 0xff#8 = b := by decide
  have low : Word.lo 0xffff#16 = 0xff#8 := by decide
  have high : Word.hi 0xffff#16 = 0xff#8 := by decide
  funext x
  simp only [program, low, high, kept, ite_self]

theorem program_again (m : Mem) (a : Nat) (w : Word) :
    (m.program a w).program a w = m.program a w := by
  funext x
  simp only [program]
  split
  · rw [BitVec.and_assoc, BitVec.and_self]
  · split
    · rw [BitVec.and_assoc, BitVec.and_self]
    · rfl

theorem word_erased {m : Mem} {a : Nat} (w : Word) (lo : m a = 0xff#8) (hi : m (a + 1) = 0xff#8) :
    (m.program a w).word a = w := by
  obtain ⟨first, second⟩ := m.program_erased a w lo hi
  rw [word, first, second]
  exact Word.ofBytes_lo_hi w

theorem word_blank {m : Mem} {a : Nat} (lo : m a = 0xff#8) (hi : m (a + 1) = 0xff#8) :
    m.word a = 0xffff#16 := by
  rw [word, lo, hi]
  rfl

theorem erase_inside (m : Mem) {start stop x : Nat} (lo : start ≤ x) (hi : x < stop) :
    m.erase start stop x = 0xff#8 := by
  simp [erase, lo, hi]

theorem erase_frame (m : Mem) {start stop x : Nat} (h : x < start ∨ stop ≤ x) :
    m.erase start stop x = m x := by
  simp only [erase]
  rw [if_neg (by omega)]

theorem erase_blank (m : Mem) (start stop : Nat) : (m.erase start stop).Blank start stop :=
  fun _ lo hi => m.erase_inside lo hi

/-- Erasing what is erased already changes nothing. -/
theorem Blank.erase_eq {m : Mem} {start stop : Nat} (h : m.Blank start stop) :
    m.erase start stop = m := by
  funext x
  by_cases inside : start ≤ x ∧ x < stop
  · rw [m.erase_inside inside.1 inside.2, h x inside.1 inside.2]
  · exact m.erase_frame (by omega)

theorem overwrite_inside (m : Mem) {a n i : Nat} (src : Nat → Byte) (h : i < n) :
    m.overwrite a n src (a + i) = src i := by
  rw [overwrite, if_pos (by omega), Nat.add_sub_cancel_left]

theorem overwrite_frame (m : Mem) {a n x : Nat} (src : Nat → Byte) (h : x < a ∨ a + n ≤ x) :
    m.overwrite a n src x = m x := by
  rw [overwrite, if_neg (by omega)]

@[simp] theorem overwrite_zero (m : Mem) (a : Nat) (src : Nat → Byte) : m.overwrite a 0 src = m := by
  funext x
  exact m.overwrite_frame src (by omega)

theorem overwrite_congr (m : Mem) (a : Nat) {n : Nat} {src src' : Nat → Byte}
    (same : ∀ i < n, src i = src' i) : m.overwrite a n src = m.overwrite a n src' := by
  funext x
  by_cases inside : a ≤ x ∧ x < a + n
  · rw [overwrite, if_pos inside, overwrite, if_pos inside, same (x - a) (by omega)]
  · rw [overwrite, if_neg inside, overwrite, if_neg inside]

/-- Storing in two pieces. -/
theorem overwrite_add (m : Mem) (a n k : Nat) (src : Nat → Byte) :
    (m.overwrite a n src).overwrite (a + n) k (fun i => src (i + n)) = m.overwrite a (n + k) src := by
  funext x
  by_cases second : a + n ≤ x ∧ x < a + n + k
  · rw [overwrite, if_pos second, overwrite, if_pos (by omega), show x - (a + n) + n = x - a by omega]
  · rw [overwrite, if_neg second]
    by_cases first : a ≤ x ∧ x < a + n
    · rw [overwrite, if_pos first, overwrite, if_pos (by omega)]
    · rw [overwrite, if_neg first, overwrite, if_neg (by omega)]

/-! ## Blocks of bytes -/

/-- Storing a list of bytes. -/
def store (m : Mem) (a : Nat) (xs : List Byte) : Mem := m.overwrite a xs.length (xs.getD · 0#8)

theorem store_inside (m : Mem) {a i : Nat} {xs : List Byte} (h : i < xs.length) :
    m.store a xs (a + i) = xs.getD i 0#8 := m.overwrite_inside _ h

theorem store_frame (m : Mem) {a x : Nat} {xs : List Byte} (h : x < a ∨ a + xs.length ≤ x) :
    m.store a xs x = m x := m.overwrite_frame _ h

@[simp] theorem store_nil (m : Mem) (a : Nat) : m.store a [] = m := m.overwrite_zero a _

theorem store_append (m : Mem) (a : Nat) (xs ys : List Byte) :
    (m.store a xs).store (a + xs.length) ys = m.store a (xs ++ ys) := by
  have first : m.overwrite a xs.length (xs.getD · 0#8) = m.overwrite a xs.length ((xs ++ ys).getD · 0#8) := by
    apply overwrite_congr
    intro i inside
    exact (List.getD_append xs ys 0#8 i inside).symm
  have second : (ys.getD · 0#8) = fun i => (xs ++ ys).getD (i + xs.length) 0#8 := by
    funext i
    rw [List.getD_append_right xs ys 0#8 _ (Nat.le_add_left _ _), Nat.add_sub_cancel]
  rw [store, store, first, second, overwrite_add, store, List.length_append]

/-- Storing a word. -/
def storeWord (m : Mem) (a : Nat) (w : Word) : Mem := m.store a [w.lo, w.hi]

@[simp] theorem storeWord_lo (m : Mem) (a : Nat) (w : Word) : m.storeWord a w a = w.lo :=
  m.store_inside (i := 0) Nat.zero_lt_two

@[simp] theorem storeWord_hi (m : Mem) (a : Nat) (w : Word) : m.storeWord a w (a + 1) = w.hi :=
  m.store_inside (i := 1) Nat.one_lt_two

theorem storeWord_frame (m : Mem) {a x : Nat} (w : Word) (h : x < a ∨ a + 2 ≤ x) :
    m.storeWord a w x = m x := m.store_frame h

@[simp] theorem word_storeWord (m : Mem) (a : Nat) (w : Word) : (m.storeWord a w).word a = w := by
  rw [word, storeWord_lo, storeWord_hi, Word.ofBytes_lo_hi]

/-- Reading `n` bytes. -/
def load (m : Mem) (a n : Nat) : List Byte := (List.range n).map fun i => m (a + i)

@[simp] theorem length_load (m : Mem) (a n : Nat) : (m.load a n).length = n := by
  rw [load, List.length_map, List.length_range]

theorem load_congr {m m' : Mem} {a n : Nat} (same : ∀ i < n, m' (a + i) = m (a + i)) :
    m'.load a n = m.load a n := by
  apply List.map_congr_left
  intro i inside
  exact same i (List.mem_range.mp inside)

theorem load_add (m : Mem) (a n k : Nat) : m.load a (n + k) = m.load a n ++ m.load (a + n) k := by
  simp only [load, List.range_add, List.map_append, List.map_map, Function.comp_def, Nat.add_assoc]

theorem load_succ (m : Mem) (a n : Nat) : m.load a (n + 1) = m a :: m.load (a + 1) n := by
  rw [Nat.add_comm, load_add]
  rfl

theorem load_store (m : Mem) (a : Nat) (xs : List Byte) : (m.store a xs).load a xs.length = xs := by
  apply List.ext_getElem
  · rw [length_load]
  · intro i _ inside
    simp only [load, List.getElem_map, List.getElem_range]
    rw [m.store_inside inside, List.getD_eq_getElem _ _ inside]

/-- A part of what has been stored. -/
theorem load_store_slice (m : Mem) (a : Nat) {xs : List Byte} {k n : Nat}
    (inside : k + n ≤ xs.length) : (m.store a xs).load (a + k) n = (xs.drop k).take n := by
  obtain ⟨rest, length⟩ := Nat.exists_eq_add_of_le inside
  have whole := m.load_store a xs
  rw [length, load_add, load_add, List.append_assoc] at whole
  conv_rhs => rw [← whole]
  rw [List.drop_left' (length_load _ _ _), List.take_left' (length_load _ _ _)]

theorem word_of_load {m : Mem} {a : Nat} {w : Word} (bytes : m.load a 2 = [w.lo, w.hi]) :
    m.word a = w := by
  have list : [m a, m (a + 1)] = [w.lo, w.hi] := bytes
  obtain ⟨lo, rest⟩ := List.cons.inj list
  obtain ⟨hi, -⟩ := List.cons.inj rest
  rw [word, lo, hi, Word.ofBytes_lo_hi]

theorem dword_of_load {m : Mem} {a : Nat} {d : Dword}
    (bytes : m.load a 4 = [d.byte 0, d.byte 1, d.byte 2, d.byte 3]) : m.dword a = d := by
  have list : [m a, m (a + 1), m (a + 2), m (a + 2 + 1)] =
    [d.byte 0, d.byte 1, d.byte 2, d.byte 3] := bytes
  obtain ⟨b₀, rest⟩ := List.cons.inj list
  obtain ⟨b₁, rest⟩ := List.cons.inj rest
  obtain ⟨b₂, rest⟩ := List.cons.inj rest
  obtain ⟨b₃, -⟩ := List.cons.inj rest
  rw [dword, word, word, b₀, b₁, b₂, b₃, Dword.ofBytes_byte]

/-- Storing what is there already changes nothing. -/
theorem store_load {m m' : Mem} {a n : Nat} (same : ∀ i < n, m' (a + i) = m (a + i)) :
    m'.store a (m.load a n) = m' := by
  funext x
  by_cases inside : a ≤ x ∧ x < a + n
  · obtain ⟨i, rfl⟩ := Nat.exists_eq_add_of_le inside.1
    have small : i < n := by omega
    have listed : i < (m.load a n).length := by rwa [length_load]
    rw [store_inside _ listed, List.getD_eq_getElem _ _ listed, same i small]
    simp only [load, List.getElem_map, List.getElem_range]
  · apply store_frame
    rw [length_load]
    omega

theorem take_load (m : Mem) (a n k : Nat) : (m.load a n).take k = m.load a (min k n) := by
  simp only [load, ← List.map_take, List.take_range]

/-- Storing numbered blocks from number `k` on, each at the place of its number. -/
def storeBlocks (place : Nat → Nat) : List (List Byte) → Nat → Mem → Mem
  | [], _, m => m
  | block :: blocks, k, m => storeBlocks place blocks (k + 1) (m.store (place k) block)

/-- Blocks of one size whose places follow each other are stored as one. -/
theorem storeBlocks_eq {place : Nat → Nat} {size : Nat} (blocks : List (List Byte)) (k base : Nat) (m : Mem)
    (whole : ∀ block ∈ blocks, block.length = size)
    (follow : ∀ j < blocks.length, place (k + j) = base + j * size) :
    storeBlocks place blocks k m = m.store base blocks.flatten := by
  induction blocks generalizing k base m with
  | nil => exact (m.store_nil base).symm
  | cons block blocks ih =>
    rw [List.length_cons] at follow
    have first : place k = base := by
      rw [← Nat.add_zero k, follow 0 (Nat.zero_lt_succ _), Nat.zero_mul, Nat.add_zero]
    have length : block.length = size := whole block List.mem_cons_self
    rw [storeBlocks, first, ih (k + 1) (base + block.length), List.flatten_cons, store_append]
    · intro block member
      exact whole block (List.mem_cons_of_mem _ member)
    · intro j inside
      rw [Nat.add_assoc, Nat.add_comm 1 j, follow (j + 1) (by omega), Nat.succ_mul, length]
      omega

end Mem

end Nor
