import Bifferboard.Ring.Slots
import Bifferboard.R6040.Descriptor

/-!
# Rings of descriptors in memory

A ring is a number of descriptors, each with a buffer, that lie apart from each
other in memory and are linked by `dnx`. Seen from one side a descriptor is a
slot, which holds the contents of its buffer or is empty, depending on who owns
it. Whatever is done to one entry of the ring leaves the other slots as they are.
-/

namespace Bifferboard.R6040
open Nor

/-- Where the descriptors and their buffers are. -/
structure DescriptorRing where
  n : Nat
  positive : 0 < n
  desc : Nat → Nat
  buf : Nat → Nat
  room : Nat → Nat
  descsApart : ∀ j < n, ∀ k < n, j ≠ k → desc j + 20 ≤ desc k ∨ desc k + 20 ≤ desc j
  bufsApart : ∀ j < n, ∀ k < n, j ≠ k → buf j + room j ≤ buf k ∨ buf k + room k ≤ buf j
  descsBufsApart : ∀ j < n, ∀ k < n, desc j + 20 ≤ buf k ∨ buf k + room k ≤ desc j

/-- Which descriptors hold something, and how much. -/
structure View where
  full : Descriptor → Bool
  len : Descriptor → Nat

namespace DescriptorRing
variable (r : DescriptorRing)

def descriptor (m : Mem) (j : Nat) : Descriptor := Descriptor.read m (r.desc j)

/-- The contents of the slots. -/
def slots (v : View) (m : Mem) (j : Nat) : Option (List Byte) :=
  if v.full (r.descriptor m j) then some (m.load (r.buf j) (v.len (r.descriptor m j))) else none

/-- The memory with a new `dst` in a descriptor. -/
def setDst (m : Mem) (j : Nat) (dst : Word) : Mem := m.storeWord (r.desc j) dst

/-- The memory with a new `dlen` in a descriptor. -/
def setDlen (m : Mem) (j : Nat) (dlen : Word) : Mem := m.storeWord (r.desc j + 2) dlen

/-- The address belongs to an entry of the ring. -/
def InEntry (j x : Nat) : Prop :=
  (r.desc j ≤ x ∧ x < r.desc j + 20) ∨ (r.buf j ≤ x ∧ x < r.buf j + r.room j)

/-- The memories differ in one entry at most. -/
def Touches (j : Nat) (m m' : Mem) : Prop := ∀ x, ¬ r.InEntry j x → m' x = m x

/-- The descriptors are linked to their buffers and to each other, and hold no
more than there is room for. -/
structure Linked (v : View) (m : Mem) : Prop where
  dbp : ∀ j < r.n, (r.descriptor m j).dbp.toNat = r.buf j
  dnx : ∀ j < r.n, (r.descriptor m j).dnx.toNat = r.desc ((j + 1) % r.n)
  fits : ∀ j < r.n, v.full (r.descriptor m j) = true → v.len (r.descriptor m j) ≤ r.room j

variable {r} {v : View} {m m' : Mem} {j k : Nat}

theorem not_inEntry (insideJ : j < r.n) (insideK : k < r.n) (other : k ≠ j) {x : Nat}
    (here : r.InEntry k x) : ¬ r.InEntry j x := by
  have descs := r.descsApart j insideJ k insideK other.symm
  have bufs := r.bufsApart j insideJ k insideK other.symm
  have cross := r.descsBufsApart j insideJ k insideK
  have cross' := r.descsBufsApart k insideK j insideJ
  unfold InEntry at here ⊢
  omega

namespace Touches

theorem descriptor (h : r.Touches j m m') (insideJ : j < r.n) (insideK : k < r.n) (other : k ≠ j) :
    r.descriptor m' k = r.descriptor m k := by
  apply Descriptor.read_congr
  intro i small
  apply h
  apply not_inEntry insideJ insideK other
  left
  omega

theorem buffer (h : r.Touches j m m') (insideJ : j < r.n) (insideK : k < r.n) (other : k ≠ j) {i : Nat}
    (small : i < r.room k) : m' (r.buf k + i) = m (r.buf k + i) := by
  apply h
  apply not_inEntry insideJ insideK other
  right
  omega

/-- The other slots keep their contents. -/
theorem slots (h : r.Touches j m m') (linked : r.Linked v m) (insideJ : j < r.n) (insideK : k < r.n)
    (other : k ≠ j) : r.slots v m' k = r.slots v m k := by
  unfold DescriptorRing.slots
  rw [h.descriptor insideJ insideK other]
  split
  · rename_i full
    congr 1
    apply Mem.load_congr
    intro i small
    exact h.buffer insideJ insideK other (Nat.lt_of_lt_of_le small (linked.fits k insideK full))
  · rfl

/-- The ring stays linked, if the entry that was touched does. -/
theorem linked (h : r.Touches j m m') (linked : r.Linked v m) (insideJ : j < r.n)
    (dbp : (r.descriptor m' j).dbp = (r.descriptor m j).dbp)
    (dnx : (r.descriptor m' j).dnx = (r.descriptor m j).dnx)
    (fits : v.full (r.descriptor m' j) = true → v.len (r.descriptor m' j) ≤ r.room j) :
    r.Linked v m' := by
  refine ⟨?_, ?_, ?_⟩
  · intro k insideK
    by_cases here : k = j
    · rw [here, dbp]
      exact linked.dbp j insideJ
    · rw [h.descriptor insideJ insideK here]
      exact linked.dbp k insideK
  · intro k insideK
    by_cases here : k = j
    · rw [here, dnx]
      exact linked.dnx j insideJ
    · rw [h.descriptor insideJ insideK here]
      exact linked.dnx k insideK
  · intro k insideK
    by_cases here : k = j
    · rw [here]
      exact fits
    · rw [h.descriptor insideJ insideK here]
      exact linked.fits k insideK

/-- All slots, when one of them has been touched. -/
theorem slots_update (h : r.Touches j m m') (linked : r.Linked v m) (insideJ : j < r.n)
    {contents : Option (List Byte)} (here : r.slots v m' j = contents) :
    ∀ k < r.n, r.slots v m' k = Function.update (r.slots v m) j contents k := by
  intro k insideK
  by_cases same : k = j
  · rw [same, Function.update_self, here]
  · rw [Function.update_of_ne same, h.slots linked insideJ insideK same]

end Touches

/-! ## Changing an entry -/

section
variable (m : Mem) (w : Word) {off : Nat} (field : off + 2 ≤ 20)
include field

theorem touches_word (j : Nat) : r.Touches j m (m.storeWord (r.desc j + off) w) := by
  intro x outside
  apply m.storeWord_frame
  unfold InEntry at outside
  omega

theorem load_word {n : Nat} (inside : j < r.n) (fits : n ≤ r.room j) :
    (m.storeWord (r.desc j + off) w).load (r.buf j) n = m.load (r.buf j) n := by
  have apart := r.descsBufsApart j inside j inside
  apply Mem.load_congr
  intro i small
  apply m.storeWord_frame
  omega

end

theorem touches_setDst (m : Mem) (j : Nat) (dst : Word) : r.Touches j m (r.setDst m j dst) :=
  touches_word m dst (show 0 + 2 ≤ 20 by decide) j

theorem touches_setDlen (m : Mem) (j : Nat) (dlen : Word) : r.Touches j m (r.setDlen m j dlen) :=
  touches_word m dlen (show 2 + 2 ≤ 20 by decide) j

theorem descriptor_setDst (m : Mem) (j : Nat) (dst : Word) :
    r.descriptor (r.setDst m j dst) j = { r.descriptor m j with dst := dst } :=
  Descriptor.read_storeWord_dst _ _ _

theorem descriptor_setDlen (m : Mem) (j : Nat) (dlen : Word) :
    r.descriptor (r.setDlen m j dlen) j = { r.descriptor m j with dlen := dlen } :=
  Descriptor.read_storeWord_dlen _ _ _

theorem load_setDst (m : Mem) (dst : Word) {n : Nat} (inside : j < r.n) (fits : n ≤ r.room j) :
    (r.setDst m j dst).load (r.buf j) n = m.load (r.buf j) n :=
  load_word m dst (show 0 + 2 ≤ 20 by decide) inside fits

theorem load_setDlen (m : Mem) (dlen : Word) {n : Nat} (inside : j < r.n) (fits : n ≤ r.room j) :
    (r.setDlen m j dlen).load (r.buf j) n = m.load (r.buf j) n :=
  load_word m dlen (show 2 + 2 ≤ 20 by decide) inside fits

/-- The ring once an entry has changed hands. -/
theorem slots_setDst (linked : r.Linked v m) (inside : j < r.n) {dst : Word}
    (fits : v.full (r.descriptor (r.setDst m j dst) j) = true →
      v.len (r.descriptor (r.setDst m j dst) j) ≤ r.room j)
    {contents : Option (List Byte)} (here : r.slots v (r.setDst m j dst) j = contents) :
    r.Linked v (r.setDst m j dst) ∧
    ∀ k < r.n, r.slots v (r.setDst m j dst) k = Function.update (r.slots v m) j contents k := by
  have touched := r.touches_setDst m j dst
  have written := r.descriptor_setDst m j dst
  refine ⟨touched.linked linked inside ?_ ?_ fits, touched.slots_update linked inside here⟩
  · rw [written]
  · rw [written]

theorem touches_store (m : Mem) (j : Nat) {data : List Byte} (fits : data.length ≤ r.room j) :
    r.Touches j m (m.store (r.buf j) data) := by
  intro x outside
  apply m.store_frame
  unfold InEntry at outside
  omega

theorem descriptor_store (m : Mem) {data : List Byte} (inside : j < r.n)
    (fits : data.length ≤ r.room j) :
    r.descriptor (m.store (r.buf j) data) j = r.descriptor m j := by
  have apart := r.descsBufsApart j inside j inside
  apply Descriptor.read_congr
  intro i small
  apply m.store_frame
  omega

end DescriptorRing

/-- A ring of two descriptors. -/
def smallRing : DescriptorRing where
  n := 2
  positive := Nat.two_pos
  desc := fun j => 0x1000 + 0x20 * j
  buf := fun j => 0x2000 + 0x800 * j
  room := fun _ => 0x600
  descsApart := by omega
  bufsApart := by omega
  descsBufsApart := by omega

/-- Its descriptors, as the driver sets them up. -/
def smallDescriptor (dst : Word) (j : Nat) : Descriptor :=
  ⟨dst, 0#16, BitVec.ofNat 32 (0x2000 + 0x800 * j), BitVec.ofNat 32 (0x1020 - 0x20 * j), 0#16, 0#16,
    0#16, 0#16⟩

def smallMemory (dst : Word) : Mem :=
  (smallDescriptor dst 1).write ((smallDescriptor dst 0).write (fun _ => 0#8) 0x1000) 0x1020

end Bifferboard.R6040
