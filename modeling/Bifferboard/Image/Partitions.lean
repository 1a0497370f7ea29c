import Mathlib.Algebra.Group.Nat.Defs
import Bifferboard.Image.Mkimg

/-!
# The partitions of the flash

The parser takes the length of the kernel from the configuration block as it finds it there.
A count of sectors that does not leave room for the boot loader makes the length of the root
file system wrap around. When the kernel registers the partitions, it cuts off what is beyond
the device, and takes a length of nothing for all that is left.
-/

namespace Bifferboard.Image
open Nor

/-- The count of sectors that the parser reads. -/
def MtdInfo.kernelmax (master : MtdInfo) : Nat :=
  let answer := master.read (0x4000 + 1036) 2
  (Word.ofBytes (answer.2.getD 0 0#8) (answer.2.getD 1 0#8)).toNat

/-- A device of 1, 4 or 8 MB with sectors of 64 KB. -/
structure MtdInfo.Board (master : MtdInfo) : Prop where
  size : master.size = 0x100000 ∨ master.size = 0x400000 ∨ master.size = 0x800000
  erasesize : master.erasesize = 0x10000

def MtdPartition.Has (p : MtdPartition) (x : Nat) : Prop := p.offset ≤ x ∧ x < p.offset + p.size

/-- The partitions are disjoint, lie inside the device and cover it. -/
structure Tiles (size : Nat) (parts : List MtdPartition) : Prop where
  disjoint : parts.Pairwise fun p q => ∀ x, ¬ (p.Has x ∧ q.Has x)
  inside : ∀ p ∈ parts, p.offset + p.size ≤ size
  cover : ∀ x < size, ∃ p ∈ parts, p.Has x

/-- No offset and no size has wrapped around. -/
def Unwrapped (master : MtdInfo) (parts : List MtdPartition) : Prop :=
  let kernelLen : Int := master.kernelmax * master.erasesize
  parts.map (fun p => (p.name, (p.offset : Int), (p.size : Int))) =
    [("kernel", 0, kernelLen), ("rootfs", kernelLen, master.size - kernelLen - 0x10000),
     ("biffboot", master.size - 0x10000, 0x10000)]

/-! ## Registering the partitions -/

/-- Where `allocate_partition` puts a partition: `MTDPART_OFS_APPEND` and
`MTDPART_OFS_NXTBLK` stand for an offset. -/
def slaveOffset (master : MtdInfo) (curOffset offset : Nat) : Nat :=
  if offset = 2 ^ 64 - 1 then curOffset
  else if offset = 2 ^ 64 - 2 then
    if curOffset % master.erasesize ≠ 0 then (curOffset / master.erasesize + 1) * master.erasesize
    else curOffset
  else offset

/-- `allocate_partition` of `mtdpart.c`, as far as offset and size go. A size of 0 is
`MTDPART_SIZ_FULL`. -/
def allocatePartition (master : MtdInfo) (curOffset : Nat) (part : MtdPartition) : MtdPartition :=
  let offset := slaveOffset master curOffset part.offset
  let left := (master.size + 2 ^ 64 - offset) % 2 ^ 64
  let size := if part.size = 0 then left else part.size
  if master.size ≤ offset then ⟨part.name, 0, 0⟩
  else if master.size < (offset + size) % 2 ^ 64 then ⟨part.name, offset, left⟩
  else ⟨part.name, offset, size⟩

/-- `add_mtd_partitions`. -/
def addMtdPartitions (master : MtdInfo) : (curOffset : Nat) → List MtdPartition → List MtdPartition
  | _, [] => []
  | curOffset, part :: parts =>
    let slave := allocatePartition master curOffset part
    slave :: addMtdPartitions master ((slave.offset + slave.size) % 2 ^ 64) parts

/-! ## Tiling -/

/-- The table for a count of sectors. -/
def partitionTable (size k : Nat) : List MtdPartition :=
  [⟨"kernel", 0, k * 0x10000⟩,
   ⟨"rootfs", k * 0x10000, (size + 2 ^ 65 - k * 0x10000 - 0x10000) % 2 ^ 64⟩,
   ⟨"biffboot", size - 0x10000, 0x10000⟩]

theorem MtdInfo.kernelmax_lt (master : MtdInfo) : master.kernelmax < 2 ^ 16 := BitVec.isLt _

theorem MtdInfo.Board.bounds {master : MtdInfo} (board : master.Board) :
    0x10000 < master.size ∧ master.size % 0x10000 = 0 ∧ master.size ≤ 0x800000 := by
  rcases board.size with size | size | size <;> rw [size] <;> decide

theorem parse_board {master : MtdInfo} (board : master.Board) {parts : List MtdPartition}
    (parsed : parseBifferboardPartitions master = .ok parts) :
    parts = partitionTable master.size master.kernelmax := by
  have small := master.kernelmax_lt
  obtain ⟨lower, -, upper⟩ := board.bounds
  unfold parseBifferboardPartitions at parsed
  dsimp only at parsed
  split at parsed
  · cases parsed
  · cases parsed
    have kernelLen : master.kernelmax * 0x10000 % 2 ^ 32 = master.kernelmax * 0x10000 := by omega
    have biffboot : (master.size + 2 ^ 64 - 0x10000) % 2 ^ 64 = master.size - 0x10000 := by omega
    rw [board.erasesize, biffboot, partitionTable, ← kernelLen]
    rfl

/-- Three partitions that follow each other. -/
theorem tiles_of_adjacent {size a b : Nat} (first : a ≤ b) (second : b ≤ size) (n₁ n₂ n₃ : String) :
    Tiles size [⟨n₁, 0, a⟩, ⟨n₂, a, b - a⟩, ⟨n₃, b, size - b⟩] := by
  constructor
  · simp only [List.pairwise_cons, List.mem_cons, List.not_mem_nil, or_false, forall_eq_or_imp,
      forall_eq, MtdPartition.Has, List.Pairwise.nil, and_true, false_imp_iff, implies_true]
    refine ⟨⟨?_, ?_⟩, ?_⟩ <;> intro x <;> omega
  · simp only [List.mem_cons, List.not_mem_nil, or_false, forall_eq_or_imp, forall_eq]
    omega
  · intro x inside
    simp only [List.mem_cons, List.not_mem_nil, or_false, exists_eq_or_imp, exists_eq_left,
      MtdPartition.Has]
    omega

/-- A partition that leaves nothing leaves no room for another one. -/
theorem not_tiles_of_rest {size : Nat} {p₁ p₂ p₃ : MtdPartition}
    (rest : ∃ p ∈ [p₁, p₂], p.offset < size ∧ p.offset + p.size = size)
    (last : p₃.offset < size ∧ p₃.offset + p₃.size = size) : ¬ Tiles size [p₁, p₂, p₃] := by
  intro tiles
  obtain ⟨p, member, start, stop⟩ := rest
  have apart : ∀ x, ¬ (p.Has x ∧ p₃.Has x) := by
    have disjoint := tiles.disjoint
    simp only [List.pairwise_cons, List.mem_cons, List.not_mem_nil, or_false, forall_eq_or_imp,
      forall_eq] at disjoint
    rcases List.mem_pair.mp member with rfl | rfl
    · exact disjoint.1.2
    · exact disjoint.2.1
  apply apart (size - 1)
  unfold MtdPartition.Has
  omega

section
variable {size k : Nat} (lower : 0x10000 < size) (upper : size ≤ 0x800000)
include lower upper

theorem partitionTable_eq (room : (k + 1) * 0x10000 ≤ size) : partitionTable size k =
    [⟨"kernel", 0, k * 0x10000⟩, ⟨"rootfs", k * 0x10000, size - 0x10000 - k * 0x10000⟩,
     ⟨"biffboot", size - 0x10000, size - (size - 0x10000)⟩] := by
  have rootfs : (size + 2 ^ 65 - k * 0x10000 - 0x10000) % 2 ^ 64 =
      size - 0x10000 - k * 0x10000 := by omega
  have biffboot : size - (size - 0x10000) = 0x10000 := by omega
  simp only [partitionTable, rootfs, biffboot]

theorem table_tiles_iff (aligned : size % 0x10000 = 0) :
    Tiles size (partitionTable size k) ↔ (k + 1) * 0x10000 ≤ size := by
  constructor
  · intro tiles
    have inside := tiles.inside
    simp only [partitionTable, List.mem_cons, List.not_mem_nil, or_false, forall_eq_or_imp,
      forall_eq] at inside
    omega
  · intro room
    rw [partitionTable_eq lower upper room]
    have first : k * 0x10000 ≤ size - 0x10000 := Nat.le_sub_of_add_le (by omega)
    exact tiles_of_adjacent first (Nat.sub_le size 0x10000) _ _ _

end

/-! ## What is registered -/

section
variable {master : MtdInfo} {name : String} (curOffset offset : Nat) {size : Nat}
  (small : master.size ≤ 0x800000) (start : offset < master.size)
include small start

theorem slaveOffset_eq : slaveOffset master curOffset offset = offset := by
  rw [slaveOffset, if_neg (by omega), if_neg (by omega)]

theorem allocate_inside (positive : 0 < size) (inside : offset + size ≤ master.size) :
    allocatePartition master curOffset ⟨name, offset, size⟩ = ⟨name, offset, size⟩ := by
  simp only [allocatePartition, slaveOffset_eq curOffset offset small start]
  rw [if_neg (by omega : ¬ size = 0), if_neg (by omega), if_neg (by omega)]

theorem allocate_rest (rest : size = 0 ∨ master.size ≤ offset + size) (fits : size < 2 ^ 63) :
    allocatePartition master curOffset ⟨name, offset, size⟩ =
      ⟨name, offset, master.size - offset⟩ := by
  have left : (master.size + 2 ^ 64 - offset) % 2 ^ 64 = master.size - offset := by omega
  simp only [allocatePartition, slaveOffset_eq curOffset offset small start, left]
  rw [if_neg (by omega)]
  by_cases empty : size = 0
  · rw [if_pos empty, if_neg (by omega)]
  · rw [if_neg empty]
    by_cases beyond : master.size < (offset + size) % 2 ^ 64
    · rw [if_pos beyond]
    · rw [if_neg beyond, show size = master.size - offset by omega]

end

theorem registered_tiles_iff {master : MtdInfo} {k : Nat} (lower : 0x10000 < master.size)
    (aligned : master.size % 0x10000 = 0) (upper : master.size ≤ 0x800000) (small : k < 2 ^ 16) :
    Tiles master.size (addMtdPartitions master 0 (partitionTable master.size k)) ↔
      1 ≤ k ∧ (k + 2) * 0x10000 ≤ master.size := by
  have biffboot (curOffset : Nat) : allocatePartition master curOffset
      ⟨"biffboot", master.size - 0x10000, 0x10000⟩ = ⟨"biffboot", master.size - 0x10000, 0x10000⟩ :=
    allocate_inside _ _ upper (by omega) (by decide) (by omega)
  have last : master.size - 0x10000 < master.size ∧
      master.size - 0x10000 + 0x10000 = master.size := by omega
  simp only [partitionTable, addMtdPartitions, biffboot]
  constructor
  · intro tiles
    by_contra bad
    revert tiles
    refine not_tiles_of_rest ?_ last
    by_cases kernel : k = 0 ∨ master.size ≤ k * 0x10000
    · refine ⟨_, List.mem_cons_self, ?_⟩
      rw [allocate_rest 0 0 upper (by omega) (by omega) (by omega)]
      simp only
      omega
    · refine ⟨_, List.mem_cons_of_mem _ List.mem_cons_self, ?_⟩
      rw [allocate_rest _ (k * 0x10000) upper (by omega) (by omega) (by omega)]
      simp only
      omega
  · rintro ⟨positive, room⟩
    obtain ⟨rootfs, filled⟩ : ∃ rootfs, master.size = k * 0x10000 + rootfs + 0x10000 :=
      ⟨master.size - 0x10000 - k * 0x10000, by omega⟩
    have size : (master.size + 2 ^ 65 - k * 0x10000 - 0x10000) % 2 ^ 64 = rootfs := by omega
    have less : (k + 1) * 0x10000 ≤ master.size := Nat.le_trans (Nat.mul_le_mul_right _ (by omega)) room
    have tiles := (table_tiles_iff lower upper aligned).mpr less
    rw [partitionTable, size] at tiles
    rwa [size, allocate_inside 0 0 upper (by omega) (by omega) (by omega),
      allocate_inside _ (k * 0x10000) upper (by omega) (by omega) (by omega)]

/-- The table of the parser tiles the flash exactly if the count of sectors leaves one for the
boot loader, and what the kernel makes of it if kernel and root file system also have one
each. -/
theorem partitions_tile_iff (master : MtdInfo) (board : master.Board) (parts : List MtdPartition)
    (parsed : parseBifferboardPartitions master = .ok parts) :
    (Tiles master.size parts ∧ Unwrapped master parts ↔
      (master.kernelmax + 1) * 0x10000 ≤ master.size) ∧
    (Tiles master.size (addMtdPartitions master 0 parts) ↔
      1 ≤ master.kernelmax ∧ (master.kernelmax + 2) * 0x10000 ≤ master.size) := by
  obtain ⟨lower, aligned, upper⟩ := board.bounds
  have small := master.kernelmax_lt
  rw [parse_board board parsed]
  refine ⟨?_, registered_tiles_iff lower aligned upper small⟩
  rw [table_tiles_iff lower upper aligned]
  refine and_iff_left_of_imp ?_
  intro room
  rw [Unwrapped, partitionTable_eq lower upper room, board.erasesize]
  simp only [List.map_cons, List.map_nil, List.cons.injEq, Prod.mk.injEq, and_true, true_and]
  omega

/-- The flash with a kernel of 16 sectors. -/
def configured : Mem := fun x => if x = 0x4000 + 1036 then 0x10#8 else 0#8

theorem configured_tiles : ∃ parts, parseBifferboardPartitions (flashMtd configured) = .ok parts ∧
    Tiles 0x800000 parts ∧ Tiles 0x800000 (addMtdPartitions (flashMtd configured) 0 parts) := by
  have board : (flashMtd configured).Board := ⟨.inr (.inr rfl), rfl⟩
  obtain ⟨table, registered⟩ := partitions_tile_iff _ board _ rfl
  exact ⟨_, rfl, (table.mpr (by decide)).1, registered.mpr (by decide)⟩

/-- The kernel of an erased configuration block does not fit in 8 MB. -/
theorem erased_config_overflows :
    ∃ parts, parseBifferboardPartitions (flashMtd fun _ => 0xff#8) = .ok parts ∧
      ¬ Tiles 0x800000 parts := by
  refine ⟨_, rfl, ?_⟩
  intro tiles
  have inside := tiles.inside _ List.mem_cons_self
  revert inside
  decide

end Bifferboard.Image
