import Bifferboard.Nor.Text
import Bifferboard.Biffnor.Eon
import Bifferboard.Upload.Chunks

/-!
# Firmware images and the partitions they are read from

`mkimg_bifferboard.py` puts a kernel and a root file system together,
`bb_eth_upload8.py` sends the result chunk by chunk, the board stores each chunk
where `EON_ChunkToSector` says, and the kernel's partition parser finds the root
file system again. Only the configuration block tells it where to look.
-/

namespace Bifferboard.Image
open Nor Upload

/-! ## Building an image -/

def flashSize : Int := 0x800000

/-- This is always the same, for 1MB, 4MB and 8MB devices. -/
def configExtent : Int := 0x6000

/-- The image of a kernel and a root file system, or the text of the `IOError`. -/
def mkimg (bzimage rootfs : List Byte) (kmax : Int) : Except String (List Byte) :=
  let kernelExtent := kmax * 0x10000
  let kernelMax := kernelExtent - configExtent
  if (bzimage.length : Int) > kernelMax then .error "Kernel too large"
  else
    let fw := padTo (kernelExtent - configExtent).toNat 0xff#8 bzimage ++ rootfs
    if (fw.length : Int) > flashSize - 0x10000 - configExtent then .error "Rootfs too large"
    else .ok fw

/-- An image that was accepted: the sector count of the kernel is positive, and
everything has its place. -/
theorem mkimg_ok {bzimage rootfs fw : List Byte} {kmax : Int}
    (built : mkimg bzimage rootfs kmax = .ok fw) :
    ∃ k : Nat, kmax = k ∧ bzimage.length + 0x6000 ≤ k * 0x10000 ∧
      k * 0x10000 + rootfs.length ≤ 0x7f0000 ∧
      fw = bzimage ++ List.replicate (k * 0x10000 - 0x6000 - bzimage.length) 0xff#8 ++ rootfs := by
  have config : configExtent = 0x6000 := rfl
  have flash : flashSize = 0x800000 := rfl
  unfold mkimg at built
  dsimp only at built
  by_cases large : (bzimage.length : Int) > kmax * 0x10000 - configExtent
  · rw [if_pos large] at built
    cases built
  · rw [if_neg large] at built
    by_cases overflow : ((padTo (kmax * 0x10000 - configExtent).toNat 0xff#8 bzimage ++
        rootfs).length : Int) > flashSize - 0x10000 - configExtent
    · rw [if_pos overflow] at built
      cases built
    · rw [if_neg overflow] at built
      obtain ⟨k, rfl⟩ := Int.eq_ofNat_of_zero_le (show 0 ≤ kmax by omega)
      have room : ((k : Int) * 0x10000 - configExtent).toNat = k * 0x10000 - 0x6000 := by omega
      simp only [padTo_eq, room] at built overflow
      rw [List.length_append, List.length_append, List.length_replicate] at overflow
      refine ⟨k, rfl, by omega, by omega, ?_⟩
      exact (Except.ok.inj built).symm

theorem mkimg_accepts {bzimage rootfs : List Byte} {k : Nat}
    (kernelFits : bzimage.length + 0x6000 ≤ k * 0x10000)
    (rootfsFits : k * 0x10000 + rootfs.length ≤ 0x7f0000) : mkimg bzimage rootfs k =
      .ok (bzimage ++ List.replicate (k * 0x10000 - 0x6000 - bzimage.length) 0xff#8 ++ rootfs) := by
  have config : configExtent = 0x6000 := rfl
  have flash : flashSize = 0x800000 := rfl
  have room : ((k : Int) * 0x10000 - configExtent).toNat = k * 0x10000 - 0x6000 := by omega
  unfold mkimg
  dsimp only
  rw [if_neg (by omega), padTo_eq, room, if_neg]
  rw [List.length_append, List.length_append, List.length_replicate]
  omega

/-! ## Storing the chunks -/

/-- The flash once the board has stored the chunks, each where
`EON_ChunkToSector` puts it. -/
def flashChunks (fm : Flashmap) (parts : List (List Byte)) (mem : Mem) : Mem :=
  Mem.storeBlocks (fun k => eonChunkToSector fm k * 0x2000) parts 0 mem

/-- As long as the last three chunks are left out, the chunks follow each other
from 0x6000 on. -/
theorem flashChunks_eq {fm : Flashmap} (sized : fm.Sized) (parts : List (List Byte)) (mem : Mem)
    (whole : ∀ part ∈ parts, part.length = 0x2000) (fits : parts.length ≤ fm.chunkCount - 3) :
    flashChunks fm parts mem = mem.store 0x6000 parts.flatten := by
  apply Mem.storeBlocks_eq parts 0 0x6000 mem whole
  intro j inside
  have upper := sized.upper
  rw [Nat.zero_add, eonChunkToSector_eq fm (by omega) (by omega) (by omega), if_pos (by omega)]
  omega

/-! ## Finding the root file system -/

structure MtdPartition where
  name : String
  offset : Nat
  size : Nat
  deriving DecidableEq, Repr

/-- What the parser uses of an MTD device. A read yields its result and the
bytes it has read. -/
structure MtdInfo where
  size : Nat
  erasesize : Nat
  read : Nat → Nat → Int × List Byte

/-- `parse_bifferboard_partitions`. The length of the kernel is computed in 32
bits, sizes and offsets are 64 bits wide. -/
def parseBifferboardPartitions (master : MtdInfo) : Except Int (List MtdPartition) :=
  let answer := master.read (0x4000 + 1036) 2
  if answer.1 ≠ 0 then .error answer.1
  else
    let tmp := Word.ofBytes (answer.2.getD 0 0#8) (answer.2.getD 1 0#8)
    let kernelLen := tmp.toNat * master.erasesize % 2 ^ 32
    .ok [⟨"kernel", 0, kernelLen⟩,
      ⟨"rootfs", kernelLen, (master.size + 2 ^ 65 - kernelLen - 0x10000) % 2 ^ 64⟩,
      ⟨"biffboot", (master.size + 2 ^ 64 - 0x10000) % 2 ^ 64, 0x10000⟩]

/-- The 8 MB flash as an MTD device. -/
def flashMtd (mem : Mem) : MtdInfo :=
  ⟨0x800000, 0x10000, fun off len => (0, (List.range len).map fun i => mem (off + i))⟩

theorem parse_flashMtd {mem : Mem} {k : Nat} (kernelmax : (mem.word (0x4000 + 1036)).toNat = k)
    (inside : k * 0x10000 ≤ 0x7f0000) : parseBifferboardPartitions (flashMtd mem) =
      .ok [⟨"kernel", 0, k * 0x10000⟩, ⟨"rootfs", k * 0x10000, 0x7f0000 - k * 0x10000⟩,
        ⟨"biffboot", 0x7f0000, 0x10000⟩] := by
  have read : (flashMtd mem).read (0x4000 + 1036) 2 =
      (0, [mem (0x4000 + 1036), mem (0x4000 + 1036 + 1)]) := rfl
  have word : (Word.ofBytes (mem (0x4000 + 1036)) (mem (0x4000 + 1036 + 1))).toNat = k := kernelmax
  have erasesize : (flashMtd mem).erasesize = 0x10000 := rfl
  have size : (flashMtd mem).size = 0x800000 := rfl
  simp only [parseBifferboardPartitions, read, List.getD_cons_zero, List.getD_cons_succ, word, erasesize,
    size, ne_eq, not_true_eq_false, ↓reduceIte]
  have kernelLen : k * 0x10000 % 2 ^ 32 = k * 0x10000 := by omega
  have rootfs : (0x800000 + 2 ^ 65 - k * 0x10000 - 0x10000) % 2 ^ 64 = 0x7f0000 - k * 0x10000 := by omega
  rw [kernelLen, rootfs]
  rfl

/-! ## The way of an image -/

section
variable {bzimage rootfs fw : List Byte} {kmax : Int}

theorem length_image {k : Nat} (kernelFits : bzimage.length + 0x6000 ≤ k * 0x10000) :
    (bzimage ++ List.replicate (k * 0x10000 - 0x6000 - bzimage.length) 0xff#8 ++ rootfs).length =
      k * 0x10000 - 0x6000 + rootfs.length := by
  rw [List.length_append, List.length_append, List.length_replicate]
  omega

/-- Padded to whole chunks, an accepted image still ends where the boot sector
begins. -/
theorem mkimg_padded (built : mkimg bzimage rootfs kmax = .ok fw) :
    fw.length + padding fw ≤ 0x7ea000 := by
  obtain ⟨k, -, kernelFits, rootfsFits, rfl⟩ := mkimg_ok built
  rw [padding, length_image kernelFits]
  omega

/-- It leaves out the last three chunks. -/
theorem mkimg_chunks (built : mkimg bzimage rootfs kmax = .ok fw) :
    (chunks fw).length ≤ Geometry.en640.chunkCount - 3 := by
  have padded := mkimg_padded built
  rw [← chunks_length] at padded
  exact Nat.le_of_mul_le_mul_right padded (by decide : 0 < 8192)

/-- The flash after the upload. -/
theorem uploaded_flash (built : mkimg bzimage rootfs kmax = .ok fw) (mem : Mem) :
    flashChunks Geometry.en640.toFlashmap (chunks fw) mem =
      mem.store 0x6000 (fw ++ List.replicate (padding fw) 0xff#8) := by
  rw [flashChunks_eq Geometry.en640.sized (chunks fw) mem (chunks_whole fw) (mkimg_chunks built),
    chunks_flatten]

theorem uploaded_outside (built : mkimg bzimage rootfs kmax = .ok fw) (mem : Mem) {x : Nat}
    (apart : x < 0x6000 ∨ 0x7f0000 ≤ x) :
    flashChunks Geometry.en640.toFlashmap (chunks fw) mem x = mem x := by
  have padded := mkimg_padded built
  rw [uploaded_flash built mem]
  apply mem.store_frame
  rw [List.length_append, List.length_replicate]
  omega

theorem uploaded_inside (built : mkimg bzimage rootfs kmax = .ok fw) (mem : Mem) {i : Nat}
    (inside : i < fw.length) :
    flashChunks Geometry.en640.toFlashmap (chunks fw) mem (0x6000 + i) = fw.getD i 0#8 := by
  rw [uploaded_flash built mem, mem.store_inside (by rw [List.length_append]; omega),
    List.getD_append _ _ _ _ inside]

theorem uploaded_chunk (built : mkimg bzimage rootfs kmax = .ok fw) {j : Nat}
    (inside : j < (chunks fw).length) :
    0x6000 ≤ eonChunkToSector Geometry.en640.toFlashmap j * 0x2000 ∧
      eonChunkToSector Geometry.en640.toFlashmap j * 0x2000 + 0x2000 ≤ 0x7f0000 := by
  have early : j < Geometry.en640.chunkCount - 3 := Nat.lt_of_lt_of_le inside (mkimg_chunks built)
  rw [eonChunkToSector_eq _ (by decide) (by decide) (Nat.lt_trans early (by decide)), if_pos early]
  change j < 1013 at early
  clear inside
  omega

end

/-- The kernel and the root file system of an accepted image arrive where the
board and its kernel look for them, and nothing else is touched. -/
theorem image_layout (bzimage rootfs fw : List Byte) (kmax : Int)
    (built : mkimg bzimage rootfs kmax = .ok fw) (mem : Mem) :
    let flash := flashChunks Geometry.en640.toFlashmap (chunks fw) mem
    (∀ i < bzimage.length, flash (0x6000 + i) = bzimage.getD i 0#8) ∧
    (∀ i < rootfs.length, flash (kmax.toNat * 0x10000 + i) = rootfs.getD i 0#8) ∧
    (∀ k < (chunks fw).length, 0x6000 ≤ eonChunkToSector Geometry.en640.toFlashmap k * 0x2000 ∧
      eonChunkToSector Geometry.en640.toFlashmap k * 0x2000 + 0x2000 ≤ 0x7f0000) ∧
    (∀ x, x < 0x6000 ∨ 0x7f0000 ≤ x → flash x = mem x) ∧
    (((mem.word (0x4000 + 1036)).toNat : Int) = kmax →
      ∃ kernel found biffboot : MtdPartition,
        parseBifferboardPartitions (flashMtd flash) = .ok [kernel, found, biffboot] ∧
        found.name = "rootfs" ∧ (found.offset : Int) = kmax * 0x10000 ∧ rootfs.length ≤ found.size ∧
        biffboot.name = "biffboot" ∧ found.offset + found.size = biffboot.offset) := by
  intro flash
  have inside : ∀ i < fw.length, flash (0x6000 + i) = fw.getD i 0#8 :=
    fun i => uploaded_inside built mem
  have outside : ∀ x, x < 0x6000 ∨ 0x7f0000 ≤ x → flash x = mem x :=
    fun x => uploaded_outside built mem
  have sectors := fun j => uploaded_chunk built (j := j)
  clear_value flash
  obtain ⟨k, rfl, kernelFits, rootfsFits, rfl⟩ := mkimg_ok built
  rw [length_image kernelFits] at inside
  refine ⟨?_, ?_, sectors, outside, ?_⟩
  · intro i small
    rw [inside i (by omega), List.append_assoc, List.getD_append _ _ _ _ small]
  · intro i small
    have place : k * 0x10000 + i = 0x6000 + (k * 0x10000 - 0x6000 + i) := by omega
    have before : (bzimage ++ List.replicate (k * 0x10000 - 0x6000 - bzimage.length) 0xff#8).length =
        k * 0x10000 - 0x6000 := by
      rw [List.length_append, List.length_replicate]
      omega
    rw [Int.toNat_natCast, place, inside _ (by omega),
      List.getD_append_right _ _ _ _ (by rw [before]; omega), before, Nat.add_sub_cancel_left]
  · intro kernelmax
    have config : flash.word (0x4000 + 1036) = mem.word (0x4000 + 1036) := by
      have low := outside (0x4000 + 1036) (.inl (by decide))
      have high := outside (0x4000 + 1036 + 1) (.inl (by decide))
      rw [Mem.word, low, high, Mem.word]
    have same : (flash.word (0x4000 + 1036)).toNat = k := by
      rw [config]
      omega
    have before : k * 0x10000 ≤ 0x7f0000 := Nat.le_of_add_right_le rootfsFits
    refine ⟨_, _, _, parse_flashMtd same before, rfl, ?_, Nat.le_sub_of_add_le' rootfsFits, rfl,
      Nat.add_sub_of_le before⟩
    exact Int.natCast_mul k 0x10000

/-- A kernel and a root file system of one byte each, on a board that is configured for a kernel
of one sector. -/
theorem image_layout_bytes : ∃ fw, mkimg [0x12#8] [0x34#8] 1 = .ok fw ∧
    let flash := flashChunks Geometry.en640.toFlashmap (chunks fw)
      (Mem.storeWord (fun _ => 0xff#8) (0x4000 + 1036) 1#16)
    flash 0x6000 = 0x12#8 ∧ flash 0x10000 = 0x34#8 ∧ flash 0x5fff = 0xff#8 ∧
      ∃ kernel found biffboot : MtdPartition,
        parseBifferboardPartitions (flashMtd flash) = .ok [kernel, found, biffboot] ∧
        found.name = "rootfs" ∧ (found.offset : Int) = 1 * 0x10000 := by
  have kernelFits : [0x12#8].length + 0x6000 ≤ 1 * 0x10000 := by decide
  have rootfsFits : 1 * 0x10000 + [0x34#8].length ≤ 0x7f0000 := by decide
  have built := mkimg_accepts kernelFits rootfsFits
  have configured : (((Mem.storeWord (fun _ => 0xff#8) (0x4000 + 1036) 1#16).word
      (0x4000 + 1036)).toNat : Int) = 1 := by
    rw [Mem.word_storeWord]
    rfl
  obtain ⟨kernelAt, rootfsAt, -, kept, found⟩ := image_layout [0x12#8] [0x34#8] _ 1 built
    (Mem.storeWord (fun _ => 0xff#8) (0x4000 + 1036) 1#16)
  obtain ⟨kernel, rootfs, biffboot, parsed, name, offset, -⟩ := found configured
  exact ⟨_, built, kernelAt 0 (by decide), rootfsAt 0 (by decide),
    (kept 0x5fff (by decide)).trans (by decide), kernel, rootfs, biffboot, parsed, name, offset⟩

end Bifferboard.Image
