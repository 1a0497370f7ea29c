import Bifferboard.Nor.Memory

/-!
# How the uploaders cut an image

The image goes to the board in chunks of 8192 bytes, the last one filled up
with `0xff`.
-/

namespace Bifferboard.Upload
open Nor

/-- `DataToChunks` of `bb_eth_upload.py`. -/
def dataToChunks (data : List Byte) (chSize : Nat) (positive : 0 < chSize) : List (List Byte) :=
  if data = [] then []
  else (data.take chSize ++ List.replicate (chSize - (data.take chSize).length) 0xff#8) ::
    dataToChunks (data.drop chSize) chSize positive
termination_by data.length
decreasing_by
  rename_i nonempty
  have more := List.length_pos_of_ne_nil nonempty
  rw [List.length_drop]
  omega

/-- A chunk is filled up to 8192 bytes with `0xff`. -/
def padChunk (data : List Byte) : List Byte := data ++ List.replicate (8192 - data.length) 0xff#8

/-- How `UploadBinary` cuts an image. -/
def chunks (data : List Byte) : List (List Byte) :=
  if data = [] then [] else padChunk (data.take 8192) :: chunks (data.drop 8192)
termination_by data.length
decreasing_by
  rename_i nonempty
  have positive := List.length_pos_of_ne_nil nonempty
  rw [List.length_drop]
  omega

theorem chunks_cons {data : List Byte} (more : data.take 8192 ≠ []) :
    chunks data = padChunk (data.take 8192) :: chunks (data.drop 8192) := by
  have nonempty : data ≠ [] := by
    rintro rfl
    exact more rfl
  rw [chunks, if_neg nonempty]

/-- Both loops cut alike. -/
theorem chunks_eq (data : List Byte) : chunks data = dataToChunks data 8192 (by decide) := by
  fun_induction chunks data with
  | case1 => rw [dataToChunks, if_pos rfl]
  | case2 data nonempty ih =>
    rw [dataToChunks, if_neg nonempty, ih]
    rfl

section
variable (data : List Byte) (size : Nat) (positive : 0 < size)

theorem dataToChunks_whole : ∀ part ∈ dataToChunks data size positive, part.length = size := by
  fun_induction dataToChunks data size positive with
  | case1 =>
    intro part member
    cases member
  | case2 data nonempty ih =>
    intro part member
    rcases List.mem_cons.mp member with rfl | later
    · rw [List.length_append, List.length_replicate, List.length_take]
      omega
    · exact ih part later

theorem dataToChunks_length :
    (dataToChunks data size positive).length = (data.length + (size - 1)) / size := by
  fun_induction dataToChunks data size positive with
  | case1 =>
    rw [List.length_nil, List.length_nil, Nat.zero_add, Nat.div_eq_of_lt (by omega)]
  | case2 data nonempty ih =>
    have more := List.length_pos_of_ne_nil nonempty
    rw [List.length_cons, ih, List.length_drop]
    by_cases short : data.length ≤ size
    · rw [Nat.sub_eq_zero_of_le short, Nat.zero_add, Nat.div_eq_of_lt (by omega)]
      rw [show data.length + (size - 1) = data.length - 1 + size by omega,
        Nat.add_div_right _ positive, Nat.div_eq_of_lt (by omega)]
    · rw [show data.length + (size - 1) = data.length - size + (size - 1) + size by omega,
        Nat.add_div_right _ positive]

/-- Put together again, the chunks are the image and its filling. -/
theorem dataToChunks_flatten :
    (dataToChunks data size positive).flatten = data ++ List.replicate
      ((dataToChunks data size positive).length * size - data.length) 0xff#8 := by
  fun_induction dataToChunks data size positive with
  | case1 => simp
  | case2 data nonempty ih =>
    rw [List.flatten_cons, List.length_cons]
    by_cases short : data.length ≤ size
    · have last : dataToChunks (data.drop size) size positive = [] := by
        rw [dataToChunks, if_pos (List.drop_eq_nil_of_le short)]
      rw [last, List.take_of_length_le short]
      simp
    · have full : (data.take size).length = size := List.length_take_of_le (by omega)
      rw [ih, full, Nat.sub_self, List.replicate_zero, List.append_nil, ← List.append_assoc,
        List.take_append_drop, List.length_drop, Nat.succ_mul]
      congr 2
      omega

end

/-- How many bytes the last chunk is filled up with. -/
def padding (image : List Byte) : Nat := (8192 - image.length % 8192) % 8192

theorem chunks_length (image : List Byte) :
    (chunks image).length * 8192 = image.length + padding image := by
  rw [chunks_eq, dataToChunks_length, padding]
  omega

theorem chunks_whole (image : List Byte) : ∀ chunk ∈ chunks image, chunk.length = 8192 := by
  rw [chunks_eq]
  exact dataToChunks_whole image 8192 (by decide)

theorem chunks_flatten (image : List Byte) :
    (chunks image).flatten = image ++ List.replicate (padding image) 0xff#8 := by
  have count := chunks_length image
  rw [chunks_eq] at count ⊢
  rw [dataToChunks_flatten, count, Nat.add_sub_cancel_left]

end Bifferboard.Upload
