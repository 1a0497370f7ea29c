import Bifferboard.Config.Readers
import Bifferboard.Upload.Biffboot

/-!
# One image, three loops

`bb_eth_upload8.py` and `bb_udp_upload.py` read the image piece by piece, where
`bb_eth_upload.py` cuts a list and the serial tools run over an index. All of them
send the same chunks. The serial tools can put theirs together again, but lose the
image if its last chunk is full.
-/

namespace Bifferboard.Upload.Cuts
open Nor Biffboot

/-! ## Reading a file -/

/-- What the calls of `fp.read(size)` return, until nothing comes. -/
def reads (size : Nat) (rest : List Byte) : List (List Byte) :=
  if rest.take size = [] then [] else rest.take size :: reads size (rest.drop size)
termination_by rest.length
decreasing_by
  rename_i more
  have nonempty : 0 < (rest.take size).length := List.length_pos_of_ne_nil more
  rw [List.length_take] at nonempty
  rw [List.length_drop]
  omega

section
variable {size : Nat} (positive : 0 < size)
include positive

theorem take_eq_nil_iff {rest : List Byte} : rest.take size = [] ↔ rest = [] := by
  rw [List.take_eq_nil_iff]
  exact or_iff_right (Nat.ne_of_gt positive)

theorem reads_flatten (rest : List Byte) : (reads size rest).flatten = rest := by
  fun_induction reads size rest with
  | case1 rest nothing => rw [(take_eq_nil_iff positive).mp nothing, List.flatten_nil]
  | case2 rest more ih => rw [List.flatten_cons, ih, List.take_append_drop]

omit positive in
theorem length_le_of_mem_reads (rest : List Byte) :
    ∀ part ∈ reads size rest, part.length ≤ size := by
  fun_induction reads size rest with
  | case1 => simp
  | case2 rest more ih =>
    intro part member
    rcases List.mem_cons.mp member with rfl | later
    · exact List.length_take_le _ _
    · exact ih part later

/-- Reading a file and cutting a list are the same, but for the filling. -/
theorem reads_padded (rest : List Byte) :
    (reads size rest).map (fun part => part ++ List.replicate (size - part.length) 0xff#8) =
      dataToChunks rest size positive := by
  fun_induction reads size rest with
  | case1 rest nothing =>
    rw [dataToChunks, if_pos ((take_eq_nil_iff positive).mp nothing), List.map_nil]
  | case2 rest more ih =>
    rw [dataToChunks, if_neg ((take_eq_nil_iff positive).not.mp more), List.map_cons, ih]

/-- Where the pieces fill the whole, there is nothing to fill up. -/
theorem reads_eq_dataToChunks (rest : List Byte) (whole : size ∣ rest.length) :
    reads size rest = dataToChunks rest size positive := by
  fun_induction reads size rest with
  | case1 rest nothing =>
    rw [dataToChunks, if_pos ((take_eq_nil_iff positive).mp nothing)]
  | case2 rest more ih =>
    have nonempty := (take_eq_nil_iff positive).not.mp more
    have full : size ≤ rest.length := Nat.le_of_dvd (List.length_pos_of_ne_nil nonempty) whole
    have left : size ∣ (rest.drop size).length := by
      rw [List.length_drop]
      exact Nat.dvd_sub whole (Nat.dvd_refl size)
    rw [dataToChunks, if_neg nonempty, ih left, List.length_take_of_le full, Nat.sub_self,
      List.replicate_zero, List.append_nil]

/-- Running over an index cuts out what reading the file returns. -/
theorem slices_eq_reads (data : List Byte) :
    (List.range ((data.length + (size - 1)) / size)).map
      (fun i => (data.drop (i * size)).take size) = reads size data := by
  fun_induction reads size data with
  | case1 data nothing =>
    rw [(take_eq_nil_iff positive).mp nothing, List.length_nil, Nat.zero_add,
      Nat.div_eq_of_lt (by omega)]
    rfl
  | case2 data more ih =>
    have nonempty := (take_eq_nil_iff positive).not.mp more
    have count : (data.length + (size - 1)) / size =
        ((data.drop size).length + (size - 1)) / size + 1 := by
      rw [← dataToChunks_length data size positive, dataToChunks, if_neg nonempty,
        List.length_cons, dataToChunks_length]
    rw [count, List.range_succ_eq_map, List.map_cons, List.map_map, ← ih, Nat.zero_mul,
      List.drop_zero]
    refine congrArg _ (List.map_congr_left ?_)
    intro i _
    rw [Function.comp_apply, List.drop_drop, Nat.succ_mul, Nat.add_comm]

end

theorem padded_reads (data : List Byte) : (reads 8192 data).map padChunk = chunks data := by
  rw [chunks_eq]
  exact reads_padded (by decide) data

/-! ## The serial tools -/

/-- What `struct.pack("<I", n)` raises for a number that does not fit in four bytes. -/
def sizeError : String := "'I' format requires 0 <= number <= 4294967295"

/-- `FirmwareToPackets`, the same in `bb_upload.py` and `bb_upload8.py`. It packs the length
of the data before it cuts them. The result is not used, but a length that does not fit ends
the call. -/
def firmwareToPackets (md5 : Md5) (data : List Byte) : Except String (List (List Byte) × Nat) :=
  if data.length < 0x100000000 then .ok (Biffboot.firmwareToPackets md5 data)
  else .error sizeError

/-- `PacketsToFirmware`. -/
def packetsToFirmware (parts : List (List Byte)) (padding : Nat) : List Byte :=
  Config.pyTake (parts.map (List.drop 20)).flatten (-padding)

theorem drop_packet (md5 : Md5) (payload : List Byte) : (packet md5 payload).drop 20 = payload := by
  apply List.drop_left'
  rw [List.length_append, List.length_replicate, md5.length_digest]

theorem payloads (md5 : Md5) (parts : List (List Byte)) :
    (parts.map (packet md5)).map (List.drop 20) = parts := by
  rw [List.map_map]
  exact List.map_id'' (drop_packet md5) parts

theorem sum_filling (size : Nat) (parts : List (List Byte)) (fit : ∀ part ∈ parts, part.length ≤ size) :
    (parts.map fun part => size - part.length).sum + parts.flatten.length = parts.length * size := by
  induction parts with
  | nil => simp
  | cons part rest ih =>
    have first := fit part List.mem_cons_self
    have later := ih fun part member => fit part (List.mem_cons_of_mem _ member)
    rw [List.map_cons, List.sum_cons, List.flatten_cons, List.length_append, List.length_cons,
      Nat.succ_mul]
    omega

theorem loop_eq (md5 : Md5) (data : List Byte) :
    Biffboot.firmwareToPackets md5 data = ((chunks data).map (packet md5), padding data) := by
  have cut : (List.range ((data.length + 8191) / 8192)).map
      (fun i => (data.drop (i * 8192)).take 8192) = reads 8192 data := slices_eq_reads (by decide) data
  have filling := sum_filling 8192 _ (length_le_of_mem_reads data)
  have count := chunks_length data
  rw [← padded_reads, List.length_map] at count
  rw [reads_flatten (by decide), count, Nat.add_comm] at filling
  simp only [Biffboot.firmwareToPackets, cut, ← padded_reads, List.map_map]
  rw [Nat.add_left_cancel filling]
  rfl

theorem packetsToFirmware_loop (md5 : Md5) (data : List Byte) :
    packetsToFirmware ((chunks data).map (packet md5)) (padding data) =
      if padding data = 0 then [] else data := by
  rw [packetsToFirmware, payloads, chunks_flatten, Config.pyTake]
  by_cases full : padding data = 0
  · rw [if_pos full, full]
    rfl
  · rw [if_neg full, if_neg (by omega), List.length_append, List.length_replicate]
    apply List.take_left'
    omega

theorem padding_eq_zero_iff (data : List Byte) : padding data = 0 ↔ data.length % 8192 = 0 := by
  rw [padding]
  omega

/-- The packets are put together to the image exactly if its last chunk had to be filled
up. -/
theorem serial_round_trip_iff (md5 : Md5) (data : List Byte) :
    (firmwareToPackets md5 data).map (fun out => packetsToFirmware out.1 out.2) = .ok data ↔
      data = [] ∨ data.length % 8192 ≠ 0 ∧ data.length < 0x100000000 := by
  by_cases small : data.length < 0x100000000
  · rw [firmwareToPackets, if_pos small, loop_eq]
    simp only [Except.map, packetsToFirmware_loop, Except.ok.injEq, padding_eq_zero_iff]
    by_cases full : data.length % 8192 = 0
    · simp [full, eq_comm]
    · simp [full, small]
  · have nonempty : data ≠ [] := by
      rintro rfl
      exact small (by decide)
    simp [firmwareToPackets, small, nonempty, Except.map]

theorem full_chunk_lost (n : Nat) (full : n % 8192 = 0) (small : n < 0x100000000) (md5 : Md5) :
    (firmwareToPackets md5 (List.replicate n 0#8)).map (fun out => packetsToFirmware out.1 out.2) =
      .ok [] := by
  have none : padding (List.replicate n 0#8) = 0 := by
    rw [padding_eq_zero_iff, List.length_replicate, full]
  rw [firmwareToPackets, if_pos (by rwa [List.length_replicate]), loop_eq]
  simp only [Except.map, packetsToFirmware_loop, if_pos none]

/-- One full chunk comes back as nothing. -/
theorem one_chunk_lost :
    (firmwareToPackets Config.plainLib.md5 (List.replicate 8192 0#8)).map
      (fun out => packetsToFirmware out.1 out.2) = .ok [] :=
  full_chunk_lost 8192 (by decide) (by decide) _

/-! ## The streaming tools -/

section
variable {σ : Type} (S : BiffSocket σ) (md5 : Md5)

/-- The loop of `Transfer`, with `left` still in `fp`. -/
def addAll (left : List Byte) : Session σ Unit :=
  if left.take 512 = [] then pure ()
  else do
    let _ ← send S typeDataAdd 512 (left.take 512)
    addAll (left.drop 512)
termination_by left.length
decreasing_by
  rename_i more
  have nonempty : 0 < (left.take 512).length := List.length_pos_of_ne_nil more
  rw [List.length_take] at nonempty
  rw [List.length_drop]
  omega

/-- `Transfer`. -/
def transfer (chunk : List Byte) : Session σ Bool := do
  let _ ← send S typeDataReset 0 []
  addAll S chunk
  let (_, digest) ← send S typeDataDigest 0 []
  return digest = md5.digest chunk

/-- Try to send the chunk, so many times at most. -/
def attempts (chunk : List Byte) : Nat → Session σ Bool
  | 0 => return false
  | left + 1 => do
    let txed ← transfer S md5 chunk
    if txed then return true else attempts chunk left

/-- The loop of `UploadBinary`, with `rest` still in `fp`. -/
def writeAll (rest : List Byte) (offset : Nat) : Session σ Unit :=
  if rest.take 8192 = [] then pure ()
  else do
    let txed ← attempts S md5 (padChunk (rest.take 8192)) 5
    if txed then
      let (ok, err) ← send S typeDataWrite offset []
      written offset ok err (writeAll (rest.drop 8192) (offset + 1))
    else throw ("Unable to transfer chunk " ++ toString offset ++ " (digest error).")
termination_by rest.length
decreasing_by
  have nonempty : 0 < (rest.take 8192).length := List.length_pos_of_ne_nil (by assumption)
  rw [List.length_take] at nonempty
  rw [List.length_drop]
  omega

/-- `UploadBinary`, the same in `bb_eth_upload8.py` and `bb_udp_upload.py`. -/
def uploadBinary (image : List Byte) : Session σ Unit := writeAll S md5 image 0

theorem addAll_eq (left : List Byte) (whole : 512 ∣ left.length) :
    addAll S left = Biffboot.addAll S (dataToChunks left 512 (by decide)) := by
  fun_induction addAll S left with
  | case1 left nothing =>
    rw [(take_eq_nil_iff (by decide)).mp nothing, dataToChunks, if_pos rfl]
    rfl
  | case2 left more ih =>
    have nonempty := (take_eq_nil_iff (by decide)).not.mp more
    have full : 512 ≤ left.length := Nat.le_of_dvd (List.length_pos_of_ne_nil nonempty) whole
    have length : (left.take 512).length = 512 := List.length_take_of_le full
    have others : 512 ∣ (left.drop 512).length := by
      rw [List.length_drop]
      exact Nat.dvd_sub whole (Nat.dvd_refl 512)
    rw [dataToChunks, if_neg nonempty, length, Nat.sub_self, List.replicate_zero, List.append_nil,
      Biffboot.addAll, length, ih others]

theorem transfer_eq (chunk : List Byte) (whole : chunk.length = 8192) :
    transfer S md5 chunk = Biffboot.transfer S md5 chunk := by
  rw [transfer, addAll_eq S chunk (by rw [whole]; decide)]
  rfl

theorem attempts_eq (chunk : List Byte) (whole : chunk.length = 8192) (left : Nat) :
    attempts S md5 chunk left = Biffboot.attempts S md5 chunk left := by
  induction left with
  | zero => rfl
  | succ left ih => rw [attempts, Biffboot.attempts, transfer_eq S md5 chunk whole, ih]

theorem padChunk_length (data : List Byte) : (padChunk (data.take 8192)).length = 8192 := by
  rw [padChunk, List.length_append, List.length_replicate, List.length_take]
  omega

theorem writeAll_eq (rest : List Byte) (offset : Nat) :
    writeAll S md5 rest offset =
      Biffboot.writeAll S md5 (dataToChunks rest 8192 (by decide)) offset := by
  rw [← chunks_eq]
  fun_induction chunks rest generalizing offset with
  | case1 =>
    rw [writeAll, if_pos List.take_nil]
    rfl
  | case2 rest nonempty ih =>
    rw [writeAll, if_neg ((take_eq_nil_iff (by decide)).not.mpr nonempty), Biffboot.writeAll,
      attempts_eq S md5 _ (padChunk_length rest), ih]

end

/-! ## Agreement -/

/-- The uploaders cut the image alike: `DataToChunks`, the files that `UploadBinary` and
`Transfer` read, and the payloads of `FirmwareToPackets`. -/
structure CutAlike (md5 : Md5) (data : List Byte) : Prop where
  streamed : (reads 8192 data).map padChunk = dataToChunks data 8192 (by decide)
  session : ∀ (σ : Type) (S : BiffSocket σ), uploadBinary S md5 data =
    Biffboot.writeAll S md5 (dataToChunks data 8192 (by decide)) 0
  packets : (firmwareToPackets md5 data).map (fun out => out.1.map (List.drop 20)) =
    .ok (dataToChunks data 8192 (by decide))
  whole : ∀ chunk ∈ dataToChunks data 8192 (by decide), chunk.length = 8192
  count : (dataToChunks data 8192 (by decide)).length = (data.length + 8191) / 8192
  image : ∃ n, (dataToChunks data 8192 (by decide)).flatten = data ++ List.replicate n 0xff#8
  pieces : ∀ chunk ∈ dataToChunks data 8192 (by decide),
    reads 512 chunk = dataToChunks chunk 512 (by decide) ∧ (reads 512 chunk).flatten = chunk

theorem packets_eq (md5 : Md5) (data : List Byte) :
    (firmwareToPackets md5 data).map (fun out => out.1.map (List.drop 20)) =
      if data.length < 0x100000000 then .ok (dataToChunks data 8192 (by decide))
      else .error sizeError := by
  rw [firmwareToPackets]
  split
  · rw [loop_eq, ← chunks_eq]
    exact congrArg Except.ok (payloads md5 (chunks data))
  · rfl

theorem CutAlike.small {md5 : Md5} {data : List Byte} (alike : CutAlike md5 data) :
    data.length < 0x100000000 := by
  by_contra long
  have packets := alike.packets
  rw [packets_eq, if_neg long] at packets
  cases packets

/-- Only the serial tools can fail to cut an image, if its length does not fit in four bytes. -/
theorem cut_alike_iff (md5 : Md5) (data : List Byte) :
    CutAlike md5 data ↔ data.length < 0x100000000 := by
  constructor
  · exact CutAlike.small
  · intro small
    refine ⟨reads_padded _ data, fun σ S => writeAll_eq S md5 data 0, ?_,
      dataToChunks_whole data 8192 _, dataToChunks_length data 8192 _,
      ⟨_, dataToChunks_flatten data 8192 _⟩, ?_⟩
    · rw [packets_eq, if_pos small]
    · intro chunk member
      have whole := dataToChunks_whole data 8192 _ chunk member
      exact ⟨reads_eq_dataToChunks _ chunk (by rw [whole]; decide), reads_flatten (by decide) chunk⟩

theorem long_refused (n : Nat) (long : 0x100000000 ≤ n) (md5 : Md5) :
    firmwareToPackets md5 (List.replicate n 0#8) = .error sizeError ∧
      ¬ CutAlike md5 (List.replicate n 0#8) := by
  refine ⟨if_neg (by rwa [List.length_replicate, Nat.not_lt]), ?_⟩
  intro alike
  have small := alike.small
  rw [List.length_replicate] at small
  exact Nat.not_lt.mpr long small

/-- 4 GB are too much for the serial tools. -/
theorem four_gigabytes_refused :
    firmwareToPackets Config.plainLib.md5 (List.replicate 0x100000000 0#8) = .error sizeError ∧
      ¬ CutAlike Config.plainLib.md5 (List.replicate 0x100000000 0#8) :=
  long_refused 0x100000000 (Nat.le_refl _) _

end Bifferboard.Upload.Cuts
