import Mathlib.Algebra.GroupWithZero.Nat
import Mathlib.Data.Set.Function
import Mathlib.Order.Interval.Set.Defs
import Bifferboard.Biffnor.Eon
import Bifferboard.Upload.System

/-!
# The uploaders for 1 MB boards

`bb_eth_upload.py` and `bb_upload.py` send an image to Biffboot, one over
Ethernet and one over the serial line. Biffboot stores chunk `k` where
`EON_ChunkToSector` says, and the chunk that holds the configuration is the last
one, so it is the limits of the two tools that keep the configuration safe.
-/

namespace Bifferboard.Upload.Biffboot
open Nor

/-! ## Over Ethernet -/

/-- One call of `Send`. -/
structure Sent where
  cmd : Word
  arg : Nat
  data : List Byte
  deriving DecidableEq, Repr

/-- A socket, whatever is at its other end: what `Send` returns, or the text of
the exception that it raises. -/
structure BiffSocket (σ : Type) where
  send : Sent → σ → Except String (Bool × List Byte) × σ

/-- The socket, and all that has been sent over it. -/
structure Wire (σ : Type) where
  state : σ
  sent : List Sent

abbrev Session (σ : Type) := ExceptT String (StateM (Wire σ))

/-- The sectors that are erased. The configuration sector, 0x4000, is not among
them. -/
def gSectors : List Nat :=
  [0x00000000, 0x00006000, 0x00008000, 0x00010000, 0x00020000, 0x00030000, 0x00040000, 0x00050000,
   0x00060000, 0x00070000, 0x00080000, 0x00090000, 0x000A0000, 0x000B0000, 0x000C0000, 0x000D0000,
   0x000E0000]

section
variable {σ : Type} (S : BiffSocket σ) (md5 : Md5)

def send (cmd : Word) (arg : Nat) (data : List Byte) : Session σ (Bool × List Byte) := fun w =>
  let answered := S.send ⟨cmd, arg, data⟩ w.state
  (answered.1, ⟨answered.2, w.sent ++ [⟨cmd, arg, data⟩]⟩)

/-- The loop of `Transfer`. -/
def addAll : List (List Byte) → Session σ Unit
  | [] => pure ()
  | i :: rest => do
    let _ ← send S typeDataAdd i.length i
    addAll rest

/-- `Transfer`, which does not use its argument `offset`. -/
def transfer (chunk : List Byte) : Session σ Bool := do
  let _ ← send S typeDataReset 0 []
  addAll S (dataToChunks chunk 512 (by decide))
  let (_, digest) ← send S typeDataDigest 0 []
  return digest = md5.digest chunk

/-- Try to send the chunk, so many times at most. -/
def attempts (chunk : List Byte) : Nat → Session σ Bool
  | 0 => return false
  | left + 1 => do
    let txed ← transfer S md5 chunk
    if txed then return true else attempts chunk left

/-- The answer to `ERASE_SECTOR`, and what follows it. -/
def erased (ok : Bool) (buf : List Byte) (next : Session σ Unit) : Session σ Unit :=
  if ok then
    if buf.length = 4 then next else throw "unpack requires a string argument of length 4"
  else throw "Flash erase timeout."

def eraseAll : List Nat → Session σ Unit
  | [] => pure ()
  | i :: rest => do
    let (ok, buf) ← send S typeEraseSector i []
    erased ok buf (eraseAll rest)

/-- The answer to `DATA_WRITE`, and what follows it. -/
def written (offset : Nat) (ok : Bool) (err : List Byte) (next : Session σ Unit) : Session σ Unit :=
  if ok then
    match err with
    | [err] =>
      if err = 0#8 then next
      else throw ("Error " ++ toString err.toInt ++ " writing data at " ++ toString offset)
    | _ => throw "unpack requires a string argument of length 1"
  else throw ("No response to write request at " ++ toString offset)

def writeAll : List (List Byte) → (offset : Nat) → Session σ Unit
  | [], _ => pure ()
  | chunk :: rest, offset => do
    let txed ← attempts S md5 chunk 5
    if txed then
      let (ok, err) ← send S typeDataWrite offset []
      written offset ok err (writeAll rest (offset + 1))
    else throw ("Unable to transfer chunk " ++ toString offset ++ " (digest error).")

/-- `UploadBinary` of `bb_eth_upload.py`. -/
def uploadBinary (data : List Byte) : Session σ Unit := do
  let parts := dataToChunks data 8192 (by decide)
  if parts.length > 119 then throw "Image size too large!"
  else
    eraseAll S gSectors
    writeAll S md5 parts 0

end

/-! ## What a session sends -/

/-- Whatever the session is answered, all it sends is `P`. -/
def Sends {σ α : Type} (P : Sent → Prop) (m : Session σ α) : Prop :=
  ∀ w, ∃ out, (m w).2.sent = w.sent ++ out ∧ ∀ r ∈ out, P r

/-- What the second part of a session adds. -/
theorem bind_sent {σ α β : Type} {P : Sent → Prop} {m : Session σ α} {f : α → Session σ β}
    (next : ∀ a, Sends P (f a)) (w : Wire σ) :
    ∃ out, ((m >>= f) w).2.sent = (m w).2.sent ++ out ∧ ∀ r ∈ out, P r := by
  change ∃ out, (ExceptT.bindCont f (m w).1 (m w).2).2.sent = _ ∧ _
  cases (m w).1 with
  | error text => exact ⟨[], (List.append_nil _).symm, by simp⟩
  | ok a => exact next a (m w).2

namespace Sends
variable {σ α β : Type} {P : Sent → Prop}

theorem pure (a : α) : Sends P (pure a : Session σ α) := by
  intro w
  exact ⟨[], (List.append_nil _).symm, by simp⟩

theorem throw (text : String) : Sends P (throw text : Session σ α) := by
  intro w
  exact ⟨[], (List.append_nil _).symm, by simp⟩

theorem bind {m : Session σ α} {f : α → Session σ β} (first : Sends P m)
    (next : ∀ a, Sends P (f a)) : Sends P (m >>= f) := by
  intro w
  obtain ⟨out, sent, all⟩ := first w
  obtain ⟨more, later, rest⟩ := bind_sent next w
  refine ⟨out ++ more, by rw [later, sent, List.append_assoc], ?_⟩
  intro r member
  rcases List.mem_append.mp member with early | late
  · exact all r early
  · exact rest r late

variable (S : BiffSocket σ) (md5 : Md5)

theorem send {cmd : Word} {arg : Nat} {data : List Byte} (h : P ⟨cmd, arg, data⟩) :
    Sends P (send S cmd arg data) := by
  intro w
  exact ⟨[⟨cmd, arg, data⟩], rfl, by simpa using h⟩

variable (reset : ∀ data, P ⟨typeDataReset, 0, data⟩) (add : ∀ arg data, P ⟨typeDataAdd, arg, data⟩)
  (digest : ∀ data, P ⟨typeDataDigest, 0, data⟩)

include add in
theorem addAll (packets : List (List Byte)) : Sends P (addAll S packets) := by
  induction packets with
  | nil => exact .pure ()
  | cons i rest ih =>
    apply Sends.bind (.send S (add _ _))
    intro _
    exact ih

include reset add digest

theorem transfer (chunk : List Byte) : Sends P (transfer S md5 chunk) := by
  apply Sends.bind (.send S (reset _))
  intro _
  apply Sends.bind (.addAll S add _)
  intro _
  apply Sends.bind (.send S (digest _))
  intro _
  exact .pure _

theorem attempts (chunk : List Byte) (left : Nat) : Sends P (attempts S md5 chunk left) := by
  induction left with
  | zero => exact .pure _
  | succ left ih =>
    apply Sends.bind (.transfer S md5 reset add digest chunk)
    intro txed
    cases txed with
    | true => exact .pure _
    | false => exact ih

omit reset add digest in
theorem erased (ok : Bool) (buf : List Byte) {next : Session σ Unit} (h : Sends P next) :
    Sends P (erased ok buf next) := by
  unfold Biffboot.erased
  split
  · split
    · exact h
    · exact .throw _
  · exact .throw _

omit reset add digest in
theorem eraseAll (sectors : List Nat) (erase : ∀ i ∈ sectors, P ⟨typeEraseSector, i, []⟩) :
    Sends P (eraseAll S sectors) := by
  induction sectors with
  | nil => exact .pure ()
  | cons i rest ih =>
    apply Sends.bind (.send S (erase i (List.mem_cons_self ..)))
    rintro ⟨ok, buf⟩
    apply Sends.erased
    apply ih
    intro j later
    exact erase j (List.mem_cons_of_mem i later)

omit reset add digest in
theorem written (offset : Nat) (ok : Bool) (err : List Byte) {next : Session σ Unit}
    (h : Sends P next) : Sends P (written offset ok err next) := by
  unfold Biffboot.written
  split
  · split
    · split
      · exact h
      · exact .throw _
    · exact .throw _
  · exact .throw _

theorem writeAll (parts : List (List Byte)) (offset : Nat)
    (write : ∀ k < offset + parts.length, P ⟨typeDataWrite, k, []⟩) :
    Sends P (writeAll S md5 parts offset) := by
  induction parts generalizing offset with
  | nil => exact .pure ()
  | cons chunk rest ih =>
    rw [List.length_cons] at write
    apply Sends.bind (.attempts S md5 reset add digest chunk 5)
    intro txed
    cases txed with
    | false => exact .throw _
    | true =>
      apply Sends.bind (.send S (write offset (by omega)))
      rintro ⟨ok, err⟩
      apply Sends.written
      apply ih
      intro k small
      exact write k (by omega)

end Sends

/-- Whatever the session is answered, it sends something. -/
def Talks {σ α : Type} (m : Session σ α) : Prop :=
  ∀ w, ∃ out, (m w).2.sent = w.sent ++ out ∧ out ≠ []

theorem Talks.send {σ : Type} (S : BiffSocket σ) (cmd : Word) (arg : Nat) (data : List Byte) :
    Talks (Biffboot.send S cmd arg data) := by
  intro w
  exact ⟨[⟨cmd, arg, data⟩], rfl, List.cons_ne_nil _ _⟩

theorem Talks.bind {σ α β : Type} {P : Sent → Prop} {m : Session σ α} {f : α → Session σ β}
    (first : Talks m) (next : ∀ a, Sends P (f a)) : Talks (m >>= f) := by
  intro w
  obtain ⟨out, sent, nonempty⟩ := first w
  obtain ⟨more, later, -⟩ := bind_sent next w
  refine ⟨out ++ more, by rw [later, sent, List.append_assoc], ?_⟩
  exact List.append_ne_nil_of_left_ne_nil nonempty more

/-! ## Over the serial line -/

/-- What the script does with the console of the board. -/
inductive Exchange where
  | send (text : String)
  | write (data : List Byte)
  | expect (text : String)
  deriving DecidableEq, Repr

/-- `"%03d" % n`. -/
def threeDigits (n : Nat) : String :=
  String.ofList (List.replicate (3 - (toString n).length) '0') ++ toString n

/-- Four dashes, the digest and the payload. -/
def packet (md5 : Md5) (payload : List Byte) : List Byte :=
  List.replicate 4 0x2d#8 ++ md5.digest payload ++ payload

/-- `FirmwareToPackets`: the packets, and by how much they have been filled up. -/
def firmwareToPackets (md5 : Md5) (data : List Byte) : List (List Byte) × Nat :=
  let cut := (List.range ((data.length + 8191) / 8192)).map fun i => (data.drop (i * 8192)).take 8192
  (cut.map fun chunk => packet md5 (padChunk chunk), (cut.map fun chunk => 8192 - chunk.length).sum)

/-- `Flash`. -/
def flash (chunk : List Byte) (offset : Nat) : List Exchange :=
  [.send "2", .expect "Waiting for data..."] ++
  ((List.range ((chunk.length + 255) / 256)).map fun i => .write ((chunk.drop (i * 256)).take 256)) ++
  [.expect "BIFFBOOT> ", .send "3", .expect "BIFFBOOT> ", .send (threeDigits offset),
   .expect "Programmed OK", .expect "BIFFBOOT> "]

/-- What `UploadBinary` of `bb_upload.py` does on the console, as long as the
board says what is expected. -/
def console (parts : List (List Byte)) : List Exchange :=
  [.expect "ESC", .send "\x1b", .expect "BIFFBOOT> ", .send "1", .expect "BIFFBOOT> "] ++
    parts.zipIdx.flatMap fun (chunk, offset) => flash chunk offset

/-- `UploadBinary` of `bb_upload.py`. -/
def uploadBinarySerial (md5 : Md5) (data : List Byte) : Except String (List Exchange) :=
  if data.length > 0xEE000 then .error "Image size too large!"
  else .ok (console (firmwareToPackets md5 data).1)

/-- The text that is sent, if one is. -/
def Exchange.text : Exchange → Option String
  | .send text => some text
  | _ => none

/-- What the board is told at its prompts. -/
def sentTexts (exchanges : List Exchange) : List String := exchanges.filterMap Exchange.text

/-- What the menu is told for an image of so many packets: after every `3` the
number of the chunk, from 0 on. -/
def menuTexts (count : Nat) : List String :=
  ["\x1b", "1"] ++ (List.range count).flatMap fun k => ["2", "3", threeDigits k]

/-! ## The configuration tool -/

/-- The sizes `bb_eth_setconfig.py` offers, in MB. -/
def flashSizes : List Nat := [1, 4, 8]

/-- `GetConfigChunk`, for one of the sizes. -/
def getConfigChunk (flash : Nat) : Nat := (flash * 0x100000 - 0x10000) / 8192 - 1

/-! ## Where the chunks go -/

section
variable (fm : Flashmap) (lower : 3 ≤ fm.chunkCount) (upper : fm.chunkCount < 2 ^ 32)
include lower upper

/-- The chunk numbers are rotated, none gets lost. -/
theorem chunkToSector_bijOn :
    Set.BijOn (eonChunkToSector fm) (Set.Iio fm.chunkCount) (Set.Iio fm.chunkCount) := by
  refine ⟨?_, ?_, ?_⟩
  · intro k inside
    rw [Set.mem_Iio] at inside ⊢
    rw [eonChunkToSector_eq fm lower upper inside]
    split <;> omega
  · intro j first k second same
    rw [Set.mem_Iio] at first second
    rw [eonChunkToSector_eq fm lower upper first, eonChunkToSector_eq fm lower upper second] at same
    split at same <;> split at same <;> omega
  · intro sector inside
    rw [Set.mem_Iio] at inside
    by_cases low : sector < 3
    · have chunk : fm.chunkCount - 3 + sector < fm.chunkCount := by omega
      refine ⟨fm.chunkCount - 3 + sector, chunk, ?_⟩
      rw [eonChunkToSector_eq fm lower upper chunk, if_neg (by omega)]
      omega
    · have chunk : sector - 3 < fm.chunkCount := by omega
      refine ⟨sector - 3, chunk, ?_⟩
      rw [eonChunkToSector_eq fm lower upper chunk, if_pos (by omega)]
      omega

/-- The last chunk is the one of the configuration, at 0x4000. -/
theorem chunkToSector_last : eonChunkToSector fm (fm.chunkCount - 1) = 2 := by
  rw [eonChunkToSector_eq fm lower upper (by omega), if_neg (by omega)]
  omega

end

/-- The flash offset of a chunk of the 1 MB part. -/
def location (k : Nat) : Nat := eonChunkToSector Geometry.en800.toFlashmap k * 0x2000

/-- The chunk keeps away from the configuration. -/
def Spares (k : Nat) : Prop := location k + 0x2000 ≤ 0x4000 ∨ 0x6000 ≤ location k

/-- The chunk lies in a sector that the upload erases. -/
def InErased (k : Nat) : Prop := ∃ s ∈ gSectors, Geometry.en800.layout.start s = s ∧
  s ≤ location k ∧ location k + 0x2000 ≤ Geometry.en800.layout.stop s

theorem location_eq {k : Nat} (inside : k < 120) :
    location k = if k < 117 then (k + 3) * 0x2000 else (k - 117) * 0x2000 := by
  rw [location, eonChunkToSector_eq _ (by decide) (by decide) inside]
  change (if k < 117 then k + 3 else k - 117) * 0x2000 = _
  split <;> rfl

theorem spares_of_lt {k : Nat} (early : k < 119) : Spares k := by
  rw [Spares, location_eq (by omega)]
  split <;> omega

theorem mem_gSectors {s : Nat} (low : s = 0 ∨ s = 0x6000 ∨ s = 0x8000 ∨
    (s % 0x10000 = 0 ∧ 0x10000 ≤ s ∧ s ≤ 0xE0000)) : s ∈ gSectors := by
  have upper : ∀ k < 14, (k + 1) * 0x10000 ∈ gSectors := by decide
  rcases low with rfl | rfl | rfl | ⟨aligned, lower, high⟩
  · decide
  · decide
  · decide
  · have place : s = (s / 0x10000 - 1 + 1) * 0x10000 := by omega
    rw [place]
    exact upper _ (by omega)

theorem inErased_of_lt {k : Nat} (early : k < 119) : InErased k := by
  have place := location_eq (show k < 120 by omega)
  have apart := spares_of_lt early
  unfold Spares at apart
  have aligned : location k % 0x2000 = 0 ∧ location k < 0xF0000 := by
    rw [place]
    split <;> omega
  have inside : location k < Geometry.en800.size := Nat.lt_trans aligned.2 (by decide)
  have sector := Geometry.en800.span (location k) inside
  have start := Geometry.en800.span (Geometry.en800.layout.start (location k)) (by omega)
  have one : Geometry.en800.deviceSize = 1 := rfl
  refine ⟨Geometry.en800.layout.start (location k), mem_gSectors ?_, ?_, ?_, ?_⟩ <;> omega

/-- Both limits are the same one. -/
theorem count_gt_iff (data : List Byte) :
    (dataToChunks data 8192 (by decide)).length > 119 ↔ data.length > 0xEE000 := by
  rw [dataToChunks_length]
  omega

section
variable {σ : Type} (S : BiffSocket σ) (md5 : Md5) {data : List Byte}

theorem uploadBinary_refused (large : data.length > 0xEE000) (w : Wire σ) :
    uploadBinary S md5 data w = (.error "Image size too large!", w) := by
  rw [uploadBinary, if_pos ((count_gt_iff data).mpr large)]
  rfl

theorem uploadBinary_accepted (fits : ¬ data.length > 0xEE000) : uploadBinary S md5 data =
    eraseAll S gSectors >>= fun _ => writeAll S md5 (dataToChunks data 8192 (by decide)) 0 := by
  rw [uploadBinary, if_neg ((count_gt_iff data).not.mpr fits)]

/-- What the upload of so many chunks may ask for. -/
structure Allowed (count : Nat) (r : Sent) : Prop where
  erase : r.cmd = typeEraseSector → r.arg ∈ gSectors
  write : r.cmd = typeDataWrite → r.arg < count

theorem Allowed.other {count : Nat} {cmd : Word} (noErase : cmd ≠ typeEraseSector)
    (noWrite : cmd ≠ typeDataWrite) (arg : Nat) (data : List Byte) : Allowed count ⟨cmd, arg, data⟩ :=
  ⟨fun erase => absurd erase noErase, fun write => absurd write noWrite⟩

theorem sends_eraseAll (count : Nat) : Sends (Allowed count) (eraseAll S gSectors) := by
  apply Sends.eraseAll
  intro i listed
  refine ⟨fun _ => listed, ?_⟩
  intro write
  exact absurd (show typeEraseSector = typeDataWrite from write) (by decide)

theorem sends_writeAll (parts : List (List Byte)) :
    Sends (Allowed parts.length) (writeAll S md5 parts 0) := by
  apply Sends.writeAll
  · exact Allowed.other (by decide) (by decide) 0
  · exact Allowed.other (by decide) (by decide)
  · exact Allowed.other (by decide) (by decide) 0
  · intro k small
    rw [Nat.zero_add] at small
    refine ⟨?_, fun _ => small⟩
    intro erase
    exact absurd (show typeDataWrite = typeEraseSector from erase) (by decide)

theorem sends_uploadBinary (fits : ¬ data.length > 0xEE000) :
    Sends (Allowed (dataToChunks data 8192 (by decide)).length) (uploadBinary S md5 data) := by
  rw [uploadBinary_accepted S md5 fits]
  apply Sends.bind (sends_eraseAll S _)
  intro _
  exact sends_writeAll S md5 _

/-- An accepted image has at least one sector erased. -/
theorem talks_uploadBinary (fits : ¬ data.length > 0xEE000) : Talks (uploadBinary S md5 data) := by
  rw [uploadBinary_accepted S md5 fits]
  refine Talks.bind (P := fun _ => True) ?_ ?_
  · refine Talks.bind (P := fun _ => True) (Talks.send S _ _ _) ?_
    rintro ⟨ok, buf⟩
    apply Sends.erased
    apply Sends.eraseAll
    intro _ _
    trivial
  · intro _
    apply Sends.writeAll
    all_goals
      intros
      trivial

theorem uploadBinary_refused_iff (w : Wire σ) :
    uploadBinary S md5 data w = (.error "Image size too large!", w) ↔ data.length > 0xEE000 := by
  constructor
  · intro refused
    by_contra fits
    obtain ⟨out, sent, nonempty⟩ := talks_uploadBinary S md5 fits w
    rw [refused] at sent
    exact nonempty (List.self_eq_append_right.mp sent)
  · intro large
    exact uploadBinary_refused S md5 large w

end

theorem uploadBinarySerial_refused_iff (md5 : Md5) (data : List Byte) :
    uploadBinarySerial md5 data = .error "Image size too large!" ↔ data.length > 0xEE000 := by
  unfold uploadBinarySerial
  constructor
  · intro refused
    by_contra fits
    rw [if_neg fits] at refused
    cases refused
  · intro large
    rw [if_pos large]

theorem packets_length (md5 : Md5) (data : List Byte) :
    (firmwareToPackets md5 data).1.length = (data.length + 8191) / 8192 := by
  simp only [firmwareToPackets, List.length_map, List.length_range]

theorem sentTexts_flash (chunk : List Byte) (offset : Nat) :
    sentTexts (flash chunk offset) = ["2", "3", threeDigits offset] := by
  have writes (data : Nat → List Byte) (count : Nat) :
      sentTexts ((List.range count).map fun i => .write (data i)) = [] := by
    rw [sentTexts, List.filterMap_map, List.filterMap_eq_nil_iff]
    intro i _
    rfl
  rw [flash, sentTexts, List.filterMap_append, List.filterMap_append]
  exact congrArg (["2"] ++ · ++ ["3", threeDigits offset]) (writes _ _)

theorem sentTexts_console (parts : List (List Byte)) :
    sentTexts (console parts) = menuTexts parts.length := by
  have chunks : sentTexts (parts.zipIdx.flatMap fun p => flash p.1 p.2) =
      (parts.zipIdx.map Prod.snd).flatMap fun k => ["2", "3", threeDigits k] := by
    rw [sentTexts, List.filterMap_flatMap, List.flatMap_map]
    congr 1
    funext p
    exact sentTexts_flash p.1 p.2
  rw [List.zipIdx_map_snd, ← List.range_eq_range'] at chunks
  rw [console, sentTexts, List.filterMap_append, menuTexts]
  exact congrArg _ chunks

/-- The last chunk holds the configuration, at 0x4000, and no image that one of
the tools accepts gets there. -/
theorem config_block_protected :
    (∀ fm : Flashmap, 3 ≤ fm.chunkCount → fm.chunkCount < 2 ^ 32 →
      Set.BijOn (eonChunkToSector fm) (Set.Iio fm.chunkCount) (Set.Iio fm.chunkCount) ∧
      eonChunkToSector fm (fm.chunkCount - 1) = 2) ∧
    (∀ flash ∈ flashSizes, ∃ g : Geometry, g.size = flash * 0x100000 ∧
      getConfigChunk flash = g.chunkCount - 1) ∧
    (∀ (md5 : Md5) (data : List Byte), uploadBinarySerial md5 data ≠ .error "Image size too large!" →
      ∃ exchanges, uploadBinarySerial md5 data = .ok exchanges ∧
        sentTexts exchanges = menuTexts (firmwareToPackets md5 data).1.length ∧
        ∀ k < (firmwareToPackets md5 data).1.length, Spares k) ∧
    (∀ (σ : Type) (S : BiffSocket σ) (md5 : Md5) (data : List Byte) (w : Wire σ),
      (uploadBinary S md5 data w = (.error "Image size too large!", w) ↔
        uploadBinarySerial md5 data = .error "Image size too large!") ∧
      (uploadBinary S md5 data w ≠ (.error "Image size too large!", w) →
        Sends (Allowed (dataToChunks data 8192 (by decide)).length) (uploadBinary S md5 data) ∧
        ∀ k < (dataToChunks data 8192 (by decide)).length, Spares k ∧ InErased k)) := by
  refine ⟨?_, ?_, ?_, ?_⟩
  · intro fm lower upper
    exact ⟨chunkToSector_bijOn fm lower upper, chunkToSector_last fm lower upper⟩
  · intro flash offered
    simp only [flashSizes, List.mem_cons, List.not_mem_nil, or_false] at offered
    rcases offered with rfl | rfl | rfl
    · exact ⟨.en800, rfl, rfl⟩
    · exact ⟨.en320, rfl, rfl⟩
    · exact ⟨.en640, rfl, rfl⟩
  · intro md5 data accepted
    rw [Ne, uploadBinarySerial_refused_iff] at accepted
    refine ⟨_, if_neg accepted, sentTexts_console _, ?_⟩
    intro k inside
    rw [packets_length] at inside
    exact spares_of_lt (by omega)
  · intro σ S md5 data w
    refine ⟨?_, ?_⟩
    · rw [uploadBinary_refused_iff, uploadBinarySerial_refused_iff]
    · intro accepted
      rw [Ne, uploadBinary_refused_iff] at accepted
      refine ⟨sends_uploadBinary S md5 accepted, ?_⟩
      intro k inside
      have few := (count_gt_iff data).not.mpr accepted
      exact ⟨spares_of_lt (by omega), inErased_of_lt (by omega)⟩

end Bifferboard.Upload.Biffboot
