import Bifferboard.Biffnor.Eon

/-!
# `/dev/biffkernel`

The file operations of the kernel device. Writes are collected in an 8 KB
buffer that is flushed when it is full, and once more on release; where it
goes is computed from the file position at that moment.
-/

namespace Bifferboard
open Nor

def ENOMEM : Int := 12
def EINVAL : Int := 22
def ENOSPC : Int := 28

/-- `struct kernel_fp_private`. The fill of the write buffer never exceeds the
buffer, whatever the calls. -/
structure KernelFpPrivate where
  filepos : Nat
  readBuffer : Nat → Byte
  writeBuffer : Nat → Byte
  writeBufferPos : Nat
  writeBufferPos_le : writeBufferPos ≤ 0x2000

def writeBufferReset (priv : KernelFpPrivate) : KernelFpPrivate :=
  { priv with writeBuffer := fun _ => 0xff#8, writeBufferPos := 0, writeBufferPos_le := Nat.zero_le _ }

/-- What `kzalloc` returns. -/
def KernelFpPrivate.zeroed : KernelFpPrivate := ⟨0, fun _ => 0#8, fun _ => 0#8, 0, Nat.zero_le _⟩

/-- A freshly opened handle. -/
def KernelFpPrivate.fresh : KernelFpPrivate := writeBufferReset .zeroed

def biffkernelOpen (allocated : Bool) : Except Int KernelFpPrivate :=
  if allocated then .ok .fresh else .error (-ENOMEM)

/-- The chunk `buffer_write` flushes to: just before `filepos` at the end of a
chunk, else the chunk that `filepos` is in. -/
def flushChunk (filepos : Nat) : Nat :=
  if filepos % 0x2000 = 0 then (filepos / 0x2000 + 2 ^ 32 - 1) % 2 ^ 32 else filepos / 0x2000

/-- A byte buffer seen through an `unsigned short*`. -/
def asShorts (buffer : Nat → Byte) : Nat → Word := fun i =>
  Word.ofBytes (buffer (2 * i)) (buffer (2 * i + 1))

/-- What of `remaining` bytes still fits in the write buffer. -/
def KernelFpPrivate.toCopy (priv : KernelFpPrivate) (remaining : Nat) : Nat :=
  min (0x2000 - priv.writeBufferPos) remaining

/-- `to_copy` bytes of `ubuf` go to the write buffer, both positions advance. -/
def KernelFpPrivate.copyIn (priv : KernelFpPrivate) (ubuf : List Byte) : KernelFpPrivate where
  filepos := priv.filepos + priv.toCopy ubuf.length
  readBuffer := priv.readBuffer
  writeBuffer := fun i =>
    if priv.writeBufferPos ≤ i ∧ i < priv.writeBufferPos + priv.toCopy ubuf.length then
      ubuf.getD (i - priv.writeBufferPos) 0#8
    else priv.writeBuffer i
  writeBufferPos := priv.writeBufferPos + priv.toCopy ubuf.length
  writeBufferPos_le := by
    have := priv.writeBufferPos_le
    unfold KernelFpPrivate.toCopy
    omega

namespace KernelFpPrivate

variable (priv : KernelFpPrivate) (ubuf : List Byte)

@[simp] theorem copyIn_filepos :
    (priv.copyIn ubuf).filepos = priv.filepos + priv.toCopy ubuf.length := rfl

@[simp] theorem copyIn_writeBufferPos :
    (priv.copyIn ubuf).writeBufferPos = priv.writeBufferPos + priv.toCopy ubuf.length := rfl

theorem copyIn_writeBuffer (i : Nat) : (priv.copyIn ubuf).writeBuffer i =
    if priv.writeBufferPos ≤ i ∧ i < priv.writeBufferPos + priv.toCopy ubuf.length then
      ubuf.getD (i - priv.writeBufferPos) 0#8
    else priv.writeBuffer i := rfl

end KernelFpPrivate

/-- Two's complement on 64 bits, the range of `loff_t`. -/
def wrap64 (x : Int) : Int := x.bmod (2 ^ 64)

/-- An open handle together with the world its calls act on. -/
structure File (σ : Type) where
  priv : KernelFpPrivate
  world : World σ

section
variable {σ : Type} (B : Bus σ) (fm : Flashmap)

/-- The flash offset of a chunk, `EON_ChunkToSector(chunk) * FLASHMAP_CHUNK_SIZE`. -/
def chunkSect (chunk : Nat) : Nat := eonChunkToSector fm chunk * 0x2000 % 2 ^ 32

/-- Read from memory into the chunk buffer. -/
def bufferRead (f : File σ) : File σ :=
  let chunk := f.priv.filepos / 0x2000
  let sect := chunkSect fm chunk
  let w := f.world.note (.printk ("BIFFKERNEL: Reading chunk " ++ fmtD chunk ++ "\n"))
  let loaded := eonReadRange B sect f.priv.readBuffer 0x2000 w
  ⟨{ f.priv with readBuffer := loaded.1 }, loaded.2⟩

/-- The message of `buffer_write`. -/
def flushText (priv : KernelFpPrivate) : String :=
  if priv.filepos % 0x2000 = 0 then
    "BIFFKERNEL: Writing chunk " ++ fmtD (flushChunk priv.filepos) ++ "\n"
  else "BIFFKERNEL: Writing partial chunk " ++ fmtD (flushChunk priv.filepos) ++ " ("
    ++ fmtD priv.writeBufferPos ++ " bytes)\n"

/-- Write the buffer to flash. The result of `flash_write_chunk` is dropped. -/
def bufferWrite (f : File σ) : File σ :=
  let chunk := flushChunk f.priv.filepos
  let sect := chunkSect fm chunk
  let w := (f.world.note (.printk (flushText f.priv))).note (.flush chunk)
  ⟨writeBufferReset f.priv,
    (flashWriteChunk B fm (asShorts f.priv.writeBuffer) sect f.priv.writeBufferPos w).2⟩

/-- The loop of `biffkernel_write`; `ubuf` holds the `remaining` bytes of the
`count` the caller passed. A round on a full buffer flushes it without taking
a byte, which the measure counts as half a byte. -/
def writeLoop (count : Nat) (ubuf : List Byte) (f : File σ) : Int × File σ :=
  if ubuf = [] then (count, f)
  else if fm.kernelSize ≤ f.priv.filepos then
    let w := f.world.note (.printk ("BIFFKERNEL: Attempt to write past end of flash kernel area ("
      ++ fmtX fm.kernelSize ++ ")\n"))
    if count = ubuf.length then (-ENOSPC, ⟨f.priv, w⟩)
    else ((count : Int) - ubuf.length, ⟨f.priv, w⟩)
  else
    let rest := ubuf.drop (f.priv.toCopy ubuf.length)
    let filled : File σ := ⟨f.priv.copyIn ubuf, f.world⟩
    if filled.priv.writeBufferPos = 0x2000 then writeLoop count rest (bufferWrite B fm filled)
    else writeLoop count rest filled
termination_by 2 * ubuf.length + f.priv.writeBufferPos / 0x2000
decreasing_by
  all_goals
    rename_i nonempty _ full
    have positive : ubuf.length ≠ 0 := fun h => nonempty (List.length_eq_zero_iff.mp h)
    have bound := f.priv.writeBufferPos_le
    simp only [filled, List.length_drop, bufferWrite, writeBufferReset,
      KernelFpPrivate.copyIn, KernelFpPrivate.toCopy] at full ⊢
    omega

def biffkernelWrite (ubuf : List Byte) (f : File σ) : Int × File σ :=
  writeLoop B fm ubuf.length ubuf f

/-- `biffkernel_read`: the bytes it copies to the user, whose number is its
return value. -/
def biffkernelRead (remaining : Nat) (f : File σ) : List Byte × File σ :=
  if remaining = 0 then ([], f)
  else if fm.kernelSize ≤ f.priv.filepos then ([], f)
  else
    let readpos := f.priv.filepos % 0x2000
    let loaded := bufferRead B fm f
    let toread := min (0x2000 - readpos) remaining
    let data := (List.range toread).map fun i => loaded.priv.readBuffer (readpos + i)
    let rest := biffkernelRead (remaining - toread)
      ⟨{ loaded.priv with filepos := loaded.priv.filepos + toread }, loaded.world⟩
    (data ++ rest.1, rest.2)
termination_by remaining
decreasing_by omega

/-- The target of a seek, before it is clipped. -/
def seekTarget (filepos : Nat) (offset whence : Int) : Option Int :=
  if whence = 0 then some (wrap64 offset)
  else if whence = 1 then some (wrap64 (filepos + offset))
  else if whence = 2 then some (wrap64 (fm.kernelSize - offset))
  else none

/-- A seek abandons any write that was in progress. -/
def biffkernelSeek (offset whence : Int) (f : File σ) : Int × File σ :=
  match seekTarget fm f.priv.filepos offset whence with
  | none => (-EINVAL, f)
  | some newpos =>
    let w := f.world.note (.printk ("BIFFKERNEL: Seeking to ("
      ++ fmtX (newpos % 2 ^ 64).toNat ++ ")\n"))
    if newpos < 0 then (-EINVAL, ⟨f.priv, w⟩)
    else
      let newpos := if (fm.kernelSize : Int) ≤ newpos then (fm.kernelSize : Int) else newpos
      let loaded := bufferRead B fm ⟨{ f.priv with filepos := newpos.toNat % 2 ^ 32 }, w⟩
      (newpos, ⟨writeBufferReset loaded.priv, loaded.world⟩)

def biffkernelRelease (f : File σ) : Int × World σ :=
  (0, if f.priv.writeBufferPos ≠ 0 then (bufferWrite B fm f).world else f.world)

end

/-! ## Sequences of calls -/

/-- The calls on an open handle that leave it open. -/
inductive FileOp where
  | read (count : Nat)
  | write (ubuf : List Byte)
  | seek (offset whence : Int)
  deriving DecidableEq, Repr

section
variable {σ : Type} (B : Bus σ) (fm : Flashmap)

/-- One call: its return value and the state it leaves. -/
def FileOp.call (op : FileOp) (f : File σ) : Int × File σ :=
  match op with
  | .read count =>
    let done := biffkernelRead B fm count f
    (done.1.length, done.2)
  | .write ubuf => biffkernelWrite B fm ubuf f
  | .seek offset whence => biffkernelSeek B fm offset whence f

/-- The state after a sequence of calls. -/
def runOps (ops : List FileOp) (f : File σ) : File σ :=
  ops.foldl (fun f op => (op.call B fm f).2) f

@[simp] theorem runOps_nil (f : File σ) : runOps B fm [] f = f := rfl

@[simp] theorem runOps_cons (op : FileOp) (ops : List FileOp) (f : File σ) :
    runOps B fm (op :: ops) f = runOps B fm ops (op.call B fm f).2 := rfl

/-- `open`, the calls, `release`: the world a session leaves. -/
def session (ops : List FileOp) (w : World σ) : World σ :=
  (biffkernelRelease B fm (runOps B fm ops ⟨.fresh, w⟩)).2

end

end Bifferboard
