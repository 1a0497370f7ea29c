import Mathlib.Algebra.Group.Nat.Defs
import Mathlib.Algebra.Group.Int.Defs
import Bifferboard.Biffnor.Flashmap

/-!
# Flash primitives of the kernel driver

The driver is modelled over an arbitrary bus: every theorem that does not
name a chip holds for whatever the hardware answers. Besides the hardware the
state carries a trace. It holds the driver's kernel messages and, for the
statements only, which erase and program commands it issued, what the flash
primitives returned and which chunk each flush went to.
-/

namespace Bifferboard
open Nor

/-- The primitives whose result `flash_write_chunk` gets back. -/
inductive Primitive where
  | eraseSector
  | programRange
  | verifyRange
  deriving DecidableEq, Repr

inductive Event where
  | printk (text : String)
  /-- The erase command for the sector at `addr` was issued. -/
  | erase (addr : Nat)
  /-- The program command for the word at `addr` was issued. -/
  | program (addr : Nat) (val : Word)
  | returned (by_ : Primitive) (ret : Int)
  /-- `buffer_write` asked for the location of `chunk`. -/
  | flush (chunk : Nat)
  deriving DecidableEq, Repr

structure World (σ : Type) where
  hw : σ
  trace : List Event

def World.note {σ : Type} (w : World σ) (e : Event) : World σ := { w with trace := w.trace ++ [e] }

@[simp] theorem World.note_hw {σ : Type} (w : World σ) (e : Event) : (w.note e).hw = w.hw := rfl

@[simp] theorem World.note_trace {σ : Type} (w : World σ) (e : Event) :
    (w.note e).trace = w.trace ++ [e] := rfl

/-- `%d` of a 32-bit value. -/
def fmtD (n : Nat) : String := toString (if n < 2 ^ 31 then (n : Int) else (n : Int) - 2 ^ 32)

/-- `%x`. -/
def fmtX (n : Nat) : String := String.ofList (Nat.toDigits 16 n)

section
variable {σ : Type} (read : World σ → Byte × World σ)

/-- The status loops of `EON_EraseSector` and `EON_ProgramWord`: read pairs of
status bytes until bit 6 stops toggling. `timedOut` is the loop's own test of
bit 5 on the second byte of a pair. Yields the loop's `count`. -/
def pollToggle (timedOut : Byte → Bool) (count : Nat) (prev cur : Byte) (w : World σ) :
    Nat × World σ :=
  if prev = cur then (count, w)
  else
    let (p, w) := read w
    let (c, w) := read w
    if timedOut c then
      let (p, w) := read w
      let (c, w) := read w
      (if p &&& 0x40#8 ≠ c &&& 0x40#8 then 0xffffff else count, w)
    else if 0x100000 < count then (count + 1, w)
    else pollToggle timedOut (count + 1) (p &&& 0x40#8) (c &&& 0x40#8) w
termination_by 0x100001 - count

/-- The status check after a command: two reads, then the loop. -/
def pollStatus (timedOut : Byte → Bool) (w : World σ) : Nat × World σ :=
  let (prev, w) := read w
  let (cur, w) := read w
  pollToggle read timedOut 0 (prev &&& 0x40#8) (cur &&& 0x40#8) w

end

section
variable {σ : Type} (B : Bus σ) (fm : Flashmap)

def writeFlash (addr : Nat) (data : Byte) (w : World σ) : World σ :=
  { w with hw := B.write8 w.hw addr data }

def writeFlash16 (addr : Nat) (data : Word) (w : World σ) : World σ :=
  { w with hw := B.write16 w.hw addr data }

/-- The delay argument of `ReadFLASH` only burns time. -/
def readFlash (addr : Nat) (w : World σ) : Byte × World σ :=
  ((B.read8 w.hw addr).1, { w with hw := (B.read8 w.hw addr).2 })

def readFlash16Fast (addr : Nat) (w : World σ) : Word × World σ :=
  ((B.read16 w.hw addr).1, { w with hw := (B.read16 w.hw addr).2 })

def readFlash32Fast (addr : Nat) (w : World σ) : Dword × World σ :=
  ((B.read32 w.hw addr).1, { w with hw := (B.read32 w.hw addr).2 })

/-- One 8 KB step of `flashmap_iserased`, with `words` 32-bit reads to go. -/
def iserasedChunk : (words : Nat) → (addr : Nat) → World σ → Bool × World σ
  | 0, _, w => (true, w)
  | words + 1, addr, w =>
    let (val, w) := readFlash32Fast B addr w
    if val ≠ 0xffffffff#32 then (false, w) else iserasedChunk words (addr + 4) w

/-- The outer loop of `flashmap_iserased`. -/
def iserasedSector (addr : Nat) (w : World σ) : Bool × World σ :=
  if addr < fm.size then
    let (blank, w) := iserasedChunk B (0x2000 / 4) addr w
    if blank = false then (false, w)
    else if flashmapIsboundary fm (addr + 0x2000) then (true, w)
    else iserasedSector (addr + 0x2000) w
  else (true, w)
termination_by fm.size - addr
decreasing_by omega

/-- Return true if this flash sector is 0xff. -/
def flashmapIserased (addr : Nat) (w : World σ) : Bool × World σ :=
  if flashmapIsboundary fm addr = false then (false, w) else iserasedSector B fm addr w

def eraseCommand (addr : Nat) (w : World σ) : World σ :=
  let w := writeFlash B 0xaaa 0xaa#8 w
  let w := writeFlash B 0x555 0x55#8 w
  let w := writeFlash B 0xaaa 0x80#8 w
  let w := writeFlash B 0xaaa 0xaa#8 w
  let w := writeFlash B 0x555 0x55#8 w
  writeFlash B addr 0x30#8 (w.note (.erase addr))

/-- The loop of the source masks the status byte with 0x40 before it tests
0x20. -/
def eonEraseSector (addr : Nat) (w : World σ) : Int × World σ :=
  if fm.size ≤ addr then
    (-1, w.note (.printk "BIFFKERNEL: Attempt to erase sector outside allowed range"))
  else
    let (count, w) := pollStatus (readFlash B addr) (fun c => c &&& 0x40#8 &&& 0x20#8 != 0#8)
      (eraseCommand B addr w)
    if 0x100000 < count then (-1, w) else (count, w)

def programCommand (addr : Nat) (val : Word) (w : World σ) : World σ :=
  let w := writeFlash B 0xaaa 0xaa#8 w
  let w := writeFlash B 0x555 0x55#8 w
  let w := writeFlash B 0xaaa 0xa0#8 w
  writeFlash16 B addr val (w.note (.program addr val))

def eonProgramWord (addr : Nat) (val : Word) (w : World σ) : Int × World σ :=
  if fm.size ≤ addr then
    (-1, w.note (.printk "BIFFKERNEL: Attempt to write beyond flash range"))
  else
    let (count, w) := pollStatus (readFlash B addr) (fun c => c &&& 0x20#8 != 0#8)
      (programCommand B addr val w)
    if 0x10000 < count then (-1, w.note (.printk "BIFFKERNEL: Error writing to flash"))
    else (count, w)

/-- `dest` is a flash offset, `count` a count of shorts. -/
def eonProgramRange : (count : Nat) → (src : Nat → Word) → (dest : Nat) → World σ → Int × World σ
  | 0, _, _, w => (0, w)
  | count + 1, src, dest, w =>
    let (ret, w) := eonProgramWord B fm dest (src 0) w
    if ret < 0 then (-1, w.note (.printk "BIFFKERNEL: Word programmed incorrectly"))
    else eonProgramRange count (fun i => src (i + 1)) (dest + 2) w

def eonVerifyRange : (count : Nat) → (src : Nat → Word) → (dest : Nat) → World σ → Int × World σ
  | 0, _, _, w => (0, w)
  | count + 1, src, dest, w =>
    let (val, w) := readFlash16Fast B dest w
    if src 0 ≠ val then (-1, w.note (.printk "BIFFKERNEL: Verify failed"))
    else eonVerifyRange count (fun i => src (i + 1)) (dest + 2) w

/-- The loop of `EON_ReadRange`: `count` 32-bit reads into `dest` from index
`i` on. -/
def readRangeFrom : (count : Nat) → (src i : Nat) → (dest : Nat → Byte) → World σ →
    (Nat → Byte) × World σ
  | 0, _, _, dest, w => (dest, w)
  | count + 1, src, i, dest, w =>
    let (val, w) := readFlash32Fast B src w
    readRangeFrom count (src + 4) (i + 4)
      (fun x => if i ≤ x ∧ x < i + 4 then val.byte (x - i) else dest x) w

@[irreducible] def eonReadRange (src : Nat) (dest : Nat → Byte) (count : Nat) (w : World σ) :
    (Nat → Byte) × World σ :=
  readRangeFrom B (count / 4) src 0 dest w

/-- Given the chunk number, the actual location of the 8k block. All 32-bit
values; the subtractions wrap and the comparison is unsigned. -/
def eonChunkToSector (chunk : Nat) : Nat :=
  let legacy := (fm.chunkCount + 2 ^ 32 - 3) % 2 ^ 32
  if chunk < legacy then (chunk + 3) % 2 ^ 32 else (chunk + 2 ^ 32 - legacy) % 2 ^ 32

/-- The chunks are rotated by three places, and nothing wraps. -/
theorem eonChunkToSector_eq (lower : 3 ≤ fm.chunkCount) (upper : fm.chunkCount < 2 ^ 32) {k : Nat}
    (inside : k < fm.chunkCount) : eonChunkToSector fm k =
      if k < fm.chunkCount - 3 then k + 3 else k - (fm.chunkCount - 3) := by
  have legacy : (fm.chunkCount + 2 ^ 32 - 3) % 2 ^ 32 = fm.chunkCount - 3 := by omega
  unfold eonChunkToSector
  rw [legacy]
  by_cases low : k < fm.chunkCount - 3
  · rw [if_pos low, if_pos low]
    omega
  · rw [if_neg low, if_neg low]
    omega

/-- The part of `flash_write_chunk` that prepares the sector. The result of
`EON_EraseSector` is dropped by the source. -/
def eraseAsNeeded (dest : Nat) (w : World σ) : World σ :=
  if flashmapIsboundary fm dest then
    let checked := flashmapIserased B fm dest w
    if checked.1 then checked.2
    else
      let erased := eonEraseSector B fm dest checked.2
      erased.2.note (.returned .eraseSector erased.1)
  else w

/-- Write `len` bytes at flash offset `dest`. The guard is added up in 32 bits. -/
def flashWriteChunk (src : Nat → Word) (dest len : Nat) (w : World σ) : Int × World σ :=
  if fm.size - 0x10000 < (dest + len) % 2 ^ 32 then
    (1, w.note (.printk "BIFFKERNEL: Invalid location for flash write\n"))
  else
    let programmed := eonProgramRange B fm (len / 2) src dest (eraseAsNeeded B fm dest w)
    let w := programmed.2.note (.returned .programRange programmed.1)
    if programmed.1 < 0 then (1, w)
    else
      let verified := eonVerifyRange B (len / 2) src dest w
      let w := verified.2.note (.returned .verifyRange verified.1)
      if verified.1 < 0 then (1, w) else (0, w)

end

end Bifferboard
