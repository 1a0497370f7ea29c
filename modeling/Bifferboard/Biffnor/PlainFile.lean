import Bifferboard.Biffnor.Chunks
import Bifferboard.Biffnor.Cursor

/-!
# `/dev/biffkernel` reads like a plain file

A plain file is an array of bytes and a position. The driver reads through a
buffer of one chunk, and its chunks are rotated in the flash; a seek to the end
fills the buffer with a chunk that is behind the last. Still no sequence of reads
and seeks can tell the device from a file.
-/

namespace Bifferboard
open Nor

/-! ## A plain file -/

/-- The calls that do not write. -/
inductive ReadCall where
  | read (count : Nat)
  | seek (offset whence : Int)
  deriving DecidableEq, Repr

/-- What a caller gets back. -/
inductive Answer where
  | data (bytes : List Byte)
  | returned (ret : Int)
  deriving DecidableEq, Repr

structure PlainFile where
  image : Nat → Byte
  size : Nat

namespace PlainFile
variable (p : PlainFile)

/-- The bytes from `pos` on, `count` of them or up to the end. -/
def slice (pos count : Nat) : List Byte :=
  (List.range (min (pos + count) p.size - pos)).map fun i => p.image (pos + i)

/-- Where a seek leads to. The driver counts backwards from the end. -/
def target (pos : Nat) (offset whence : Int) : Option Int :=
  if whence = 0 then some offset
  else if whence = 1 then some (pos + offset)
  else if whence = 2 then some (p.size - offset)
  else none

/-- A call at a position: the answer, and the new position. -/
def call (pos : Nat) : ReadCall → Answer × Nat
  | .read count => (.data (p.slice pos count), pos + (p.slice pos count).length)
  | .seek offset whence =>
    match p.target pos offset whence with
    | none => (.returned (-EINVAL), pos)
    | some target =>
      if target < 0 then (.returned (-EINVAL), pos)
      else (.returned (min target p.size), (min target p.size).toNat)

/-- The answers to a sequence of calls, each with the position it leaves. -/
def run : Nat → List ReadCall → List (Answer × Nat)
  | _, [] => []
  | pos, c :: calls => p.call pos c :: run (p.call pos c).2 calls

/-- A value of type `loff_t`. -/
def IsLoff (x : Int) : Prop := -2 ^ 63 ≤ x ∧ x < 2 ^ 63

instance (x : Int) : Decidable (IsLoff x) := inferInstanceAs (Decidable (_ ∧ _))

/-- The offset does not overflow. -/
def Fits (pos : Nat) : ReadCall → Prop
  | .read _ => True
  | .seek offset whence => IsLoff offset ∧ ∀ target ∈ p.target pos offset whence, IsLoff target

instance (pos : Nat) : (c : ReadCall) → Decidable (p.Fits pos c)
  | .read _ => .isTrue trivial
  | .seek _ _ => inferInstanceAs (Decidable (_ ∧ _))

/-- No offset overflows where it is used. -/
def AllFit : Nat → List ReadCall → Prop
  | _, [] => True
  | pos, c :: calls => p.Fits pos c ∧ AllFit (p.call pos c).2 calls

instance decidableAllFit :
    (pos : Nat) → (calls : List ReadCall) → Decidable (p.AllFit pos calls)
  | _, [] => .isTrue trivial
  | pos, c :: calls =>
    have := decidableAllFit (p.call pos c).2 calls
    inferInstanceAs (Decidable (_ ∧ _))

theorem length_slice (pos count : Nat) : (p.slice pos count).length =
    min (pos + count) p.size - pos := by
  rw [slice, List.length_map, List.length_range]

end PlainFile

/-! ## The device -/

section
variable {σ : Type} (B : Bus σ) (fm : Flashmap)

/-- A call on an open handle. -/
def ReadCall.call (c : ReadCall) (f : File σ) : Answer × File σ :=
  match c with
  | .read count =>
    let done := biffkernelRead B fm count f
    (.data done.1, done.2)
  | .seek offset whence =>
    let done := biffkernelSeek B fm offset whence f
    (.returned done.1, done.2)

/-- The answers to a sequence of calls, each with the position it leaves, and the
state in the end. -/
def runReads : List ReadCall → File σ → List (Answer × Nat) × File σ
  | [], f => ([], f)
  | c :: calls, f =>
    let first := c.call B fm f
    let rest := runReads calls first.2
    ((first.1, first.2.priv.filepos) :: rest.1, rest.2)

/-- The logical image of the kernel area: its chunks in the order of their
numbers. -/
def Flashmap.plainFile (mem : Mem) : PlainFile where
  image := fun i => mem (eonChunkToSector fm (i / 0x2000) * 0x2000 + i % 0x2000)
  size := fm.kernelSize

/-- Every read is inside the device. -/
def ReadsInside (log : List (Nat × Nat)) : Prop := ∀ r ∈ log, r.1 + r.2 ≤ fm.size

end

theorem seekTarget_fits {fm : Flashmap} (mem : Mem) {pos : Nat} {offset whence : Int}
    (fits : (fm.plainFile mem).Fits pos (.seek offset whence)) :
    seekTarget fm pos offset whence = (fm.plainFile mem).target pos offset whence := by
  have wrap (x : Int) (loff : PlainFile.IsLoff x) : wrap64 x = x := by
    apply Int.bmod_eq_of_le
    · exact Int.le_trans (by decide) loff.1
    · exact Int.lt_of_lt_of_le loff.2 (by decide)
  obtain ⟨-, target⟩ := fits
  unfold seekTarget
  unfold PlainFile.target at target ⊢
  split
  · rename_i set
    rw [if_pos set] at target
    rw [wrap _ (target _ rfl)]
  · rename_i notSet
    rw [if_neg notSet] at target
    split
    · rename_i current
      rw [if_pos current] at target
      rw [wrap _ (target _ rfl)]
    · rename_i notCurrent
      rw [if_neg notCurrent] at target
      split
      · rename_i fromEnd
        rw [if_pos fromEnd] at target
        exact congrArg some (wrap _ (target _ rfl))
      · rfl

/-! ## What is read -/

/-- Every chunk, and the one behind the last, is inside the device. -/
theorem chunkSect_inside {fm : Flashmap} (sized : fm.Sized) {chunk : Nat}
    (inside : chunk ≤ fm.chunkCount) : chunkSect fm chunk + 0x2000 ≤ fm.size := by
  have size := sized.size_eq
  by_cases last : chunk = fm.chunkCount
  · have lower := sized.lower
    have upper := sized.upper
    have legacy : (fm.chunkCount + 2 ^ 32 - 3) % 2 ^ 32 = fm.chunkCount - 3 := by omega
    have wrapped : eonChunkToSector fm chunk = 3 := by
      rw [eonChunkToSector, legacy, if_neg (by omega)]
      omega
    have kernel := sized.kernelSize_eq
    rw [chunkSect, wrapped]
    omega
  · have bound := chunkSect_le sized (Nat.lt_of_le_of_ne inside last)
    omega

/-- The reads of a range, one word after the other. -/
def rangeReads (count src : Nat) : List (Nat × Nat) :=
  (List.range count).map fun i => (src + 4 * i, 4)

theorem rangeReads_succ (count src : Nat) :
    rangeReads (count + 1) src = (src, 4) :: rangeReads count (src + 4) := by
  rw [rangeReads, rangeReads, List.range_succ_eq_map, List.map_cons, List.map_map]
  simp only [Function.comp_def, Nat.mul_zero, Nat.add_zero, Nat.succ_eq_add_one, Nat.mul_add,
    Nat.mul_one, Nat.add_assoc, Nat.add_comm 4]

section
variable {σ : Type} (B : Bus σ) {fm : Flashmap}

/-- Recording the reads changes nothing else. -/
theorem readRangeFrom_recorded (count src i : Nat) (dest : Nat → Byte) (s : σ)
    (log : List (Nat × Nat)) (trace : List Event) :
    readRangeFrom B.recorded count src i dest ⟨(s, log), trace⟩ =
      ((readRangeFrom B count src i dest ⟨s, trace⟩).1,
        ⟨((readRangeFrom B count src i dest ⟨s, trace⟩).2.hw, log ++ rangeReads count src),
          (readRangeFrom B count src i dest ⟨s, trace⟩).2.trace⟩) := by
  induction count generalizing src i dest s log with
  | zero => simp [readRangeFrom, rangeReads]
  | succ count ih =>
    simp only [readRangeFrom, readFlash32Fast, Bus.recorded] at ih ⊢
    rw [ih, rangeReads_succ, List.append_assoc]
    rfl

/-- The device without the record. -/
def World.unrecorded (w : World (σ × List (Nat × Nat))) : World σ := ⟨w.hw.1, w.trace⟩

theorem World.unrecorded_note (w : World (σ × List (Nat × Nat))) (e : Event) :
    (w.note e).unrecorded = w.unrecorded.note e := rfl

theorem eonReadRange_data (src : Nat) (dest : Nat → Byte) (count : Nat)
    (w : World (σ × List (Nat × Nat))) :
    (eonReadRange B.recorded src dest count w).1 =
      (eonReadRange B src dest count w.unrecorded).1 := by
  simp only [eonReadRange]
  exact congrArg Prod.fst (readRangeFrom_recorded B (count / 4) src 0 dest w.hw.1 w.hw.2 w.trace)

theorem eonReadRange_unrecorded (src : Nat) (dest : Nat → Byte) (count : Nat)
    (w : World (σ × List (Nat × Nat))) :
    (eonReadRange B.recorded src dest count w).2.unrecorded =
      (eonReadRange B src dest count w.unrecorded).2 := by
  simp only [eonReadRange]
  exact congrArg (·.2.unrecorded)
    (readRangeFrom_recorded B (count / 4) src 0 dest w.hw.1 w.hw.2 w.trace)

theorem eonReadRange_log (src : Nat) (dest : Nat → Byte) (count : Nat)
    (w : World (σ × List (Nat × Nat))) :
    (eonReadRange B.recorded src dest count w).2.hw.2 =
      w.hw.2 ++ rangeReads (count / 4) src := by
  simp only [eonReadRange]
  exact congrArg (·.2.hw.2)
    (readRangeFrom_recorded B (count / 4) src 0 dest w.hw.1 w.hw.2 w.trace)

/-- The handle without the record. -/
def File.unrecorded (f : File (σ × List (Nat × Nat))) : File σ := ⟨f.priv, f.world.unrecorded⟩

/-- On the recorded device a call does what it does without the record, and reads
only inside the device. -/
structure Recorded (fm : Flashmap) (f f' : File (σ × List (Nat × Nat))) (plain : File σ) : Prop where
  unrecorded : f'.unrecorded = plain
  log : ReadsInside fm f.world.hw.2 → ReadsInside fm f'.world.hw.2

theorem bufferRead_recorded (sized : fm.Sized) (f : File (σ × List (Nat × Nat)))
    (inside : f.priv.filepos ≤ fm.kernelSize) :
    Recorded fm f (bufferRead B.recorded fm f) (bufferRead B fm f.unrecorded) := by
  have kernel := sized.kernelSize_eq
  have within : f.priv.filepos / 0x2000 ≤ fm.chunkCount := by omega
  have chunk := chunkSect_inside sized within
  constructor
  · simp only [bufferRead, File.unrecorded, eonReadRange_data, eonReadRange_unrecorded,
      World.unrecorded_note]
  · intro reads r member
    simp only [bufferRead, eonReadRange_log] at member
    rcases List.mem_append.mp member with before | new
    · exact reads r before
    · obtain ⟨i, bound, rfl⟩ := List.mem_map.mp new
      have short := List.mem_range.mp bound
      simp only at chunk ⊢
      omega

theorem biffkernelRead_recorded (sized : fm.Sized) (remaining : Nat)
    (f : File (σ × List (Nat × Nat))) :
    (biffkernelRead B.recorded fm remaining f).1 = (biffkernelRead B fm remaining f.unrecorded).1 ∧
    Recorded fm f (biffkernelRead B.recorded fm remaining f).2
      (biffkernelRead B fm remaining f.unrecorded).2 := by
  fun_induction biffkernelRead B.recorded fm remaining f with
  | case1 f =>
    rw [biffkernelRead, if_pos rfl]
    exact ⟨rfl, rfl, id⟩
  | case2 remaining f some stop =>
    rw [biffkernelRead, if_neg some]
    rw [if_pos (show fm.kernelSize ≤ f.unrecorded.priv.filepos from stop)]
    exact ⟨rfl, rfl, id⟩
  | case3 remaining f some more readpos loaded toread data rest ih =>
    have filled := bufferRead_recorded B sized f (Nat.le_of_not_le more)
    rw [biffkernelRead, if_neg some]
    rw [if_neg (show ¬ fm.kernelSize ≤ f.unrecorded.priv.filepos from more)]
    rw [← filled.unrecorded]
    obtain ⟨same, recorded⟩ := ih
    refine ⟨congrArg (data ++ ·) same, recorded.unrecorded, ?_⟩
    intro reads
    exact recorded.log (filled.log reads)

theorem biffkernelSeek_recorded (sized : fm.Sized) (offset whence : Int)
    (f : File (σ × List (Nat × Nat))) :
    (biffkernelSeek B.recorded fm offset whence f).1 =
      (biffkernelSeek B fm offset whence f.unrecorded).1 ∧
    Recorded fm f (biffkernelSeek B.recorded fm offset whence f).2
      (biffkernelSeek B fm offset whence f.unrecorded).2 := by
  have same : f.unrecorded.priv.filepos = f.priv.filepos := rfl
  unfold biffkernelSeek
  rw [same]
  cases seekTarget fm f.priv.filepos offset whence with
  | none => exact ⟨rfl, rfl, id⟩
  | some newpos =>
    dsimp only
    by_cases negative : newpos < 0
    · rw [if_pos negative, if_pos negative]
      exact ⟨rfl, rfl, id⟩
    · rw [if_neg negative, if_neg negative]
      generalize clipped : (if (fm.kernelSize : Int) ≤ newpos then
        (fm.kernelSize : Int) else newpos) = pos
      have inside : pos.toNat % 2 ^ 32 ≤ fm.kernelSize := by
        have le := Nat.mod_le pos.toNat (2 ^ 32)
        have most : pos ≤ fm.kernelSize := by
          rw [← clipped]
          split <;> omega
        omega
      have filled := bufferRead_recorded B sized
        ⟨{ f.priv with filepos := pos.toNat % 2 ^ 32 }, f.world.note (.printk
          ("BIFFKERNEL: Seeking to (" ++ fmtX (newpos % 2 ^ 64).toNat ++ ")\n"))⟩ inside
      refine ⟨rfl, ?_, filled.log⟩
      exact congrArg (fun f : File σ => (⟨writeBufferReset f.priv, f.world⟩ : File σ))
        filled.unrecorded

end

/-! ## On a NOR chip -/

section
variable (g : Geometry) (t : Timing)

/-- The handle is at this position, and nothing but the chip's contents can be
read. -/
structure Reading (mem : Mem) (pos : Nat) (f : File (Chip × List (Nat × Nat))) : Prop where
  ready : f.world.hw.1.Ready
  mem_eq : f.world.hw.1.mem = mem
  filepos : f.priv.filepos = pos
  inside : pos ≤ g.kernelSize
  log : ReadsInside g.toFlashmap f.world.hw.2

variable {g} {mem : Mem} {pos : Nat} {f : File (Chip × List (Nat × Nat))}

theorem plainFile_image {i : Nat} (inside : i < g.kernelSize) :
    mem (location g.toFlashmap i) = (g.plainFile mem).image i := by
  have kernel := g.sized.kernelSize_eq
  rw [location, chunkSect_eq_mul g.sized (by omega)]
  rfl

/-- A read returns the bytes from the position on. -/
theorem Reading.read (h : Reading g mem pos f) (count : Nat) :
    (biffkernelRead (g.part t).bus.recorded g.toFlashmap count f).1 =
      (g.plainFile mem).slice pos count ∧
    Reading g mem (pos + ((g.plainFile mem).slice pos count).length)
      (biffkernelRead (g.part t).bus.recorded g.toFlashmap count f).2 := by
  have size : (g.plainFile mem).size = g.kernelSize := rfl
  have inside := h.inside
  obtain ⟨same, recorded⟩ := biffkernelRead_recorded (g.part t).bus g.sized count f
  have data := biffkernelRead_nor g t count f.unrecorded h.ready
  have hw := biffkernelRead_hw g t count f.unrecorded h.ready
  have moved := congrArg Cursor.filepos
    (biffkernelRead_cursor (g.part t).bus g.sized count f.unrecorded)
  rw [← recorded.unrecorded] at hw moved
  have here : f.unrecorded.priv.filepos = pos := h.filepos
  refine ⟨?_, ?_, ?_, ?_, ?_, recorded.log h.log⟩
  · have amount : min count (g.kernelSize - pos) = min (pos + count) g.kernelSize - pos := by omega
    rw [same, data, here, amount, PlainFile.slice, size]
    apply List.map_congr_left
    intro i bound
    have short := List.mem_range.mp bound
    have flash : f.unrecorded.world.hw.mem = mem := h.mem_eq
    rw [flash]
    exact plainFile_image (by omega)
  · have same : (biffkernelRead (g.part t).bus.recorded g.toFlashmap count f).2.world.hw.1 =
      f.world.hw.1 := hw
    rw [same]
    exact h.ready
  · exact (congrArg Chip.mem hw).trans h.mem_eq
  · refine moved.trans ?_
    have cursor : f.unrecorded.priv.cursor.filepos = pos := here
    rw [PlainFile.length_slice, size, Cursor.after, cursor]
    split
    · rw [cursor]
      omega
    · simp only
      omega
  · rw [PlainFile.length_slice, size]
    omega

/-- A seek with a target changes nothing but the position. -/
theorem biffkernelSeek_nor {f : File Chip} (ready : f.world.hw.Ready) {offset whence newpos : Int}
    (target : seekTarget g.toFlashmap f.priv.filepos offset whence = some newpos)
    (positive : ¬ newpos < 0) :
    let done := biffkernelSeek (g.part t).bus g.toFlashmap offset whence f
    done.1 = min newpos g.kernelSize ∧ done.2.priv.filepos = (min newpos g.kernelSize).toNat ∧
      done.2.world.hw = f.world.hw := by
  have upper := g.sized.upper
  have kernel := g.sized.kernelSize_eq
  have clipped : (if (g.kernelSize : Int) ≤ newpos then (g.kernelSize : Int) else newpos) =
      min newpos g.kernelSize := by
    split <;> omega
  have small : (min newpos g.kernelSize).toNat % 2 ^ 32 = (min newpos g.kernelSize).toNat := by
    apply Nat.mod_eq_of_lt
    omega
  let sought : File Chip := ⟨{ f.priv with filepos := (min newpos g.kernelSize).toNat },
    f.world.note (.printk ("BIFFKERNEL: Seeking to (" ++ fmtX (newpos % 2 ^ 64).toNat ++ ")\n"))⟩
  have filled := (bufferRead_nor g t (f := sought) ready).1
  have kept := congrArg Cursor.filepos (bufferRead_cursor (g.part t).bus g.toFlashmap sought)
  simp only [biffkernelSeek, target, if_neg positive, clipped, small]
  exact ⟨trivial, kept, filled⟩

/-- A seek goes where it is told, or nowhere. -/
theorem Reading.seek (h : Reading g mem pos f) {offset whence : Int}
    (fits : (g.plainFile mem).Fits pos (.seek offset whence)) :
    let done := biffkernelSeek (g.part t).bus.recorded g.toFlashmap offset whence f
    Answer.returned done.1 = ((g.plainFile mem).call pos (.seek offset whence)).1 ∧
    Reading g mem ((g.plainFile mem).call pos (.seek offset whence)).2 done.2 := by
  obtain ⟨same, recorded⟩ := biffkernelSeek_recorded (g.part t).bus g.sized offset whence f
  have here : f.unrecorded.priv.filepos = pos := h.filepos
  have target := seekTarget_fits mem fits
  have plain := recorded.unrecorded
  -- The chip is as it was, so what is left is where the handle stands.
  have moved {done : Int × File Chip} {place : Nat}
      (made : biffkernelSeek (g.part t).bus g.toFlashmap offset whence f.unrecorded = done)
      (filepos : done.2.priv.filepos = place) (hw : done.2.world.hw = f.world.hw.1)
      (inside : place ≤ g.kernelSize) :
      Reading g mem place (biffkernelSeek (g.part t).bus.recorded g.toFlashmap offset whence f).2 := by
    rw [made] at plain
    have chip : (biffkernelSeek (g.part t).bus.recorded g.toFlashmap offset whence f).2.world.hw.1 =
        f.world.hw.1 := (congrArg (fun f : File Chip => f.world.hw) plain).trans hw
    refine ⟨?_, ?_, ?_, inside, recorded.log h.log⟩
    · rw [chip]
      exact h.ready
    · rw [chip]
      exact h.mem_eq
    · exact (congrArg (fun f : File Chip => f.priv.filepos) plain).trans filepos
  dsimp only
  rw [same]
  simp only [PlainFile.call]
  cases found : (g.plainFile mem).target pos offset whence with
  | none =>
    have none : seekTarget g.toFlashmap f.unrecorded.priv.filepos offset whence = none := by
      rw [here, target, found]
    have made : biffkernelSeek (g.part t).bus g.toFlashmap offset whence f.unrecorded =
        (-EINVAL, f.unrecorded) := by
      rw [biffkernelSeek, none]
    refine ⟨?_, moved made here rfl h.inside⟩
    rw [made]
  | some newpos =>
    have some : seekTarget g.toFlashmap f.unrecorded.priv.filepos offset whence = some newpos := by
      rw [here, target, found]
    by_cases negative : newpos < 0
    · simp only [if_pos negative]
      refine ⟨?_, moved rfl ?_ ?_ h.inside⟩
      · simp only [biffkernelSeek, some, if_pos negative]
      · simp only [biffkernelSeek, some, if_pos negative]
        exact here
      · simp only [biffkernelSeek, some, if_pos negative]
        rfl
    · simp only [if_neg negative]
      obtain ⟨ret, filepos, hw⟩ := biffkernelSeek_nor t (f := f.unrecorded) h.ready some negative
      have size : (g.plainFile mem).size = g.kernelSize := rfl
      refine ⟨congrArg Answer.returned ret, moved rfl filepos hw ?_⟩
      rw [size]
      omega

theorem Reading.call (h : Reading g mem pos f) {c : ReadCall} (fits : (g.plainFile mem).Fits pos c) :
    (c.call (g.part t).bus.recorded g.toFlashmap f).1 = ((g.plainFile mem).call pos c).1 ∧
    Reading g mem ((g.plainFile mem).call pos c).2
      (c.call (g.part t).bus.recorded g.toFlashmap f).2 := by
  cases c with
  | read count =>
    obtain ⟨data, reading⟩ := h.read t count
    exact ⟨congrArg Answer.data data, reading⟩
  | seek offset whence => exact h.seek t fits

theorem Reading.run (h : Reading g mem pos f) {calls : List ReadCall}
    (fits : (g.plainFile mem).AllFit pos calls) :
    (runReads (g.part t).bus.recorded g.toFlashmap calls f).1 = (g.plainFile mem).run pos calls ∧
    ReadsInside g.toFlashmap (runReads (g.part t).bus.recorded g.toFlashmap calls f).2.world.hw.2 := by
  induction calls generalizing pos f with
  | nil => exact ⟨rfl, h.log⟩
  | cons c calls ih =>
    obtain ⟨first, later⟩ := fits
    obtain ⟨answer, reading⟩ := h.call t first
    obtain ⟨answers, log⟩ := ih reading later
    refine ⟨?_, log⟩
    simp only [runReads, PlainFile.run]
    rw [answers, answer, reading.filepos]

/-- A freshly opened handle on a chip with these contents. -/
def recordedOn (mem : Mem) : File (Chip × List (Nat × Nat)) := ⟨.fresh, ⟨(idleChip mem, []), []⟩⟩

theorem Reading.initial (mem : Mem) : Reading g mem 0 (recordedOn mem) where
  ready := idleChip_ready mem
  mem_eq := rfl
  filepos := rfl
  inside := Nat.zero_le _
  log := fun _ none => absurd none List.not_mem_nil

end

/-- Whatever the flash holds, a handle that only reads and seeks gives the answers
of a plain file with the logical image, moves as that does, and never reads outside
the device. -/
theorem reads_like_plain_file (g : Geometry) (t : Timing) (mem : Mem) (calls : List ReadCall)
    (fits : (g.plainFile mem).AllFit 0 calls) :
    (runReads (g.part t).bus.recorded g.toFlashmap calls (recordedOn mem)).1 =
      (g.plainFile mem).run 0 calls ∧
    ReadsInside g.toFlashmap
      (runReads (g.part t).bus.recorded g.toFlashmap calls (recordedOn mem)).2.world.hw.2 :=
  (Reading.initial mem).run t fits

/-- Three bytes of the first chunk, which is at 0x6000, and none behind the end. -/
theorem reads_first_chunk :
    (runReads (Geometry.en640.part .instant).bus.recorded Geometry.en640.toFlashmap
      [.seek 5 0, .read 3, .seek 0 2, .read 3] (recordedOn fun x => BitVec.ofNat 8 (x / 0x100))).1 =
      [(.returned 5, 5), (.data [0x60#8, 0x60#8, 0x60#8], 8), (.returned 0x7f0000, 0x7f0000),
        (.data [], 0x7f0000)] :=
  (reads_like_plain_file Geometry.en640 .instant (fun x => BitVec.ofNat 8 (x / 0x100))
    [.seek 5 0, .read 3, .seek 0 2, .read 3] (by decide)).1.trans (by decide)

end Bifferboard
