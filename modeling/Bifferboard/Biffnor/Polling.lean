import Bifferboard.Biffnor.Eon

/-!
# Polling for the end of a command

After an erase or a program command the driver reads status bytes in pairs until bit 6
(DQ6) no longer differs within a pair. If bit 5 (DQ5) of the second byte shows that the
chip has given up, two more bytes decide. The hardware may answer anything here. The
loop of `EON_EraseSector` clears bit 5 before it tests it, so it never sees that the
chip has given up.
-/

namespace Bifferboard
open Nor

/-- A device that answers byte reads from a stream. Its state is the number of bytes
that have been read. -/
def streamBus (b : Nat → Byte) : Bus Nat where
  write8 n _ _ := n
  write16 n _ _ := n
  read8 n _ := (b n, n + 1)
  read16 n _ := (0#16, n)
  read32 n _ := (0#32, n)

def dq6 (status : Byte) : Byte := status &&& 0x40#8

def dq5 (status : Byte) : Byte := status &&& 0x20#8

/-- What is asked of a command, given what it returned and how many bytes it has read.
The pairs that are read in the loop start at index 2. -/
structure PollsSoundly (b : Nat → Byte) (out : Int × World Nat) : Prop where
  ends : out.2.hw ≤ 2 * 0x100001 + 6
  settled : 0 ≤ out.1 → 2 ≤ out.2.hw ∧ dq6 (b (out.2.hw - 2)) = dq6 (b (out.2.hw - 1))
  failed : ∀ j, 1 ≤ j → 2 * j + 4 ≤ out.2.hw → dq5 (b (2 * j + 1)) ≠ 0#8 →
    dq6 (b (2 * j + 2)) ≠ dq6 (b (2 * j + 3)) → out.1 = -1

/-- The toggling ends with pair `k`. -/
structure SettlesAt (b : Nat → Byte) (k : Nat) : Prop where
  differ : ∀ i < k, dq6 (b (2 * i)) ≠ dq6 (b (2 * i + 1))
  agree : dq6 (b (2 * k)) = dq6 (b (2 * k + 1))

/-- If the toggling ends in time, DQ5 was not up before, except in a pair that only the
last one came after. -/
def Calm (b : Nat → Byte) : Prop :=
  ∀ k ≤ 0x100000, SettlesAt b k → ∀ j, 1 ≤ j → j + 1 < k → dq5 (b (2 * j + 1)) = 0#8

/-! ## The loop -/

section
variable (b : Nat → Byte) (timedOut : Byte → Bool)

/-- The loop goes on after `count` pairs. -/
structure GoesOn (count : Nat) : Prop where
  differ : ∀ i < count, dq6 (b (2 * i)) ≠ dq6 (b (2 * i + 1))
  quiet : ∀ i < count, timedOut (b (2 * i + 3)) = false

/-- How the loop ends: its `count`, and how many bytes it has read. -/
inductive Outcome : Nat → Nat → Prop
  | settled {count : Nat} (on : GoesOn b timedOut count) (short : count ≤ 0x100001)
      (agree : dq6 (b (2 * count)) = dq6 (b (2 * count + 1))) : Outcome count (2 * count + 2)
  | timedOut {count : Nat} (on : GoesOn b timedOut count) (short : count ≤ 0x100001)
      (late : timedOut (b (2 * count + 3)) = true) :
      Outcome (if dq6 (b (2 * count + 4)) ≠ dq6 (b (2 * count + 5)) then 0xffffff else count)
        (2 * count + 6)
  | tooLong (on : GoesOn b timedOut 0x100001) : Outcome 0x100002 (2 * 0x100001 + 4)

variable {b timedOut}

theorem GoesOn.next {count : Nat} (on : GoesOn b timedOut count)
    (differ : dq6 (b (2 * count)) ≠ dq6 (b (2 * count + 1)))
    (quiet : timedOut (b (2 * count + 3)) = false) : GoesOn b timedOut (count + 1) := by
  constructor
  · intro i before
    rcases Nat.lt_succ_iff_lt_or_eq.mp before with earlier | rfl
    · exact on.differ i earlier
    · exact differ
  · intro i before
    rcases Nat.lt_succ_iff_lt_or_eq.mp before with earlier | rfl
    · exact on.quiet i earlier
    · exact quiet

theorem readFlash_stream (addr n : Nat) (trace : List Event) :
    readFlash (streamBus b) addr ⟨n, trace⟩ = (b n, ⟨n + 1, trace⟩) := rfl

theorem pollToggle_outcome (addr : Nat) {count : Nat} (on : GoesOn b timedOut count)
    (short : count ≤ 0x100001) (trace : List Event) :
    ∃ result reads, Outcome b timedOut result reads ∧
      pollToggle (readFlash (streamBus b) addr) timedOut count (dq6 (b (2 * count))) (dq6 (b (2 * count + 1)))
        ⟨2 * count + 2, trace⟩ = (result, ⟨reads, trace⟩) := by
  induction left : 0x100001 - count using Nat.strongRecOn generalizing count with
  | ind fuel ih =>
    rw [pollToggle]
    by_cases agree : dq6 (b (2 * count)) = dq6 (b (2 * count + 1))
    · exact ⟨_, _, .settled on short agree, if_pos agree⟩
    · rw [if_neg agree]
      simp only [readFlash_stream, Nat.add_assoc, Nat.reduceAdd]
      by_cases late : timedOut (b (2 * count + 3)) = true
      · exact ⟨_, _, .timedOut on short late, if_pos late⟩
      · rw [if_neg late]
        by_cases beyond : 0x100000 < count
        · obtain rfl : count = 0x100001 := by omega
          exact ⟨_, _, .tooLong on, if_pos beyond⟩
        · rw [if_neg beyond]
          exact ih _ (by omega) (on.next agree (Bool.eq_false_iff.mpr late)) (by omega) rfl

theorem pollStatus_outcome (timedOut : Byte → Bool) (addr : Nat) (trace : List Event) :
    ∃ result reads, Outcome b timedOut result reads ∧
      pollStatus (readFlash (streamBus b) addr) timedOut ⟨0, trace⟩ = (result, ⟨reads, trace⟩) := by
  have start : GoesOn b timedOut 0 := ⟨fun i none => absurd none (Nat.not_lt_zero i),
    fun i none => absurd none (Nat.not_lt_zero i)⟩
  exact pollToggle_outcome addr start (Nat.zero_le _) trace

/-! ## Outcomes -/

namespace Outcome
variable {result reads : Nat}

theorem reads_le (h : Outcome b timedOut result reads) : reads ≤ 2 * 0x100001 + 6 := by
  cases h with
  | settled on short agree => omega
  | timedOut on short late => omega
  | tooLong on => decide

/-- A count that is not too high comes with two bytes that agree. -/
theorem agrees (h : Outcome b timedOut result reads) (success : result ≤ 0x100000) :
    2 ≤ reads ∧ dq6 (b (reads - 2)) = dq6 (b (reads - 1)) := by
  cases h with
  | settled on short agree => exact ⟨by omega, agree⟩
  | timedOut on short late =>
    split at success
    · omega
    · rename_i same
      exact ⟨by omega, not_not.mp same⟩
  | tooLong on => omega

/-- A command that reports counts above its threshold polls soundly if these include every
failure that the loop has seen. -/
theorem polls (h : Outcome b timedOut result reads) {threshold : Nat} {out : Int × World Nat}
    (low : threshold ≤ 0x100000) (read : out.2.hw = reads)
    (returned : out.1 = if threshold < result then -1 else (result : Int))
    (failed : ∀ j, 1 ≤ j → 2 * j + 4 ≤ reads → dq5 (b (2 * j + 1)) ≠ 0#8 →
      dq6 (b (2 * j + 2)) ≠ dq6 (b (2 * j + 3)) → threshold < result) : PollsSoundly b out := by
  constructor
  · rw [read]
    exact h.reads_le
  · intro success
    rw [read]
    apply h.agrees
    by_contra high
    rw [returned, if_pos (by omega)] at success
    omega
  · intro j inLoop whole up differ
    rw [read] at whole
    rw [returned, if_pos (failed j inLoop whole up differ)]

end Outcome

end

/-! ## Programming a word -/

section
variable (b : Nat → Byte) {fm : Flashmap} {addr : Nat} (trace : List Event)

theorem eonProgramWord_stream (inside : addr < fm.size) (val : Word) :
    ∃ result reads, Outcome b (fun c => c &&& 0x20#8 != 0#8) result reads ∧
      (eonProgramWord (streamBus b) fm addr val ⟨0, trace⟩).1 =
        (if 0x10000 < result then -1 else (result : Int)) ∧
      (eonProgramWord (streamBus b) fm addr val ⟨0, trace⟩).2.hw = reads := by
  obtain ⟨result, reads, outcome, polled⟩ :=
    pollStatus_outcome (b := b) (fun c => c &&& 0x20#8 != 0#8) addr (trace ++ [.program addr val])
  have command : programCommand (streamBus b) addr val ⟨0, trace⟩ =
      ⟨0, trace ++ [.program addr val]⟩ := rfl
  refine ⟨result, reads, outcome, ?_⟩
  rw [eonProgramWord, if_neg (Nat.not_le.mpr inside), command, polled]
  dsimp only
  split
  · exact ⟨rfl, rfl⟩
  · exact ⟨rfl, rfl⟩

theorem program_polls (inside : addr < fm.size) (val : Word) :
    PollsSoundly b (eonProgramWord (streamBus b) fm addr val ⟨0, trace⟩) := by
  obtain ⟨result, reads, outcome, returned, read⟩ := eonProgramWord_stream b trace inside val
  have seen {i : Nat} (quiet : (b (2 * i + 3) &&& 0x20#8 != 0#8) = false)
      (up : dq5 (b (2 * (i + 1) + 1)) ≠ 0#8) : False := up (bne_eq_false_iff_eq.mp quiet)
  apply outcome.polls (by decide) read returned
  intro j inLoop whole up differ
  obtain ⟨i, rfl⟩ := Nat.exists_eq_add_of_le' inLoop
  cases outcome with
  | settled on short agree => exact (seen (on.quiet i (by omega)) up).elim
  | timedOut on short late =>
    rename_i count
    by_cases earlier : i < count
    · exact (seen (on.quiet i earlier) up).elim
    · obtain rfl : i = count := by omega
      have last : dq6 (b (2 * i + 4)) ≠ dq6 (b (2 * i + 5)) := differ
      rw [if_pos last]
      decide
  | tooLong on => exact (seen (on.quiet i (by omega)) up).elim

/-! ## Erasing a sector -/

theorem eonEraseSector_stream (inside : addr < fm.size) :
    ∃ result reads, Outcome b (fun c => c &&& 0x40#8 &&& 0x20#8 != 0#8) result reads ∧
      (eonEraseSector (streamBus b) fm addr ⟨0, trace⟩).1 =
        (if 0x100000 < result then -1 else (result : Int)) ∧
      (eonEraseSector (streamBus b) fm addr ⟨0, trace⟩).2.hw = reads := by
  obtain ⟨result, reads, outcome, polled⟩ :=
    pollStatus_outcome (b := b) (fun c => c &&& 0x40#8 &&& 0x20#8 != 0#8) addr
      (trace ++ [.erase addr])
  have command : eraseCommand (streamBus b) addr ⟨0, trace⟩ = ⟨0, trace ++ [.erase addr]⟩ := rfl
  refine ⟨result, reads, outcome, ?_⟩
  rw [eonEraseSector, if_neg (Nat.not_le.mpr inside), command, polled]
  dsimp only
  split
  · exact ⟨rfl, rfl⟩
  · exact ⟨rfl, rfl⟩

/-- No byte passes both masks. -/
theorem never_timedOut (c : Byte) : (c &&& 0x40#8 &&& 0x20#8 != 0#8) = false := by
  rw [BitVec.and_assoc, show (0x40#8 &&& 0x20#8 : Byte) = 0#8 by decide, BitVec.and_zero]
  rfl

theorem SettlesAt.unique {b : Nat → Byte} {k l : Nat} (h : SettlesAt b k) (h' : SettlesAt b l) :
    k = l := by
  rcases Nat.lt_trichotomy k l with less | same | more
  · exact absurd h.agree (h'.differ k less)
  · exact same
  · exact absurd h'.agree (h.differ l more)

/-- An erase returns when the toggling ends, whatever DQ5 has shown. -/
theorem erase_settles (inside : addr < fm.size) {k : Nat} (soon : k ≤ 0x100000)
    (settles : SettlesAt b k) :
    (eonEraseSector (streamBus b) fm addr ⟨0, trace⟩).1 = k ∧
      (eonEraseSector (streamBus b) fm addr ⟨0, trace⟩).2.hw = 2 * k + 2 := by
  obtain ⟨result, reads, outcome, returned, read⟩ := eonEraseSector_stream b trace inside
  rw [returned, read]
  cases outcome with
  | settled on short agree =>
    obtain rfl := settles.unique ⟨on.differ, agree⟩
    exact ⟨if_neg (by omega), rfl⟩
  | timedOut on short late =>
    rw [never_timedOut] at late
    cases late
  | tooLong on => exact absurd settles.agree (on.differ k (by omega))

theorem erase_polls_iff (inside : addr < fm.size) :
    PollsSoundly b (eonEraseSector (streamBus b) fm addr ⟨0, trace⟩) ↔ Calm b := by
  constructor
  · intro sound k soon settles j inLoop before
    obtain ⟨returned, read⟩ := erase_settles b trace inside soon settles
    by_contra up
    have failed := sound.failed j inLoop (by omega) up (settles.differ (j + 1) before)
    omega
  · intro calm
    obtain ⟨result, reads, outcome, returned, read⟩ := eonEraseSector_stream b trace inside
    apply outcome.polls (Nat.le_refl _) read returned
    intro j inLoop whole up differ
    cases outcome with
    | settled on short agree =>
      have before : j + 1 < result := by
        apply Nat.lt_of_le_of_ne (by omega)
        rintro rfl
        exact differ agree
      by_contra soon
      exact up (calm result (by omega) ⟨on.differ, agree⟩ j inLoop before)
    | timedOut on short late =>
      rw [never_timedOut] at late
      cases late
    | tooLong on => decide

end

/-- Both commands poll soundly exactly if the toggling never ends after the chip has
given up. -/
theorem polling_sound_iff (b : Nat → Byte) (fm : Flashmap) (addr : Nat) (val : Word)
    (trace : List Event) (inside : addr < fm.size) :
    PollsSoundly b (eonEraseSector (streamBus b) fm addr ⟨0, trace⟩) ∧
      PollsSoundly b (eonProgramWord (streamBus b) fm addr val ⟨0, trace⟩) ↔ Calm b := by
  rw [erase_polls_iff b trace inside]
  exact and_iff_left (program_polls b trace inside val)

/-- A chip that is ready after two pairs. -/
def readySoon (n : Nat) : Byte := [0x00#8, 0x40#8, 0x00#8, 0x40#8].getD n 0x00#8

theorem readySoon_polls : 0x6000 < Geometry.en640.size ∧
    PollsSoundly readySoon (eonEraseSector (streamBus readySoon) Geometry.en640.toFlashmap
      0x6000 ⟨0, []⟩) ∧
    PollsSoundly readySoon (eonProgramWord (streamBus readySoon) Geometry.en640.toFlashmap
      0x6000 0x1234#16 ⟨0, []⟩) := by
  have inside : 0x6000 < Geometry.en640.size := by decide
  have settles : SettlesAt readySoon 2 := ⟨by decide, by decide⟩
  have calm : Calm readySoon := by
    intro k _ other j inLoop before
    have same := settles.unique other
    omega
  exact ⟨inside, (polling_sound_iff readySoon Geometry.en640.toFlashmap 0x6000 0x1234#16 []
    inside).mpr calm⟩

/-- A chip that gives up in pair 1 and is still toggling in pair 2. -/
def givesUp (n : Nat) : Byte :=
  [0x00#8, 0x40#8, 0x00#8, 0x60#8, 0x00#8, 0x40#8].getD n 0x00#8

/-- The driver takes the failed erase for one that took three ticks. -/
theorem failed_erase_reported_done :
    dq5 (givesUp 3) ≠ 0#8 ∧ dq6 (givesUp 4) ≠ dq6 (givesUp 5) ∧
      (eonEraseSector (streamBus givesUp) Geometry.en640.toFlashmap 0x6000 ⟨0, []⟩).1 = 3 ∧
      ¬ PollsSoundly givesUp
        (eonEraseSector (streamBus givesUp) Geometry.en640.toFlashmap 0x6000 ⟨0, []⟩) := by
  have up : dq5 (givesUp 3) ≠ 0#8 := by decide
  have differ : dq6 (givesUp 4) ≠ dq6 (givesUp 5) := by decide
  obtain ⟨returned, read⟩ := erase_settles givesUp []
    (show 0x6000 < Geometry.en640.size by decide) (k := 3) (by decide) ⟨by decide, by decide⟩
  refine ⟨up, differ, returned, fun sound => ?_⟩
  have failed := sound.failed 1 (Nat.le_refl 1) (by omega) up differ
  omega

end Bifferboard
