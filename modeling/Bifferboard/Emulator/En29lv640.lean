import Bifferboard.Nor.Chip

/-!
# The emulated EN29LV640

Byte and word writes have a transition table each, and the two may be mixed.
A write that leaves the state as it is returns the chip to reading. `Tied` says
what the last writes were in each state; from it, the array changes only at the
end of a complete command, and never in the top 64 KB.
-/

namespace Bifferboard
open Nor

def flashSize : Nat := 0x800000

/-- `FLASH_DEV_LEN`, the length of the registered window. -/
def flashDevLen : Nat := flashSize - 0x10000

def addrToSeclen (addr : Nat) : Nat := if addr < 0x10000 then 0x2000 else 0x10000

/-- `ADDR_TO_SECBASE`; masking off the low bits of a 32-bit address. -/
def addrToSecbase (addr : Nat) : Nat :=
  if addr < 0x10000 then addr - addr % 0x2000 else addr - addr % 0x10000

/-- All possible states the flash can be in. Writes are instant. -/
inductive FlashState where
  | cycleRead
  | cycle1
  | cycle2
  | cycle3
  | cycle4
  | cycleAutoselect
  | cycleProgram
  | cycleErase
  | cycleCfi
  deriving DecidableEq, Repr

/-- `g_backing` and `g_state`. -/
structure En29lv640 where
  backing : Mem
  state : FlashState

inductive Width where
  | w1
  | w2
  | w4
  deriving DecidableEq, Repr

namespace En29lv640

def eraseSector (s : En29lv640) (addr : Nat) : En29lv640 :=
  { s with backing := s.backing.erase (addrToSecbase addr) (addrToSecbase addr + addrToSeclen addr) }

/-- `ChipErase` only prints that it is unsupported. -/
def chipErase (s : En29lv640) : En29lv640 := s

/-- The transition table that byte and word writes share: they differ in the
address of the second unlock write, in what enters the CFI query and in what
a program write stores. -/
def decodeWrite (s : En29lv640) (unlock2 : Nat) (cfi : Bool) (stored : Mem) (addr : Nat) (val : Dword) :
    En29lv640 :=
  match s.state with
  | .cycleRead =>
    if addr = 0xaaa ∧ val = 0xaa#32 then { s with state := .cycle1 }
    else if cfi then { s with state := .cycleCfi }
    else s
  | .cycle1 => if addr = unlock2 ∧ val = 0x55#32 then { s with state := .cycle2 } else s
  | .cycle2 =>
    if addr = 0xaaa then
      if val = 0x90#32 then { s with state := .cycleAutoselect }
      else if val = 0xa0#32 then { s with state := .cycleProgram }
      else if val = 0x80#32 then { s with state := .cycle3 }
      else s
    else s
  | .cycle3 => if addr = 0xaaa ∧ val = 0xaa#32 then { s with state := .cycle4 } else s
  | .cycle4 => if addr = unlock2 ∧ val = 0x55#32 then { s with state := .cycleErase } else s
  | .cycleErase =>
    if val = 0x30#32 then s.eraseSector addr else if val = 0x10#32 then s.chipErase else s
  | .cycleAutoselect => s
  | .cycleProgram => { s with backing := stored }
  | .cycleCfi => s

/-- Byte-width write. -/
def writeW1 (s : En29lv640) (addr : Nat) (val : Dword) : En29lv640 :=
  s.decodeWrite 0x555 (decide (addr = 0x55 ∧ val = 0x98#32))
    (fun x => if x = addr then val.byte 0 else s.backing x) addr val

/-- Word-width write. -/
def writeW2 (s : En29lv640) (addr : Nat) (val : Dword) : En29lv640 :=
  s.decodeWrite 0x554 (decide (addr = 0xaa ∧ val = 0x9898#32 ∨ addr = 0xaa ∧ val = 0x98#32 ∨
      addr = 0xaaa ∧ val = 0x98#32))
    (fun x => if x = addr then val.byte 0 else if x = addr + 1 then val.byte 1 else s.backing x) addr val

/-- Four-byte writes are not decoded. Any write that keeps the state returns to
read mode. -/
def flashWriteWidth (s : En29lv640) (addr : Nat) (value : Dword) (width : Width) : En29lv640 :=
  let s' := match width with
    | .w1 => s.writeW1 addr value
    | .w2 => s.writeW2 addr value
    | .w4 => s
  if s.state = s'.state then { s' with state := .cycleRead } else s'

end En29lv640

/-- The CFI data. -/
def gCfi : List Word :=
  [0, 0, 0, 0, 0, 0, 0, 0, 0, 0, 0, 0, 0, 0, 0, 0, 0x51, 0x52, 0x59, 2, 0, 0x40, 0, 0, 0, 0, 0,
    0x27, 0x36, 0, 0, 4, 0, 0xa, 0, 5, 0, 4, 0, 0x17, 2, 0, 0, 0, 2, 7, 0, 0x20, 0, 0x7e, 0, 0,
    1, 0, 0, 0, 0, 0, 0, 0, 0, 0, 0, 0, 0x50, 0x52, 0x49, 0x31, 0x31, 0, 2, 4, 1, 4, 0, 0, 0,
    0xa5, 0xc5, 2]

/-- The table as bytes. What follows it in memory is not modelled and reads 0. -/
def cfiBytes : Mem := fun i =>
  if i % 2 = 0 then (gCfi.getD (i / 2) 0).lo else (gCfi.getD (i / 2) 0).hi

/-- `flash_read_width`. A read does not change the chip. -/
def En29lv640.flashReadWidth (s : En29lv640) (addr : Nat) (width : Width) : Dword :=
  if s.state = .cycleAutoselect then
    if addr = 0 then 0x7f#32
    else if addr = 0x100 ∨ addr = 0x200 then 0x1c#32
    else if addr % 0x100 = 1 ∨ addr % 0x100 = 2 then 0x22cb#32
    else 0#32
  else
    let tmp := if s.state = .cycleCfi ∧ addr < 2 * gCfi.length then cfiBytes else s.backing
    match width with
    | .w1 => (tmp addr).setWidth 32
    | .w2 => (tmp.word addr).setWidth 32
    | .w4 => tmp.dword addr

/-! ## Runs -/

/-- A write inside the window, a word write at an even address. -/
structure BusWrite where
  width : Width
  addr : Nat
  value : Dword
  inside : addr < flashDevLen
  aligned : width = .w2 → addr % 2 = 0

inductive BusOp where
  | read (width : Width) (addr : Nat)
  | write (w : BusWrite)

/-- The value a read returns, and the chip after the access. -/
def BusOp.access (s : En29lv640) : BusOp → Option Dword × En29lv640
  | .read width addr => (some (s.flashReadWidth addr width), s)
  | .write w => (none, s.flashWriteWidth w.addr w.value w.width)

def BusOp.step (s : En29lv640) (op : BusOp) : En29lv640 := (op.access s).2

def runBus (ops : List BusOp) (s : En29lv640) : En29lv640 := ops.foldl BusOp.step s

/-- The writes of a run. -/
def busWrites (ops : List BusOp) : List BusWrite :=
  ops.filterMap fun
    | .read _ _ => none
    | .write w => some w

/-- A byte or word write of `value` to the command address. -/
structure BusWrite.Command (value : Dword) (w : BusWrite) : Prop where
  narrow : w.width ≠ .w4
  addr_eq : w.addr = 0xaaa
  value_eq : w.value = value

/-- The first unlock write. -/
def BusWrite.Unlock1 (w : BusWrite) : Prop := w.Command 0xaa#32

/-- The second unlock write, whose address depends on the width. -/
structure BusWrite.Unlock2 (w : BusWrite) : Prop where
  place : w.width = .w1 ∧ w.addr = 0x555 ∨ w.width = .w2 ∧ w.addr = 0x554
  value_eq : w.value = 0x55#32

/-- What the last writes were, state by state. -/
def Tied (hist : List BusWrite) : FlashState → Prop
  | .cycle1 => ∃ u₁, u₁.Unlock1 ∧ [u₁] <:+ hist
  | .cycle2 => ∃ u₁ u₂, u₁.Unlock1 ∧ u₂.Unlock2 ∧ [u₁, u₂] <:+ hist
  | .cycle3 => ∃ u₁ u₂ c, u₁.Unlock1 ∧ u₂.Unlock2 ∧ c.Command 0x80#32 ∧ [u₁, u₂, c] <:+ hist
  | .cycle4 => ∃ u₁ u₂ c v₁, u₁.Unlock1 ∧ u₂.Unlock2 ∧ c.Command 0x80#32 ∧ v₁.Unlock1 ∧
      [u₁, u₂, c, v₁] <:+ hist
  | .cycleErase => ∃ u₁ u₂ c v₁ v₂, u₁.Unlock1 ∧ u₂.Unlock2 ∧ c.Command 0x80#32 ∧ v₁.Unlock1 ∧
      v₂.Unlock2 ∧ [u₁, u₂, c, v₁, v₂] <:+ hist
  | .cycleProgram => ∃ u₁ u₂ c, u₁.Unlock1 ∧ u₂.Unlock2 ∧ c.Command 0xa0#32 ∧ [u₁, u₂, c] <:+ hist
  | _ => True

/-- One more write behind those that are there. -/
theorem suffix_write {hist writes : List BusWrite} (suffix : writes <:+ hist) (w : BusWrite) :
    writes ++ [w] <:+ hist ++ [w] := List.suffix_append_self_iff.mpr suffix

/-- A decoded write either keeps the state or extends the command under way. -/
theorem decodeWrite_tied {hist : List BusWrite} {s : En29lv640} (tied : Tied hist s.state) (w : BusWrite)
    (narrow : w.width ≠ .w4) {unlock2 : Nat} (cfi : Bool) (stored : Mem)
    (place : w.addr = unlock2 → w.width = .w1 ∧ w.addr = 0x555 ∨ w.width = .w2 ∧ w.addr = 0x554) :
    (s.decodeWrite unlock2 cfi stored w.addr w.value).state = s.state ∨
      Tied (hist ++ [w]) (s.decodeWrite unlock2 cfi stored w.addr w.value).state := by
  unfold En29lv640.decodeWrite
  cases state : s.state with
  | cycleRead =>
    dsimp only
    split
    · rename_i matched
      exact .inr ⟨w, ⟨narrow, matched.1, matched.2⟩, suffix_write List.nil_suffix w⟩
    · split
      · exact .inr trivial
      · exact .inl state
  | cycle1 =>
    rw [state] at tied
    obtain ⟨u₁, first, suffix⟩ := tied
    dsimp only
    split
    · rename_i matched
      exact .inr ⟨u₁, w, first, ⟨place matched.1, matched.2⟩, suffix_write suffix w⟩
    · exact .inl state
  | cycle2 =>
    rw [state] at tied
    obtain ⟨u₁, u₂, first, second, suffix⟩ := tied
    dsimp only
    split
    · rename_i command
      split
      · exact .inr trivial
      · split
        · rename_i value
          exact .inr ⟨u₁, u₂, w, first, second, ⟨narrow, command, value⟩, suffix_write suffix w⟩
        · split
          · rename_i value
            exact .inr ⟨u₁, u₂, w, first, second, ⟨narrow, command, value⟩, suffix_write suffix w⟩
          · exact .inl state
    · exact .inl state
  | cycle3 =>
    rw [state] at tied
    obtain ⟨u₁, u₂, c, first, second, setup, suffix⟩ := tied
    dsimp only
    split
    · rename_i matched
      exact .inr ⟨u₁, u₂, c, w, first, second, setup, ⟨narrow, matched.1, matched.2⟩,
        suffix_write suffix w⟩
    · exact .inl state
  | cycle4 =>
    rw [state] at tied
    obtain ⟨u₁, u₂, c, v₁, first, second, setup, third, suffix⟩ := tied
    dsimp only
    split
    · rename_i matched
      exact .inr ⟨u₁, u₂, c, v₁, w, first, second, setup, third, ⟨place matched.1, matched.2⟩,
        suffix_write suffix w⟩
    · exact .inl state
  | cycleErase =>
    dsimp only
    split
    · exact .inl state
    · split
      · exact .inl state
      · exact .inl state
  | cycleAutoselect => exact .inl state
  | cycleProgram => exact .inl rfl
  | cycleCfi => exact .inl state

/-- Every write keeps the state tied to the writes so far. -/
theorem flashWriteWidth_tied {hist : List BusWrite} {s : En29lv640} (tied : Tied hist s.state)
    (w : BusWrite) : Tied (hist ++ [w]) (s.flashWriteWidth w.addr w.value w.width).state := by
  have reset (s' : En29lv640) (h : s'.state = s.state ∨ Tied (hist ++ [w]) s'.state) :
      Tied (hist ++ [w]) (if s.state = s'.state then { s' with state := .cycleRead } else s').state := by
    split
    · trivial
    · rename_i moved
      exact h.resolve_left fun same => moved same.symm
  unfold En29lv640.flashWriteWidth
  apply reset
  cases width : w.width with
  | w1 =>
    exact decodeWrite_tied tied w (by simp [width]) _ _ fun place => .inl ⟨width, place⟩
  | w2 =>
    exact decodeWrite_tied tied w (by simp [width]) _ _ fun place => .inr ⟨width, place⟩
  | w4 => exact .inl rfl

theorem runBus_tied {hist : List BusWrite} {s : En29lv640} (tied : Tied hist s.state)
    (ops : List BusOp) : Tied (hist ++ busWrites ops) (runBus ops s).state := by
  induction ops generalizing hist s with
  | nil =>
    rw [busWrites, List.filterMap_nil, List.append_nil]
    exact tied
  | cons op ops ih =>
    cases op with
    | read width addr => exact ih tied
    | write w =>
      have rest := ih (flashWriteWidth_tied tied w)
      rw [List.append_assoc] at rest
      exact rest

/-! ## What a write changes -/

/-- The byte or word a write addresses. -/
def BusWrite.Covers (w : BusWrite) (x : Nat) : Prop := x = w.addr ∨ w.width = .w2 ∧ x = w.addr + 1

theorem decodeWrite_backing (s : En29lv640) (w : BusWrite) (unlock2 : Nat) (cfi : Bool) (stored : Mem)
    (covered : ∀ x, ¬ w.Covers x → stored x = s.backing x) :
    (s.decodeWrite unlock2 cfi stored w.addr w.value).backing = s.backing ∨
    (s.state = .cycleProgram ∧ ∀ x, ¬ w.Covers x →
      (s.decodeWrite unlock2 cfi stored w.addr w.value).backing x = s.backing x) ∨
    (s.state = .cycleErase ∧ w.value = 0x30#32 ∧
      (s.decodeWrite unlock2 cfi stored w.addr w.value).backing =
        s.backing.erase (addrToSecbase w.addr) (addrToSecbase w.addr + addrToSeclen w.addr)) := by
  unfold En29lv640.decodeWrite
  cases state : s.state with
  | cycleProgram => exact .inr (.inl ⟨rfl, covered⟩)
  | cycleErase =>
    dsimp only
    split
    · rename_i value
      exact .inr (.inr ⟨rfl, value, rfl⟩)
    · split
      · exact .inl rfl
      · exact .inl rfl
  | cycleRead | cycle1 | cycle2 | cycle3 | cycle4 | cycleAutoselect | cycleCfi =>
    left
    dsimp only
    repeat' split
    all_goals rfl

/-- Only a narrow write in the program state or an erase write in the erase state
changes the array. -/
theorem flashWriteWidth_backing (s : En29lv640) (w : BusWrite) :
    (s.flashWriteWidth w.addr w.value w.width).backing = s.backing ∨
    (s.state = .cycleProgram ∧ w.width ≠ .w4 ∧
      ∀ x, ¬ w.Covers x → (s.flashWriteWidth w.addr w.value w.width).backing x = s.backing x) ∨
    (s.state = .cycleErase ∧ w.width ≠ .w4 ∧ w.value = 0x30#32 ∧
      (s.flashWriteWidth w.addr w.value w.width).backing =
        s.backing.erase (addrToSecbase w.addr) (addrToSecbase w.addr + addrToSeclen w.addr)) := by
  have reset (s' : En29lv640) :
      (if s.state = s'.state then { s' with state := .cycleRead } else s').backing = s'.backing := by
    split
    · rfl
    · rfl
  unfold En29lv640.flashWriteWidth
  rw [reset]
  cases width : w.width with
  | w1 =>
    have narrow : Width.w1 ≠ .w4 := by decide
    rcases decodeWrite_backing s w 0x555 (decide (w.addr = 0x55 ∧ w.value = 0x98#32))
      (fun x => if x = w.addr then w.value.byte 0 else s.backing x)
      (fun x apart => if_neg fun e => apart (.inl e)) with same | ⟨state, kept⟩ | ⟨state, value, erased⟩
    · exact .inl same
    · exact .inr (.inl ⟨state, narrow, kept⟩)
    · exact .inr (.inr ⟨state, narrow, value, erased⟩)
  | w2 =>
    have narrow : Width.w2 ≠ .w4 := by decide
    have covered : ∀ x, ¬ w.Covers x → (if x = w.addr then w.value.byte 0
        else if x = w.addr + 1 then w.value.byte 1 else s.backing x) = s.backing x := by
      intro x apart
      rw [if_neg fun e => apart (.inl e), if_neg fun e => apart (.inr ⟨width, e⟩)]
    rcases decodeWrite_backing s w 0x554 (decide (w.addr = 0xaa ∧ w.value = 0x9898#32 ∨
      w.addr = 0xaa ∧ w.value = 0x98#32 ∨ w.addr = 0xaaa ∧ w.value = 0x98#32)) _ covered
      with same | ⟨state, kept⟩ | ⟨state, value, erased⟩
    · exact .inl same
    · exact .inr (.inl ⟨state, narrow, kept⟩)
    · exact .inr (.inr ⟨state, narrow, value, erased⟩)
  | w4 => exact .inl rfl

/-- A sector that starts below the window's end lies below it. -/
theorem sector_inside {addr : Nat} (inside : addr < flashDevLen) :
    addrToSecbase addr + addrToSeclen addr ≤ flashDevLen := by
  have limit : flashDevLen = 0x7f0000 := rfl
  rw [limit] at inside ⊢
  unfold addrToSecbase addrToSeclen
  by_cases low : addr < 0x10000
  · rw [if_pos low, if_pos low]
    omega
  · rw [if_neg low, if_neg low]
    omega

/-- No write changes the top 64 KB. -/
theorem flashWriteWidth_top (s : En29lv640) (w : BusWrite) {x : Nat} (top : flashDevLen ≤ x) :
    (s.flashWriteWidth w.addr w.value w.width).backing x = s.backing x := by
  have inside := w.inside
  have aligned := w.aligned
  have even : flashDevLen % 2 = 0 := rfl
  rcases flashWriteWidth_backing s w with same | ⟨-, -, kept⟩ | ⟨-, -, -, erased⟩
  · rw [same]
  · apply kept
    rintro (rfl | ⟨width, rfl⟩)
    · omega
    · have := aligned width
      omega
  · have sector := sector_inside inside
    rw [erased]
    exact Mem.erase_frame _ (by omega)

theorem runBus_top (ops : List BusOp) (s : En29lv640) {x : Nat} (top : flashDevLen ≤ x) :
    (runBus ops s).backing x = s.backing x := by
  induction ops generalizing s with
  | nil => rfl
  | cons op ops ih =>
    cases op with
    | read width addr => exact ih s
    | write w => exact (ih _).trans (flashWriteWidth_top s w top)

/-- In every run from read mode, an access changes the array only if it is the
last write of a complete program or erase command, then only what the command
is for, and nothing ever changes the top 64 KB. -/
theorem backing_changes_on_commands (mem : Mem) (ops : List BusOp) (op : BusOp) :
    let s := runBus ops ⟨mem, .cycleRead⟩
    let s' := op.step s
    (s'.backing = s.backing ∨
      (∃ u₁ u₂ c w, op = .write w ∧ u₁.Unlock1 ∧ u₂.Unlock2 ∧ c.Command 0xa0#32 ∧
        [u₁, u₂, c, w] <:+ busWrites (ops ++ [op]) ∧ w.width ≠ .w4 ∧
        ∀ x, ¬ w.Covers x → s'.backing x = s.backing x) ∨
      (∃ u₁ u₂ c v₁ v₂ w, op = .write w ∧ u₁.Unlock1 ∧ u₂.Unlock2 ∧ c.Command 0x80#32 ∧
        v₁.Unlock1 ∧ v₂.Unlock2 ∧ [u₁, u₂, c, v₁, v₂, w] <:+ busWrites (ops ++ [op]) ∧
        w.width ≠ .w4 ∧ w.value = 0x30#32 ∧ ∀ x, s'.backing x =
          if addrToSecbase w.addr ≤ x ∧ x < addrToSecbase w.addr + addrToSeclen w.addr then 0xff#8
          else s.backing x)) ∧
    ∀ x, 0x7f0000 ≤ x → s'.backing x = mem x := by
  intro s s'
  have top : ∀ x, 0x7f0000 ≤ x → s'.backing x = mem x := by
    intro x high
    have run := runBus_top (ops ++ [op]) ⟨mem, .cycleRead⟩ (x := x) high
    rw [runBus, List.foldl_append] at run
    exact run
  refine ⟨?_, top⟩
  cases op with
  | read width addr => exact .inl rfl
  | write w =>
    have start : Tied [] (⟨mem, .cycleRead⟩ : En29lv640).state := trivial
    have tied : Tied (busWrites ops) s.state := runBus_tied start ops
    have writes : busWrites (ops ++ [.write w]) = busWrites ops ++ [w] := by
      simp [busWrites]
    rw [writes]
    rcases flashWriteWidth_backing s w with same | ⟨state, narrow, kept⟩ | ⟨state, narrow, value, erased⟩
    · exact .inl same
    · rw [state] at tied
      obtain ⟨u₁, u₂, c, first, second, setup, suffix⟩ := tied
      exact .inr (.inl ⟨u₁, u₂, c, w, rfl, first, second, setup, suffix_write suffix w, narrow, kept⟩)
    · rw [state] at tied
      obtain ⟨u₁, u₂, c, v₁, v₂, first, second, setup, third, fourth, suffix⟩ := tied
      exact .inr (.inr ⟨u₁, u₂, c, v₁, v₂, w, rfl, first, second, setup, third, fourth,
        suffix_write suffix w, narrow, value, fun x => congrFun erased x⟩)

end Bifferboard
