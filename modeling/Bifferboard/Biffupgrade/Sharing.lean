import Mathlib.Data.Finset.Card
import Mathlib.Data.Fintype.Card
import Bifferboard.Biffupgrade.Driver
import Bifferboard.Transition.Reach

/-!
# Sharing `/dev/biffupgrade`

The kernel is built for one processor and without preemption, so a call can only be
interrupted while it sleeps in `copy_from_user`. There other calls may run: they find
the position where the first one found it, or they open the device and reset it.

`Safe` holds in whatever order the calls go on. Where they do not overlap, the device
is `/dev/biffboot` with one handle for everybody (`Serial`).
-/

namespace Bifferboard.Biffupgrade
open Nor

/-- A call of `biffupgrade_write` that is in `copy_from_user`. -/
structure Call where
  /-- What gets stored: zeros from where the memory of the process cannot be read. The
  driver does not ask. -/
  ubuf : List Byte
  dest : Nat
  copied : Nat

/-- A call that has returned. -/
inductive Entry (n : Nat) where
  | opened (i : Fin n)
  | wrote (i : Fin n) (ubuf : List Byte) (ret : Int)

def Entry.ret {n : Nat} : Entry n → Int
  | .opened _ => 0
  | .wrote _ _ ret => ret

/-- `n` processes that have the device. The log is for the statements only. -/
structure Shared (n : Nat) (σ : Type) where
  writepos : Nat
  buffer : Mem
  calls : Fin n → Option Call
  world : World σ
  log : List (Entry n)

inductive Action (n : Nat) where
  | opens (i : Fin n)
  | enter (i : Fin n) (ubuf : List Byte)
  /-- Some more bytes are copied, up to the next page that is not there. -/
  | copy (i : Fin n) (count : Nat)
  | leave (i : Fin n)

def Action.pid {n : Nat} : Action n → Fin n
  | .opens i => i
  | .enter i _ => i
  | .copy i _ => i
  | .leave i => i

namespace Shared
variable {n : Nat} {σ : Type} (B : Bus σ)

/-- As the module is loaded. -/
def start (n : Nat) (world : World σ) : Shared n σ := ⟨0, fun _ => 0#8, fun _ => none, world, []⟩

/-- `biffupgrade_open`. -/
def opens (i : Fin n) (s : Shared n σ) : Shared n σ :=
  { s with
    writepos := 0
    buffer := fun x => if x < 0x10000 then 0#8 else s.buffer x
    log := s.log ++ [.opened i] }

/-- `biffupgrade_write` as far as `copy_from_user`. -/
def enter (i : Fin n) (ubuf : List Byte) (s : Shared n σ) : Shared n σ :=
  if 0x10000 < (s.writepos + ubuf.length) % 2 ^ 32 then
    { s with log := s.log ++ [.wrote i ubuf (-EINVAL)] }
  else { s with calls := Function.update s.calls i (some ⟨ubuf, s.writepos, 0⟩) }

def copy (i : Fin n) (call : Call) (count : Nat) (s : Shared n σ) : Shared n σ :=
  { s with
    buffer := s.buffer.store (call.dest + call.copied) ((call.ubuf.drop call.copied).take count)
    calls := Function.update s.calls i
      (some { call with copied := min (call.copied + count) call.ubuf.length }) }

/-- What is done once the position has moved on: the return value and the flash. -/
def finish (ubuf : List Byte) (s : Shared n σ) : Int × World σ :=
  if (s.writepos + ubuf.length) % 2 ^ 32 = 0x10000 then
    flushFull B ((s.writepos + ubuf.length) % 2 ^ 32) s.buffer ubuf.length s.world
  else (ubuf.length, s.world)

/-- The rest of `biffupgrade_write`. -/
def leave (i : Fin n) (ubuf : List Byte) (s : Shared n σ) : Shared n σ :=
  { s with
    writepos := (s.writepos + ubuf.length) % 2 ^ 32
    calls := Function.update s.calls i none
    world := (s.finish B ubuf).2
    log := s.log ++ [.wrote i ubuf (s.finish B ubuf).1] }

/-- One step of one process. It is in one call at a time, and the kernel lets no call
have 2 GB or more. -/
def step : Action n → Shared n σ → Option (Shared n σ)
  | .opens i, s => match s.calls i with
    | none => some (s.opens i)
    | some _ => none
  | .enter i ubuf, s => match s.calls i with
    | none => if ubuf.length < 2 ^ 31 then some (s.enter i ubuf) else none
    | some _ => none
  | .copy i count, s => match s.calls i with
    | none => none
    | some call => some (s.copy i call count)
  | .leave i, s => match s.calls i with
    | none => none
    | some call => if call.copied = call.ubuf.length then some (s.leave B i call.ubuf) else none

variable {B} {s s' : Shared n σ}

theorem step_cases {a : Action n} (h : s.step B a = some s') :
    (∃ i, a = .opens i ∧ s.calls i = none ∧ s' = s.opens i) ∨
    (∃ i ubuf, a = .enter i ubuf ∧ s.calls i = none ∧ ubuf.length < 2 ^ 31 ∧ s' = s.enter i ubuf) ∨
    (∃ i count call, a = .copy i count ∧ s.calls i = some call ∧ s' = s.copy i call count) ∨
    (∃ i call, a = .leave i ∧ s.calls i = some call ∧ call.copied = call.ubuf.length ∧
      s' = s.leave B i call.ubuf) := by
  cases a with
  | opens i =>
    cases at_ : s.calls i with
    | none => exact .inl ⟨i, rfl, at_, by simpa [step, at_] using h.symm⟩
    | some call => simp [step, at_] at h
  | enter i ubuf =>
    cases at_ : s.calls i with
    | none =>
      simp only [step, at_, Option.ite_none_right_eq_some, Option.some.injEq] at h
      exact .inr (.inl ⟨i, ubuf, rfl, at_, h.1, h.2.symm⟩)
    | some call => simp [step, at_] at h
  | copy i count =>
    cases at_ : s.calls i with
    | none => simp [step, at_] at h
    | some call => exact .inr (.inr (.inl ⟨i, count, call, rfl, at_, by simpa [step, at_] using h.symm⟩))
  | leave i =>
    cases at_ : s.calls i with
    | none => simp [step, at_] at h
    | some call =>
      simp only [step, at_, Option.ite_none_right_eq_some, Option.some.injEq] at h
      exact .inr (.inr (.inr ⟨i, call, rfl, at_, h.1, h.2.symm⟩))

/-- The processes that are in a call. -/
def inCall (s : Shared n σ) : Finset (Fin n) := Finset.univ.filter fun i => (s.calls i).isSome

theorem mem_inCall {i : Fin n} : i ∈ s.inCall ↔ (s.calls i).isSome := by simp [inCall]

theorem inCall_card_le (s : Shared n σ) : s.inCall.card ≤ n := by
  simpa using Finset.card_le_univ s.inCall

/-- The place of a process among those in a call depends on its own entry only. -/
theorem inCall_enter {i : Fin n} {call : Call} (idle : s.calls i = none)
    (calls : s'.calls = Function.update s.calls i (some call)) :
    s'.inCall.card = s.inCall.card + 1 := by
  have grown : s'.inCall = insert i s.inCall := by
    ext j
    rw [Finset.mem_insert, mem_inCall, mem_inCall, calls]
    by_cases same : j = i
    · simp [same]
    · simp [same]
  rw [grown, Finset.card_insert_of_notMem]
  simp [mem_inCall, idle]

theorem inCall_copy {i : Fin n} {call call' : Call} (busy : s.calls i = some call)
    (calls : s'.calls = Function.update s.calls i (some call')) : s'.inCall = s.inCall := by
  ext j
  rw [mem_inCall, mem_inCall, calls]
  by_cases same : j = i
  · simp [same, busy]
  · simp [same]

theorem inCall_leave {i : Fin n} {call : Call} (busy : s.calls i = some call)
    (calls : s'.calls = Function.update s.calls i none) : s'.inCall.card + 1 = s.inCall.card := by
  have shrunk : s'.inCall = s.inCall.erase i := by
    ext j
    rw [Finset.mem_erase, mem_inCall, mem_inCall, calls]
    by_cases same : j = i
    · simp [same]
    · simp [same]
  rw [shrunk, Finset.card_erase_add_one]
  simp [mem_inCall, busy]

/-- What holds of the calls holds of them still if the new one has it. -/
theorem calls_update {P : Call → Prop} {calls : Fin n → Option Call} {i : Fin n} {v : Option Call}
    (old : ∀ j call, calls j = some call → P call) (new : ∀ call, v = some call → P call) (j : Fin n)
    (call : Call) (busy : Function.update calls i v j = some call) : P call := by
  by_cases same : j = i
  · subst same
    rw [Function.update_self] at busy
    exact new call busy
  · rw [Function.update_of_ne same] at busy
    exact old j call busy

/-! ## Positions -/

/-- Every call stays inside the buffer. Each process that is in a call can move the
position on by one buffer, and none can enter a call once it is beyond the end. -/
structure Placed (s : Shared n σ) : Prop where
  inside : ∀ i call, s.calls i = some call →
    call.copied ≤ call.ubuf.length ∧ call.dest + call.ubuf.length ≤ 0x10000
  bound : s.writepos + 0x10000 * s.inCall.card ≤ 0x10000 * (n + 1)

theorem start_placed (world : World σ) : (start n world).Placed where
  inside := by
    intro i call busy
    cases busy
  bound := by
    have empty : (start n world).inCall = ∅ := by
      ext i
      simp [mem_inCall, start]
    rw [empty, Finset.card_empty]
    exact Nat.zero_le _

section
variable (few : n < 2 ^ 15)
include few

/-- With so few processes the sum of the guard does not wrap. -/
theorem Placed.guard (h : s.Placed) {ubuf : List Byte} (short : ubuf.length < 2 ^ 31) :
    (s.writepos + ubuf.length) % 2 ^ 32 = s.writepos + ubuf.length := by
  have bound := h.bound
  exact Nat.mod_eq_of_lt (by omega)

theorem Placed.advance (h : s.Placed) {i : Fin n} {call : Call} (busy : s.calls i = some call) :
    (s.writepos + call.ubuf.length) % 2 ^ 32 = s.writepos + call.ubuf.length := by
  obtain ⟨-, inside⟩ := h.inside i call busy
  exact h.guard few (by omega)

theorem Placed.step (h : s.Placed) {a : Action n} (step : s.step B a = some s') : s'.Placed := by
  obtain ⟨i, rfl, idle, rfl⟩ | ⟨i, ubuf, rfl, idle, short, rfl⟩ | ⟨i, count, call, rfl, busy, rfl⟩ |
    ⟨i, call, rfl, busy, whole, rfl⟩ := step_cases step
  · have bound := h.bound
    refine ⟨h.inside, ?_⟩
    change 0 + 0x10000 * s.inCall.card ≤ _
    omega
  · have guard := h.guard few short
    unfold enter
    rw [guard]
    split
    · exact ⟨h.inside, h.bound⟩
    · rename_i fits
      let entered : Shared n σ := { s with
        calls := Function.update s.calls i (some ⟨ubuf, s.writepos, 0⟩) }
      have card : entered.inCall.card = s.inCall.card + 1 := inCall_enter idle rfl
      have most := inCall_card_le entered
      refine ⟨calls_update h.inside ?_, ?_⟩
      · rintro call ⟨⟩
        exact ⟨Nat.zero_le _, Nat.le_of_not_lt fits⟩
      · rw [card] at most ⊢
        change s.writepos + _ ≤ _
        omega
  · obtain ⟨-, inside⟩ := h.inside i call busy
    refine ⟨calls_update h.inside ?_, ?_⟩
    · rintro call ⟨⟩
      exact ⟨Nat.min_le_right _ _, inside⟩
    · rw [inCall_copy busy rfl]
      exact h.bound
  · obtain ⟨-, inside⟩ := h.inside i call busy
    have card : (s.leave B i call.ubuf).inCall.card + 1 = s.inCall.card := inCall_leave busy rfl
    refine ⟨calls_update h.inside ?_, ?_⟩
    · rintro call ⟨⟩
    · have bound := h.bound
      change (s.writepos + call.ubuf.length) % 2 ^ 32 + _ ≤ _
      rw [h.advance few busy]
      omega

theorem reach_placed {allowed : Shared n σ → Action n → Prop} {world : World σ}
    (reached : Transition.Reach (fun a s => step B a s) allowed (start n world) s) : s.Placed :=
  reached.invariant (start_placed world) fun _ _ _ h _ step => h.step few step

/-- Once two calls have carried the position beyond the end of the buffer, nothing is
taken, and nothing is flashed, until somebody opens the device. -/
theorem wedged_until_open {world : World σ}
    (reached : Transition.Reach (fun a s => step B a s) (fun _ _ => True) (start n world) s)
    (beyond : 0x10000 < s.writepos)
    (later : Transition.Reach (fun a s => step B a s) (fun _ a => ∀ i, a ≠ .opens i) s s') :
    s'.world = s.world ∧ ∀ i ubuf, s'.calls i = none → ubuf.length < 2 ^ 31 →
      s'.step B (.enter i ubuf) = some { s' with log := s'.log ++ [.wrote i ubuf (-EINVAL)] } := by
  have placed := reach_placed few reached
  obtain ⟨placed', world', beyond'⟩ : s'.Placed ∧ s'.world = s.world ∧ 0x10000 < s'.writepos := by
    apply later.invariant (P := fun t => t.Placed ∧ t.world = s.world ∧ 0x10000 < t.writepos)
    · exact ⟨placed, rfl, beyond⟩
    · rintro t a t' ⟨placed, kept, beyond⟩ may step
      refine ⟨placed.step few step, ?_⟩
      obtain ⟨i, rfl, idle, rfl⟩ | ⟨i, ubuf, rfl, idle, short, rfl⟩ | ⟨i, count, call, rfl, busy, rfl⟩ |
        ⟨i, call, rfl, busy, whole, rfl⟩ := step_cases step
      · exact absurd rfl (may i)
      · unfold enter
        split
        · exact ⟨kept, beyond⟩
        · exact ⟨kept, beyond⟩
      · exact ⟨kept, beyond⟩
      · have advance := placed.advance few busy
        have short : (t.finish B call.ubuf).2 = t.world := by
          rw [finish, advance, if_neg (by omega)]
        refine ⟨short.trans kept, ?_⟩
        change 0x10000 < (t.writepos + call.ubuf.length) % 2 ^ 32
        omega
  refine ⟨world', ?_⟩
  intro i ubuf idle short
  simp only [Shared.step, idle]
  rw [if_pos short, enter, placed'.guard few short, if_pos (by omega)]

end

/-! ## Two calls at once -/

section
variable (B)

theorem enters {i : Fin n} {ubuf : List Byte} (idle : s.calls i = none)
    (fits : s.writepos + ubuf.length ≤ 0x10000) : s.step B (.enter i ubuf) =
      some { s with calls := Function.update s.calls i (some ⟨ubuf, s.writepos, 0⟩) } := by
  simp only [step, idle, enter]
  rw [if_pos (by omega), Nat.mod_eq_of_lt (by omega), if_neg (by omega)]

/-- What becomes of a call that has entered, if it goes through. -/
def through (i : Fin n) (ubuf : List Byte) (dest : Nat) (s : Shared n σ) : Shared n σ :=
  (s.copy i ⟨ubuf, dest, 0⟩ ubuf.length).leave B i ubuf

theorem through_calls (i : Fin n) (ubuf : List Byte) (dest : Nat) :
    (s.through B i ubuf dest).calls = Function.update s.calls i none := Function.update_idem _ _ _

theorem through_writepos (i : Fin n) (ubuf : List Byte) (dest : Nat) :
    (s.through B i ubuf dest).writepos = (s.writepos + ubuf.length) % 2 ^ 32 := rfl

theorem goes_through {allowed : Shared n σ → Action n → Prop} {i : Fin n} {ubuf : List Byte} {dest : Nat}
    (here : s.calls i = some ⟨ubuf, dest, 0⟩) (copies : allowed s (.copy i ubuf.length))
    (leaves : allowed (s.copy i ⟨ubuf, dest, 0⟩ ubuf.length) (.leave i)) :
    Transition.Reach (fun a s => step B a s) allowed s (s.through B i ubuf dest) := by
  have first : s.step B (.copy i ubuf.length) = some (s.copy i ⟨ubuf, dest, 0⟩ ubuf.length) := by
    simp only [step, here]
  have calls : (s.copy i ⟨ubuf, dest, 0⟩ ubuf.length).calls =
      Function.update s.calls i (some ⟨ubuf, dest, min (0 + ubuf.length) ubuf.length⟩) := rfl
  have second : (s.copy i ⟨ubuf, dest, 0⟩ ubuf.length).step B (.leave i) =
      some (s.through B i ubuf dest) := by
    simp [step, calls, through]
  exact .next _ (.next _ .start copies first) leaves second

end

/-- Two processes have entered a write of the same data. -/
def bothIn {σ : Type} (data : List Byte) (world : World σ) : Shared 2 σ where
  writepos := 0
  buffer := fun _ => 0#8
  calls := Function.update (Function.update (fun _ => none) 0 (some ⟨data, 0, 0⟩)) 1 (some ⟨data, 0, 0⟩)
  world := world
  log := []

theorem reach_bothIn {σ : Type} (B : Bus σ) {data : List Byte} (short : data.length ≤ 0x10000)
    (world : World σ) : Transition.Reach (fun a s => step B a s) (fun _ _ => True) (start 2 world)
      (bothIn data world) := by
  have first := enters B (s := start 2 world) (i := 0) rfl (show 0 + data.length ≤ 0x10000 by omega)
  have second := enters B (i := 1)
    (s := { start 2 world with calls := Function.update (fun _ => none) 0 (some ⟨data, 0, 0⟩) })
    rfl (show 0 + data.length ≤ 0x10000 by omega)
  exact .next _ (.next _ .start trivial first) trivial second

/-- Two processes that write more than half of the buffer at once. -/
theorem wedged_until_open_halves : ∃ s : Shared 2 Unit,
    Transition.Reach (fun a s => step .silent a s) (fun _ _ => True) (start 2 ⟨(), []⟩) s ∧
    s.writepos = 0x10002 ∧
    s.step .silent (.enter 0 []) = some { s with log := s.log ++ [.wrote 0 [] (-EINVAL)] } := by
  have length : (List.replicate 0x8001 (0#8 : Byte)).length = 0x8001 := List.length_replicate
  generalize List.replicate 0x8001 (0#8 : Byte) = half at length
  let s₁ := (bothIn half ⟨(), []⟩).through .silent 0 half 0
  have reached₁ : Transition.Reach (fun a s => step .silent a s) (fun _ _ => True)
      (bothIn half ⟨(), []⟩) s₁ := goes_through .silent rfl trivial trivial
  have calls₁ : s₁.calls = Function.update (bothIn half ⟨(), []⟩).calls 0 none := through_calls ..
  have reached₂ : Transition.Reach (fun a s => step .silent a s) (fun _ _ => True) s₁
      (s₁.through .silent 1 half 0) := goes_through .silent (by rw [calls₁]; rfl) trivial trivial
  have calls₂ : (s₁.through .silent 1 half 0).calls = Function.update s₁.calls 1 none := through_calls ..
  have reached := ((reach_bothIn .silent (by omega) ⟨(), []⟩).trans reached₁).trans reached₂
  have pos : (s₁.through .silent 1 half 0).writepos = 0x10002 := by
    rw [through_writepos, through_writepos, show (bothIn half ⟨(), []⟩).writepos = 0 from rfl]
    omega
  obtain ⟨-, refused⟩ := wedged_until_open (by decide) reached (by omega) .start
  refine ⟨_, reached, pos, refused 0 [] ?_ (by decide)⟩
  rw [calls₂, calls₁]
  rfl

/-! ## The flash -/

section
variable {g : Geometry} {t : Timing} {mem : Mem} {s s' : Shared n Chip}

/-- A buffer with nothing behind it is the list of its bytes. -/
theorem eq_getD_load {m : Mem} {size : Nat} (behind : ∀ x, size ≤ x → m x = 0#8) :
    m = ((m.load 0 size).getD · 0#8) := by
  funext x
  by_cases inside : x < size
  · simp [Mem.load, inside]
  · simp [Mem.load, inside, behind x (Nat.le_of_not_lt inside)]

/-- The flash is as it was, or the boot sector holds a complete image. -/
structure Safe (g : Geometry) (mem : Mem) (s : Shared n Chip) : Prop where
  behind : ∀ x, 0x10000 ≤ x → s.buffer x = 0#8
  ready : s.world.hw.Ready
  flash : s.world.hw.mem = mem ∨
    ∃ image, Usable image ∧ s.world.hw.mem = installed g.toFlashmap image mem

/-- What a full buffer does. -/
theorem Safe.flushed (h : s.Safe g mem) (count : Int) {w : World Chip}
    (eq : (flushFull (biosBus g t) 0x10000 s.buffer count s.world).2 = w) :
    w.hw.Ready ∧ (w.hw.mem = mem ∨
      ∃ image, Usable image ∧ w.hw.mem = installed g.toFlashmap image mem) := by
  subst eq
  have buffer := eq_getD_load h.behind
  generalize loaded : s.buffer.load 0 0x10000 = image at buffer
  have length : image.length = 0x10000 := by
    rw [← loaded, Mem.length_load]
  by_cases sane : sanityCheck s.buffer = true
  · rw [buffer] at sane ⊢
    obtain ⟨-, ready, flash⟩ := flash_bios g t sane count h.ready
    refine ⟨ready, .inr ⟨image, ⟨length, sane⟩, flash.trans ?_⟩⟩
    obtain same | ⟨old, -, same⟩ := h.flash
    · rw [same]
    · rw [same, installed_installed]
  · obtain ⟨-, hw⟩ := flushFull_refused (biosBus g t) (Bool.eq_false_iff.mpr sane) 0x10000 count
      s.world
    rw [hw]
    exact ⟨h.ready, h.flash⟩

theorem Safe.step (h : s.Safe g mem) (placed : s.Placed) {a : Action n}
    (step : s.step (biosBus g t) a = some s') : s'.Safe g mem := by
  obtain ⟨i, rfl, idle, rfl⟩ | ⟨i, ubuf, rfl, idle, short, rfl⟩ | ⟨i, count, call, rfl, busy, rfl⟩ |
    ⟨i, call, rfl, busy, whole, rfl⟩ := step_cases step
  · refine ⟨?_, h.ready, h.flash⟩
    intro x behind
    exact (if_neg (Nat.not_lt_of_le behind)).trans (h.behind x behind)
  · unfold enter
    split
    · exact ⟨h.behind, h.ready, h.flash⟩
    · exact ⟨h.behind, h.ready, h.flash⟩
  · obtain ⟨within, inside⟩ := placed.inside i call busy
    refine ⟨?_, h.ready, h.flash⟩
    intro x behind
    refine (Mem.store_frame _ (.inr ?_)).trans (h.behind x behind)
    rw [List.length_take, List.length_drop]
    omega
  · unfold leave finish
    split
    · rename_i full
      obtain ⟨ready, flash⟩ := h.flushed call.ubuf.length (t := t) rfl
      rw [full]
      exact ⟨h.behind, ready, flash⟩
    · exact ⟨h.behind, h.ready, h.flash⟩

/-- In whatever order calls of `biffupgrade_open` and `biffupgrade_write` go on, they
store nothing outside the buffer, and the boot sector is as it was or holds a complete
image that looks like Biffboot. -/
theorem flash_always_whole (few : n < 2 ^ 15)
    (reached : Transition.Reach (fun a s => step (biosBus g t) a s) (fun _ _ => True)
      (start n ⟨idleChip mem, []⟩) s) :
    (∀ i call, s.calls i = some call → call.dest + call.ubuf.length ≤ 0x10000) ∧
    (∀ x, 0x10000 ≤ x → s.buffer x = 0#8) ∧ s.world.hw.Ready ∧
    (s.world.hw.mem = mem ∨
      ∃ image, Usable image ∧ s.world.hw.mem = installed g.toFlashmap image mem) := by
  obtain ⟨placed, safe⟩ : s.Placed ∧ s.Safe g mem := by
    apply reached.invariant (P := fun s => s.Placed ∧ s.Safe g mem)
    · exact ⟨start_placed _, fun _ _ => rfl, idleChip_ready mem, .inl rfl⟩
    · rintro s a s' ⟨placed, safe⟩ - step
      exact ⟨placed.step few step, safe.step placed step⟩
  exact ⟨fun i call busy => (placed.inside i call busy).2, safe.behind, safe.ready, safe.flash⟩

theorem store_start {data : List Byte} :
    Mem.store (fun _ => 0#8) 0 data = (data.getD · 0#8) := by
  funext x
  by_cases inside : x < data.length
  · have stored := Mem.store_inside (fun _ => 0#8) (a := 0) inside
    rwa [Nat.zero_add] at stored
  · rw [Mem.store_frame _ (.inr (by omega)), List.getD_eq_default _ _ (by omega)]

/-- A complete image in one call, if nothing has been written before. -/
theorem through_image {image : List Byte} (usable : Usable image) (i : Fin n) (first : s.writepos = 0)
    (clean : s.buffer = fun _ => 0#8) (ready : s.world.hw.Ready) :
    (s.through (biosBus g t) i image 0).log = s.log ++ [.wrote i image 0x10000] ∧
      (s.through (biosBus g t) i image 0).world.hw.mem =
        installed g.toFlashmap image s.world.hw.mem := by
  obtain ⟨whole, sane⟩ := usable
  have buffer : (s.copy i ⟨image, 0, 0⟩ image.length).buffer = (image.getD · 0#8) := by
    change s.buffer.store 0 ((image.drop 0).take image.length) = _
    rw [List.drop_zero, List.take_length, clean, store_start]
  have full : (s.writepos + image.length) % 2 ^ 32 = 0x10000 := by
    rw [first, whole]
    decide
  have done : (s.copy i ⟨image, 0, 0⟩ image.length).finish (biosBus g t) image =
      flushFull (biosBus g t) 0x10000 (image.getD · 0#8) image.length s.world := by
    have place : (s.copy i ⟨image, 0, 0⟩ image.length).writepos = s.writepos := rfl
    rw [finish, place, full, if_pos rfl, buffer]
    rfl
  obtain ⟨ret, -, flash⟩ := flash_bios g t sane image.length ready
  rw [← done] at ret flash
  refine ⟨?_, flash⟩
  change s.log ++ [Entry.wrote i image _] = _
  rw [ret, whole]
  rfl

/-- Two processes write the same image at once, and one of them is through. -/
theorem flash_always_whole_overlap : ∃ (image : List Byte) (s : Shared 2 Chip),
    Transition.Reach (fun a s => step (biosBus .en640 .instant) a s) (fun _ _ => True)
      (start 2 ⟨idleChip fun _ => 0#8, []⟩) s ∧
    s.calls 1 ≠ none ∧ s.log = [.wrote 0 image 0x10000] ∧
    s.world.hw.mem = installed Geometry.en640.toFlashmap image (fun _ => 0#8) ∧ s.world.hw.Ready := by
  have usable := bareBiffboot_usable
  generalize (List.range 0x10000).map bareBiffboot = image at usable
  have entered := reach_bothIn (biosBus .en640 .instant) (Nat.le_of_eq usable.1) ⟨idleChip fun _ => 0#8, []⟩
  have reached := entered.trans
    (goes_through (i := 0) (biosBus .en640 .instant) rfl trivial trivial)
  obtain ⟨log, flash⟩ := through_image usable 0 (s := bothIn image ⟨idleChip fun _ => 0#8, []⟩) rfl rfl
    (idleChip_ready _)
  obtain ⟨-, -, ready, -⟩ := flash_always_whole (by decide) reached
  refine ⟨image, _, reached, ?_, log, flash, ready⟩
  rw [through_calls]
  exact Option.some_ne_none (Call.mk image 0 0)

end

end Shared

/-! ## One call at a time -/

/-- The same call of `/dev/biffboot`, with one handle for everybody, which every open
renews. -/
def Entry.onBiffboot {n : Nat} (g : Geometry) (t : Timing) (e : Entry n) (f : BootFile Chip) :
    Int × BootFile Chip :=
  match e with
  | .opened _ => (0, ⟨.fresh, f.world⟩)
  | .wrote _ ubuf _ => biffbootWrite (g.part t).bus g.toFlashmap ubuf f

section
variable {n : Nat} {g : Geometry} {t : Timing} {s s' : Shared n Chip} {f : BootFile Chip}

/-- How far a call has got with the buffer, if one is going on. -/
inductive Copying (buffer : Mem) (s : Shared n Chip) : Prop
  | idle (calls : s.calls = fun _ => none) (same : s.buffer = buffer)
  | busy (i : Fin n) (call : Call) (calls : s.calls = Function.update (fun _ => none) i (some call))
      (dest : call.dest = s.writepos) (fits : s.writepos + call.ubuf.length ≤ 0x10000)
      (within : call.copied ≤ call.ubuf.length)
      (stored : s.buffer = buffer.store s.writepos (call.ubuf.take call.copied))

/-- The shared device against the handle of `/dev/biffboot`. -/
structure Serial (s : Shared n Chip) (f : BootFile Chip) : Prop where
  pos : s.writepos = f.priv.writeBufferPos
  held : ∃ image, Held image f.priv
  copying : Copying f.priv.writeBuffer s
  ready : s.world.hw.Ready
  ready' : f.world.hw.Ready
  mem : s.world.hw.mem = f.world.hw.mem

/-- Nobody begins a call while another one is going on. -/
def Shared.OneByOne (s : Shared n Chip) (a : Action n) : Prop := ∀ j, s.calls j ≠ none → a.pid = j

theorem Copying.idle_of {buffer : Mem} (h : Copying buffer s) {a : Action n} (may : s.OneByOne a)
    (none : s.calls a.pid = none) : s.calls = (fun _ => .none) ∧ s.buffer = buffer := by
  cases h with
  | idle calls same => exact ⟨calls, same⟩
  | busy i call calls =>
    have here : s.calls i = some call := by rw [calls, Function.update_self]
    have same := may i (by rw [here]; exact Option.some_ne_none call)
    rw [same, here] at none
    cases none

theorem Copying.busy_of {buffer : Mem} (h : Copying buffer s) {i : Fin n} {call : Call}
    (here : s.calls i = some call) :
    s.calls = Function.update (fun _ => none) i (some call) ∧ call.dest = s.writepos ∧
      s.writepos + call.ubuf.length ≤ 0x10000 ∧ call.copied ≤ call.ubuf.length ∧
      s.buffer = buffer.store s.writepos (call.ubuf.take call.copied) := by
  cases h with
  | idle calls => simp [calls] at here
  | busy j call' calls dest fits within stored =>
    rw [calls] at here
    by_cases same : i = j
    · subst same
      rw [Function.update_self, Option.some.injEq] at here
      subst here
      exact ⟨calls, dest, fits, within, stored⟩
    · rw [Function.update_of_ne same] at here
      cases here

theorem copyIn_store (priv : BiffbootFpPrivate) (ubuf : List Byte)
    (fits : priv.writeBufferPos + ubuf.length ≤ 0x10000) :
    (priv.copyIn ubuf fits).writeBuffer = Mem.store priv.writeBuffer priv.writeBufferPos ubuf := rfl

/-- `/dev/biffboot` at the end of a write that fits. -/
theorem biffbootWrite_fits {σ : Type} (B : Bus σ) (fm : Flashmap) {f : BootFile σ} {ubuf : List Byte}
    (fits : f.priv.writeBufferPos + ubuf.length ≤ 0x10000) :
    (biffbootWrite B fm ubuf f).2.priv = f.priv.copyIn ubuf fits ∧
    (f.priv.writeBufferPos + ubuf.length ≠ 0x10000 →
      (biffbootWrite B fm ubuf f).1 = ubuf.length ∧
      (biffbootWrite B fm ubuf f).2.world.hw = f.world.hw) ∧
    (f.priv.writeBufferPos + ubuf.length = 0x10000 →
      sanityCheck (f.priv.copyIn ubuf fits).writeBuffer = false →
      (biffbootWrite B fm ubuf f).1 = -EINVAL ∧
      (biffbootWrite B fm ubuf f).2.world.hw = f.world.hw) ∧
    (f.priv.writeBufferPos + ubuf.length = 0x10000 →
      sanityCheck (f.priv.copyIn ubuf fits).writeBuffer = true →
      (biffbootWrite B fm ubuf f).1 = ubuf.length ∧
      ∃ w, w.hw = f.world.hw ∧ (biffbootWrite B fm ubuf f).2.world =
        flashBoot B fm (f.priv.copyIn ubuf fits) w) := by
  have pos : (f.priv.copyIn ubuf fits).writeBufferPos = f.priv.writeBufferPos + ubuf.length := rfl
  simp only [biffbootWrite, dif_pos fits, pos]
  refine ⟨?_, ?_, ?_, ?_⟩
  · split
    · split <;> rfl
    · rfl
  · intro short
    rw [if_neg short]
    exact ⟨rfl, rfl⟩
  · intro full refused
    rw [if_pos full, if_pos refused]
    exact ⟨rfl, rfl⟩
  · intro full sane
    rw [if_pos full, if_neg (by rw [sane]; decide)]
    exact ⟨rfl, f.world.note _, rfl, rfl⟩

namespace Serial

/-- The end of a write. -/
theorem leave (h : Serial s f) {i : Fin n} {call : Call} (here : s.calls i = some call)
    (whole : call.copied = call.ubuf.length) :
    (s.finish (biosBus g t) call.ubuf).1 =
        (biffbootWrite (g.part t).bus g.toFlashmap call.ubuf f).1 ∧
      Serial (s.leave (biosBus g t) i call.ubuf)
        (biffbootWrite (g.part t).bus g.toFlashmap call.ubuf f).2 := by
  obtain ⟨calls, -, fits, -, stored⟩ := h.copying.busy_of here
  obtain ⟨image, held⟩ := h.held
  rw [whole, List.take_length] at stored
  have fits' : f.priv.writeBufferPos + call.ubuf.length ≤ 0x10000 := h.pos ▸ fits
  have advance : (s.writepos + call.ubuf.length) % 2 ^ 32 = s.writepos + call.ubuf.length :=
    Nat.mod_eq_of_lt (by omega)
  have held' := held.copyIn call.ubuf fits'
  have buffer : s.buffer = (f.priv.copyIn call.ubuf fits').writeBuffer := by
    rw [stored, copyIn_store, h.pos]
  have out : Function.update s.calls i none = fun _ => none := by
    rw [calls, Function.update_idem, Function.update_eq_self_iff]
  obtain ⟨priv, short, refused, flashed⟩ :=
    biffbootWrite_fits (g.part t).bus g.toFlashmap fits'
  have pos : (s.writepos + call.ubuf.length) % 2 ^ 32 =
      (biffbootWrite (g.part t).bus g.toFlashmap call.ubuf f).2.priv.writeBufferPos := by
    rw [priv, advance, h.pos]
    rfl
  -- the position and the buffer are settled; what is left is the flash
  have rest (ready : (s.finish (biosBus g t) call.ubuf).2.hw.Ready)
      (ready' : (biffbootWrite (g.part t).bus g.toFlashmap call.ubuf f).2.world.hw.Ready)
      (mem : (s.finish (biosBus g t) call.ubuf).2.hw.mem =
        (biffbootWrite (g.part t).bus g.toFlashmap call.ubuf f).2.world.hw.mem) :
      Serial (s.leave (biosBus g t) i call.ubuf)
        (biffbootWrite (g.part t).bus g.toFlashmap call.ubuf f).2 :=
    ⟨pos, ⟨_, priv ▸ held'⟩, .idle out (buffer.trans (congrArg _ priv.symm)), ready, ready', mem⟩
  by_cases full : s.writepos + call.ubuf.length = 0x10000
  · have full' := h.pos ▸ full
    have done : s.finish (biosBus g t) call.ubuf =
        flushFull (biosBus g t) 0x10000 s.buffer call.ubuf.length s.world := by
      rw [Shared.finish, advance, if_pos full, full]
    have length : (image ++ call.ubuf).length = 0x10000 := held'.pos.symm.trans full'
    by_cases sane : sanityCheck s.buffer = true
    · obtain ⟨ret, w, hw, world⟩ := flashed full' (buffer ▸ sane)
      obtain ⟨ready', mem'⟩ := flashBoot_nor g t held' length (hw ▸ h.ready' : w.hw.Ready)
      rw [buffer, held'.buffer] at sane
      obtain ⟨ret', ready, mem⟩ := flash_bios g t sane call.ubuf.length h.ready
      rw [← held'.buffer, ← buffer, ← done] at ret' ready mem
      refine ⟨ret'.trans ret.symm, rest ready (world ▸ ready') ?_⟩
      rw [mem, world, mem', h.mem, hw]
    · have sane' := Bool.eq_false_iff.mpr sane
      obtain ⟨ret, hw⟩ := refused full' (buffer ▸ sane')
      obtain ⟨ret', hw'⟩ := flushFull_refused (biosBus g t) sane' 0x10000 call.ubuf.length s.world
      rw [← done] at ret' hw'
      refine ⟨ret'.trans ret.symm, rest (hw' ▸ h.ready) (hw ▸ h.ready') ?_⟩
      rw [hw', hw, h.mem]
  · obtain ⟨ret, hw⟩ := short (h.pos ▸ full)
    have done : s.finish (biosBus g t) call.ubuf = ((call.ubuf.length : Int), s.world) := by
      rw [Shared.finish, advance, if_neg full]
    rw [done] at rest ⊢
    refine ⟨ret.symm, rest h.ready (hw ▸ h.ready') ?_⟩
    rw [hw]
    exact h.mem

/-- A step either goes on with a call, or ends it as `/dev/biffboot` would. -/
theorem step (h : Serial s f) {a : Action n} (may : s.OneByOne a)
    (step : s.step (biosBus g t) a = some s') :
    (s'.log = s.log ∧ Serial s' f) ∨
    ∃ e, s'.log = s.log ++ [e] ∧ e.ret = (e.onBiffboot g t f).1 ∧
      Serial s' (e.onBiffboot g t f).2 := by
  obtain ⟨i, rfl, none, rfl⟩ | ⟨i, ubuf, rfl, none, short, rfl⟩ | ⟨i, count, call, rfl, here, rfl⟩ |
    ⟨i, call, rfl, here, whole, rfl⟩ := Shared.step_cases step
  · obtain ⟨calls, same⟩ := h.copying.idle_of may none
    obtain ⟨image, held⟩ := h.held
    refine .inr ⟨.opened i, rfl, rfl, rfl, ⟨_, .fresh⟩, .idle calls ?_, h.ready, h.ready', h.mem⟩
    funext x
    change (if x < 0x10000 then 0#8 else s.buffer x) = 0#8
    by_cases inside : x < 0x10000
    · rw [if_pos inside]
    · have behind : image.length ≤ x :=
        held.pos ▸ f.priv.writeBufferPos_le.trans (Nat.le_of_not_lt inside)
      rw [if_neg inside, same, held.buffer]
      exact List.getD_eq_default _ _ behind
  · obtain ⟨calls, same⟩ := h.copying.idle_of may none
    have low := f.priv.writeBufferPos_le
    have pos := h.pos
    have guard : (s.writepos + ubuf.length) % 2 ^ 32 = s.writepos + ubuf.length :=
      Nat.mod_eq_of_lt (by omega)
    unfold Shared.enter
    rw [guard]
    split
    · rename_i long
      refine .inr ⟨.wrote i ubuf (-EINVAL), rfl, ?_⟩
      rw [pos] at long
      simp only [Entry.onBiffboot, biffbootWrite, dif_neg (Nat.not_le_of_lt long)]
      exact ⟨rfl, pos, h.held, .idle calls same, h.ready, h.ready', h.mem⟩
    · rename_i fits
      refine .inl ⟨rfl, pos, h.held, .busy i ⟨ubuf, s.writepos, 0⟩ ?_ rfl (Nat.le_of_not_lt fits)
        (Nat.zero_le _) ?_, h.ready, h.ready', h.mem⟩
      · rw [calls]
      · exact same.trans (Mem.store_nil _ _).symm
  · obtain ⟨calls, dest, fits, within, stored⟩ := h.copying.busy_of here
    refine .inl ⟨rfl, h.pos, h.held, .busy i
      { call with copied := min (call.copied + count) call.ubuf.length } ?_ dest fits
      (Nat.min_le_right _ _) ?_, h.ready, h.ready', h.mem⟩
    · change Function.update s.calls i _ = _
      rw [calls, Function.update_idem]
    · change s.buffer.store (call.dest + call.copied) ((call.ubuf.drop call.copied).take count) =
        Mem.store f.priv.writeBuffer s.writepos
          (call.ubuf.take (min (call.copied + count) call.ubuf.length))
      have copied : (call.ubuf.take call.copied).length = call.copied := by
        rw [List.length_take, Nat.min_eq_left within]
      rw [← List.take_eq_take_min, List.take_add, ← Mem.store_append, copied, stored, dest]
  · exact .inr ⟨.wrote i call.ubuf _, rfl, h.leave here whole⟩

end Serial

/-- As long as the calls do not overlap, they return what calls of `/dev/biffboot` with
one shared handle return, and leave the same in the flash. -/
theorem serial_is_biffboot {mem : Mem}
    (reached : Transition.Reach (fun a s => Shared.step (biosBus g t) a s) Shared.OneByOne
      (.start n ⟨idleChip mem, []⟩) s) :
    s.log.map Entry.ret = Transition.outputs (Entry.onBiffboot g t) s.log (bootOn mem) ∧
    s.world.hw.mem =
      (Transition.run (fun e f => (Entry.onBiffboot g t e f).2) (bootOn mem) s.log).world.hw.mem := by
  obtain ⟨serial, same⟩ : Serial s
      (Transition.run (fun e f => (Entry.onBiffboot g t e f).2) (bootOn mem) s.log) ∧
      s.log.map Entry.ret = Transition.outputs (Entry.onBiffboot g t) s.log (bootOn mem) := by
    apply reached.invariant (P := fun s => Serial s
      (Transition.run (fun e f => (Entry.onBiffboot g t e f).2) (bootOn mem) s.log) ∧
      s.log.map Entry.ret = Transition.outputs (Entry.onBiffboot g t) s.log (bootOn mem))
    · exact ⟨⟨rfl, ⟨_, .fresh⟩, .idle rfl rfl, idleChip_ready mem, idleChip_ready mem, rfl⟩, rfl⟩
    · rintro s a s' ⟨serial, same⟩ may step
      obtain ⟨log, serial'⟩ | ⟨e, log, ret, serial'⟩ := serial.step may step
      · rw [log]
        exact ⟨serial', same⟩
      · rw [log, Transition.run_append, Transition.outputs_append, List.map_append, same]
        exact ⟨serial', congrArg (_ ++ [·]) ret⟩
  exact ⟨same, serial.mem⟩

/-- One process opens the device, and another one writes an image. -/
theorem serial_is_biffboot_image : ∃ (image : List Byte) (s : Shared 2 Chip),
    Transition.Reach (fun a s => Shared.step (biosBus .en640 .instant) a s) Shared.OneByOne
      (.start 2 ⟨idleChip fun _ => 0#8, []⟩) s ∧
    s.log = [.opened 0, .wrote 1 image 0x10000] ∧
    s.log.map Entry.ret =
      Transition.outputs (Entry.onBiffboot .en640 .instant) s.log (bootOn fun _ => 0#8) := by
  have usable := bareBiffboot_usable
  generalize (List.range 0x10000).map bareBiffboot = image at usable
  have alone (s : Shared 2 Chip) (call : Option Call)
      (calls : s.calls = Function.update (fun _ => none) 1 call) (a : Action 2) (mine : a.pid = 1) :
      s.OneByOne a := by
    intro j busy
    by_contra other
    rw [calls, Function.update_of_ne (fun same => other (mine.trans same.symm))] at busy
    exact busy rfl
  let opened : Shared 2 Chip := Shared.opens 0 (.start 2 ⟨idleChip fun _ => 0#8, []⟩)
  have entered := Shared.enters (biosBus .en640 .instant) (s := opened) (i := 1) rfl
    (show 0 + image.length ≤ 0x10000 by rw [usable.1])
  have reached : Transition.Reach (fun a s => Shared.step (biosBus .en640 .instant) a s)
      Shared.OneByOne (.start 2 ⟨idleChip fun _ => 0#8, []⟩) _ :=
    .next _ (.next (.opens 0) .start (fun _ busy => absurd rfl busy) rfl)
      (alone opened none (Function.update_eq_self_iff.mpr rfl).symm _ rfl) entered
  have written := reached.trans (Shared.goes_through (i := 1) (biosBus .en640 .instant) rfl
    (alone _ _ rfl _ rfl) (alone _ _ (Function.update_idem _ _ _) _ rfl))
  have clean : opened.buffer = fun _ => 0#8 := by
    funext x
    exact ite_self _
  obtain ⟨log, -⟩ := Shared.through_image (g := .en640) (t := .instant) usable 1
    (s := { opened with calls := Function.update opened.calls 1 (some ⟨image, 0, 0⟩) }) rfl clean
    (idleChip_ready _)
  exact ⟨image, _, written, log, (serial_is_biffboot written).1⟩

end

end Bifferboard.Biffupgrade
