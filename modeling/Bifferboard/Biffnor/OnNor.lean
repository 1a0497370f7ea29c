import Bifferboard.Biffnor.Reading
import Bifferboard.Biffnor.Trace

/-!
# The flash primitives on a NOR chip

What the driver's primitives do when the bus leads to a NOR chip with the
sectors of the flash map and operations that finish before the driver gives
up waiting. The primitives then never fail, and `flash_write_chunk` erases
the sector it starts, if it starts one, and programs the whole words of its
buffer (`flashWriteChunk_nor`).
-/

namespace Bifferboard
open Nor

/-- How long operations take, in status reads: less than the polling loops
of the driver allow. -/
structure Timing where
  programTime : Nat → Nat
  eraseTime : Nat → Nat
  programTime_lt : ∀ n, programTime n < 0x10000
  eraseTime_lt : ∀ n, eraseTime n < 0x100000

/-- Operations that finish at once. -/
def Timing.instant : Timing :=
  ⟨fun _ => 0, fun _ => 0, fun _ => Nat.zero_lt_succ _, fun _ => Nat.zero_lt_succ _⟩

/-- The identification codes of the part, by word address. -/
def Flashmap.ident (fm : Flashmap) (a : Nat) : Word :=
  if a / 2 % 0x200 = 0 then 0x7f#16
  else if a / 2 % 0x200 = 0x100 then 0x1c#16
  else if a / 2 % 0x200 = 1 then
    if fm.deviceSize = 1 then 0x225b#16 else if fm.deviceSize = 4 then 0x22f9#16 else 0x22cb#16
  else 0xffff#16

def Flashmap.part (fm : Flashmap) (t : Timing) : Part := ⟨fm.layout, fm.ident, t.programTime, t.eraseTime⟩

/-- A chip with the given contents, waiting for a command. -/
def idleChip (mem : Mem) : Chip := ⟨mem, .read, 0, 0⟩

@[simp] theorem idleChip_mem (mem : Mem) : (idleChip mem).mem = mem := rfl

theorem idleChip_ready (mem : Mem) : (idleChip mem).Ready := ⟨rfl, rfl⟩

/-! ## Polling -/

section
variable (p : Part) (timedOut : Byte → Bool)

/-- The world once the running operation is over. -/
def World.finish (w : World Chip) : World Chip := { w with hw := { w.hw with busy := 0 } }

theorem World.finish_eq {w : World Chip} (h : w.hw.busy = 0) : w.finish = w :=
  congrArg (World.mk · w.trace) (Chip.finished_of_idle h)

def World.tick (w : World Chip) : World Chip := { w with hw := { w.hw with busy := w.hw.busy - 1 } }

@[simp] theorem World.tick_busy (w : World Chip) : w.tick.hw.busy = w.hw.busy - 1 := rfl

theorem readFlash_busy (addr : Nat) {w : World Chip} (h : w.hw.busy ≠ 0) :
    readFlash p.bus addr w = (w.hw.status addr, w.tick) := by
  simp only [readFlash, Part.bus, Chip.respond_busy h, World.tick]

theorem readFlash_ready (addr : Nat) {w : World Chip} (h : w.hw.Ready) :
    readFlash p.bus addr w = (w.hw.mem addr, w) := readFlash_shows (h.shows p) addr

/-- Two status reads in a row differ in the toggle bit. -/
theorem status_toggles (addr : Nat) {w : World Chip} (h : 2 ≤ w.hw.busy) :
    w.hw.status addr &&& 0x40#8 ≠ w.tick.hw.status addr &&& 0x40#8 := by
  rw [Chip.status_toggle, Chip.status_toggle]
  have ticked := w.tick_busy
  by_cases odd : w.hw.busy % 2 = 1
  · rw [if_pos odd, if_neg (by omega)]
    decide
  · rw [if_neg odd, if_pos (by omega)]
    decide

/-- The loop on a chip that has finished already. -/
theorem pollToggle_idle (addr count : Nat) (prev cur : Byte) {w : World Chip} (ready : w.hw.Ready)
    (soon : count ≤ 0x100000) :
    ∃ n ≤ count + 1, pollToggle (readFlash p.bus addr) timedOut count prev cur w = (n, w) := by
  rw [pollToggle]
  by_cases same : prev = cur
  · exact ⟨count, by omega, if_pos same⟩
  · rw [if_neg same]
    simp only [readFlash_ready p addr ready]
    by_cases late : timedOut (w.hw.mem addr) = true
    · exact ⟨count, by omega, by simp [late]⟩
    · rw [if_neg late, if_neg (by omega), pollToggle, if_pos rfl]
      exact ⟨count + 1, Nat.le_refl _, rfl⟩

/-- The loop ends when the operation does: the toggle bit differs between the
two reads of a pair as long as the chip is busy at both. -/
theorem pollToggle_nor (addr count : Nat) (prev cur : Byte) (w : World Chip)
    (quiet : ∀ c : Chip, timedOut (c.status addr) = false) (phase : w.hw.phase = .read)
    (settled : prev = cur → w.hw.busy = 0) (soon : count + w.hw.busy ≤ 0x100000) :
    ∃ n ≤ count + w.hw.busy + 1,
      pollToggle (readFlash p.bus addr) timedOut count prev cur w = (n, w.finish) := by
  generalize busy : w.hw.busy = b at settled soon
  induction b using Nat.strongRecOn generalizing w count prev cur with
  | ind b ih =>
    have rest (ready : w.tick.hw.busy = 0) : w.tick.hw.Ready := ⟨phase, ready⟩
    match b, ih, settled, soon with
    | 0, _, _, soon =>
      rw [World.finish_eq busy]
      exact pollToggle_idle p timedOut addr count prev cur ⟨phase, busy⟩ (by omega)
    | 1, _, settled, soon =>
      have idle : w.tick.hw.busy = 0 := by simp [busy]
      have same : w.finish = w.tick := by simp [World.finish, World.tick, busy]
      rw [pollToggle, if_neg (fun e => absurd (settled e) (by decide)), same]
      simp only [readFlash_busy p addr (show w.hw.busy ≠ 0 by omega),
        readFlash_ready p addr (rest idle)]
      by_cases late : timedOut (w.tick.hw.mem addr) = true
      · exact ⟨count, by omega, by simp [late]⟩
      · rw [if_neg late, if_neg (by omega)]
        obtain ⟨n, bound, eq⟩ := pollToggle_idle p timedOut addr (count + 1)
          (w.hw.status addr &&& 0x40#8) (w.tick.hw.mem addr &&& 0x40#8) (rest idle) (by omega)
        exact ⟨n, by omega, eq⟩
    | b + 2, ih, settled, soon =>
      have ticked : w.tick.hw.busy = b + 1 := by simp [busy]
      have again : w.tick.tick.hw.busy = b := by simp [busy]
      have same : w.finish = w.tick.tick.finish := rfl
      rw [pollToggle, if_neg (fun e => absurd (settled e) (by omega)), same]
      simp only [readFlash_busy p addr (show w.hw.busy ≠ 0 by omega),
        readFlash_busy p addr (show w.tick.hw.busy ≠ 0 by omega), quiet, Bool.false_eq_true, ↓reduceIte]
      rw [if_neg (by omega)]
      obtain ⟨n, bound, eq⟩ := ih b (by omega) (count + 1) (w.hw.status addr &&& 0x40#8)
        (w.tick.hw.status addr &&& 0x40#8) w.tick.tick phase again
        (fun e => absurd e (status_toggles addr (by omega))) (by omega)
      exact ⟨n, by omega, eq⟩

theorem pollStatus_nor (addr : Nat) (w : World Chip)
    (quiet : ∀ c : Chip, timedOut (c.status addr) = false) (phase : w.hw.phase = .read)
    (soon : w.hw.busy ≤ 0x100000) :
    ∃ n ≤ w.hw.busy + 1, pollStatus (readFlash p.bus addr) timedOut w = (n, w.finish) := by
  unfold pollStatus
  match busy : w.hw.busy with
  | 0 =>
    have ready : w.hw.Ready := ⟨phase, busy⟩
    rw [World.finish_eq busy]
    exact ⟨0, by omega, pollStatus_shows (ready.shows p) timedOut addr⟩
  | 1 =>
    have ready : w.tick.hw.Ready := ⟨phase, by simp [busy]⟩
    have same : w.finish = w.tick := by simp [World.finish, World.tick, busy]
    simp only [readFlash_busy p addr (show w.hw.busy ≠ 0 by omega), readFlash_ready p addr ready]
    obtain ⟨n, bound, eq⟩ := pollToggle_idle p timedOut addr 0
      (w.hw.status addr &&& 0x40#8) (w.tick.hw.mem addr &&& 0x40#8) ready (by omega)
    exact ⟨n, by omega, same ▸ eq⟩
  | b + 2 =>
    have ticked : w.tick.hw.busy = b + 1 := by simp [busy]
    have again : w.tick.tick.hw.busy = b := by simp [busy]
    simp only [readFlash_busy p addr (show w.hw.busy ≠ 0 by omega),
      readFlash_busy p addr (show w.tick.hw.busy ≠ 0 by omega)]
    obtain ⟨n, bound, eq⟩ := pollToggle_nor p timedOut addr 0
      (w.hw.status addr &&& 0x40#8) (w.tick.hw.status addr &&& 0x40#8) w.tick.tick quiet phase
      (fun e => absurd e (status_toggles addr (by omega))) (by omega)
    exact ⟨n, by omega, eq⟩

end

/-! ## Commands -/

section
variable (p : Part)

theorem unlock1_addr : commandAddr 0xaaa = 0x555 := rfl

theorem unlock2_addr : commandAddr 0x555 = 0x2aa := rfl

theorem programCommand_nor (addr : Nat) (val : Word) {w : World Chip} (ready : w.hw.Ready) :
    programCommand p.bus addr val w =
      ⟨{ w.hw.programmed (w.hw.mem.program addr val) with busy := p.programTime w.hw.ops },
        w.trace ++ [.program addr val]⟩ := by
  have issued := cycle_program p ready unlock1_addr unlock2_addr unlock1_addr
  have kept := cycle_setup_mem p ready unlock1_addr unlock2_addr unlock1_addr
  simp only [programCommand, writeFlash, writeFlash16, Part.bus, World.note, issued, kept]

theorem eraseCommand_nor (addr : Nat) {w : World Chip} (ready : w.hw.Ready) :
    eraseCommand p.bus addr w =
      ⟨{ w.hw.programmed (w.hw.mem.erase (p.layout.start addr) (p.layout.stop addr)) with
          busy := p.eraseTime w.hw.ops }, w.trace ++ [.erase addr]⟩ := by
  have issued := cycle_erase p ready unlock1_addr unlock2_addr unlock1_addr unlock1_addr unlock2_addr
  simp only [eraseCommand, writeFlash, Part.bus, World.note, issued]

end

section
variable (fm : Flashmap) (t : Timing)

theorem programmed_finish (c : Chip) (mem : Mem) (time : Nat) (trace : List Event) (ready : c.Ready) :
    World.finish ⟨{ c.programmed mem with busy := time }, trace⟩ = ⟨c.programmed mem, trace⟩ :=
  congrArg (World.mk · trace) (ready.finished_programmed mem time)

/-- A program command inside the device succeeds. -/
theorem eonProgramWord_nor {addr : Nat} (inside : addr < fm.size) (val : Word) {w : World Chip}
    (ready : w.hw.Ready) : ∃ n : Nat, eonProgramWord (fm.part t).bus fm addr val w =
      ((n : Int), ⟨w.hw.programmed (w.hw.mem.program addr val), w.trace ++ [.program addr val]⟩) := by
  have time := t.programTime_lt w.hw.ops
  have issued := programCommand_nor (fm.part t) addr val ready
  obtain ⟨n, bound, polled⟩ := pollStatus_nor (fm.part t) (fun c => c &&& 0x20#8 != 0#8)
    addr (programCommand (fm.part t).bus addr val w) (fun c => by simp [c.status_in_time addr])
    (by rw [issued]; exact ready.phase_eq)
    (by rw [issued]; exact Nat.le_of_lt (Nat.lt_trans time (by decide)))
  rw [issued] at bound polled
  rw [programmed_finish _ _ _ _ ready] at polled
  refine ⟨n, ?_⟩
  rw [eonProgramWord, if_neg (Nat.not_le_of_lt inside), issued, polled]
  have short : ¬ 0x10000 < n := by
    have : n ≤ t.programTime w.hw.ops + 1 := bound
    omega
  simp only [if_neg short]

/-- An erase command inside the device succeeds. -/
theorem eonEraseSector_nor {addr : Nat} (inside : addr < fm.size) {w : World Chip}
    (ready : w.hw.Ready) : ∃ n : Nat, eonEraseSector (fm.part t).bus fm addr w =
      ((n : Int), ⟨w.hw.programmed (w.hw.mem.erase (fm.layout.start addr) (fm.layout.stop addr)),
        w.trace ++ [.erase addr]⟩) := by
  have time := t.eraseTime_lt w.hw.ops
  have issued := eraseCommand_nor (fm.part t) addr ready
  have quiet : ∀ b : Byte, b &&& 0x40#8 &&& 0x20#8 = 0#8 := by decide
  obtain ⟨n, bound, polled⟩ := pollStatus_nor (fm.part t)
    (fun c => c &&& 0x40#8 &&& 0x20#8 != 0#8) addr
    (eraseCommand (fm.part t).bus addr w) (fun c => by simp [quiet])
    (by rw [issued]; exact ready.phase_eq) (by rw [issued]; exact Nat.le_of_lt time)
  rw [issued] at bound polled
  rw [programmed_finish _ _ _ _ ready] at polled
  refine ⟨n, ?_⟩
  rw [eonEraseSector, if_neg (Nat.not_le_of_lt inside), issued, polled]
  have short : ¬ 0x100000 < n := by
    have : n ≤ t.eraseTime w.hw.ops + 1 := bound
    omega
  simp only [if_neg short]
  rfl

/-! ## Ranges -/

/-- The program commands of a range of words. -/
def programEvents : Nat → (Nat → Word) → Nat → List Event
  | 0, _, _ => []
  | count + 1, src, dest => .program dest (src 0) :: programEvents count (fun i => src (i + 1)) (dest + 2)

theorem eonProgramRange_nor (count : Nat) (buffer : Nat → Byte) {dest : Nat} {w : World Chip}
    (ready : w.hw.Ready) (inside : dest + 2 * count ≤ fm.size) :
    ∃ c : Chip, c.Ready ∧ c.mem = w.hw.mem.programBytes dest (2 * count) buffer ∧
      eonProgramRange (fm.part t).bus fm count (asShorts buffer) dest w =
        (0, ⟨c, w.trace ++ programEvents count (asShorts buffer) dest⟩) := by
  induction count generalizing buffer dest w with
  | zero => exact ⟨w.hw, ready, by simp, by simp [eonProgramRange, programEvents]⟩
  | succ count ih =>
    obtain ⟨n, first⟩ := eonProgramWord_nor fm t (show dest < fm.size by omega)
      (asShorts buffer 0) ready
    have tail : (fun i => asShorts buffer (i + 1)) = asShorts (fun i => buffer (i + 2)) := by
      funext i
      rfl
    obtain ⟨c, ready', mem, rest⟩ := ih (fun i => buffer (i + 2))
      (w := ⟨w.hw.programmed (w.hw.mem.program dest (asShorts buffer 0)),
        w.trace ++ [.program dest (asShorts buffer 0)]⟩) (ready.programmed _)
      (show dest + 2 + 2 * count ≤ fm.size by omega)
    refine ⟨c, ready', ?_, ?_⟩
    · rw [mem]
      exact Mem.programBytes_add_two w.hw.mem dest (2 * count) buffer
    · simp only [eonProgramRange, first, programEvents, tail, rest]
      rw [if_neg (by omega)]
      simp

end

section
variable (g : Geometry) (t : Timing)

/-- The memory once a write to `dest` has prepared the sector it starts, if it
starts one. -/
def prepared (fm : Flashmap) (mem : Mem) (dest : Nat) : Mem :=
  if flashmapIsboundary fm dest = true then mem.erase dest (fm.layout.stop dest) else mem

theorem eraseAsNeeded_nor (dest : Nat) {w : World Chip} (ready : w.hw.Ready) :
    (eraseAsNeeded (g.part t).bus g.toFlashmap dest w).hw.Ready ∧
      (eraseAsNeeded (g.part t).bus g.toFlashmap dest w).hw.mem = prepared g.toFlashmap w.hw.mem dest := by
  by_cases boundary : flashmapIsboundary g.toFlashmap dest = true
  · obtain ⟨inside, start⟩ := (g.isboundary_iff dest).mp boundary
    obtain ⟨blank, checked, iff⟩ := flashmapIserased_shows (ready.shows (g.part t)) g boundary
    rw [prepared, if_pos boundary]
    cases blank with
    | true =>
      have same : eraseAsNeeded (g.part t).bus g.toFlashmap dest w = w := by
        simp only [eraseAsNeeded, boundary, checked, ↓reduceIte]
      rw [same]
      exact ⟨ready, (iff.mp rfl).erase_eq.symm⟩
    | false =>
      obtain ⟨n, erased⟩ := eonEraseSector_nor g.toFlashmap t inside ready
      have result : (eraseAsNeeded (g.part t).bus g.toFlashmap dest w).hw =
          w.hw.programmed (w.hw.mem.erase (g.layout.start dest) (g.layout.stop dest)) := by
        simp only [eraseAsNeeded, boundary, checked, erased, Bool.false_eq_true, ↓reduceIte,
          World.note_hw]
      rw [result, start]
      exact ⟨ready.programmed _, rfl⟩
  · have same : eraseAsNeeded (g.part t).bus g.toFlashmap dest w = w := by
      rw [eraseAsNeeded, if_neg boundary]
    rw [same, prepared, if_neg boundary]
    exact ⟨ready, rfl⟩

end

/-! ## Bytes programmed -/

/-- The bytes a program command is for, with their addresses. -/
def Event.bytes : Event → List (Nat × Byte)
  | .program addr val => [(addr, val.lo), (addr + 1, val.hi)]
  | _ => []

/-- All bytes programmed, in the order of the commands. -/
def programmedBytes (trace : List Event) : List (Nat × Byte) := trace.flatMap Event.bytes

theorem programmedBytes_append (xs ys : List Event) :
    programmedBytes (xs ++ ys) = programmedBytes xs ++ programmedBytes ys := List.flatMap_append

theorem Grows.programmedBytes_eq {σ : Type} {P : Event → Prop} {w w' : World σ} (h : Grows P w w')
    (none : ∀ e, P e → e.bytes = []) : programmedBytes w'.trace = programmedBytes w.trace := by
  obtain ⟨new, eq, all⟩ := h
  have nothing : programmedBytes new = [] :=
    List.flatMap_eq_nil_iff.mpr fun e he => none e (all e he)
  rw [eq, programmedBytes_append, nothing, List.append_nil]

/-- `count` bytes of a buffer with the addresses from `dest` on. -/
def placed (dest count : Nat) (buffer : Nat → Byte) : List (Nat × Byte) :=
  (List.range count).map fun i => (dest + i, buffer i)

theorem programEvents_bytes (count : Nat) (buffer : Nat → Byte) (dest : Nat) :
    programmedBytes (programEvents count (asShorts buffer) dest) = placed dest (2 * count) buffer := by
  induction count generalizing buffer dest with
  | zero => rfl
  | succ count ih =>
    have tail : (fun i => asShorts buffer (i + 1)) = asShorts (fun i => buffer (i + 2)) := by
      funext i
      rfl
    have rest := ih (fun i => buffer (i + 2)) (dest + 2)
    rw [← tail] at rest
    simp only [programEvents, programmedBytes, List.flatMap_cons] at rest ⊢
    rw [rest]
    simp only [placed, Event.bytes, asShorts, Word.lo_ofBytes, Word.hi_ofBytes,
      show 2 * (count + 1) = 2 * count + 1 + 1 by omega, List.range_succ_eq_map, List.map_cons,
      List.map_map]
    have shifted : (fun i => (dest + 2 + i, buffer (i + 2))) =
        (fun i => (dest + i, buffer i)) ∘ Nat.succ ∘ Nat.succ := by
      funext i
      simp only [Function.comp, Prod.mk.injEq, and_true]
      omega
    rw [shifted]
    rfl

/-! ## Chunks -/

section
variable (g : Geometry) (t : Timing)

/-- A write inside the kernel area prepares its sector and programs the whole
words of the buffer. -/
theorem flashWriteChunk_nor (buffer : Nat → Byte) {dest len : Nat} {w : World Chip}
    (ready : w.hw.Ready) (fits : dest + len ≤ g.kernelSize) :
    let w' := (flashWriteChunk (g.part t).bus g.toFlashmap (asShorts buffer) dest len w).2
    w'.hw.Ready ∧
      w'.hw.mem = (prepared g.toFlashmap w.hw.mem dest).programBytes dest (2 * (len / 2)) buffer ∧
      programmedBytes w'.trace = programmedBytes w.trace ++ placed dest (2 * (len / 2)) buffer := by
  have sized := g.sized
  have limit : g.size - 0x10000 = g.kernelSize := by rw [sized.size_eq]; omega
  have allowed : ¬ g.size - 0x10000 < (dest + len) % 2 ^ 32 := by
    have := sized.kernelSize_eq
    have := sized.upper
    rw [limit]
    omega
  obtain ⟨ready₁, mem₁⟩ := eraseAsNeeded_nor g t dest ready
  have trace₁ := (eraseAsNeeded_grows (g.part t).bus g.toFlashmap dest w).programmedBytes_eq (by
    rintro e (⟨rfl, -⟩ | ⟨_, _, rfl⟩ | ⟨_, rfl⟩)
    · rfl
    · rfl
    · rfl)
  obtain ⟨c, ready₂, mem₂, programmed⟩ := eonProgramRange_nor g.toFlashmap t (len / 2) buffer
    ready₁ (show dest + 2 * (len / 2) ≤ g.size by have := sized.size_eq; omega)
  have bytes₂ := programEvents_bytes (len / 2) buffer dest
  rw [flashWriteChunk, if_neg allowed]
  generalize eraseAsNeeded (g.part t).bus g.toFlashmap dest w = w₁ at *
  simp only [programmed, show ¬ ((0 : Int) < 0) by decide, ↓reduceIte]
  generalize noted : (World.note ⟨c, w₁.trace ++ programEvents (len / 2) (asShorts buffer) dest⟩
    (.returned .programRange 0)) = w₂
  have hw₂ : w₂.hw = c := by rw [← noted]; rfl
  have trace₂ : programmedBytes w₂.trace = programmedBytes w.trace ++ placed dest (2 * (len / 2)) buffer := by
    rw [← noted, World.note_trace, programmedBytes_append, programmedBytes_append, trace₁, bytes₂]
    simp [programmedBytes, Event.bytes]
  have ready₃ : w₂.hw.Ready := hw₂ ▸ ready₂
  have verified := eonVerifyRange_hw (ready₃.shows (g.part t)) (len / 2) (asShorts buffer) dest
  have trace₃ := (eonVerifyRange_grows (g.part t).bus (len / 2) (asShorts buffer) dest w₂).programmedBytes_eq
    (by rintro e ⟨_, rfl⟩; rfl)
  generalize eonVerifyRange (g.part t).bus (len / 2) (asShorts buffer) dest w₂ = v at *
  have final : (if v.1 < 0 then ((1 : Int), v.2.note (.returned .verifyRange v.1))
      else (0, v.2.note (.returned .verifyRange v.1))).2 = v.2.note (.returned .verifyRange v.1) := by
    split <;> rfl
  rw [final, World.note_hw, World.note_trace, programmedBytes_append, trace₃, trace₂, verified, hw₂]
  refine ⟨ready₂, by rw [mem₂, mem₁], ?_⟩
  simp [programmedBytes, Event.bytes]

end

end Bifferboard
