import Bifferboard.Biffnor.Chunks

/-!
# The boot sector is out of reach

Any number of handles on one chip. `Tracked` says that the array changes only
where the trace has a command for it, whatever the timing of the chip, also
if polling gives up. Together with `call_grows`, which keeps every command in
the kernel area, no call on any handle changes the boot sector.
-/

namespace Bifferboard
open Nor

/-- The bytes a command may change. -/
def Event.Touches (l : Layout) : Event → Nat → Prop
  | .erase addr, x => l.start addr ≤ x ∧ x < l.stop addr
  | .program addr _, x => x = addr ∨ x = addr + 1
  | _, _ => False

/-- From a chip that waits for a command to one that does, with every change
of the array accounted for in the trace. -/
def Tracked (l : Layout) (w w' : World Chip) : Prop :=
  w.hw.phase = .read → w'.hw.phase = .read ∧ ∃ new, w'.trace = w.trace ++ new ∧
    ∀ x, (∀ e ∈ new, ¬ e.Touches l x) → w'.hw.mem x = w.hw.mem x

namespace Tracked
variable {l : Layout}

theorem refl (w : World Chip) : Tracked l w w := fun phase => ⟨phase, [], by simp, fun _ _ => rfl⟩

theorem trans {a b c : World Chip} (h : Tracked l a b) (h' : Tracked l b c) : Tracked l a c := by
  intro phase
  obtain ⟨phase₁, new₁, trace₁, mem₁⟩ := h phase
  obtain ⟨phase₂, new₂, trace₂, mem₂⟩ := h' phase₁
  refine ⟨phase₂, new₁ ++ new₂, by rw [trace₂, trace₁, List.append_assoc], ?_⟩
  intro x untouched
  rw [mem₂ x fun e he => untouched e (List.mem_append_right _ he),
    mem₁ x fun e he => untouched e (List.mem_append_left _ he)]

theorem note {w w' : World Chip} (h : Tracked l w w') (e : Event) : Tracked l w (w'.note e) :=
  h.trans fun phase => ⟨phase, [e], rfl, fun _ _ => rfl⟩

/-- An access that changes neither the array nor the trace. -/
theorem access {w w' : World Chip} (phase : w'.hw.phase = w.hw.phase) (mem : w'.hw.mem = w.hw.mem)
    (trace : w'.trace = w.trace) : Tracked l w w' :=
  fun start => ⟨phase.trans start, [], by simp [trace], fun _ _ => by rw [mem]⟩

end Tracked

section
variable (p : Part) (fm : Flashmap)

theorem respond_kept {α : Type} (c : Chip) (status ident array : α) :
    (c.respond status ident array).2.phase = c.phase ∧
      (c.respond status ident array).2.mem = c.mem := by
  unfold Chip.respond
  split
  · exact ⟨rfl, rfl⟩
  · split
    · exact ⟨rfl, rfl⟩
    · exact ⟨rfl, rfl⟩

theorem readFlash_tracked (addr : Nat) (w : World Chip) : Tracked p.layout w (readFlash p.bus addr w).2 :=
  .access (respond_kept w.hw _ _ _).1 (respond_kept w.hw _ _ _).2 rfl

theorem readFlash16Fast_tracked (addr : Nat) (w : World Chip) :
    Tracked p.layout w (readFlash16Fast p.bus addr w).2 :=
  .access (respond_kept w.hw _ _ _).1 (respond_kept w.hw _ _ _).2 rfl

theorem readFlash32Fast_tracked (addr : Nat) (w : World Chip) :
    Tracked p.layout w (readFlash32Fast p.bus addr w).2 :=
  .access (respond_kept w.hw _ _ _).1 (respond_kept w.hw _ _ _).2 rfl

theorem cycle_busy {c : Chip} (busy : c.busy ≠ 0) (a : Nat) (cmd : Byte) (mem : Mem) :
    p.cycle c a cmd mem = c := if_pos busy

theorem programCommand_tracked (addr : Nat) (val : Word) (w : World Chip) :
    Tracked p.layout w (programCommand p.bus addr val w) := by
  intro phase
  by_cases busy : w.hw.busy = 0
  · rw [programCommand_nor p addr val ⟨phase, busy⟩]
    refine ⟨phase, [.program addr val], rfl, fun x untouched => ?_⟩
    have apart := untouched _ List.mem_cons_self
    exact w.hw.mem.program_frame addr val (fun e => apart (.inl e)) (fun e => apart (.inr e))
  · have ignored : (programCommand p.bus addr val w).hw = w.hw := by
      simp only [programCommand, writeFlash, writeFlash16, Part.bus, World.note, cycle_busy p busy]
    rw [ignored]
    exact ⟨phase, [.program addr val], rfl, fun _ _ => rfl⟩

theorem eraseCommand_tracked (addr : Nat) (w : World Chip) :
    Tracked p.layout w (eraseCommand p.bus addr w) := by
  intro phase
  by_cases busy : w.hw.busy = 0
  · rw [eraseCommand_nor p addr ⟨phase, busy⟩]
    refine ⟨phase, [.erase addr], rfl, fun x untouched => ?_⟩
    have apart := untouched _ List.mem_cons_self
    exact w.hw.mem.erase_frame (by simp only [Event.Touches] at apart; omega)
  · have ignored : (eraseCommand p.bus addr w).hw = w.hw := by
      simp only [eraseCommand, writeFlash, Part.bus, World.note, cycle_busy p busy]
    rw [ignored]
    exact ⟨phase, [.erase addr], rfl, fun _ _ => rfl⟩

theorem pollToggle_tracked (timedOut : Byte → Bool) (addr count : Nat) (prev cur : Byte)
    (w : World Chip) :
    Tracked p.layout w (pollToggle (readFlash p.bus addr) timedOut count prev cur w).2 := by
  have read {w w' : World Chip} {b : Byte} (h : readFlash p.bus addr w = (b, w')) :
      Tracked p.layout w w' := by
    have tracked := readFlash_tracked p addr w
    rw [h] at tracked
    exact tracked
  fun_induction pollToggle (readFlash p.bus addr) timedOut count prev cur w with
  | case1 => exact .refl _
  | case2 _ _ _ w _ _ w₁ r₁ _ w₂ r₂ _ _ w₃ r₃ _ w₄ r₄ =>
    exact (read r₁).trans ((read r₂).trans ((read r₃).trans (read r₄)))
  | case3 _ _ _ w _ _ w₁ r₁ _ w₂ r₂ => exact (read r₁).trans (read r₂)
  | case4 _ _ _ w _ _ w₁ r₁ _ w₂ r₂ _ _ ih => exact (read r₁).trans ((read r₂).trans ih)

theorem pollStatus_tracked (timedOut : Byte → Bool) (addr : Nat) (w : World Chip) :
    Tracked p.layout w (pollStatus (readFlash p.bus addr) timedOut w).2 :=
  (readFlash_tracked p addr w).trans ((readFlash_tracked p addr _).trans
    (pollToggle_tracked p timedOut addr 0 _ _ _))

theorem eonEraseSector_tracked (addr : Nat) (w : World Chip) :
    Tracked p.layout w (eonEraseSector p.bus fm addr w).2 := by
  unfold eonEraseSector
  split
  · exact (Tracked.refl w).note _
  · have done := (eraseCommand_tracked p addr w).trans
      (pollStatus_tracked p (fun c => c &&& 0x40#8 &&& 0x20#8 != 0#8) addr _)
    simp only
    split
    · exact done
    · exact done

theorem eonProgramWord_tracked (addr : Nat) (val : Word) (w : World Chip) :
    Tracked p.layout w (eonProgramWord p.bus fm addr val w).2 := by
  unfold eonProgramWord
  split
  · exact (Tracked.refl w).note _
  · have done := (programCommand_tracked p addr val w).trans
      (pollStatus_tracked p (fun c => c &&& 0x20#8 != 0#8) addr _)
    simp only
    split
    · exact done.note _
    · exact done

theorem eonProgramRange_tracked (count : Nat) (src : Nat → Word) (dest : Nat) (w : World Chip) :
    Tracked p.layout w (eonProgramRange p.bus fm count src dest w).2 := by
  induction count generalizing src dest w with
  | zero => exact .refl w
  | succ count ih =>
    have first := eonProgramWord_tracked p fm dest (src 0) w
    simp only [eonProgramRange]
    split
    · exact first.note _
    · exact first.trans (ih _ _ _)

theorem eonVerifyRange_tracked (count : Nat) (src : Nat → Word) (dest : Nat) (w : World Chip) :
    Tracked p.layout w (eonVerifyRange p.bus count src dest w).2 := by
  induction count generalizing src dest w with
  | zero => exact .refl w
  | succ count ih =>
    have read := readFlash16Fast_tracked p dest w
    simp only [eonVerifyRange]
    split
    · exact read.note _
    · exact read.trans (ih _ _ _)

theorem readRangeFrom_tracked (count src i : Nat) (dest : Nat → Byte) (w : World Chip) :
    Tracked p.layout w (readRangeFrom p.bus count src i dest w).2 := by
  induction count generalizing src i dest w with
  | zero => exact .refl w
  | succ count ih => exact (readFlash32Fast_tracked p src w).trans (ih _ _ _ _)

theorem iserasedChunk_tracked (words addr : Nat) (w : World Chip) :
    Tracked p.layout w (iserasedChunk p.bus words addr w).2 := by
  induction words generalizing addr w with
  | zero => exact .refl w
  | succ words ih =>
    have read := readFlash32Fast_tracked p addr w
    simp only [iserasedChunk]
    split
    · exact read
    · exact read.trans (ih _ _)

theorem iserasedSector_tracked (addr : Nat) (w : World Chip) :
    Tracked p.layout w (iserasedSector p.bus fm addr w).2 := by
  have chunk (addr : Nat) (w w' : World Chip) (blank : Bool)
      (h : iserasedChunk p.bus (0x2000 / 4) addr w = (blank, w')) : Tracked p.layout w w' := by
    have tracked := iserasedChunk_tracked p (0x2000 / 4) addr w
    rw [h] at tracked
    exact tracked
  fun_induction iserasedSector p.bus fm addr w with
  | case1 addr w _ w' read => exact chunk addr w w' _ read
  | case2 addr w _ blank w' read => exact chunk addr w w' _ read
  | case3 addr w _ blank w' read _ _ ih => exact (chunk addr w w' _ read).trans ih
  | case4 addr w => exact .refl w

theorem eraseAsNeeded_tracked (dest : Nat) (w : World Chip) :
    Tracked p.layout w (eraseAsNeeded p.bus fm dest w) := by
  have checked : Tracked p.layout w (flashmapIserased p.bus fm dest w).2 := by
    unfold flashmapIserased
    split
    · exact .refl w
    · exact iserasedSector_tracked p fm dest w
  unfold eraseAsNeeded
  split
  · dsimp only
    split
    · exact checked
    · exact (checked.trans (eonEraseSector_tracked p fm dest _)).note _
  · exact .refl w

theorem flashWriteChunk_tracked (src : Nat → Word) (dest len : Nat) (w : World Chip) :
    Tracked p.layout w (flashWriteChunk p.bus fm src dest len w).2 := by
  unfold flashWriteChunk
  split
  · exact (Tracked.refl w).note _
  · have programmed := ((eraseAsNeeded_tracked p fm dest w).trans
      (eonProgramRange_tracked p fm (len / 2) src dest _)).note (.returned .programRange
        (eonProgramRange p.bus fm (len / 2) src dest (eraseAsNeeded p.bus fm dest w)).1)
    have verified := programmed.trans (eonVerifyRange_tracked p (len / 2) src dest _)
    dsimp only
    split
    · exact programmed
    · split
      · exact verified.note _
      · exact verified.note _

theorem bufferWrite_tracked (f : File Chip) :
    Tracked p.layout f.world (bufferWrite p.bus fm f).world := by
  rw [bufferWrite_world]
  exact (((Tracked.refl f.world).note _).note _).trans (flashWriteChunk_tracked p fm _ _ _ _)

theorem bufferRead_tracked (f : File Chip) : Tracked p.layout f.world (bufferRead p.bus fm f).world := by
  simp only [bufferRead, eonReadRange]
  exact ((Tracked.refl f.world).note _).trans (readRangeFrom_tracked p _ _ _ _ _)

theorem writeLoop_tracked (count : Nat) (ubuf : List Byte) (f : File Chip) :
    Tracked p.layout f.world (writeLoop p.bus fm count ubuf f).2.world := by
  fun_induction writeLoop p.bus fm count ubuf f with
  | case1 f => exact .refl _
  | case2 ubuf f _ _ w _ => exact (Tracked.refl f.world).note _
  | case3 ubuf f _ _ w _ => exact (Tracked.refl f.world).note _
  | case4 ubuf f _ _ rest filled full ih => exact (bufferWrite_tracked p fm filled).trans ih
  | case5 ubuf f _ _ rest filled _ ih => exact ih

theorem biffkernelRead_tracked (remaining : Nat) (f : File Chip) :
    Tracked p.layout f.world (biffkernelRead p.bus fm remaining f).2.world := by
  fun_induction biffkernelRead p.bus fm remaining f with
  | case1 => exact .refl _
  | case2 => exact .refl _
  | case3 remaining f _ more readpos loaded toread data rest ih =>
    exact (bufferRead_tracked p fm f).trans ih

theorem biffkernelSeek_tracked (offset whence : Int) (f : File Chip) :
    Tracked p.layout f.world (biffkernelSeek p.bus fm offset whence f).2.world := by
  unfold biffkernelSeek
  cases seekTarget fm f.priv.filepos offset whence with
  | none => exact .refl _
  | some newpos =>
    dsimp only
    split
    · exact (Tracked.refl f.world).note _
    · refine Tracked.trans ?_ (bufferRead_tracked p fm _)
      exact (Tracked.refl f.world).note _

theorem call_tracked (op : FileOp) (f : File Chip) :
    Tracked p.layout f.world (op.call p.bus fm f).2.world := by
  cases op with
  | read count => exact biffkernelRead_tracked p fm count f
  | write ubuf => exact writeLoop_tracked p fm ubuf.length ubuf f
  | seek offset whence => exact biffkernelSeek_tracked p fm offset whence f

theorem release_tracked (f : File Chip) : Tracked p.layout f.world (biffkernelRelease p.bus fm f).2 := by
  unfold biffkernelRelease
  dsimp only
  split
  · exact bufferWrite_tracked p fm f
  · exact .refl _

end

/-! ## Any number of handles -/

/-- A call to the device. Handles are named by their `struct file`. -/
inductive Syscall where
  | openFile (handle : Nat) (allocated : Bool)
  | op (handle : Nat) (op : FileOp)
  | release (handle : Nat)
  deriving DecidableEq, Repr

/-- The open handles, and the world they share. -/
structure Device (σ : Type) where
  handles : Nat → Option KernelFpPrivate
  world : World σ

section
variable {σ : Type} (B : Bus σ) (fm : Flashmap)

def Device.assign (s : Device σ) (handle : Nat) (priv : Option KernelFpPrivate) (w : World σ) : Device σ :=
  ⟨fun h => if h = handle then priv else s.handles h, w⟩

/-- One call. A call on a handle that is not open does not reach the driver. -/
def Syscall.step (s : Device σ) : Syscall → Device σ
  | .openFile handle allocated =>
    match s.handles handle, biffkernelOpen allocated with
    | none, .ok priv => s.assign handle (some priv) s.world
    | _, _ => s
  | .op handle call =>
    match s.handles handle with
    | none => s
    | some priv =>
      let done := call.call B fm ⟨priv, s.world⟩
      s.assign handle (some done.2.priv) done.2.world
  | .release handle =>
    match s.handles handle with
    | none => s
    | some priv => s.assign handle none (biffkernelRelease B fm ⟨priv, s.world⟩).2

def runCalls (calls : List Syscall) (s : Device σ) : Device σ := calls.foldl (Syscall.step B fm) s

/-- No handle is open and nothing has happened. -/
def Device.start (hw : σ) : Device σ := ⟨fun _ => none, ⟨hw, []⟩⟩

/-- Between calls no handle has a full buffer. -/
def Device.Partly (s : Device σ) : Prop :=
  ∀ h priv, s.handles h = some priv → priv.writeBufferPos < 0x2000

theorem Device.Partly.assign {s : Device σ} (h : s.Partly) (handle : Nat)
    {priv : Option KernelFpPrivate} (w : World σ)
    (fill : ∀ p, priv = some p → p.writeBufferPos < 0x2000) : (s.assign handle priv w).Partly := by
  intro other p found
  simp only [Device.assign] at found
  split at found
  · exact fill p found
  · exact h other p found

/-- What one call does, on any hardware. -/
theorem step_below {fm : Flashmap} (sized : fm.Sized) {s : Device σ} (partly : s.Partly) (c : Syscall) :
    (c.step B fm s).Partly ∧ Grows (fun e => (∃ chunk, e = .flush chunk) ∨ e.Within fm fm.kernelSize)
      s.world (c.step B fm s).world := by
  cases c with
  | openFile handle allocated =>
    simp only [Syscall.step]
    split
    · rename_i priv _ opened
      refine ⟨partly.assign handle s.world ?_, .same rfl⟩
      rintro p ⟨⟩
      unfold biffkernelOpen at opened
      split at opened
      · cases opened
        exact Nat.zero_lt_succ _
      · cases opened
    · exact ⟨partly, .same rfl⟩
  | op handle call =>
    simp only [Syscall.step]
    split
    · exact ⟨partly, .same rfl⟩
    · rename_i priv found
      have fill := partly handle priv found
      have step := call_cursor B sized call ⟨priv, s.world⟩ fill
      refine ⟨partly.assign handle _ ?_, (call_grows B sized call ⟨priv, s.world⟩ fill).mono ?_⟩
      · rintro p ⟨⟩
        change (call.call B fm ⟨priv, s.world⟩).2.priv.cursor.fill < 0x2000
        rw [step]
        exact Cursor.after_fill_lt fill call
      · rintro e (⟨q, -, -, rfl⟩ | inside)
        · exact .inl ⟨_, rfl⟩
        · exact .inr inside
  | release handle =>
    simp only [Syscall.step]
    split
    · exact ⟨partly, .same rfl⟩
    · rename_i priv found
      refine ⟨partly.assign handle _ (fun p none => by cases none),
        (release_grows B sized ⟨priv, s.world⟩).mono ?_⟩
      rintro e (⟨-, rfl⟩ | inside)
      · exact .inl ⟨_, rfl⟩
      · exact .inr inside

theorem runCalls_below {fm : Flashmap} (sized : fm.Sized) {s : Device σ} (partly : s.Partly)
    (calls : List Syscall) :
    Grows (fun e => (∃ chunk, e = .flush chunk) ∨ e.Within fm fm.kernelSize) s.world
      (runCalls B fm calls s).world := by
  induction calls generalizing s with
  | nil => exact .same rfl
  | cons c calls ih =>
    obtain ⟨next, grown⟩ := step_below B sized partly c
    exact grown.trans (ih next)

end

section
variable (p : Part) (fm : Flashmap)

theorem step_tracked (s : Device Chip) (c : Syscall) :
    Tracked p.layout s.world (c.step p.bus fm s).world := by
  cases c with
  | openFile handle allocated =>
    simp only [Syscall.step]
    split
    · exact .refl _
    · exact .refl _
  | op handle call =>
    simp only [Syscall.step]
    split
    · exact .refl _
    · rename_i priv _
      exact call_tracked p fm call ⟨priv, s.world⟩
  | release handle =>
    simp only [Syscall.step]
    split
    · exact .refl _
    · rename_i priv _
      exact release_tracked p fm ⟨priv, s.world⟩

theorem runCalls_tracked (s : Device Chip) (calls : List Syscall) :
    Tracked p.layout s.world (runCalls p.bus fm calls s).world := by
  induction calls generalizing s with
  | nil => exact .refl _
  | cons c calls ih => exact (step_tracked p fm s c).trans (ih _)

end

/-- A command that stays below the boot sector, the whole of an erased sector
included. -/
def Event.BelowBoot (fm : Flashmap) : Event → Prop
  | .erase addr => addr < fm.size - 0x10000 ∧ fm.layout.stop addr ≤ fm.size - 0x10000
  | .program addr _ => addr + 1 < fm.size - 0x10000
  | _ => True

theorem Event.Within.belowBoot (g : Geometry) {e : Event} (h : e.Within g.toFlashmap g.kernelSize) :
    e.BelowBoot g.toFlashmap := by
  have limit : g.size - 0x10000 = g.kernelSize := by
    rw [g.sized.size_eq]
    omega
  cases e with
  | erase addr =>
    simp only [Event.BelowBoot, limit]
    exact ⟨h.1, g.stop_le_kernelSize h.1⟩
  | program addr val =>
    simp only [Event.BelowBoot, limit]
    exact h
  | printk text => trivial
  | returned by_ ret => trivial
  | flush chunk => trivial

theorem Event.BelowBoot.untouched {g : Geometry} {e : Event} (h : e.BelowBoot g.toFlashmap) {x : Nat}
    (boot : g.size - 0x10000 ≤ x) : ¬ e.Touches g.layout x := by
  cases e with
  | erase addr =>
    obtain ⟨-, stop⟩ := h
    rintro ⟨-, inside⟩
    omega
  | program addr val =>
    have below : addr + 1 < g.size - 0x10000 := h
    rintro (rfl | rfl)
    · omega
    · omega
  | printk text => exact id
  | returned by_ ret => exact id
  | flush chunk => exact id

/-- No sequence of calls on any number of handles commands anything in the boot
sector or changes a byte of it, however the chip answers polling. -/
theorem boot_sector_kept (g : Geometry) (ident : Nat → Word) (programTime eraseTime : Nat → Nat)
    (mem : Mem) (calls : List Syscall) :
    let p : Part := ⟨g.layout, ident, programTime, eraseTime⟩
    let s := runCalls p.bus g.toFlashmap calls (.start (idleChip mem))
    (∀ e ∈ s.world.trace, e.BelowBoot g.toFlashmap) ∧
      ∀ x, g.size - 0x10000 ≤ x → s.world.hw.mem x = mem x := by
  intro p s
  have below : ∀ e ∈ s.world.trace, e.BelowBoot g.toFlashmap := by
    have partly : (Device.start (idleChip mem)).Partly := by
      intro h priv found
      cases found
    refine ((runCalls_below p.bus g.sized partly calls).mono ?_).all ?_
    · rintro e (⟨chunk, rfl⟩ | inside)
      · trivial
      · exact inside.belowBoot g
    · intro e none
      cases none
  refine ⟨below, fun x boot => ?_⟩
  obtain ⟨-, new, trace, mem'⟩ := runCalls_tracked p g.toFlashmap (.start (idleChip mem)) calls rfl
  apply mem' x
  intro e he
  exact (below e (by rw [trace]; exact List.mem_append_right _ he)).untouched boot

end Bifferboard
