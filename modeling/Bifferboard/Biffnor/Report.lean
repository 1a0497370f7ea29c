import Bifferboard.Biffnor.Bounds

/-!
# What a session reports

`buffer_write` has no result and `biffkernel_release` always returns 0, so
what the flash primitives return reaches no caller. `reported_iff` says what
does: a write for which there is not enough room. Which sessions can fail at
all is a matter of the calls too (`can_fail_iff`): those that flush a word to
program, or a chunk whose sector may have to be erased.
-/

namespace Bifferboard
open Nor

section
variable {σ : Type} (B : Bus σ) {fm : Flashmap}

/-- The calls of a run with what each returned. -/
def callReturns (fm : Flashmap) : List FileOp → File σ → List (FileOp × Int)
  | [], _ => []
  | op :: ops, f => (op, (op.call B fm f).1) :: callReturns fm ops (op.call B fm f).2

/-- Erasing, programming or verifying failed at some point of the session. -/
def Failed (fm : Flashmap) (ops : List FileOp) (hw : σ) : Prop :=
  ∃ by_ ret, Event.returned by_ ret ∈ (session B fm ops ⟨hw, []⟩).trace ∧ ret < 0

/-- Some write did not return its full count, or the release did not return 0. -/
def Reported (fm : Flashmap) (ops : List FileOp) (hw : σ) : Prop :=
  (∃ ubuf ret, (FileOp.write ubuf, ret) ∈ callReturns B fm ops ⟨.fresh, ⟨hw, []⟩⟩ ∧
    ret ≠ ubuf.length) ∨
  (biffkernelRelease B fm (runOps B fm ops ⟨.fresh, ⟨hw, []⟩⟩)).1 ≠ 0

/-- There is room for all that a write brings. -/
def Cursor.Accepts (fm : Flashmap) (c : Cursor) : FileOp → Prop
  | .write ubuf => ubuf.length ≤ room fm c
  | _ => True

/-- A write returns its full count exactly when there is room for it, whatever
the flash does. -/
theorem write_returns_count_iff (ubuf : List Byte) (f : File σ) (h : f.priv.writeBufferPos < 0x2000) :
    ((FileOp.write ubuf).call B fm f).1 = ubuf.length ↔
      f.priv.cursor.Accepts fm (.write ubuf) := by
  simp only [FileOp.call, biffkernelWrite_eq B fm ubuf f h, Cursor.Accepts]
  by_cases fits : ubuf.length ≤ room fm f.priv.cursor
  · rw [if_pos fits]
    exact ⟨fun _ => fits, fun _ => rfl⟩
  · rw [if_neg fits]
    refine ⟨fun full => absurd full ?_, fun h => absurd h fits⟩
    dsimp only
    split
    · simp only [ENOSPC]
      omega
    · omega

theorem short_write_iff (sized : fm.Sized) (ops : List FileOp) (f : File σ)
    (h : f.priv.writeBufferPos < 0x2000) :
    (∃ ubuf ret, (FileOp.write ubuf, ret) ∈ callReturns B fm ops f ∧ ret ≠ (ubuf.length : Int)) ↔
      ¬ Cursor.Meets fm (Cursor.Accepts fm) f.priv.cursor ops := by
  induction ops generalizing f with
  | nil =>
    constructor
    · rintro ⟨ubuf, ret, member, -⟩
      cases member
    · intro unmet
      exact absurd trivial unmet
  | cons op ops ih =>
    have step := call_cursor B sized op f h
    have fill : (op.call B fm f).2.priv.cursor.fill < 0x2000 := by
      rw [step]
      exact Cursor.after_fill_lt h op
    have rest := ih (op.call B fm f).2 fill
    rw [step] at rest
    constructor
    · rintro ⟨ubuf, ret, member, short⟩ ⟨accepted, met⟩
      rcases List.mem_cons.mp member with first | later
      · obtain ⟨rfl, rfl⟩ := Prod.mk.inj first
        exact short ((write_returns_count_iff B ubuf f h).mpr accepted)
      · exact rest.mp ⟨ubuf, ret, later, short⟩ met
    · intro unmet
      by_cases met : Cursor.Meets fm (Cursor.Accepts fm) (f.priv.cursor.after fm op) ops
      · have refused : ¬ f.priv.cursor.Accepts fm op := fun accepted => unmet ⟨accepted, met⟩
        cases op with
        | read count => exact absurd trivial refused
        | seek offset whence => exact absurd trivial refused
        | write ubuf =>
          refine ⟨ubuf, _, List.mem_cons_self, ?_⟩
          exact fun full => refused ((write_returns_count_iff B ubuf f h).mp full)
      · obtain ⟨ubuf, ret, later, short⟩ := rest.mpr met
        exact ⟨ubuf, ret, List.mem_cons_of_mem _ later, short⟩

/-- A session reports an error exactly when one of its writes runs out of room. -/
theorem reported_iff (sized : fm.Sized) (ops : List FileOp) (hw : σ) :
    Reported B fm ops hw ↔ ¬ Cursor.Meets fm (Cursor.Accepts fm) ⟨0, 0⟩ ops := by
  have short := short_write_iff B sized ops ⟨.fresh, ⟨hw, []⟩⟩ (Nat.zero_lt_succ _)
  constructor
  · rintro (write | release)
    · exact short.mp write
    · exact absurd rfl release
  · intro unmet
    exact .inl (short.mpr unmet)

end

/-! ## What can fail -/

/-- The call leaves the buffer short of full all the time. -/
def Cursor.Buffers (fm : Flashmap) (c : Cursor) : FileOp → Prop
  | .write ubuf => c.fill + min ubuf.length (room fm c) < 0x2000
  | _ => True

/-- A flush from here has a word to program, or a sector that may have to be
erased. -/
def Cursor.Fallible (fm : Flashmap) (c : Cursor) : Prop :=
  2 ≤ c.fill ∨ c.fill = 1 ∧ flashmapIsboundary fm (chunkSect fm (flushChunk c.filepos)) = true

/-- Something is flushed that can fail: a full buffer, or what is left in it on
release. -/
def CanFail (fm : Flashmap) (ops : List FileOp) : Prop :=
  ¬ Cursor.Meets fm (Cursor.Buffers fm) ⟨0, 0⟩ ops ∨ (Cursor.run fm ⟨0, 0⟩ ops).Fallible fm

/-- The event is not a failure. -/
def Event.Fine (e : Event) : Prop := ∀ by_ ret, e = .returned by_ ret → 0 ≤ ret

theorem Event.fine_of_printk {e : Event} (h : ∃ text, e = .printk text) : e.Fine := by
  obtain ⟨text, rfl⟩ := h
  intro by_ ret eq
  cases eq

section
variable {σ : Type} (B : Bus σ) {fm : Flashmap}

/-- A call that flushes nothing gets nothing back from the flash primitives. -/
theorem call_fine (op : FileOp) (f : File σ) (h : f.priv.writeBufferPos < 0x2000)
    (buffers : f.priv.cursor.Buffers fm op) : Grows Event.Fine f.world (op.call B fm f).2.world := by
  cases op with
  | read count => exact (biffkernelRead_grows B fm count f).mono fun _ => Event.fine_of_printk
  | seek offset whence =>
    exact (biffkernelSeek_grows B fm offset whence f).mono fun _ => Event.fine_of_printk
  | write ubuf =>
    have short : f.priv.writeBufferPos + (ubuf.take (room fm f.priv.cursor)).length < 0x2000 := by
      rw [List.length_take, Nat.min_comm]
      exact buffers
    have pushed := foldl_push_partial B fm (ubuf.take (room fm f.priv.cursor)) f short
    simp only [FileOp.call, biffkernelWrite_eq B fm ubuf f h, pushed]
    split
    · exact .same rfl
    · exact (Grows.same rfl).note (Event.fine_of_printk ⟨_, rfl⟩)

theorem runOps_fine (sized : fm.Sized) (ops : List FileOp) (f : File σ)
    (h : f.priv.writeBufferPos < 0x2000)
    (buffers : Cursor.Meets fm (Cursor.Buffers fm) f.priv.cursor ops) :
    Grows Event.Fine f.world (runOps B fm ops f).world := by
  induction ops generalizing f with
  | nil => exact .same rfl
  | cons op ops ih =>
    have step := call_cursor B sized op f h
    have fill : (op.call B fm f).2.priv.cursor.fill < 0x2000 := by
      rw [step]
      exact Cursor.after_fill_lt h op
    refine (call_fine B op f h buffers.1).trans (ih (op.call B fm f).2 fill ?_)
    rw [step]
    exact buffers.2

/-- A single byte programs no word. -/
theorem flashWriteChunk_fine (src : Nat → Word) {dest len : Nat} (w : World σ) (byte : len < 2)
    (inside : ¬ flashmapIsboundary fm dest = true) :
    Grows Event.Fine w (flashWriteChunk B fm src dest len w).2 := by
  have none : len / 2 = 0 := Nat.div_eq_of_lt byte
  have zero (by_ : Primitive) : (Event.returned by_ 0).Fine := by
    intro by_ ret eq
    cases eq
    exact Int.le_refl 0
  unfold flashWriteChunk
  split
  · exact (Grows.same rfl).note (Event.fine_of_printk ⟨_, rfl⟩)
  · rw [none, eraseAsNeeded, if_neg inside]
    exact ((Grows.same rfl).note (zero _)).note (zero _)

theorem release_fine (f : File σ) (safe : ¬ f.priv.cursor.Fallible fm) :
    Grows Event.Fine f.world (biffkernelRelease B fm f).2 := by
  obtain ⟨few, inside⟩ := not_or.mp safe
  by_cases buffered : f.priv.writeBufferPos ≠ 0
  · have one : f.priv.cursor.fill = 1 := by
      change f.priv.cursor.fill ≠ 0 at buffered
      omega
    have noted : Grows Event.Fine f.world (flushNoted f) := by
      refine ((Grows.same rfl).note (Event.fine_of_printk ⟨_, rfl⟩)).note ?_
      intro by_ ret eq
      cases eq
    rw [release_buffered B fm f buffered, bufferWrite_world]
    refine noted.trans (flashWriteChunk_fine B _ _ (Nat.lt_of_not_le few) ?_)
    exact fun boundary => inside ⟨one, boundary⟩
  · rw [release_empty B fm f (not_not.mp buffered)]
    exact .same rfl

/-- Where nothing that can fail is flushed, no hardware makes the session fail. -/
theorem not_failed_of_not_canFail (sized : fm.Sized) {ops : List FileOp} (safe : ¬ CanFail fm ops)
    (hw : σ) : ¬ Failed B fm ops hw := by
  obtain ⟨unflushed, rest⟩ := not_or.mp safe
  have run := runOps_cursor B sized ops ⟨.fresh, ⟨hw, []⟩⟩ (Nat.zero_lt_succ _)
  have called := runOps_fine B sized ops ⟨.fresh, ⟨hw, []⟩⟩ (Nat.zero_lt_succ _) (not_not.mp unflushed)
  have released : Grows Event.Fine _ (session B fm ops ⟨hw, []⟩) :=
    release_fine B (runOps B fm ops ⟨.fresh, ⟨hw, []⟩⟩) (by rwa [run])
  rintro ⟨by_, ret, member, negative⟩
  have fine := (called.trans released).all (by simp) _ member by_ ret rfl
  omega

end

/-! ## Where a flush goes -/

/-- A write stops less than a chunk past the end of the kernel area. -/
theorem Cursor.after_filepos_le {fm : Flashmap} {c : Cursor} (h : c.filepos ≤ fm.kernelSize + 0x1fff)
    (op : FileOp) : (c.after fm op).filepos ≤ fm.kernelSize + 0x1fff := by
  cases op with
  | read count =>
    simp only [after]
    split
    · exact h
    · dsimp only
      omega
  | write ubuf =>
    simp only [after, room]
    split <;> omega
  | seek offset whence =>
    rcases c.after_seek_cases fm offset whence with stays | ⟨pos, inside, moved⟩
    · rwa [stays]
    · rw [moved]
      exact Nat.le_add_right_of_le inside

theorem Cursor.run_filepos_le {fm : Flashmap} {c : Cursor} (h : c.filepos ≤ fm.kernelSize + 0x1fff)
    (ops : List FileOp) : (c.run fm ops).filepos ≤ fm.kernelSize + 0x1fff := by
  induction ops generalizing c with
  | nil => exact h
  | cons op ops ih => exact ih (after_filepos_le h op)

/-- The guard of `flash_write_chunk` lets every flush pass: the chunk past the
last one is mapped into the kernel area too. -/
theorem flush_allowed {fm : Flashmap} (sized : fm.Sized) {q len : Nat} (positive : 0 < q)
    (bound : q ≤ fm.kernelSize + 0x1fff) (short : len ≤ 0x2000) :
    ¬ fm.size - 0x10000 < (chunkSect fm (flushChunk q) + len) % 2 ^ 32 := by
  have multiple := sized.kernelSize_eq
  have size := sized.size_eq
  have lower := sized.lower
  have upper := sized.upper
  have chunk : flushChunk q ≤ fm.chunkCount := by
    unfold flushChunk
    split <;> omega
  have sector : eonChunkToSector fm (flushChunk q) < fm.chunkCount := by
    simp only [eonChunkToSector]
    split <;> omega
  unfold chunkSect
  omega

section
variable {σ : Type} (B : Bus σ) {fm : Flashmap}

theorem runOps_grows (sized : fm.Sized) (ops : List FileOp) (f : File σ)
    (h : f.priv.writeBufferPos < 0x2000) :
    Grows (fun _ => True) f.world (runOps B fm ops f).world := by
  induction ops generalizing f with
  | nil => exact .same rfl
  | cons op ops ih =>
    have fill : (op.call B fm f).2.priv.cursor.fill < 0x2000 := by
      rw [call_cursor B sized op f h]
      exact Cursor.after_fill_lt h op
    exact ((call_grows B sized op f h).mono fun _ _ => trivial).trans (ih _ fill)

/-- A flush that passes the guard starts by preparing the sector. -/
theorem flashWriteChunk_erases (src : Nat → Word) {dest len : Nat} (w : World σ)
    (allowed : ¬ fm.size - 0x10000 < (dest + len) % 2 ^ 32) :
    Grows (fun _ => True) (eraseAsNeeded B fm dest w) (flashWriteChunk B fm src dest len w).2 := by
  have programmed := ((eonProgramRange_grows B fm (len / 2) src dest (eraseAsNeeded B fm dest w)).mono
    (Q := fun _ => True) fun _ _ => trivial).note (e := .returned .programRange
      (eonProgramRange B fm (len / 2) src dest (eraseAsNeeded B fm dest w)).1) trivial
  simp only [flashWriteChunk, if_neg allowed]
  split
  · exact programmed
  · have verified := programmed.trans ((eonVerifyRange_grows B (len / 2) src dest _).mono
      (Q := fun _ => True) fun _ _ => trivial)
    split
    · exact verified.note trivial
    · exact verified.note trivial

end

/-! ## A chip that stays busy -/

theorem pollToggle_toggling {timedOut : Byte → Bool} (never : ∀ s : Bool,
    timedOut (if s then 0x40#8 else 0#8) = false) (addr count : Nat) {prev cur : Byte}
    (w : World Bool) (differ : prev ≠ cur) :
    0x100000 < (pollToggle (readFlash Bus.toggling addr) timedOut count prev cur w).1 := by
  fun_induction pollToggle (readFlash Bus.toggling addr) timedOut count prev cur w with
  | case1 => exact absurd rfl differ
  | case2 _ _ _ w _ _ w₁ r₁ _ w₂ r₂ expired =>
    cases r₁
    cases r₂
    exact absurd ((never (!w.hw)).symm.trans expired) Bool.false_ne_true
  | case3 _ _ _ w _ _ w₁ r₁ _ w₂ r₂ _ long => exact Nat.lt_succ_of_lt long
  | case4 _ _ _ w _ _ w₁ r₁ _ w₂ r₂ _ _ ih =>
    apply ih
    cases r₁
    cases r₂
    change (if w.hw then 0x40#8 else 0#8) &&& 0x40#8 ≠ (if !w.hw then 0x40#8 else 0#8) &&& 0x40#8
    cases w.hw <;> decide

theorem pollStatus_toggling {timedOut : Byte → Bool} (never : ∀ s : Bool,
    timedOut (if s then 0x40#8 else 0#8) = false) (addr : Nat) (w : World Bool) :
    0x100000 < (pollStatus (readFlash Bus.toggling addr) timedOut w).1 := by
  apply pollToggle_toggling never
  change (if w.hw then 0x40#8 else 0#8) &&& 0x40#8 ≠ (if !w.hw then 0x40#8 else 0#8) &&& 0x40#8
  cases w.hw <;> decide

section
variable {fm : Flashmap}

theorem eonProgramWord_toggling (addr : Nat) (val : Word) (w : World Bool) :
    (eonProgramWord Bus.toggling fm addr val w).1 = -1 := by
  unfold eonProgramWord
  split
  · rfl
  · have busy : 0x100000 < (pollStatus (readFlash Bus.toggling addr) (fun c => c &&& 0x20#8 != 0#8)
        (programCommand Bus.toggling addr val w)).1 :=
      pollStatus_toggling (by intro s; cases s <;> rfl) _ _
    exact congrArg Prod.fst (if_pos (Nat.lt_trans (by decide) busy))

theorem eonProgramRange_toggling {count : Nat} (some : 0 < count) (src : Nat → Word) (dest : Nat)
    (w : World Bool) : (eonProgramRange Bus.toggling fm count src dest w).1 = -1 := by
  obtain ⟨count, rfl⟩ := Nat.exists_eq_add_of_lt some
  have first : (eonProgramWord Bus.toggling fm dest (src 0) w).1 = -1 :=
    eonProgramWord_toggling dest (src 0) w
  simp only [Nat.zero_add, eonProgramRange, first]
  rfl

theorem eonEraseSector_toggling (addr : Nat) (w : World Bool) :
    (eonEraseSector Bus.toggling fm addr w).1 = -1 := by
  unfold eonEraseSector
  split
  · rfl
  · have busy : 0x100000 < (pollStatus (readFlash Bus.toggling addr) (fun c => c &&& 0x40#8 &&& 0x20#8 != 0#8)
        (eraseCommand Bus.toggling addr w)).1 :=
      pollStatus_toggling (by intro s; cases s <;> rfl) _ _
    exact congrArg Prod.fst (if_pos busy)

theorem flashmapIserased_toggling {addr : Nat} (boundary : flashmapIsboundary fm addr = true)
    (w : World Bool) : (flashmapIserased Bus.toggling fm addr w).1 = false := by
  have inside := isboundary_lt boundary
  rw [flashmapIserased, if_neg (by simp [boundary]), iserasedSector, if_pos inside]
  rfl

theorem eraseAsNeeded_toggling {dest : Nat} (boundary : flashmapIsboundary fm dest = true)
    (w : World Bool) :
    Event.returned .eraseSector (-1) ∈ (eraseAsNeeded Bus.toggling fm dest w).trace := by
  have used := flashmapIserased_toggling boundary w
  simp only [eraseAsNeeded, boundary, ↓reduceIte, used, Bool.false_eq_true, eonEraseSector_toggling,
    World.note_trace]
  exact List.mem_append_right _ (List.mem_singleton.mpr rfl)

/-- Every flush of something that can fail fails. -/
theorem flashWriteChunk_toggling (src : Nat → Word) {dest len : Nat} (w : World Bool)
    (allowed : ¬ fm.size - 0x10000 < (dest + len) % 2 ^ 32)
    (fallible : 2 ≤ len ∨ flashmapIsboundary fm dest = true) :
    ∃ by_, Event.returned by_ (-1) ∈ (flashWriteChunk Bus.toggling fm src dest len w).2.trace := by
  rcases fallible with word | boundary
  · refine ⟨.programRange, ?_⟩
    have failed : (eonProgramRange Bus.toggling fm (len / 2) src dest
        (eraseAsNeeded Bus.toggling fm dest w)).1 = -1 :=
      eonProgramRange_toggling (Nat.div_pos word (by decide)) src dest _
    simp only [flashWriteChunk, if_neg allowed, failed]
    exact List.mem_append_right _ (List.mem_singleton.mpr rfl)
  · refine ⟨.eraseSector, ?_⟩
    exact (flashWriteChunk_erases Bus.toggling src w allowed).kept (eraseAsNeeded_toggling boundary w)

theorem bufferWrite_toggling (sized : fm.Sized) (f : File Bool) (positive : 0 < f.priv.filepos)
    (bound : f.priv.filepos ≤ fm.kernelSize + 0x1fff) (fallible : f.priv.cursor.Fallible fm) :
    ∃ by_, Event.returned by_ (-1) ∈ (bufferWrite Bus.toggling fm f).world.trace := by
  rw [bufferWrite_world]
  apply flashWriteChunk_toggling
  · exact flush_allowed sized positive bound f.priv.writeBufferPos_le
  · exact fallible.imp_right And.right

/-- A call that fills the buffer fails. -/
theorem call_toggling (sized : fm.Sized) (op : FileOp) (f : File Bool)
    (h : f.priv.writeBufferPos < 0x2000) (flushes : ¬ f.priv.cursor.Buffers fm op) :
    ∃ by_, Event.returned by_ (-1) ∈ (op.call Bus.toggling fm f).2.world.trace := by
  cases op with
  | read count => exact absurd trivial flushes
  | seek offset whence => exact absurd trivial flushes
  | write ubuf =>
    have full : 0x2000 ≤ f.priv.writeBufferPos + min ubuf.length (room fm f.priv.cursor) :=
      Nat.le_of_not_lt flushes
    have inside : f.priv.filepos < fm.kernelSize := by
      by_contra outside
      have none : room fm f.priv.cursor = 0 := if_pos (Nat.le_of_not_lt outside)
      omega
    generalize xs_eq : ubuf.take (room fm f.priv.cursor) = xs
    have length : xs.length = min ubuf.length (room fm f.priv.cursor) := by
      rw [← xs_eq, List.length_take, Nat.min_comm]
    generalize need_eq : 0x2000 - f.priv.writeBufferPos = need
    have taken : (xs.take need).length = need := List.length_take_of_le (by omega)
    have first := foldl_push_full Bus.toggling fm (xs.take need) f
      (List.ne_nil_of_length_pos (by omega)) (by omega)
    have copied := f.priv.toCopy_fits (n := (xs.take need).length) (by omega)
    have filepos := f.priv.copyIn_filepos (xs.take need)
    have fill := f.priv.copyIn_writeBufferPos (xs.take need)
    rw [copied, taken] at filepos fill
    obtain ⟨by_, failed⟩ := bufferWrite_toggling sized ⟨f.priv.copyIn (xs.take need), f.world⟩
      (by dsimp only; omega) (by dsimp only; omega)
      (.inl (show 2 ≤ (f.priv.copyIn (xs.take need)).writeBufferPos by omega))
    have pushed := (foldl_push_grows Bus.toggling sized (xs.drop need)
      (bufferWrite Bus.toggling fm ⟨f.priv.copyIn (xs.take need), f.world⟩)
      (Nat.zero_lt_succ _)).kept failed
    rw [← first, ← List.foldl_append, List.take_append_drop, ← xs_eq] at pushed
    refine ⟨by_, ?_⟩
    simp only [FileOp.call, biffkernelWrite_eq Bus.toggling fm ubuf f h]
    split
    · exact pushed
    · exact List.mem_append_left _ pushed

theorem runOps_toggling (sized : fm.Sized) (ops : List FileOp) (f : File Bool)
    (h : f.priv.writeBufferPos < 0x2000)
    (flushes : ¬ Cursor.Meets fm (Cursor.Buffers fm) f.priv.cursor ops) :
    ∃ by_, Event.returned by_ (-1) ∈ (runOps Bus.toggling fm ops f).world.trace := by
  induction ops generalizing f with
  | nil => exact absurd trivial flushes
  | cons op ops ih =>
    have step := call_cursor Bus.toggling sized op f h
    have fill : (op.call Bus.toggling fm f).2.priv.cursor.fill < 0x2000 := by
      rw [step]
      exact Cursor.after_fill_lt h op
    by_cases buffers : f.priv.cursor.Buffers fm op
    · apply ih (op.call Bus.toggling fm f).2 fill
      rw [step]
      exact fun rest => flushes ⟨buffers, rest⟩
    · obtain ⟨by_, failed⟩ := call_toggling sized op f h buffers
      exact ⟨by_, (runOps_grows Bus.toggling sized ops (op.call Bus.toggling fm f).2 fill).kept failed⟩

/-- On this bus every session fails that flushes something that can fail. -/
theorem failed_toggling (sized : fm.Sized) {ops : List FileOp} (risky : CanFail fm ops) :
    Failed Bus.toggling fm ops false := by
  have run : (runOps Bus.toggling fm ops ⟨.fresh, ⟨false, []⟩⟩).priv.cursor =
    Cursor.run fm ⟨0, 0⟩ ops := runOps_cursor Bus.toggling sized ops _ (Nat.zero_lt_succ _)
  have moved : (Cursor.run fm ⟨0, 0⟩ ops).fill ≤ (Cursor.run fm ⟨0, 0⟩ ops).filepos :=
    Cursor.run_fill_le (Nat.le_refl 0) ops
  have bound : (Cursor.run fm ⟨0, 0⟩ ops).filepos ≤ fm.kernelSize + 0x1fff :=
    Cursor.run_filepos_le (Nat.zero_le _) ops
  suffices ∃ by_, Event.returned by_ (-1) ∈ (session Bus.toggling fm ops ⟨false, []⟩).trace by
    obtain ⟨by_, failed⟩ := this
    exact ⟨by_, -1, failed, by decide⟩
  rcases risky with flushes | fallible
  · obtain ⟨by_, failed⟩ := runOps_toggling sized ops ⟨.fresh, ⟨false, []⟩⟩ (Nat.zero_lt_succ _) flushes
    exact ⟨by_, (release_grows Bus.toggling sized _).kept failed⟩
  · rw [← run] at moved bound fallible
    have buffered : (runOps Bus.toggling fm ops ⟨.fresh, ⟨false, []⟩⟩).priv.cursor.fill ≠ 0 := by
      rcases fallible with word | ⟨byte, -⟩ <;> omega
    rw [session, release_buffered Bus.toggling fm _ buffered]
    exact bufferWrite_toggling sized _ (Nat.lt_of_lt_of_le (Nat.pos_of_ne_zero buffered) moved) bound
      fallible

end

/-- Which sessions can fail at all. -/
theorem can_fail_iff (g : Geometry) (ops : List FileOp) :
    (∃ (σ : Type) (B : Bus σ) (hw : σ), Failed B g.toFlashmap ops hw) ↔ CanFail g.toFlashmap ops := by
  constructor
  · rintro ⟨σ, B, hw, failed⟩
    by_contra safe
    exact not_failed_of_not_canFail B g.sized safe hw failed
  · intro risky
    exact ⟨Bool, Bus.toggling, false, failed_toggling g.sized risky⟩

/-- A flash failure is reported whatever the hardware does in those sessions
only that flush nothing that can fail, or that report a write past the end of
the kernel area anyway. -/
theorem failure_reported_iff (g : Geometry) (ops : List FileOp) :
    (∀ (σ : Type) (B : Bus σ) (hw : σ), Failed B g.toFlashmap ops hw →
      Reported B g.toFlashmap ops hw) ↔
      ¬ CanFail g.toFlashmap ops ∨
        ¬ Cursor.Meets g.toFlashmap (Cursor.Accepts g.toFlashmap) ⟨0, 0⟩ ops := by
  have possible := can_fail_iff g ops
  constructor
  · intro reported
    by_cases risky : CanFail g.toFlashmap ops
    · obtain ⟨σ, B, hw, failed⟩ := possible.mpr risky
      exact .inr ((reported_iff B g.sized ops hw).mp (reported σ B hw failed))
    · exact .inl risky
  · rintro (safe | refused) σ B hw failed
    · exact absurd (possible.mp ⟨σ, B, hw, failed⟩) safe
    · exact (reported_iff B g.sized ops hw).mpr refused

section
variable {fm : Flashmap}

/-! ## A chip that does not answer -/

theorem pollStatus_silent (timedOut : Byte → Bool) (addr : Nat) (w : World Unit) :
    pollStatus (readFlash Bus.silent addr) timedOut w = (0, w) := by
  simp only [pollStatus, readFlash, Bus.silent]
  rw [pollToggle, if_pos rfl]

theorem eonProgramRange_silent (fm : Flashmap) (src : Nat → Word) {dest : Nat} (inside : dest < fm.size)
    (w : World Unit) : (eonProgramRange Bus.silent fm 1 src dest w).1 = 0 := by
  have programmed : (eonProgramWord Bus.silent fm dest (src 0) w).1 = 0 := by
    rw [eonProgramWord, if_neg (Nat.not_le_of_lt inside), pollStatus_silent]
    rfl
  simp only [eonProgramRange, programmed]
  rfl

/-- Polling a silent chip ends at once, and then the word does not verify. -/
theorem flashWriteChunk_silent (src : Nat → Word) {dest : Nat} (w : World Unit)
    (allowed : ¬ fm.size - 0x10000 < (dest + 2) % 2 ^ 32) (inside : dest < fm.size)
    (nonzero : src 0 ≠ 0#16) :
    Event.returned .verifyRange (-1) ∈ (flashWriteChunk Bus.silent fm src dest 2 w).2.trace := by
  have programmed := eonProgramRange_silent fm src inside (eraseAsNeeded Bus.silent fm dest w)
  have verified (w : World Unit) : (eonVerifyRange Bus.silent 1 src dest w).1 = -1 := by
    rw [eonVerifyRange]
    exact congrArg Prod.fst (if_pos nonzero)
  rw [flashWriteChunk, if_neg allowed]
  simp only [programmed, verified, show 2 / 2 = 1 from rfl, show ¬ ((0 : Int) < 0) by decide,
    ↓reduceIte, show ((-1 : Int) < 0) by decide]
  simp

/-- On a chip that does not answer, flashing two bytes fails to verify and both
calls return success. -/
theorem silent_failure_unreported :
    Failed Bus.silent Geometry.en640.toFlashmap [.write [0x12#8, 0x34#8]] () ∧
      ¬ Reported Bus.silent Geometry.en640.toFlashmap [.write [0x12#8, 0x34#8]] () := by
  have accepted : KernelFpPrivate.fresh.cursor.Accepts Geometry.en640.toFlashmap
      (.write [0x12#8, 0x34#8]) := by
    simp only [Cursor.Accepts]
    decide
  constructor
  · refine ⟨.verifyRange, -1, ?_, by decide⟩
    have buffered : runOps Bus.silent Geometry.en640.toFlashmap [.write [0x12#8, 0x34#8]]
        ⟨.fresh, ⟨(), []⟩⟩ = ⟨KernelFpPrivate.fresh.copyIn [0x12#8, 0x34#8], ⟨(), []⟩⟩ := by
      have fits : [0x12#8, 0x34#8].length ≤ room Geometry.en640.toFlashmap
        KernelFpPrivate.fresh.cursor := accepted
      rw [runOps_cons, runOps_nil]
      exact call_write_partial _ _ _ _ fits (by decide)
    rw [session, buffered, release_buffered _ _ _ (by decide), bufferWrite_world]
    exact flashWriteChunk_silent _ _ (by decide) (by decide) (by decide)
  · rw [reported_iff Bus.silent Geometry.en640.sized]
    exact fun unmet => unmet ⟨accepted, trivial⟩

end

end Bifferboard
