import Bifferboard.Biffnor.Push

/-!
# What a flush can do, on any hardware

`Grows P w w'` says that the trace only got longer, by events that satisfy
`P`. For `flash_write_chunk` these are `Event.Within`: whatever the hardware
answers, every command it issues lies below the boot sector.
-/

namespace Bifferboard
open Nor

section
variable {σ : Type}

def Grows (P : Event → Prop) (w w' : World σ) : Prop :=
  ∃ new, w'.trace = w.trace ++ new ∧ ∀ e ∈ new, P e

theorem Grows.same {P : Event → Prop} {w w' : World σ} (h : w'.trace = w.trace) : Grows P w w' :=
  ⟨[], by simp [h], by simp⟩

theorem Grows.note {P : Event → Prop} {w w' : World σ} {e : Event} (h : Grows P w w') (he : P e) :
    Grows P w (w'.note e) := by
  obtain ⟨new, eq, all⟩ := h
  refine ⟨new ++ [e], by simp [eq], ?_⟩
  intro x hx
  rcases List.mem_append.mp hx with hx | hx
  · exact all x hx
  · exact List.mem_singleton.mp hx ▸ he

theorem Grows.trans {P : Event → Prop} {a b c : World σ} (h : Grows P a b) (h' : Grows P b c) :
    Grows P a c := by
  obtain ⟨new, eq, all⟩ := h
  obtain ⟨new', eq', all'⟩ := h'
  refine ⟨new ++ new', by simp [eq, eq'], ?_⟩
  intro x hx
  rcases List.mem_append.mp hx with hx | hx
  · exact all x hx
  · exact all' x hx

theorem Grows.mono {P Q : Event → Prop} {w w' : World σ} (h : Grows P w w') (hPQ : ∀ e, P e → Q e) :
    Grows Q w w' := by
  obtain ⟨new, eq, all⟩ := h
  exact ⟨new, eq, fun e he => hPQ e (all e he)⟩

theorem Grows.kept {P : Event → Prop} {w w' : World σ} (h : Grows P w w') {e : Event}
    (before : e ∈ w.trace) : e ∈ w'.trace := by
  obtain ⟨new, eq, -⟩ := h
  rw [eq]
  exact List.mem_append_left _ before

/-- All events so far and all new ones. -/
theorem Grows.all {P : Event → Prop} {w w' : World σ} (h : Grows P w w')
    (before : ∀ e ∈ w.trace, P e) : ∀ e ∈ w'.trace, P e := by
  obtain ⟨new, eq, all⟩ := h
  intro e he
  rw [eq] at he
  rcases List.mem_append.mp he with he | he
  · exact before e he
  · exact all e he

end

/-- An event that `flash_write_chunk` may leave: commands below `limit`, an
erase only at a sector start, and never a flush of its own. -/
def Event.Within (fm : Flashmap) (limit : Nat) : Event → Prop
  | .erase addr => addr < limit ∧ flashmapIsboundary fm addr = true
  | .program addr _ => addr + 1 < limit
  | .flush _ => False
  | _ => True

section
variable {σ : Type} (B : Bus σ) (fm : Flashmap)

theorem iserasedChunk_trace (words addr : Nat) (w : World σ) :
    (iserasedChunk B words addr w).2.trace = w.trace := by
  induction words generalizing addr w with
  | zero => rfl
  | succ words ih =>
    simp only [iserasedChunk]
    split
    · rfl
    · exact ih _ _

theorem iserasedSector_trace (addr : Nat) (w : World σ) :
    (iserasedSector B fm addr w).2.trace = w.trace := by
  have chunk (addr : Nat) (w w' : World σ) (blank : Bool)
      (h : iserasedChunk B (0x2000 / 4) addr w = (blank, w')) : w'.trace = w.trace := by
    rw [← iserasedChunk_trace B (0x2000 / 4) addr w, h]
  fun_induction iserasedSector B fm addr w with
  | case1 addr w _ w' read => exact chunk addr w w' _ read
  | case2 addr w _ blank w' read => exact chunk addr w w' _ read
  | case3 addr w _ blank w' read _ _ ih => exact ih.trans (chunk addr w w' _ read)
  | case4 => rfl

theorem flashmapIserased_trace (addr : Nat) (w : World σ) :
    (flashmapIserased B fm addr w).2.trace = w.trace := by
  unfold flashmapIserased
  split
  · rfl
  · exact iserasedSector_trace B fm addr w

theorem pollToggle_trace (timedOut : Byte → Bool) (addr count : Nat) (prev cur : Byte) (w : World σ) :
    (pollToggle (readFlash B addr) timedOut count prev cur w).2.trace = w.trace := by
  have read {w w' : World σ} {b : Byte} (h : readFlash B addr w = (b, w')) : w'.trace = w.trace := by
    cases h
    rfl
  fun_induction pollToggle (readFlash B addr) timedOut count prev cur w with
  | case1 => rfl
  | case2 _ _ _ w _ _ w₁ r₁ _ w₂ r₂ _ _ w₃ r₃ _ w₄ r₄ =>
    exact (read r₄).trans ((read r₃).trans ((read r₂).trans (read r₁)))
  | case3 _ _ _ w _ _ w₁ r₁ _ w₂ r₂ => exact (read r₂).trans (read r₁)
  | case4 _ _ _ w _ _ w₁ r₁ _ w₂ r₂ _ _ ih => exact ih.trans ((read r₂).trans (read r₁))

theorem pollStatus_trace (timedOut : Byte → Bool) (addr : Nat) (w : World σ) :
    (pollStatus (readFlash B addr) timedOut w).2.trace = w.trace :=
  pollToggle_trace B timedOut addr 0 _ _ _

/-- The erase command, or the refusal of an address outside the device. -/
theorem eonEraseSector_grows (addr : Nat) (w : World σ) :
    Grows (fun e => e = .erase addr ∧ addr < fm.size ∨ ∃ text, e = .printk text) w
      (eonEraseSector B fm addr w).2 := by
  unfold eonEraseSector
  split
  · exact (Grows.same rfl).note (.inr ⟨_, rfl⟩)
  · rename_i inside
    have polled := pollStatus_trace B (fun c => c &&& 0x40#8 &&& 0x20#8 != 0#8) addr
      (eraseCommand B addr w)
    have issued : Grows (fun e => e = .erase addr ∧ addr < fm.size ∨ ∃ text, e = .printk text) w
        (eraseCommand B addr w) :=
      ((Grows.same rfl).note (.inl ⟨rfl, by omega⟩)).trans (.same rfl)
    have done := issued.trans (.same polled)
    simp only
    split
    · exact done
    · exact done

theorem eonProgramWord_grows (addr : Nat) (val : Word) (w : World σ) :
    Grows (fun e => e = .program addr val ∧ addr < fm.size ∨ ∃ text, e = .printk text) w
      (eonProgramWord B fm addr val w).2 := by
  unfold eonProgramWord
  split
  · exact (Grows.same rfl).note (.inr ⟨_, rfl⟩)
  · rename_i inside
    have polled := pollStatus_trace B (fun c => c &&& 0x20#8 != 0#8) addr
      (programCommand B addr val w)
    have issued : Grows (fun e => e = .program addr val ∧ addr < fm.size ∨ ∃ text, e = .printk text) w
        (programCommand B addr val w) :=
      ((Grows.same rfl).note (.inl ⟨rfl, by omega⟩)).trans (.same rfl)
    have done := issued.trans (.same polled)
    simp only
    split
    · exact done.note (.inr ⟨_, rfl⟩)
    · exact done

/-- Only words of the range are programmed, and only inside the device. -/
theorem eonProgramRange_grows (count : Nat) (src : Nat → Word) (dest : Nat) (w : World σ) :
    Grows (fun e => (∃ addr val, e = .program addr val ∧ dest ≤ addr ∧ addr + 2 ≤ dest + 2 * count ∧
      addr < fm.size) ∨ ∃ text, e = .printk text) w (eonProgramRange B fm count src dest w).2 := by
  induction count generalizing src dest w with
  | zero => exact .same rfl
  | succ count ih =>
    have first := eonProgramWord_grows B fm dest (src 0) w
    simp only [eonProgramRange]
    have first' := first.mono (Q := fun e => (∃ addr val, e = .program addr val ∧ dest ≤ addr ∧
        addr + 2 ≤ dest + 2 * (count + 1) ∧ addr < fm.size) ∨ ∃ text, e = .printk text) (by
      rintro e (⟨rfl, inside⟩ | printed)
      · exact .inl ⟨dest, src 0, rfl, Nat.le_refl _, by omega, inside⟩
      · exact .inr printed)
    split
    · exact first'.note (.inr ⟨_, rfl⟩)
    · refine first'.trans ((ih _ _ _).mono ?_)
      rintro e (⟨addr, val, rfl, lo, hi, inside⟩ | printed)
      · exact .inl ⟨addr, val, rfl, by omega, by omega, inside⟩
      · exact .inr printed

theorem eonVerifyRange_grows (count : Nat) (src : Nat → Word) (dest : Nat) (w : World σ) :
    Grows (fun e => ∃ text, e = .printk text) w (eonVerifyRange B count src dest w).2 := by
  induction count generalizing src dest w with
  | zero => exact .same rfl
  | succ count ih =>
    have read : (readFlash16Fast B dest w).2.trace = w.trace := rfl
    simp only [eonVerifyRange]
    split
    · exact (Grows.same read).note ⟨_, rfl⟩
    · exact (Grows.same read).trans (ih _ _ _)

theorem readRangeFrom_trace (count src i : Nat) (dest : Nat → Byte) (w : World σ) :
    (readRangeFrom B count src i dest w).2.trace = w.trace := by
  induction count generalizing src i dest w with
  | zero => rfl
  | succ count ih =>
    simp only [readRangeFrom, readFlash32Fast]
    exact ih _ _ _ _

theorem eraseAsNeeded_grows (dest : Nat) (w : World σ) :
    Grows (fun e => e = .erase dest ∧ flashmapIsboundary fm dest = true ∨
      (∃ by_ ret, e = .returned by_ ret) ∨ ∃ text, e = .printk text) w (eraseAsNeeded B fm dest w) := by
  unfold eraseAsNeeded
  split
  · rename_i boundary
    have checked := flashmapIserased_trace B fm dest w
    simp only
    split
    · exact .same checked
    · refine ((Grows.same checked).trans ((eonEraseSector_grows B fm dest _).mono ?_)).note
        (.inr (.inl ⟨_, _, rfl⟩))
      rintro e (⟨rfl, _⟩ | printed)
      · exact .inl ⟨rfl, boundary⟩
      · exact .inr (.inr printed)
  · exact .same rfl

/-- Whatever the hardware answers, `flash_write_chunk` commands nothing at or
above the boot sector. The guard adds in 32 bits: where the sum wraps, the
location is outside the device and every primitive refuses it. -/
theorem flashWriteChunk_grows (sized : fm.Sized) (src : Nat → Word) {dest len : Nat} (w : World σ)
    (small : dest < 2 ^ 32) (positive : 0 < len) (short : len ≤ 0x2000) :
    Grows (Event.Within fm fm.kernelSize) w (flashWriteChunk B fm src dest len w).2 := by
  have limit : fm.size - 0x10000 = fm.kernelSize := by rw [sized.size_eq]; omega
  have bound := sized.upper
  have := sized.kernelSize_eq
  have := sized.size_eq
  unfold flashWriteChunk
  rw [limit]
  split
  · exact (Grows.same rfl).note trivial
  · rename_i allowed
    have erased := (eraseAsNeeded_grows B fm dest w).mono (Q := Event.Within fm fm.kernelSize) (by
      rintro e (⟨rfl, boundary⟩ | ⟨_, _, rfl⟩ | ⟨_, rfl⟩)
      · refine ⟨?_, boundary⟩
        have inside := isboundary_lt boundary
        omega
      · trivial
      · trivial)
    have programmed := (eonProgramRange_grows B fm (len / 2) src dest (eraseAsNeeded B fm dest w)).mono
      (Q := Event.Within fm fm.kernelSize) (by
        rintro e (⟨addr, val, rfl, lo, hi, inside⟩ | ⟨_, rfl⟩)
        · change addr + 1 < fm.kernelSize
          omega
        · trivial)
    have both := (erased.trans programmed).note (e := .returned .programRange
      (eonProgramRange B fm (len / 2) src dest (eraseAsNeeded B fm dest w)).1) trivial
    simp only
    split
    · exact both
    · have verified := both.trans ((eonVerifyRange_grows B (len / 2) src dest _).mono
        (Q := Event.Within fm fm.kernelSize) (by rintro e ⟨_, rfl⟩; trivial))
      split
      · exact verified.note trivial
      · exact verified.note trivial

end

end Bifferboard
