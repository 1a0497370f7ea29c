import Bifferboard.Transition.Reach
import Bifferboard.R6040.Device

/-!
# The interrupt line of the R6040

The line should be up exactly while an enabled interrupt is pending. Everything
that raises an interrupt, and the write to `MIER`, refreshes the line. Reading
`MISR` clears it without doing so.
-/

namespace Bifferboard.R6040
open Nor

/-- The line shows whether an enabled interrupt is pending. -/
def State.LineRight (s : State) : Prop := s.irq = decide (s.pending ≠ 0#16)

instance (s : State) : Decidable s.LineRight := inferInstanceAs (Decidable (_ = _))

theorem lineRight_updateIrq (s : State) : s.updateIrq.LineRight := rfl

/-- Nothing the line depends on is different. -/
structure Quiet (s s' : State) : Prop where
  irq : s'.irq = s.irq
  misr : s'.regs misrW = s.regs misrW
  mier : s'.regs mierW = s.regs mierW

namespace Quiet
variable {s s' s'' : State}

theorem refl (s : State) : Quiet s s := ⟨rfl, rfl, rfl⟩

theorem trans (h : Quiet s s') (h' : Quiet s' s'') : Quiet s s'' :=
  ⟨h'.irq.trans h.irq, h'.misr.trans h.misr, h'.mier.trans h.mier⟩

theorem lineRight (h : Quiet s s') (right : s.LineRight) : s'.LineRight := by
  rw [State.LineRight, State.pending, h.irq, h.misr, h.mier]
  exact right

theorem setReg (h : Quiet s s') {i : Nat} (notMisr : i ≠ misrW) (notMier : i ≠ mierW) (val : Word) :
    Quiet s (s'.setReg i val) := by
  refine ⟨h.irq, ?_, ?_⟩
  · exact (s'.setReg_other notMisr.symm val).trans h.misr
  · exact (s'.setReg_other notMier.symm val).trans h.mier

end Quiet

/-! ## Writes -/

theorem tryToSend_quiet (s : State) : Quiet s (tryToSendOnePacket s).2 := by
  unfold tryToSendOnePacket
  dsimp only
  split
  · apply Quiet.setReg _ (by decide) (by decide)
    apply Quiet.setReg _ (by decide) (by decide)
    have counted : Quiet s (s.setReg txPktCountW (s.regs txPktCountW + 1#16)) :=
      (Quiet.refl s).setReg (by decide) (by decide) _
    exact ⟨counted.irq, counted.misr, counted.mier⟩
  · exact .refl s

theorem transmitLoop_quiet (s : State) (count : Nat) : Quiet s (transmitLoop s count).2 := by
  induction s, count using transmitLoop.induct with
  | case1 s count sent ih =>
    rw [transmitLoop, dif_pos sent]
    exact (tryToSend_quiet s).trans ih
  | case2 s count idle =>
    rw [transmitLoop, dif_neg idle]
    exact tryToSend_quiet s

theorem transmit_lineRight {s : State} (right : s.LineRight) : (transmit s).LineRight := by
  unfold transmit
  dsimp only
  split
  · exact lineRight_updateIrq _
  · exact (transmitLoop_quiet s 0).lineRight right

theorem mdioAccess_quiet (val : Dword) (s : State) : Quiet s (mdioAccess val s) := by
  unfold mdioAccess
  dsimp only
  split
  · exact (Quiet.refl s).setReg (by decide) (by decide) _
  · split
    · exact ⟨rfl, rfl, rfl⟩
    · exact .refl s

theorem writew_lineRight (addr : Nat) (val : Dword) {s : State} (right : s.LineRight) :
    (ioportWritew addr val s).LineRight := by
  unfold ioportWritew
  generalize addr % 0x100 / 2 = i
  dsimp only
  have plain {s : State} (right : s.LineRight) (i : Nat) (val : Word) (notMisr : i ≠ misrW)
      (notMier : i ≠ mierW) : (s.setReg i val).LineRight :=
    ((Quiet.refl s).setReg notMisr notMier val).lineRight right
  split
  · rename_i here
    subst here
    apply plain _ _ _ (by decide) (by decide)
    split
    · exact transmit_lineRight right
    · exact right
  · split
    · rename_i here
      subst here
      exact plain right _ _ (by decide) (by decide)
    · split
      · rename_i here
        subst here
        split
        · exact plain (transmit_lineRight right) _ _ (by decide) (by decide)
        · exact plain right _ _ (by decide) (by decide)
      · split
        · rename_i here
          subst here
          apply plain _ _ _ (by decide) (by decide)
          have access := mdioAccess_quiet val s
          exact Quiet.lineRight ⟨access.irq, access.misr, access.mier⟩ right
        · split
          · exact right
          · split
            · exact lineRight_updateIrq _
            · rename_i notMisr notMier
              split
              · exact right
              · exact plain right _ _ notMisr notMier

/-! ## Reception -/

theorem rxStartSet_quiet (s : State) (start : Dword) : Quiet s (s.rxStartSet start) := by
  apply Quiet.setReg _ (by decide) (by decide)
  exact (Quiet.refl s).setReg (by decide) (by decide) _

theorem receive_lineRight (buf : List Byte) {s : State} (right : s.LineRight) :
    (receiveOnePacket buf s).2.LineRight := by
  unfold receiveOnePacket
  dsimp only
  split
  · exact (rxStartSet_quiet _ _).lineRight (lineRight_updateIrq _)
  · exact right

/-! ## Reads -/

/-- The word at the address is `MISR`. -/
def AtMisr (addr : Nat) : Prop := addr % 0x100 / 2 = misrW

/-- What a read does to the line and its registers. -/
structure ReadEffect (cleared : Prop) (s s' : State) : Prop where
  irq : s'.irq = s.irq
  mier : s'.regs mierW = s.regs mierW
  clear : cleared → s'.regs misrW = 0#16
  keep : ¬ cleared → s'.regs misrW = s.regs misrW

theorem Quiet.readEffect {s s' : State} (h : Quiet s s') {cleared : Prop} (kept : ¬ cleared) :
    ReadEffect cleared s s' :=
  ⟨h.irq, h.mier, fun clear => absurd clear kept, fun _ => h.misr⟩

theorem readw_effect (addr : Nat) (s : State) : ReadEffect (AtMisr addr) s (ioportReadw addr s).2 := by
  unfold ioportReadw AtMisr
  generalize addr % 0x100 / 2 = i
  dsimp only
  split
  · rename_i here
    subst here
    apply Quiet.readEffect _ (by decide)
    split
    · have reset : Quiet s { s with phyOpInProgress := false } := ⟨rfl, rfl, rfl⟩
      exact reset.setReg (by decide) (by decide) _
    · exact .refl s
  · split
    · rename_i here
      subst here
      refine ⟨rfl, s.setReg_other (by decide) _, fun _ => s.setReg_same .., ?_⟩
      intro elsewhere
      exact absurd rfl elsewhere
    · rename_i elsewhere
      apply Quiet.readEffect _ elsewhere
      split
      · rename_i counter
        apply (Quiet.refl s).setReg elsewhere
        rcases counter with rfl | rfl
        · decide
        · decide
      · exact .refl s

theorem readb_effect (addr : Nat) (s : State) : ReadEffect (AtMisr addr) s (ioportReadb addr s).2 := by
  have effect := readw_effect (addr / 2 * 2) s
  have same : AtMisr (addr / 2 * 2) ↔ AtMisr addr := by
    unfold AtMisr
    omega
  rw [same] at effect
  exact ⟨effect.irq, effect.mier, effect.clear, effect.keep⟩

theorem readl_effect (addr : Nat) (s : State) :
    ReadEffect (AtMisr addr ∨ AtMisr (addr + 2)) s (ioportReadl addr s).2 := by
  have first := readw_effect addr s
  have second := readw_effect (addr + 2) (ioportReadw addr s).2
  refine ⟨second.irq.trans first.irq, second.mier.trans first.mier, ?_, ?_⟩
  · intro either
    by_cases high : AtMisr (addr + 2)
    · exact second.clear high
    · exact (second.keep high).trans (first.clear (either.resolve_right high))
  · intro neither
    rw [not_or] at neither
    exact (second.keep neither.2).trans (first.keep neither.1)

theorem ReadEffect.lineRight_iff {s s' : State} {cleared : Prop} (h : ReadEffect cleared s s')
    (right : s.LineRight) : s'.LineRight ↔ (cleared → s.pending = 0#16) := by
  by_cases clear : cleared
  · have none : s'.pending = 0#16 := by
      rw [State.pending, h.clear clear, BitVec.zero_and]
    rw [State.LineRight, h.irq, none, right]
    simp [clear]
  · have kept : Quiet s s' := ⟨h.irq, h.keep clear, h.mier⟩
    simp [kept.lineRight right, clear]

/-! ## Runs -/

/-- What can happen to the device. Transmissions are part of the writes that start
them, and in between the guest does with its memory what it likes. -/
inductive Action where
  | readb (addr : Nat)
  | readw (addr : Nat)
  | readl (addr : Nat)
  | writeb (addr : Nat) (val : Dword)
  | writew (addr : Nat) (val : Dword)
  | writel (addr : Nat) (val : Dword)
  | receive (buf : List Byte)
  | linkUp
  | guest (ram : Mem)

namespace Action

def apply : Action → State → State
  | .readb addr, s => (ioportReadb addr s).2
  | .readw addr, s => (ioportReadw addr s).2
  | .readl addr, s => (ioportReadl addr s).2
  | .writeb addr val, s => ioportWriteb addr val s
  | .writew addr val, s => ioportWritew addr val s
  | .writel addr val, s => ioportWritel addr val s
  | .receive buf, s => (receiveOnePacket buf s).2
  | .linkUp, s => s.physicalLinkUp
  | .guest ram, s => { s with ram := ram }

/-- The action is a read that touches `MISR`. -/
def ReadsMisr : Action → Prop
  | .readb addr => AtMisr addr
  | .readw addr => AtMisr addr
  | .readl addr => AtMisr addr ∨ AtMisr (addr + 2)
  | _ => False

/-- A step keeps the line right unless it is a read of `MISR` that clears an
enabled interrupt. -/
theorem lineRight_iff (a : Action) {s : State} (right : s.LineRight) :
    (a.apply s).LineRight ↔ (a.ReadsMisr → s.pending = 0#16) := by
  cases a with
  | readb addr => exact (readb_effect addr s).lineRight_iff right
  | readw addr => exact (readw_effect addr s).lineRight_iff right
  | readl addr => exact (readl_effect addr s).lineRight_iff right
  | writeb addr val =>
    have kept : (ioportWriteb addr val s).LineRight := writew_lineRight _ _ right
    exact iff_of_true kept False.elim
  | writew addr val => exact iff_of_true (writew_lineRight addr val right) False.elim
  | writel addr val =>
    have kept : (ioportWritel addr val s).LineRight :=
      writew_lineRight _ _ (writew_lineRight _ _ right)
    exact iff_of_true kept False.elim
  | receive buf => exact iff_of_true (receive_lineRight buf right) False.elim
  | linkUp => exact iff_of_true right False.elim
  | guest ram => exact iff_of_true right False.elim

end Action

/-- The state after some actions, starting from `r6040_init_pci`. -/
def after (ram : Mem) (actions : List Action) : State :=
  Transition.run Action.apply (initPci ram) actions

theorem initPci_lineRight (ram : Mem) : (initPci ram).LineRight := by
  have none : (initPci ram).regs misrW = 0#16 := by
    simp [initPci, misrW, mpsccrW, mrbsrW, mac0W, mac1W, mac2W]
  rw [State.LineRight, State.pending, none, BitVec.zero_and]
  rfl

/-- The line is right all along a run exactly if `MISR` is never read while an
enabled interrupt is pending. -/
theorem line_right_iff (ram : Mem) (actions : List Action) :
    (∀ done, done <+: actions → (after ram done).LineRight) ↔
      ∀ done a, done ++ [a] <+: actions → a.ReadsMisr → (after ram done).pending = 0#16 := by
  refine Transition.forall_prefix_iff Action.apply (initPci ram) (I := fun _ => True)
    (P := State.LineRight) (G := fun a s => a.ReadsMisr → s.pending = 0#16) ?_ ?_ ?_ actions
  · exact ⟨trivial, initPci_lineRight ram⟩
  · intro _ _ _
    trivial
  · intro a s _ right
    exact a.lineRight_iff right

/-- The receive interrupt is enabled, a packet comes in, and the driver asks why
it was interrupted. -/
theorem line_stays_up : ∃ (ram : Mem) (actions : List Action),
    (after ram actions).pending = 0#16 ∧ (after ram actions).irq = true := by
  let descriptor : Descriptor := ⟨0x8000#16, 0#16, 0x2000#32, 0#32, 0#16, 0#16, 0#16, 0#16⟩
  exact ⟨descriptor.write (fun _ => 0#8) 0,
    [.writew 0x40 1#32, .receive (List.replicate 60 0xaa#8), .readw 0x3c], by decide, by decide⟩

end Bifferboard.R6040
