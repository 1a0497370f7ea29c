import Bifferboard.R6040.Counters

/-!
# The MDIO interface of the R6040

The registers of the PHY are reached by commands that are written to `MMDIO`, with
the data in two other registers. A command is carried out at once; still the driver
sees it in progress at its first look, so that it has to poll. A timer sets the link
bit of PHY register 1 behind the driver's back.
-/

namespace Bifferboard.R6040
open Nor

/-- Accesses to words, and the timer. -/
inductive WordOp where
  | readw (addr : Nat)
  | writew (addr : Nat) (val : Dword)
  | linkUp
  deriving DecidableEq, Repr

namespace WordOp

def apply : WordOp → State → State
  | .readw addr, s => (ioportReadw addr s).2
  | .writew addr val, s => ioportWritew addr val s
  | .linkUp, s => s.physicalLinkUp

/-- The command that is written to `MMDIO`. -/
def command : WordOp → Option Dword
  | .writew addr val => if At mmdioW addr then some val else none
  | _ => none

/-- A read of `MMDIO`. -/
def Polls : WordOp → Prop
  | .readw addr => At mmdioW addr
  | _ => False

instance : (op : WordOp) → Decidable op.Polls
  | .readw _ => inferInstanceAs (Decidable (At _ _))
  | .writew .. => .isFalse id
  | .linkUp => .isFalse id

end WordOp

/-- The command is for the PHY that exists. -/
def ForPhy (val : Dword) : Prop := val &&& 0x1f00#32 = 0x100#32

instance (val : Dword) : Decidable (ForPhy val) := inferInstanceAs (Decidable (_ = _))

/-- The PHY register of a command. -/
def phyReg (val : Dword) : Nat := (val &&& 0x1f#32).toNat

/-- The command stores in PHY register `r`. -/
structure Stores (r : Nat) (val : Dword) : Prop where
  write : val.getLsbD 14 = true
  only : val.getLsbD 13 = false
  phy : ForPhy val
  reg : phyReg val = r

def WordOp.Stores (r : Nat) (op : WordOp) : Prop := ∃ val, op.command = some val ∧ R6040.Stores r val

/-- The state after some operations, starting from `r6040_init_pci`. -/
def reached (ram : Mem) (ops : List WordOp) : State := Transition.run WordOp.apply (initPci ram) ops

/-- A value that PHY register `r` was given, with the link bit if the timer has fired
since. -/
def linked (r : Nat) (since : List WordOp) (w : Word) : Word :=
  if r = 1 ∧ .linkUp ∈ since then w ||| 0x4#16 else w

/-- What PHY register `r` holds after some operations, by the last of them that has
stored something in it. -/
structure Holds (ram : Mem) (ops : List WordOp) (r : Nat) (w : Word) : Prop where
  powerOn : (∀ op ∈ ops, ¬ op.Stores r) → w = linked r ops ((initPci ram).phyRegs r)
  stored : ∀ before op since, ops = before ++ op :: since → op.Stores r →
    (∀ later ∈ since, ¬ later.Stores r) → w = linked r since ((reached ram before).regs mdioWriteW)

/-! ## Everything else -/

/-- Nothing of the interface is different. -/
structure SameMdio (s s' : State) : Prop where
  phyRegs : s'.phyRegs = s.phyRegs
  busy : s'.phyOpInProgress = s.phyOpInProgress
  mmdio : s'.regs mmdioW = s.regs mmdioW

namespace SameMdio
variable {s s' s'' : State}

theorem refl (s : State) : SameMdio s s := ⟨rfl, rfl, rfl⟩

theorem trans (h : SameMdio s s') (h' : SameMdio s' s'') : SameMdio s s'' :=
  ⟨h'.phyRegs.trans h.phyRegs, h'.busy.trans h.busy, h'.mmdio.trans h.mmdio⟩

theorem setReg (h : SameMdio s s') {i : Nat} (other : i ≠ mmdioW) (val : Word) :
    SameMdio s (s'.setReg i val) :=
  ⟨h.phyRegs, h.busy, (s'.setReg_other other.symm val).trans h.mmdio⟩

theorem updateIrq (h : SameMdio s s') : SameMdio s s'.updateIrq := by
  refine ⟨?_, ?_, ?_⟩
  · rw [State.updateIrq_phyRegs, h.phyRegs]
  · rw [State.updateIrq_phyOpInProgress, h.busy]
  · rw [State.updateIrq_regs, h.mmdio]

end SameMdio

theorem tryToSend_sameMdio (s : State) : SameMdio s (tryToSendOnePacket s).2 := by
  unfold tryToSendOnePacket
  dsimp only
  split
  · apply SameMdio.setReg _ (by decide)
    apply SameMdio.setReg _ (by decide)
    have counted : SameMdio s (s.setReg txPktCountW (s.regs txPktCountW + 1#16)) :=
      (SameMdio.refl s).setReg (by decide) _
    exact ⟨counted.phyRegs, counted.busy, counted.mmdio⟩
  · exact .refl s

theorem transmitLoop_sameMdio (s : State) (count : Nat) : SameMdio s (transmitLoop s count).2 := by
  induction s, count using transmitLoop.induct with
  | case1 s count sent ih =>
    rw [transmitLoop, dif_pos sent]
    exact (tryToSend_sameMdio s).trans ih
  | case2 s count idle =>
    rw [transmitLoop, dif_neg idle]
    exact tryToSend_sameMdio s

theorem transmit_sameMdio (s : State) : SameMdio s (transmit s) := by
  have loop := transmitLoop_sameMdio s 0
  rw [transmit]
  generalize transmitLoop s 0 = done at loop ⊢
  by_cases some : done.1 ≠ 0
  · rw [if_pos some]
    exact (loop.setReg (by decide) _).updateIrq
  · rwa [if_neg some]

theorem writew_sameMdio {addr : Nat} (elsewhere : ¬ At mmdioW addr) (val : Dword) (s : State) :
    SameMdio s (ioportWritew addr val s) := by
  unfold At at elsewhere
  unfold ioportWritew
  generalize addr % 0x100 / 2 = i at elsewhere ⊢
  dsimp only
  have kept := SameMdio.refl s
  split
  · apply SameMdio.setReg _ elsewhere
    split
    · exact transmit_sameMdio s
    · exact kept
  · split
    · exact kept.setReg elsewhere _
    · split
      · split
        · exact (transmit_sameMdio s).setReg elsewhere _
        · exact kept.setReg elsewhere _
      · split
        · exact kept
        · split
          · exact (kept.setReg (by decide) _).updateIrq
          · split
            · exact kept
            · exact kept.setReg elsewhere _

theorem readw_sameMdio {addr : Nat} (elsewhere : ¬ At mmdioW addr) (s : State) :
    SameMdio s (ioportReadw addr s).2 := by
  unfold At at elsewhere
  unfold ioportReadw
  generalize addr % 0x100 / 2 = i at elsewhere ⊢
  dsimp only
  have kept := SameMdio.refl s
  rw [if_neg elsewhere]
  split
  · exact kept.setReg elsewhere _
  · split
    · exact kept.setReg elsewhere _
    · exact kept

/-! ## Commands -/

theorem writew_mmdio {addr : Nat} (here : At mmdioW addr) (val : Dword) (s : State) :
    ioportWritew addr val s =
      { mdioAccess val s with phyOpInProgress := true }.setReg mmdioW
        ((val ||| 0x6000#32).setWidth 16) := by
  unfold At at here
  rw [ioportWritew, here, if_neg (by decide), if_neg (by decide), if_neg (by decide), if_pos rfl]

theorem mdioAccess_read {val : Dword} (reads : val.getLsbD 13 = true) (s : State) :
    mdioAccess val s =
      s.setReg mdioReadW (if ForPhy val then s.phyRegs (phyReg val) else 0xffff#16) := by
  rw [mdioAccess, if_pos reads]
  rfl

theorem mdioAccess_stores {val : Dword} {r : Nat} (stores : Stores r val) (s : State) :
    (mdioAccess val s).phyRegs r = s.regs mdioWriteW := by
  obtain ⟨write, only, phy, rfl⟩ := stores
  rw [mdioAccess, if_neg (by rw [only]; decide), if_pos ⟨write, phy⟩]
  exact Function.update_self ..

theorem mdioAccess_keeps {val : Dword} {r : Nat} (other : ¬ Stores r val) (s : State) :
    (mdioAccess val s).phyRegs r = s.phyRegs r := by
  unfold mdioAccess
  dsimp only
  split
  · rfl
  · rename_i reads
    split
    · rename_i writes
      apply Function.update_of_ne
      intro same
      exact other ⟨writes.1, Bool.not_eq_true _ ▸ reads, writes.2, same.symm⟩
    · rfl

/-! ## The registers of the PHY -/

theorem readw_phyRegs (addr : Nat) (s : State) : (ioportReadw addr s).2.phyRegs = s.phyRegs := by
  by_cases here : At mmdioW addr
  · unfold At at here
    rw [ioportReadw, here, if_pos rfl]
    split
    · rfl
    · rfl
  · exact (readw_sameMdio here s).phyRegs

section
variable {op : WordOp} {r : Nat} {s : State}

theorem WordOp.Stores.phyRegs (stores : op.Stores r) :
    (op.apply s).phyRegs r = s.regs mdioWriteW := by
  obtain ⟨val, written, stores⟩ := stores
  cases op with
  | readw addr => cases written
  | linkUp => cases written
  | writew addr val' =>
    obtain ⟨here, same⟩ := Option.ite_none_right_eq_some.mp written
    cases same
    rw [WordOp.apply, writew_mmdio here]
    exact mdioAccess_stores stores s

theorem phyRegs_other (other : ¬ op.Stores r) (untimed : op ≠ .linkUp) :
    (op.apply s).phyRegs r = s.phyRegs r := by
  cases op with
  | readw addr => exact congrFun (readw_phyRegs addr s) r
  | linkUp => exact absurd rfl untimed
  | writew addr val =>
    by_cases here : At mmdioW addr
    · have keeps : ¬ R6040.Stores r val := fun stores => other ⟨val, if_pos here, stores⟩
      rw [WordOp.apply, writew_mmdio here]
      exact mdioAccess_keeps keeps s
    · exact congrFun (writew_sameMdio here val s).phyRegs r

theorem phyRegs_linkUp : (WordOp.linkUp.apply s).phyRegs r =
    if r = 1 then s.phyRegs r ||| 0x4#16 else s.phyRegs r := by
  change Function.update s.phyRegs 1 (s.phyRegs 1 ||| 0x4#16) r = _
  by_cases one : r = 1
  · rw [if_pos one, one, Function.update_self]
  · rw [if_neg one, Function.update_of_ne one]

/-- The register is as it was given, up to the link bit. -/
theorem linked_kept {since : List WordOp} {w : Word} (other : ¬ op.Stores r)
    (h : s.phyRegs r = linked r since w) : (op.apply s).phyRegs r = linked r (since ++ [op]) w := by
  by_cases timed : op = .linkUp
  · subst timed
    by_cases one : r = 1
    · have fired : linked r (since ++ [.linkUp]) w = w ||| 0x4#16 :=
        if_pos ⟨one, List.mem_append_right _ List.mem_cons_self⟩
      rw [phyRegs_linkUp, if_pos one, h, fired, linked]
      split
      · rw [BitVec.or_assoc, BitVec.or_self]
      · rfl
    · have untouched (since : List WordOp) : linked r since w = w := if_neg fun both => one both.1
      rw [phyRegs_linkUp, if_neg one, h, untouched, untouched]
  · have same : WordOp.linkUp ∈ since ++ [op] ↔ WordOp.linkUp ∈ since := by
      rw [List.mem_append, List.mem_singleton]
      exact or_iff_left fun here => timed here.symm
    rw [phyRegs_other other timed, h, linked, linked]
    simp only [same]

end

theorem holds (ram : Mem) (ops : List WordOp) (r : Nat) :
    Holds ram ops r ((reached ram ops).phyRegs r) := by
  constructor
  · intro never
    refine Transition.run_since WordOp.apply (initPci ram)
      (Q := fun since s => s.phyRegs r = linked r since ((initPci ram).phyRegs r)) ?_ ?_ ops never
    · exact (if_neg fun both => absurd both.2 List.not_mem_nil).symm
    · intro since op s other h
      exact linked_kept other h
  · rintro before op since rfl stores quiet
    rw [reached, Transition.run_append_cons]
    refine Transition.run_since WordOp.apply (op.apply (reached ram before))
      (Q := fun since s => s.phyRegs r = linked r since ((reached ram before).regs mdioWriteW))
      ?_ ?_ since quiet
    · rw [stores.phyRegs]
      exact (if_neg fun both => absurd both.2 List.not_mem_nil).symm
    · intro since op s other h
      exact linked_kept other h

/-! ## Polling -/

/-- Whether an operation is shown as in progress. -/
structure Progress (busy : Bool) (s : State) : Prop where
  flag : s.phyOpInProgress = busy
  reading : (s.regs mmdioW).getLsbD 13 = busy
  writing : (s.regs mmdioW).getLsbD 14 = busy

theorem SameMdio.progress {s s' : State} (same : SameMdio s s') {busy : Bool} (h : Progress busy s) :
    Progress busy s' :=
  ⟨same.busy.trans h.flag, same.mmdio ▸ h.reading, same.mmdio ▸ h.writing⟩

theorem progress_command {addr : Nat} (here : At mmdioW addr) (val : Dword) (s : State) :
    Progress true (ioportWritew addr val s) := by
  rw [writew_mmdio here]
  refine ⟨rfl, ?_, ?_⟩
  · rw [State.setReg_same, BitVec.getLsbD_setWidth, BitVec.getLsbD_or]
    exact Bool.or_true _
  · rw [State.setReg_same, BitVec.getLsbD_setWidth, BitVec.getLsbD_or]
    exact Bool.or_true _

/-- The first read that shows it ends it. -/
theorem progress_poll {addr : Nat} (here : At mmdioW addr) {busy : Bool} {s : State}
    (h : Progress busy s) : Progress false (ioportReadw addr s).2 := by
  unfold At at here
  rw [ioportReadw, here, if_pos rfl]
  cases busy with
  | true =>
    rw [if_pos h.flag]
    refine ⟨rfl, ?_, ?_⟩
    · rw [State.setReg_same, BitVec.getLsbD_and]
      exact Bool.and_false _
    · rw [State.setReg_same, BitVec.getLsbD_and]
      exact Bool.and_false _
  | false =>
    rw [if_neg (by rw [h.flag]; decide)]
    exact h

/-- After a command, up to the next one. -/
theorem progress_kept {op : WordOp} (quiet : op.command = none) {since : List WordOp} {s : State}
    (h : Progress (decide (∀ earlier ∈ since, ¬ earlier.Polls)) s) :
    Progress (decide (∀ earlier ∈ since ++ [op], ¬ earlier.Polls)) (op.apply s) := by
  by_cases polls : op.Polls
  · have seen : ¬ ∀ earlier ∈ since ++ [op], ¬ earlier.Polls :=
      fun none => none op (List.mem_append_right _ List.mem_cons_self) polls
    rw [decide_eq_false seen]
    cases op with
    | readw addr => exact progress_poll polls h
    | writew addr val => exact polls.elim
    | linkUp => exact polls.elim
  · have same : (∀ earlier ∈ since ++ [op], ¬ earlier.Polls) ↔
        ∀ earlier ∈ since, ¬ earlier.Polls := by
      constructor
      · intro all earlier member
        exact all earlier (List.mem_append_left _ member)
      · intro all earlier member
        rcases List.mem_append.mp member with old | new
        · exact all earlier old
        · rwa [List.mem_singleton.mp new]
    rw [decide_eq_decide.mpr same]
    cases op with
    | readw addr => exact (readw_sameMdio polls s).progress h
    | writew addr val =>
      have elsewhere : ¬ At mmdioW addr := by
        intro here
        rw [WordOp.command, if_pos here] at quiet
        cases quiet
      exact (writew_sameMdio elsewhere val s).progress h
    | linkUp => exact ⟨h.flag, h.reading, h.writing⟩

/-! ## The interface -/

theorem progress_since {ram : Mem} {before since : List WordOp} {op : WordOp} {val : Dword}
    (written : op.command = some val) (quiet : ∀ later ∈ since, later.command = none) :
    Progress (decide (∀ later ∈ since, ¬ later.Polls)) (reached ram (before ++ op :: since)) := by
  rw [reached, Transition.run_append_cons]
  refine Transition.run_since WordOp.apply (op.apply (reached ram before))
    (Q := fun since s => Progress (decide (∀ later ∈ since, ¬ later.Polls)) s)
    (P := fun op => op.command ≠ none) ?_ ?_ since (fun later member => not_not_intro (quiet later member))
  · cases op with
    | readw addr => cases written
    | linkUp => cases written
    | writew addr val' =>
      obtain ⟨here, -⟩ := Option.ite_none_right_eq_some.mp written
      exact progress_command here val' _
  · intro since op s none h
    exact progress_kept (not_not.mp none) h

/-- Over any operations, a read command loads what the PHY register holds, commands
for other PHYs read ones and store nothing, and after a command exactly the first look
at `MMDIO` shows it in progress. -/
theorem mdio_register_file (ram : Mem) (ops : List WordOp) (addr : Nat) (here : At mmdioW addr) :
    (∀ val : Dword, val.getLsbD 13 = true → ForPhy val →
      Holds ram ops (phyReg val) ((reached ram (ops ++ [.writew addr val])).regs mdioReadW)) ∧
    (∀ val : Dword, ¬ ForPhy val →
      (val.getLsbD 13 = true →
        (reached ram (ops ++ [.writew addr val])).regs mdioReadW = 0xffff#16) ∧
      (reached ram (ops ++ [.writew addr val])).phyRegs = (reached ram ops).phyRegs) ∧
    ∀ before op since val, ops = before ++ op :: since → op.command = some val →
      (∀ later ∈ since, later.command = none) →
      let shown := (ioportReadw addr (reached ram ops)).1
      shown.getLsbD 13 = decide (∀ later ∈ since, ¬ later.Polls) ∧
      shown.getLsbD 14 = decide (∀ later ∈ since, ¬ later.Polls) := by
  have next (val : Dword) : reached ram (ops ++ [.writew addr val]) =
      { mdioAccess val (reached ram ops) with phyOpInProgress := true }.setReg mmdioW
        ((val ||| 0x6000#32).setWidth 16) := by
    rw [reached, Transition.run_append]
    exact writew_mmdio here val _
  have loaded (val : Dword) (reads : val.getLsbD 13 = true) :
      (reached ram (ops ++ [.writew addr val])).regs mdioReadW =
        if ForPhy val then (reached ram ops).phyRegs (phyReg val) else 0xffff#16 := by
    rw [next, State.setReg_other _ (by decide)]
    change (mdioAccess val _).regs mdioReadW = _
    rw [mdioAccess_read reads, State.setReg_same]
  refine ⟨?_, ?_, ?_⟩
  · intro val reads phy
    rw [loaded val reads, if_pos phy]
    exact holds ram ops (phyReg val)
  · intro val other
    refine ⟨fun reads => ?_, ?_⟩
    · rw [loaded val reads, if_neg other]
    · funext r
      rw [next]
      exact mdioAccess_keeps (fun stores => other stores.phy) _
  · rintro before op since val rfl written quiet
    have progress : Progress _ (reached ram (before ++ op :: since)) := progress_since written quiet
    have shown (bit : Nat) (low : bit < 16) (s : State) :
        (ioportReadw addr s).1.getLsbD bit = (s.regs mmdioW).getLsbD bit := by
      have reg : addr % 0x100 / 2 = mmdioW := here
      rw [readw_value, reg, BitVec.getLsbD_setWidth, decide_eq_true (by omega), Bool.true_and]
    exact ⟨(shown 13 (by decide) _).trans progress.reading,
      (shown 14 (by decide) _).trans progress.writing⟩

/-- Register 2 is stored and read again. -/
theorem stored_word_read_back : At mmdioW 0x20 ∧
    (reached (fun _ => 0#8)
      [.writew 0x28 0x1234#32, .writew 0x20 0x4102#32, .writew 0x20 0x2102#32]).regs mdioReadW =
      0x1234#16 := by
  have here : At mmdioW 0x20 := by decide
  have loaded := (mdio_register_file (fun _ => 0#8) [.writew 0x28 0x1234#32, .writew 0x20 0x4102#32]
    0x20 here).1 0x2102#32 (by decide) (by decide)
  have stores : WordOp.Stores 2 (.writew 0x20 0x4102#32) :=
    ⟨0x4102#32, rfl, by decide, by decide, by decide, by decide⟩
  refine ⟨here, (loaded.stored [.writew 0x28 0x1234#32] _ [] rfl stores ?_).trans (by decide)⟩
  intro later member
  cases member

end Bifferboard.R6040
