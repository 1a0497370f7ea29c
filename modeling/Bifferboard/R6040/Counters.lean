import Bifferboard.R6040.Interrupt

/-!
# The packet counters of the R6040

Packets are counted in two registers. A counter should not be writable, and a read
should return the packets since the previous read and clear it. The register that
counts received packets, 0x50, is treated so. The one that counts transmitted
packets is 0x5a, and the accesses treat 0x5c in its place.
-/

namespace Bifferboard.R6040
open Nor

inductive Counter where
  | received
  | transmitted
  deriving DecidableEq, Repr

/-- The register that is incremented. -/
def Counter.reg : Counter → Nat
  | .received => rxPktCountW
  | .transmitted => txPktCountW

/-! ## Accesses to a register -/

/-- The word at the address is register `i`. -/
def At (i addr : Nat) : Prop := addr % 0x100 / 2 = i

instance (i addr : Nat) : Decidable (At i addr) := inferInstanceAs (Decidable (_ = _))

namespace Action

def IsWrite : Action → Prop
  | .writeb .. => True
  | .writew .. => True
  | .writel .. => True
  | _ => False

/-- The word that a write brings to register `i`. -/
def written (i : Nat) (s : State) : Action → Option Word
  | .writeb addr val =>
    if At i addr then
      some (if addr % 2 = 1 then Word.ofBytes (s.regs i).lo (val.setWidth 8)
        else Word.ofBytes (val.setWidth 8) (s.regs i).hi)
    else none
  | .writew addr val => if At i addr then some (val.setWidth 16) else none
  | .writel addr val =>
    if At i addr then some (val.setWidth 16)
    else if At i (addr + 2) then some ((val >>> 16).setWidth 16)
    else none
  | _ => none

/-- The action is a read that touches register `i`. -/
def Reads (i : Nat) : Action → Prop
  | .readb addr => At i addr
  | .readw addr => At i addr
  | .readl addr => At i addr ∨ At i (addr + 2)
  | _ => False

instance (i : Nat) : (a : Action) → Decidable (a.Reads i)
  | .readb _ => inferInstanceAs (Decidable (At _ _))
  | .readw _ => inferInstanceAs (Decidable (At _ _))
  | .readl _ => inferInstanceAs (Decidable (_ ∨ _))
  | .writeb .. => .isFalse id
  | .writew .. => .isFalse id
  | .writel .. => .isFalse id
  | .receive _ => .isFalse id
  | .linkUp => .isFalse id
  | .guest _ => .isFalse id

/-- The read returns `w` for register `i`: all of it, the byte that was asked for,
or in one half of a long. -/
def Returns (i : Nat) (w : Word) (s : State) : Action → Prop
  | .readb addr => (ioportReadb addr s).1 = (if addr % 2 = 1 then w.hi else w.lo).setWidth 32
  | .readw addr => (ioportReadw addr s).1 = w.setWidth 32
  | .readl addr =>
    (At i addr → (ioportReadl addr s).1.extractLsb' 0 16 = w) ∧
    (At i (addr + 2) → (ioportReadl addr s).1.extractLsb' 16 16 = w)
  | _ => True

/-- The packets that an action moves. -/
def packets (a : Action) (s : State) : Counter → Nat
  | .received =>
    match a with
    | .receive buf => if (receiveOnePacket buf s).1 = 0 then 1 else 0
    | _ => 0
  | .transmitted => (a.apply s).sent.length - s.sent.length

end Action

/-! ## Packets -/

/-- So many packets of one kind, and none of the other. -/
def amount (c : Counter) (n : Nat) : Counter → Nat := fun c' => if c' = c then n else 0

/-- The packets that were moved from one state to the other have been counted. -/
structure Moves (n : Counter → Nat) (s s' : State) : Prop where
  counted : ∀ c : Counter, s'.regs c.reg = s.regs c.reg + BitVec.ofNat 16 (n c)
  sent : s'.sent.length = s.sent.length + n .transmitted

namespace Moves
variable {s s' s'' : State} {n k : Nat} {c : Counter}

theorem none (counters : ∀ c : Counter, s'.regs c.reg = s.regs c.reg) (sent : s'.sent = s.sent) :
    Moves (amount c 0) s s' := by
  have zero (c' : Counter) : amount c 0 c' = 0 := ite_self 0
  constructor
  · intro c'
    rw [counters, zero]
    exact (BitVec.add_zero _).symm
  · rw [sent, zero, Nat.add_zero]

theorem refl (s : State) : Moves (amount c 0) s s := none (fun _ => rfl) rfl

theorem trans (h : Moves (amount c n) s s') (h' : Moves (amount c k) s' s'') :
    Moves (amount c (n + k)) s s'' := by
  have sum (c' : Counter) : amount c (n + k) c' = amount c n c' + amount c k c' := by
    unfold amount
    split
    · rfl
    · rfl
  constructor
  · intro c'
    rw [h'.counted, h.counted, sum, BitVec.ofNat_add, BitVec.add_assoc]
  · rw [h'.sent, h.sent, sum, Nat.add_assoc]

theorem setReg (h : Moves (amount c n) s s') {i : Nat} (other : ∀ c : Counter, c.reg ≠ i)
    (val : Word) : Moves (amount c n) s (s'.setReg i val) := by
  constructor
  · intro c'
    rw [s'.setReg_other (other c'), h.counted]
  · exact h.sent

theorem updateIrq (h : Moves (amount c n) s s') : Moves (amount c n) s s'.updateIrq := by
  constructor
  · intro c'
    rw [State.updateIrq_regs, h.counted]
  · rw [State.updateIrq_sent, h.sent]

end Moves

theorem Counter.reg_ne {i : Nat} (received : i ≠ rxPktCountW) (transmitted : i ≠ txPktCountW)
    (c : Counter) : c.reg ≠ i := by
  cases c with
  | received => exact received.symm
  | transmitted => exact transmitted.symm

theorem setReg_counted (s : State) (c c' : Counter) :
    (s.setReg c.reg (s.regs c.reg + 1#16)).regs c'.reg =
      s.regs c'.reg + BitVec.ofNat 16 (amount c 1 c') := by
  by_cases same : c' = c
  · subst same
    rw [State.setReg_same, amount, if_pos rfl]
  · have other : c'.reg ≠ c.reg := by
      revert same
      cases c <;> cases c' <;> decide
    rw [s.setReg_other other, amount, if_neg same]
    exact (BitVec.add_zero _).symm

theorem tryToSend_moves {s : State} (sent : (tryToSendOnePacket s).1 = true) :
    Moves (amount .transmitted 1) s (tryToSendOnePacket s).2 := by
  have owned := tryToSend_owned sent
  rw [tryToSendOnePacket, if_pos owned]
  apply Moves.setReg _ (Counter.reg_ne (by decide) (by decide))
  apply Moves.setReg _ (Counter.reg_ne (by decide) (by decide))
  exact ⟨setReg_counted s .transmitted, List.length_append⟩

theorem transmitLoop_moves (s : State) (count : Nat) :
    ∃ n, Moves (amount .transmitted n) s (transmitLoop s count).2 := by
  induction s, count using transmitLoop.induct with
  | case1 s count sent ih =>
    obtain ⟨n, moves⟩ := ih
    rw [transmitLoop, dif_pos sent]
    exact ⟨1 + n, (tryToSend_moves sent).trans moves⟩
  | case2 s count idle =>
    rw [transmitLoop, dif_neg idle, (tryToSend_idle idle).2]
    exact ⟨0, .refl s⟩

theorem transmit_moves (s : State) : ∃ n, Moves (amount .transmitted n) s (transmit s) := by
  obtain ⟨n, moves⟩ := transmitLoop_moves s 0
  refine ⟨n, ?_⟩
  rw [transmit]
  generalize transmitLoop s 0 = done at moves ⊢
  by_cases some : done.1 ≠ 0
  · rw [if_pos some]
    apply Moves.updateIrq
    exact moves.setReg (Counter.reg_ne (by decide) (by decide)) _
  · rwa [if_neg some]

theorem receive_moves (buf : List Byte) (s : State) :
    Moves (amount .received (if (receiveOnePacket buf s).1 = 0 then 1 else 0)) s
      (receiveOnePacket buf s).2 := by
  by_cases owned : (Descriptor.read s.ram s.rxStart.toNat).Owned
  · rw [receiveOnePacket, if_pos owned]
    apply Moves.setReg _ (Counter.reg_ne (by decide) (by decide))
    apply Moves.setReg _ (Counter.reg_ne (by decide) (by decide))
    have counted : Moves (amount .received 1) s
        (s.setReg rxPktCountW (s.regs rxPktCountW + 1#16)) := ⟨setReg_counted s .received, rfl⟩
    apply Moves.updateIrq
    apply Moves.setReg _ (Counter.reg_ne (by decide) (by decide))
    exact ⟨counted.counted, counted.sent⟩
  · rw [receiveOnePacket, if_neg owned]
    exact .refl s

/-! ## Writes -/

theorem mdioAccess_moves (val : Dword) (s : State) : Moves (amount .transmitted 0) s (mdioAccess val s) := by
  unfold mdioAccess
  dsimp only
  split
  · exact (Moves.refl s).setReg (Counter.reg_ne (by decide) (by decide)) _
  · split
    · exact .none (fun _ => rfl) rfl
    · exact .refl s

theorem writew_moves {addr : Nat} (elsewhere : ¬ At txPktCountW addr) (val : Dword) (s : State) :
    ∃ n, Moves (amount .transmitted n) s (ioportWritew addr val s) := by
  unfold At at elsewhere
  unfold ioportWritew
  generalize addr % 0x100 / 2 = i at elsewhere ⊢
  dsimp only
  have sends (i : Nat) (val : Word) (received : i ≠ rxPktCountW) (transmitted : i ≠ txPktCountW) :
      ∃ n, Moves (amount .transmitted n) s ((transmit s).setReg i val) := by
    obtain ⟨n, moves⟩ := transmit_moves s
    exact ⟨n, moves.setReg (Counter.reg_ne received transmitted) val⟩
  have plain (i : Nat) (val : Word) (received : i ≠ rxPktCountW) (transmitted : i ≠ txPktCountW) :
      ∃ n, Moves (amount .transmitted n) s (s.setReg i val) :=
    ⟨0, (Moves.refl s).setReg (Counter.reg_ne received transmitted) val⟩
  split
  · rename_i here
    subst here
    split
    · exact sends _ _ (by decide) (by decide)
    · exact plain _ _ (by decide) (by decide)
  · split
    · rename_i here
      subst here
      exact plain _ _ (by decide) (by decide)
    · split
      · rename_i here
        subst here
        split
        · exact sends _ _ (by decide) (by decide)
        · exact plain _ _ (by decide) (by decide)
      · split
        · rename_i here
          subst here
          have access := mdioAccess_moves val s
          have started : Moves (amount .transmitted 0) s
              { mdioAccess val s with phyOpInProgress := true } := ⟨access.counted, access.sent⟩
          exact ⟨0, started.setReg (Counter.reg_ne (by decide) (by decide)) _⟩
        · split
          · exact ⟨0, .refl s⟩
          · split
            · obtain ⟨n, enabled⟩ := plain mierW (val.setWidth 16) (by decide) (by decide)
              exact ⟨n, enabled.updateIrq⟩
            · split
              · exact ⟨0, .refl s⟩
              · rename_i counters
                rw [not_or] at counters
                exact plain _ _ counters.1 elsewhere

/-- The counter of transmitted packets is a register like any other. -/
theorem writew_transmitted {addr : Nat} (here : At txPktCountW addr) (val : Dword) (s : State) :
    ioportWritew addr val s = s.setReg txPktCountW (val.setWidth 16) := by
  unfold At at here
  unfold ioportWritew
  dsimp only
  rw [here, if_neg (by decide), if_neg (by decide), if_neg (by decide), if_neg (by decide),
    if_neg (by decide), if_neg (by decide), if_neg (by decide)]

/-- The register before it has no effect either. -/
theorem writew_before {addr : Nat} (next : At txPktCountW (addr + 2)) (val : Dword) (s : State) :
    ioportWritew addr val s = s.setReg 0x2c (val.setWidth 16) := by
  have here : addr % 0x100 / 2 = 0x2c := by
    unfold At txPktCountW at next
    omega
  unfold ioportWritew
  dsimp only
  rw [here, if_neg (by decide), if_neg (by decide), if_neg (by decide), if_neg (by decide),
    if_neg (by decide), if_neg (by decide), if_neg (by decide)]

/-- Everything but the one counter is as it was. -/
structure Overwritten (w : Word) (s s' : State) : Prop where
  transmitted : s'.regs txPktCountW = w
  received : s'.regs rxPktCountW = s.regs rxPktCountW
  sent : s'.sent = s.sent

theorem overwritten_setReg (w : Word) (s : State) : Overwritten w s (s.setReg txPktCountW w) :=
  ⟨s.setReg_same .., s.setReg_other (by decide) _, rfl⟩

theorem low_half (val : Dword) : (val &&& 0xffff#32).setWidth 16 = val.setWidth 16 := by
  rw [BitVec.setWidth_and, show (0xffff#32).setWidth 16 = BitVec.allOnes 16 by decide,
    BitVec.and_allOnes]

namespace Action

theorem written_overwrites {a : Action} {s : State} {w : Word}
    (reaches : a.written txPktCountW s = some w) : Overwritten w s (a.apply s) := by
  cases a with
  | writeb addr val =>
    obtain ⟨here, word⟩ := Option.ite_none_right_eq_some.mp reaches
    obtain rfl := Option.some.inj word
    have reg : addr % 0x100 / 2 = txPktCountW := here
    have masked : At txPktCountW (addr % 0x100) := by
      unfold At
      rw [Nat.mod_mod, reg]
    rw [apply, ioportWriteb, writew_transmitted masked, reg]
    simp only [BitVec.setWidth_setWidth_of_le _ (show 16 ≤ 32 by decide), BitVec.setWidth_eq]
    exact overwritten_setReg _ s
  | writew addr val =>
    obtain ⟨here, word⟩ := Option.ite_none_right_eq_some.mp reaches
    obtain rfl := Option.some.inj word
    rw [apply, writew_transmitted here]
    exact overwritten_setReg _ s
  | writel addr val =>
    by_cases here : At txPktCountW addr
    · rw [written, if_pos here] at reaches
      obtain rfl := Option.some.inj reaches
      have protectedReg : (addr + 2) % 0x100 / 2 = mtcntW := by
        unfold At txPktCountW at here
        unfold mtcntW
        omega
      have kept (val : Dword) (s : State) : ioportWritew (addr + 2) val s = s := by
        unfold ioportWritew
        dsimp only
        rw [protectedReg, if_neg (by decide), if_neg (by decide), if_neg (by decide),
          if_neg (by decide), if_neg (by decide), if_neg (by decide), if_pos (by decide)]
      rw [apply, ioportWritel, kept, writew_transmitted here, low_half]
      exact overwritten_setReg _ s
    · rw [written, if_neg here] at reaches
      obtain ⟨next, word⟩ := Option.ite_none_right_eq_some.mp reaches
      obtain rfl := Option.some.inj word
      rw [apply, ioportWritel, writew_before next, writew_transmitted next]
      refine ⟨State.setReg_same .., ?_, rfl⟩
      rw [State.setReg_other _ (by decide), State.setReg_other _ (by decide)]
  | _ => cases reaches

theorem write_moves {a : Action} {s : State} (write : a.IsWrite)
    (elsewhere : a.written txPktCountW s = none) :
    ∃ n, Moves (amount .transmitted n) s (a.apply s) := by
  cases a with
  | writeb addr val =>
    have other : ¬ At txPktCountW addr := by
      intro here
      rw [written, if_pos here] at elsewhere
      cases elsewhere
    apply writew_moves
    unfold At at other ⊢
    rwa [Nat.mod_mod]
  | writew addr val =>
    apply writew_moves
    intro here
    rw [written, if_pos here] at elsewhere
    cases elsewhere
  | writel addr val =>
    have first : ¬ At txPktCountW addr := by
      intro here
      rw [written, if_pos here] at elsewhere
      cases elsewhere
    have second : ¬ At txPktCountW (addr + 2) := by
      intro here
      rw [written, if_neg first, if_pos here] at elsewhere
      cases elsewhere
    obtain ⟨n, low⟩ := writew_moves first (val &&& 0xffff#32) s
    obtain ⟨k, high⟩ := writew_moves second (val >>> 16) (ioportWritew addr (val &&& 0xffff#32) s)
    exact ⟨n + k, low.trans high⟩
  | _ => exact absurd write id

end Action

/-! ## Reads -/

theorem readw_value (addr : Nat) (s : State) :
    (ioportReadw addr s).1 = (s.regs (addr % 0x100 / 2)).setWidth 32 := by
  unfold ioportReadw
  dsimp only
  split
  · split
    · rfl
    · rfl
  · split
    · rfl
    · split
      · rfl
      · rfl

/-- What a read leaves in the counters: the one for received packets is cleared if
it was read. -/
structure CountersRead (reads : Nat → Prop) (s s' : State) : Prop where
  clears : reads rxPktCountW → s'.regs rxPktCountW = 0#16
  keeps : ∀ c : Counter, ¬ (c = .received ∧ reads c.reg) → s'.regs c.reg = s.regs c.reg
  sent : s'.sent = s.sent

theorem CountersRead.setReg {reads : Nat → Prop} {i : Nat} (elsewhere : ¬ reads rxPktCountW)
    (other : ∀ c : Counter, c.reg ≠ i) (val : Word) (s : State) :
    CountersRead reads s (s.setReg i val) := by
  refine ⟨fun here => absurd here elsewhere, ?_, rfl⟩
  intro c _
  exact s.setReg_other (other c) val

theorem CountersRead.refl {reads : Nat → Prop} (elsewhere : ¬ reads rxPktCountW) (s : State) :
    CountersRead reads s s :=
  ⟨fun here => absurd here elsewhere, fun _ _ => rfl, rfl⟩

theorem readw_counters (addr : Nat) (s : State) :
    CountersRead (fun i => At i addr) s (ioportReadw addr s).2 := by
  unfold ioportReadw At
  generalize addr % 0x100 / 2 = i
  dsimp only
  split
  · rename_i here
    subst here
    split
    · have reset : CountersRead (fun i => mmdioW = i) s
          (s.setReg mmdioW (s.regs mmdioW &&& ~~~0x6000#16)) :=
        .setReg (by decide) (Counter.reg_ne (by decide) (by decide)) _ s
      exact ⟨reset.clears, reset.keeps, reset.sent⟩
    · exact .refl (by decide) s
  · split
    · rename_i here
      subst here
      exact .setReg (by decide) (Counter.reg_ne (by decide) (by decide)) _ s
    · split
      · rename_i counter
        rcases counter with rfl | rfl
        · refine ⟨fun _ => s.setReg_same .., ?_, rfl⟩
          intro c other
          cases c with
          | received => exact absurd ⟨rfl, rfl⟩ other
          | transmitted => exact s.setReg_other (by decide) _
        · exact .setReg (by decide) (Counter.reg_ne (by decide) (by decide)) _ s
      · rename_i counters
        rw [not_or] at counters
        exact .refl counters.1 s

theorem At.even {i addr : Nat} : At i (addr / 2 * 2) ↔ At i addr := by
  unfold At
  omega

theorem low_byte (w : Word) : w.setWidth 32 &&& 0xff#32 = w.lo.setWidth 32 := by
  have mask : ∀ i < 32, (0xff#32).getLsbD i = decide (i < 8) := by decide
  apply BitVec.eq_of_getLsbD_eq
  intro i inside
  rw [BitVec.getLsbD_and, mask i inside, Bool.and_comm]
  simp [Word.lo, inside]

theorem high_byte (w : Word) : (w.setWidth 32 &&& 0xff00#32) >>> 8 = w.hi.setWidth 32 := by
  have mask : ∀ i < 32, (0xff00#32).getLsbD (8 + i) = decide (i < 8) := by decide
  apply BitVec.eq_of_getLsbD_eq
  intro i inside
  by_cases byte : i < 8
  · simp [Word.hi, mask i inside, inside, byte, show 8 + i < 32 by omega]
  · simp [Word.hi, mask i inside, byte]

theorem long_low (low high : Word) :
    (low.setWidth 32 ||| high.setWidth 32 <<< 16).extractLsb' 0 16 = low := by
  ext i inside
  simp [inside, Nat.lt_trans inside (show 16 < 32 by decide)]

theorem long_high (low high : Word) :
    (low.setWidth 32 ||| high.setWidth 32 <<< 16).extractLsb' 16 16 = high := by
  ext i inside
  simp [inside, show 16 + i < 32 by omega]

namespace Action

theorem read_counters {a : Action} {s : State} {i : Nat} (read : a.Reads i) :
    CountersRead (fun i => a.Reads i) s (a.apply s) := by
  cases a with
  | readb addr =>
    have word := readw_counters (addr / 2 * 2) s
    exact ⟨fun here => word.clears (At.even.mpr here),
      fun c other => word.keeps c (fun here => other ⟨here.1, At.even.mp here.2⟩), word.sent⟩
  | readw addr => exact readw_counters addr s
  | readl addr =>
    have low := readw_counters addr s
    have high := readw_counters (addr + 2) (ioportReadw addr s).2
    refine ⟨?_, ?_, high.sent.trans low.sent⟩
    · intro either
      by_cases second : At rxPktCountW (addr + 2)
      · exact high.clears second
      · have kept := high.keeps .received (fun here => second here.2)
        exact kept.trans (low.clears (either.resolve_right second))
    · intro c other
      have second := high.keeps c (fun here => other ⟨here.1, .inr here.2⟩)
      exact second.trans (low.keeps c (fun here => other ⟨here.1, .inl here.2⟩))
  | _ => exact absurd read id

/-- A read returns what is in the register. -/
theorem returns_reg {a : Action} {s : State} (c : Counter) (read : a.Reads c.reg) :
    a.Returns c.reg (s.regs c.reg) s := by
  cases a with
  | readb addr =>
    have here : addr / 2 * 2 % 0x100 / 2 = c.reg := At.even.mpr read
    rw [Returns, ioportReadb]
    simp only [readw_value, here]
    split
    · exact high_byte _
    · exact low_byte _
  | readw addr =>
    have here : addr % 0x100 / 2 = c.reg := read
    rw [Returns, readw_value, here]
  | readl addr =>
    have value : (ioportReadl addr s).1 = (s.regs (addr % 0x100 / 2)).setWidth 32 |||
        ((ioportReadw addr s).2.regs ((addr + 2) % 0x100 / 2)).setWidth 32 <<< 16 := by
      rw [ioportReadl]
      simp only [readw_value]
    rw [Returns, value]
    constructor
    · intro here
      rw [long_low]
      exact congrArg s.regs here
    · intro here
      have first : ¬ At c.reg addr := by
        unfold At at here ⊢
        omega
      have next : (addr + 2) % 0x100 / 2 = c.reg := here
      rw [long_high, next]
      exact (readw_counters addr s).keeps c (fun both => first both.2)
  | _ => trivial

end Action

/-! ## Runs -/

/-- The device, and how many packets have been moved since a counter was read. -/
structure Counted where
  nic : State
  since : Counter → Nat

def Counted.step (a : Action) (s : Counted) : Counted where
  nic := a.apply s.nic
  since := fun c => if a.Reads c.reg then 0 else s.since c + a.packets s.nic c

/-- The state after some actions, starting from `r6040_init_pci`. -/
def countedAfter (ram : Mem) (actions : List Action) : Counted :=
  Transition.run Counted.step ⟨initPci ram, fun _ => 0⟩ actions

/-- The step treats the counter as it should: a write changes it only by the packets
it transmits, and a read returns the packets since the previous one and clears it. -/
def Counter.Kept (c : Counter) (a : Action) (s : Counted) : Prop :=
  (a.IsWrite → (a.apply s.nic).regs c.reg =
    s.nic.regs c.reg + BitVec.ofNat 16 (a.packets s.nic c)) ∧
  (a.Reads c.reg → a.Returns c.reg (BitVec.ofNat 16 (s.since c)) s.nic ∧
    (a.apply s.nic).regs c.reg = 0#16)

/-- The counter of transmitted packets is written only with the value it has, and
read only while it is 0. -/
def Counter.Spared (c : Counter) (a : Action) (s : Counted) : Prop :=
  c = .transmitted →
    (∀ w, a.written txPktCountW s.nic = some w → w = s.nic.regs txPktCountW) ∧
    (a.Reads txPktCountW → s.nic.regs txPktCountW = 0#16)

/-- The counter has the packets since it was read. -/
def Counter.Right (c : Counter) (s : Counted) : Prop :=
  s.nic.regs c.reg = BitVec.ofNat 16 (s.since c)

namespace Action
variable {a : Action} {s : State}

/-- The packets that were moved are those that the action counts. -/
theorem moves_packets {n : Counter → Nat} (moves : Moves n s (a.apply s))
    (received : n .received = a.packets s .received) (c : Counter) :
    (a.apply s).regs c.reg = s.regs c.reg + BitVec.ofNat 16 (a.packets s c) := by
  have same : n c = a.packets s c := by
    cases c with
    | received => exact received
    | transmitted =>
      rw [packets, moves.sent]
      exact (Nat.add_sub_cancel_left ..).symm
  rw [moves.counted, same]

/-- A write that goes elsewhere counts the packets it moves. -/
theorem write_counts (write : a.IsWrite) (elsewhere : a.written txPktCountW s = none) (c : Counter) :
    (a.apply s).regs c.reg = s.regs c.reg + BitVec.ofNat 16 (a.packets s c) := by
  obtain ⟨n, moves⟩ := write_moves write elsewhere
  apply moves_packets moves
  cases a with
  | receive buf => exact absurd write id
  | _ => rfl

theorem overwritten_packets {w : Word} (reaches : a.written txPktCountW s = some w) (c : Counter) :
    a.packets s c = 0 := by
  have overwritten := written_overwrites reaches
  cases c with
  | received =>
    cases a with
    | receive buf => cases reaches
    | _ => rfl
  | transmitted => rw [packets, overwritten.sent, Nat.sub_self]

/-- Packets are counted by every action that does not read the counter or write to
it. -/
theorem counts (c : Counter) (unread : ¬ a.Reads c.reg)
    (unwritten : c = .transmitted → a.written txPktCountW s = none) :
    (a.apply s).regs c.reg = s.regs c.reg + BitVec.ofNat 16 (a.packets s c) := by
  have write (isWrite : a.IsWrite) :
      (a.apply s).regs c.reg = s.regs c.reg + BitVec.ofNat 16 (a.packets s c) := by
    cases reaches : a.written txPktCountW s with
    | none => exact write_counts isWrite reaches c
    | some w =>
      cases c with
      | received =>
        rw [overwritten_packets reaches, Counter.reg, (written_overwrites reaches).received]
        exact (BitVec.add_zero _).symm
      | transmitted =>
        rw [unwritten rfl] at reaches
        cases reaches
  have read {i : Nat} (isRead : a.Reads i) (none : a.packets s .received = 0) :
      (a.apply s).regs c.reg = s.regs c.reg + BitVec.ofNat 16 (a.packets s c) := by
    have effect := read_counters (s := s) isRead
    have zero : a.packets s c = 0 := by
      cases c with
      | received => exact none
      | transmitted => rw [packets, effect.sent, Nat.sub_self]
    rw [zero, effect.keeps c (fun here => unread here.2)]
    exact (BitVec.add_zero _).symm
  cases a with
  | writeb addr val => exact write trivial
  | writew addr val => exact write trivial
  | writel addr val => exact write trivial
  | readb addr => exact read (i := addr % 0x100 / 2) rfl rfl
  | readw addr => exact read (i := addr % 0x100 / 2) rfl rfl
  | readl addr => exact read (i := addr % 0x100 / 2) (.inl rfl) rfl
  | receive buf =>
    have moves := receive_moves buf s
    exact moves_packets (a := .receive buf) moves rfl c
  | linkUp => exact moves_packets (.none (c := .received) (fun _ => rfl) rfl) rfl c
  | guest ram => exact moves_packets (.none (c := .received) (fun _ => rfl) rfl) rfl c

end Action

section
variable {c : Counter} {a : Action} {s : Counted}

theorem Counter.right_of_read (read : a.Reads c.reg) :
    c.Right (s.step a) ↔ (a.apply s.nic).regs c.reg = 0#16 := by
  have since : (s.step a).since c = 0 := if_pos read
  rw [Counter.Right, since]
  rfl

theorem Counter.right_of_unread (unread : ¬ a.Reads c.reg) (right : c.Right s) :
    c.Right (s.step a) ↔ (a.apply s.nic).regs c.reg =
      s.nic.regs c.reg + BitVec.ofNat 16 (a.packets s.nic c) := by
  have since : (s.step a).since c = s.since c + a.packets s.nic c := if_neg unread
  rw [Counter.Right, since, BitVec.ofNat_add, ← right]
  rfl

theorem Counter.Spared.right (right : c.Right s) (spared : c.Spared a s) : c.Right (s.step a) := by
  by_cases read : a.Reads c.reg
  · have effect := Action.read_counters (s := s.nic) read
    rw [Counter.right_of_read read]
    cases c with
    | received => exact effect.clears read
    | transmitted =>
      have kept := effect.keeps .transmitted (fun here => by cases here.1)
      exact kept.trans ((spared rfl).2 read)
  · rw [Counter.right_of_unread read right]
    cases reaches : a.written txPktCountW s.nic with
    | none => exact Action.counts c read (fun _ => reaches)
    | some w =>
      cases c with
      | received =>
        apply Action.counts .received read
        intro other
        cases other
      | transmitted =>
        rw [Action.overwritten_packets reaches]
        have same := (spared rfl).1 w reaches
        exact ((Action.written_overwrites reaches).transmitted.trans same).trans
          (BitVec.add_zero _).symm

theorem Counter.kept_iff (right : c.Right s) :
    c.Kept a s ↔ c.Spared a s := by
  have returns (read : a.Reads c.reg) : a.Returns c.reg (BitVec.ofNat 16 (s.since c)) s.nic := by
    rw [← right]
    exact Action.returns_reg c read
  constructor
  · rintro ⟨write, read⟩ rfl
    constructor
    · intro w reaches
      have isWrite : a.IsWrite := by
        cases a with
        | writeb addr val => trivial
        | writew addr val => trivial
        | writel addr val => trivial
        | _ => cases reaches
      have kept := write isWrite
      rw [Action.overwritten_packets reaches] at kept
      have overwritten := (Action.written_overwrites reaches).transmitted
      exact overwritten.symm.trans (kept.trans (BitVec.add_zero _))
    · intro here
      have same := (Action.read_counters (s := s.nic) here).keeps .transmitted
        (fun other => by cases other.1)
      exact same.symm.trans (read here).2
  · intro spared
    constructor
    · intro isWrite
      have unread : ¬ a.Reads c.reg := by
        cases a with
        | writeb addr val => exact id
        | writew addr val => exact id
        | writel addr val => exact id
        | _ => exact absurd isWrite id
      exact (Counter.right_of_unread unread right).mp (spared.right right)
    · intro here
      exact ⟨returns here, (Counter.right_of_read here).mp (spared.right right)⟩

end

theorem initPci_right (c : Counter) (ram : Mem) : c.Right ⟨initPci ram, fun _ => 0⟩ := by
  cases c with
  | received =>
    simp [Counter.Right, Counter.reg, initPci, rxPktCountW, mpsccrW, mrbsrW, mac0W, mac1W, mac2W]
  | transmitted =>
    simp [Counter.Right, Counter.reg, initPci, txPktCountW, mpsccrW, mrbsrW, mac0W, mac1W, mac2W]

/-- All along a run a counter is right, read-only and cleared by reads exactly if
the accesses spare it. For the received packets this asks nothing. -/
theorem counter_kept_iff (c : Counter) (ram : Mem) (actions : List Action) :
    (∀ done a, done ++ [a] <+: actions → c.Kept a (countedAfter ram done)) ↔
      ∀ done a, done ++ [a] <+: actions → c.Spared a (countedAfter ram done) := by
  apply Transition.forall_step_iff Counted.step ⟨initPci ram, fun _ => 0⟩ (I := c.Right)
  · exact initPci_right c ram
  · intro a s right spared
    exact spared.right right
  · intro a s right
    exact Counter.kept_iff right

/-- The guest writes 7 to the counter of transmitted packets: without a packet it
reads 7, again and again. -/
theorem counter_writable :
    ¬ Counter.transmitted.Kept (.writew 0x5a 7#32) (countedAfter (fun _ => 0#8) []) ∧
    (countedAfter (fun _ => 0#8) [.writew 0x5a 7#32, .readw 0x5a]).since .transmitted = 0 ∧
    (ioportReadw 0x5a (countedAfter (fun _ => 0#8) [.writew 0x5a 7#32, .readw 0x5a]).nic).1 = 7#32 := by
  refine ⟨?_, by decide, by decide⟩
  intro kept
  exact absurd (kept.1 trivial) (by decide)

end Bifferboard.R6040
