import Bifferboard.Netdev.Sending
import Bifferboard.Transition.Reach

/-!
# Receive filters and duplex

`r6040_multicast_list` and `r6040_adjust_link` both write `MCR0`. The one changes two bits of
what is there, the other writes what `lp->mcr0` remembers, and so does
`r6040_init_mac_regs` after a timeout. Bits are added to `lp->mcr0`, but never taken away:
promiscuous mode comes back, `IFF_ALLMULTI` gets lost, and full duplex stays. Histories begin
with the first `r6040_up`, and the device stays open.
-/

namespace Bifferboard.Netdev
open Nor R6040

/-! ## The driver -/

def mar0 : Nat := 0x60
def mid1L : Nat := 0x70
def mid1M : Nat := 0x72
def mid1H : Nat := 0x74
def mcastMax : Nat := 3

/-- An address, as the words that `adrp` points to. -/
abbrev MacAddr := Word × Word × Word

def MacAddr.bytes (a : MacAddr) : List Byte :=
  [a.1.lo, a.1.hi, a.2.1.lo, a.2.1.hi, a.2.2.lo, a.2.2.hi]

/-- What the network stack wants to receive. -/
structure RxMode where
  devAddr : MacAddr
  promisc : Bool
  allmulti : Bool
  mcAddrs : List MacAddr

/-- What the PHY layer says of the link. -/
structure Link where
  up : Bool
  full : Bool
  speed : Nat

/-- The device and the driver, as far as the mode of operation goes. `old_duplex` is -1 at
first. -/
structure Mode where
  nic : State
  lp : Private
  oldLink : Bool
  oldDuplex : Option Bool
  console : List String

/-- As the first `r6040_up` after `r6040_init_one` leaves the device: `lp->mcr0` has its first
value, and no duplex is known. A later one finds what `lp->mcr0` remembers. -/
def Mode.start (lp : Private) (nic : State) : Mode :=
  let lp := { lp with mcr0 := 0x1002#16 }
  ⟨initMacRegs lp nic, lp, false, none, []⟩

/-- The hash table, with `ether_crc_le`. -/
def hashTable (crcLe : List Byte → Dword) (addrs : List MacAddr) : Nat → Word :=
  addrs.foldl (fun table a =>
    if a.1.getLsbD 0 then
      let crc := crcLe a.bytes >>> 26
      let i := (crc >>> 4).toNat
      Function.update table i (table i ||| 1#16 <<< (15 - (crc &&& 0xf#32).toNat))
    else table) fun _ => 0#16

def writeHash (table : Nat → Word) (nic : State) : State :=
  (List.range 4).foldl (fun nic i => iowrite16 (table i) (mar0 + 2 * i) nic) nic

def writeAddress (a : MacAddr) (i : Nat) (nic : State) : State :=
  let nic := iowrite16 a.1 (mid1L + 8 * i) nic
  let nic := iowrite16 a.2.1 (mid1M + 8 * i) nic
  iowrite16 a.2.2 (mid1H + 8 * i) nic

/-- No address. -/
def noAddr : MacAddr := (0xffff#16, 0xffff#16, 0xffff#16)

def padAddresses : Nat → Nat → State → State
  | 0, _, nic => nic
  | n + 1, i, nic => padAddresses n (i + 1) (writeAddress noAddr i nic)

/-- The two loops over the address registers. -/
def writeAddresses : Nat → List MacAddr → State → State
  | i, [], nic => padAddresses (mcastMax - i) i nic
  | i, a :: rest, nic =>
    if i ≥ mcastMax then nic else writeAddresses (i + 1) rest (writeAddress a i nic)

/-- `r6040_multicast_list`. -/
def multicastList (crcLe : List Byte → Dword) (r : RxMode) (s : Mode) : Mode :=
  let nic := iowrite16 r.devAddr.1 mid0L s.nic
  let nic := iowrite16 r.devAddr.2.1 mid0M nic
  let nic := iowrite16 r.devAddr.2.2 mid0H nic
  let reg := (ioread16 mcr0 nic).1 &&& ~~~0x0120#16
  let reg := if r.promisc then reg ||| 0x0020#16
    else if mcastMax < r.mcAddrs.length ∨ r.allmulti = true then reg ||| 0x0020#16
    else reg
  let nic := iowrite16 reg mcr0 nic
  let nic := if mcastMax < r.mcAddrs.length then writeHash (hashTable crcLe r.mcAddrs) nic else nic
  { s with
    nic := writeAddresses 0 r.mcAddrs nic
    lp := if r.promisc then { s.lp with mcr0 := s.lp.mcr0 ||| 0x0020#16 } else s.lp }

/-- What `r6040_adjust_link` prints. -/
def Link.text (name : String) (l : Link) : String :=
  name ++ ": link " ++ (if l.up then
    "UP - " ++ toString l.speed ++ "/" ++ (if l.full then "full" else "half") else "DOWN") ++ "\n"

/-- `r6040_adjust_link`. -/
def adjustLink (name : String) (l : Link) (s : Mode) : Mode :=
  if l.up ∧ s.oldDuplex ≠ some l.full then
    let lp := { s.lp with mcr0 := s.lp.mcr0 ||| if l.full then 0x8000#16 else 0#16 }
    { nic := iowrite16 lp.mcr0 mcr0 s.nic, lp := lp, oldLink := l.up, oldDuplex := some l.full,
      console := s.console ++ [l.text name] }
  else
    { s with
      oldLink := l.up
      console := if s.oldLink ≠ l.up then s.console ++ [l.text name] else s.console }

/-- What happens to the mode, in any order. -/
inductive ModeOp where
  | rxMode (r : RxMode)
  | link (l : Link)
  | timeout

/-- With `ether_crc_le` and the name of the device. -/
def ModeOp.apply (crcLe : List Byte → Dword) (name : String) : ModeOp → Mode → Mode
  | .rxMode r, s => multicastList crcLe r s
  | .link l, s => adjustLink name l s
  | .timeout, s =>
    { s with nic := initMacRegs s.lp (ioread16 misr (ioread16 mier s.nic).2).2 }

/-! ## Registers that are left alone -/

/-- The registers of the mode: `MCR0` and the addresses. -/
def modeRegs : List Nat :=
  [mcr0W, mid0L / 2, mid0M / 2, mid0H / 2, mid1L / 2, mid1M / 2, mid1H / 2, mid1L / 2 + 4,
    mid1M / 2 + 4, mid1H / 2 + 4, mid1L / 2 + 8, mid1M / 2 + 8, mid1H / 2 + 8]

theorem transmitLoop_regs {j : Nat} (other : j ∉ txRegs) (s : State) (count : Nat) :
    (transmitLoop s count).2.regs j = s.regs j := by
  induction s, count using transmitLoop.induct with
  | case1 s count sent ih =>
    rw [transmitLoop, dif_pos sent]
    exact ih.trans (tryToSend_regs other)
  | case2 s count idle =>
    rw [transmitLoop, dif_neg idle]
    exact tryToSend_regs other

theorem transmit_regs {j : Nat} (other : j ∉ txRegs) (s : State) :
    (transmit s).regs j = s.regs j := by
  have loop := transmitLoop_regs other s 0
  have status : j ≠ misrW := by
    rintro rfl
    exact other (by decide)
  rw [transmit]
  generalize transmitLoop s 0 = done at loop ⊢
  by_cases some : done.1 ≠ 0
  · rw [if_pos some, State.updateIrq_regs, State.setReg_other _ status, loop]
  · rwa [if_neg some]

theorem modeRegs_quiet {j : Nat} (listed : j ∈ modeRegs) : j ∉ txRegs := by
  revert j
  decide

theorem iowrite16_mcr0 (val : Word) (nic : State) {j : Nat} (listed : j ∈ modeRegs) :
    (iowrite16 val mcr0 nic).regs j = if j = mcr0W then val else nic.regs j := by
  have kept : (val.setWidth 32).setWidth 16 = val := by simp
  rw [iowrite16, ioportWritew]
  simp only [show mcr0 % 0x100 / 2 = mcr0W from rfl, ↓reduceIte, kept]
  rw [setReg_regs]
  split
  · rfl
  · split
    · exact transmit_regs (modeRegs_quiet listed) nic
    · rfl

theorem ioread16_mcr0 (nic : State) : ioread16 mcr0 nic = (nic.regs mcr0W, nic) := by
  have kept : ((nic.regs mcr0W).setWidth 32).setWidth 16 = nic.regs mcr0W := by simp
  exact Prod.ext kept rfl

section
variable {addr : Nat} {val : Word} {nic : State} {j : Nat} (listed : j ∈ modeRegs)
include listed

theorem setReg_mode {i : Nat} (outside : i ∉ modeRegs) : (nic.setReg i val).regs j = nic.regs j :=
  nic.setReg_other (by rintro rfl; exact outside listed) val

theorem iowrite16_other (plain : addr % 0x100 / 2 ∉ special) (outside : addr % 0x100 / 2 ∉ modeRegs) :
    (iowrite16 val addr nic).regs j = nic.regs j := by
  rw [iowrite16_plain plain, setReg_mode listed outside]

theorem iowrite16_mtpr : (iowrite16 val mtpr nic).regs j = nic.regs j := by
  have outside : mtprW ∉ modeRegs := by decide
  rw [iowrite16, ioportWritew]
  simp only [show mtpr % 0x100 / 2 = mtprW from rfl, show ¬ mtprW = mcr0W by decide,
    show ¬ mtprW = mcr1W by decide, ↓reduceIte]
  split
  · rw [setReg_mode listed outside, transmit_regs (modeRegs_quiet listed)]
  · rw [setReg_mode listed outside]

theorem resetMac_regs (lp : Private) : (resetMac lp nic).regs j = nic.regs j := by
  have mier (val : Word) (s : State) : (iowrite16 val mier s).regs j = s.regs j := by
    rw [iowrite16_mier, State.updateIrq_regs, setReg_mode listed (by decide)]
  unfold resetMac
  simp only [mier, iowrite16_reset, waitReset_eq, setReg_mode listed (show mcr1W ∉ modeRegs by decide),
    iowrite16_other listed (show macSm % 0x100 / 2 ∉ special by decide) (by decide),
    iowrite16_other listed (show mbcr % 0x100 / 2 ∉ special by decide) (by decide),
    iowrite16_other listed (show mrBsr % 0x100 / 2 ∉ special by decide) (by decide),
    iowrite16_other listed (show mtdSa0 % 0x100 / 2 ∉ special by decide) (by decide),
    iowrite16_other listed (show mtdSa1 % 0x100 / 2 ∉ special by decide) (by decide),
    iowrite16_other listed (show mrdSa0 % 0x100 / 2 ∉ special by decide) (by decide),
    iowrite16_other listed (show mrdSa1 % 0x100 / 2 ∉ special by decide) (by decide),
    iowrite16_other listed (show mtIcr % 0x100 / 2 ∉ special by decide) (by decide),
    iowrite16_other listed (show mrIcr % 0x100 / 2 ∉ special by decide) (by decide)]

/-- A restart of the device writes what `lp->mcr0` remembers. -/
theorem initMacRegs_regs (lp : Private) : (initMacRegs lp nic).regs j =
    if j = mcr0W then lp.mcr0 ||| 0x0002#16 else nic.regs j := by
  rw [initMacRegs, iowrite16_mtpr listed, iowrite16_mcr0 _ _ listed, resetMac_regs listed]

end

theorem writeHash_regs (table : Nat → Word) (nic : State) {j : Nat} (listed : j ∈ modeRegs) :
    (writeHash table nic).regs j = nic.regs j := by
  simp only [writeHash, show List.range 4 = [0, 1, 2, 3] from rfl, List.foldl_cons, List.foldl_nil]
  rw [iowrite16_other listed (by decide) (by decide), iowrite16_other listed (by decide) (by decide),
    iowrite16_other listed (by decide) (by decide), iowrite16_other listed (by decide) (by decide)]

/-! ## The address registers -/

def addressAt (nic : State) (k : Nat) : MacAddr :=
  (nic.regs (mid0L / 2 + 4 * k), nic.regs (mid0M / 2 + 4 * k), nic.regs (mid0H / 2 + 4 * k))

theorem addressAt_congr {s s' : State} (same : ∀ j ∈ modeRegs, j ≠ mcr0W → s'.regs j = s.regs j)
    {k : Nat} (small : k ≤ mcastMax) : addressAt s' k = addressAt s k := by
  have listed : ∀ k ≤ mcastMax, ∀ base ∈ [mid0L / 2, mid0M / 2, mid0H / 2],
      base + 4 * k ∈ modeRegs ∧ base + 4 * k ≠ mcr0W := by decide
  have each (base : Nat) (here : base ∈ [mid0L / 2, mid0M / 2, mid0H / 2]) :
      s'.regs (base + 4 * k) = s.regs (base + 4 * k) :=
    same _ (listed k small base here).1 (listed k small base here).2
  rw [addressAt, each _ (by decide), each _ (by decide), each _ (by decide)]
  rfl

theorem writeAddress_eq (a : MacAddr) {i : Nat} (small : i < mcastMax) (nic : State) :
    writeAddress a i nic = ((nic.setReg (mid1L / 2 + 4 * i) a.1).setReg
      (mid1M / 2 + 4 * i) a.2.1).setReg (mid1H / 2 + 4 * i) a.2.2 := by
  have index : ∀ i < mcastMax, ∀ base ∈ [mid1L, mid1M, mid1H],
      (base + 8 * i) % 0x100 / 2 ∉ special ∧ (base + 8 * i) % 0x100 / 2 = base / 2 + 4 * i := by decide
  have each (val : Word) (s : State) (base : Nat) (here : base ∈ [mid1L, mid1M, mid1H]) :
      iowrite16 val (base + 8 * i) s = s.setReg (base / 2 + 4 * i) val := by
    obtain ⟨plain, eq⟩ := index i small base here
    rw [iowrite16_plain plain, eq]
  rw [writeAddress, each _ _ mid1L (by decide), each _ _ mid1M (by decide), each _ _ mid1H (by decide)]

theorem writeAddress_mcr0 (a : MacAddr) {i : Nat} (small : i < mcastMax) (nic : State) :
    (writeAddress a i nic).regs mcr0W = nic.regs mcr0W := by
  have ne : ∀ i < mcastMax, ∀ base ∈ [mid1L, mid1M, mid1H], mcr0W ≠ base / 2 + 4 * i := by decide
  rw [writeAddress_eq a small, State.setReg_other _ (ne i small mid1H (by decide)),
    State.setReg_other _ (ne i small mid1M (by decide)),
    State.setReg_other _ (ne i small mid1L (by decide))]

theorem writeAddress_at (a : MacAddr) {i : Nat} (small : i < mcastMax) (nic : State) (k : Nat) :
    addressAt (writeAddress a i nic) k = if k = i + 1 then a else addressAt nic k := by
  simp only [addressAt, writeAddress_eq a small, setReg_regs, mid0L, mid0M, mid0H, mid1L, mid1M, mid1H]
  by_cases here : k = i + 1
  · subst here
    rw [if_pos rfl, if_neg (by omega), if_neg (by omega), if_pos (by omega), if_neg (by omega),
      if_pos (by omega), if_pos (by omega)]
  · rw [if_neg here, if_neg (by omega), if_neg (by omega), if_neg (by omega), if_neg (by omega),
      if_neg (by omega), if_neg (by omega), if_neg (by omega), if_neg (by omega), if_neg (by omega)]

theorem padAddresses_effect (n i : Nat) (fits : i + n ≤ mcastMax) (nic : State) :
    (padAddresses n i nic).regs mcr0W = nic.regs mcr0W ∧ ∀ k, addressAt (padAddresses n i nic) k =
      if i < k ∧ k ≤ i + n then noAddr else addressAt nic k := by
  induction n generalizing i nic with
  | zero =>
    refine ⟨rfl, ?_⟩
    intro k
    rw [if_neg (by omega)]
    rfl
  | succ n ih =>
    obtain ⟨mode, rest⟩ := ih (i + 1) (by omega) (writeAddress noAddr i nic)
    refine ⟨mode.trans (writeAddress_mcr0 _ (by omega) nic), ?_⟩
    intro k
    refine (rest k).trans ?_
    rw [writeAddress_at _ (by omega)]
    grind

/-- The registers hold the addresses as far as they go. -/
theorem writeAddresses_effect (i : Nat) (addrs : List MacAddr) (fits : i ≤ mcastMax) (nic : State) :
    (writeAddresses i addrs nic).regs mcr0W = nic.regs mcr0W ∧
      ∀ k, addressAt (writeAddresses i addrs nic) k =
        if i < k ∧ k ≤ mcastMax then addrs.getD (k - 1 - i) noAddr else addressAt nic k := by
  induction addrs generalizing i nic with
  | nil =>
    obtain ⟨mode, pad⟩ := padAddresses_effect (mcastMax - i) i (by omega) nic
    refine ⟨mode, ?_⟩
    intro k
    refine (pad k).trans ?_
    rw [show i + (mcastMax - i) = mcastMax by omega]
    rfl
  | cons a rest ih =>
    rw [writeAddresses]
    split
    · refine ⟨rfl, ?_⟩
      intro k
      rw [if_neg (by omega)]
    · obtain ⟨mode, ends⟩ := ih (i + 1) (by omega) (writeAddress a i nic)
      refine ⟨mode.trans (writeAddress_mcr0 a (by omega) nic), ?_⟩
      intro k
      rw [ends k, writeAddress_at a (by omega)]
      rcases Nat.lt_trichotomy k (i + 1) with before | here | after
      · rw [if_neg (by omega), if_neg (by omega), if_neg (by omega)]
      · subst here
        rw [if_neg (by omega), if_pos rfl, if_pos (by omega), show i + 1 - 1 - i = 0 by omega]
        rfl
      · rw [if_neg (show ¬ k = i + 1 by omega), show k - 1 - i = k - 1 - (i + 1) + 1 by omega]
        grind

/-! ## Single operations -/

/-- All packets are to be received. -/
def RxMode.wantsAll (r : RxMode) : Bool :=
  r.promisc || decide (mcastMax < r.mcAddrs.length) || r.allmulti

/-- The new value of `MCR0`, and all address registers. -/
theorem multicastList_effect (crcLe : List Byte → Dword) (r : RxMode) (s : Mode) :
    (multicastList crcLe r s).nic.regs mcr0W = (s.nic.regs mcr0W &&& ~~~0x0120#16) |||
      (if r.wantsAll then 0x0020#16 else 0#16) ∧
    addressAt (multicastList crcLe r s).nic 0 = r.devAddr ∧
    ∀ i < mcastMax, addressAt (multicastList crcLe r s).nic (i + 1) = r.mcAddrs.getD i noAddr := by
  generalize own : iowrite16 r.devAddr.2.2 mid0H (iowrite16 r.devAddr.2.1 mid0M
    (iowrite16 r.devAddr.1 mid0L s.nic)) = nic₁
  have own_eq : nic₁ = ((s.nic.setReg (mid0L / 2) r.devAddr.1).setReg (mid0M / 2) r.devAddr.2.1).setReg
      (mid0H / 2) r.devAddr.2.2 := by
    rw [← own, iowrite16_plain (by decide), iowrite16_plain (by decide), iowrite16_plain (by decide)]
    rfl
  have mode₁ : nic₁.regs mcr0W = s.nic.regs mcr0W := by
    rw [own_eq, State.setReg_other _ (by decide), State.setReg_other _ (by decide),
      State.setReg_other _ (by decide)]
  have first : addressAt nic₁ 0 = r.devAddr := by
    rw [own_eq]
    rfl
  generalize chosen : (if r.promisc then (ioread16 mcr0 nic₁).1 &&& ~~~0x0120#16 ||| 0x0020#16
    else if mcastMax < r.mcAddrs.length ∨ r.allmulti = true then
      (ioread16 mcr0 nic₁).1 &&& ~~~0x0120#16 ||| 0x0020#16
    else (ioread16 mcr0 nic₁).1 &&& ~~~0x0120#16) = reg
  have reg_eq : reg = (s.nic.regs mcr0W &&& ~~~0x0120#16) |||
      (if r.wantsAll then 0x0020#16 else 0#16) := by
    rw [← chosen, ioread16_mcr0, mode₁]
    split
    · rename_i promisc
      rw [RxMode.wantsAll, promisc]
      rfl
    · rename_i normal
      split
      · rename_i many
        rw [if_pos]
        simpa [RxMode.wantsAll, or_assoc] using Or.inr many
      · rename_i few
        rw [if_neg, BitVec.or_zero]
        simpa [RxMode.wantsAll, normal] using few
  generalize hashed : (if mcastMax < r.mcAddrs.length then writeHash (hashTable crcLe r.mcAddrs)
    (iowrite16 reg mcr0 nic₁) else iowrite16 reg mcr0 nic₁) = nic₂
  have kept {j : Nat} (listed : j ∈ modeRegs) :
      nic₂.regs j = if j = mcr0W then reg else nic₁.regs j := by
    rw [← hashed]
    split
    · rw [writeHash_regs _ _ listed, iowrite16_mcr0 _ _ listed]
    · rw [iowrite16_mcr0 _ _ listed]
  have result : (multicastList crcLe r s).nic = writeAddresses 0 r.mcAddrs nic₂ := by
    rw [← hashed, ← chosen, ← own]
    rfl
  obtain ⟨mode, addresses⟩ := writeAddresses_effect 0 r.mcAddrs (by decide) nic₂
  rw [result, mode]
  refine ⟨?_, ?_, ?_⟩
  · rw [kept (by decide), if_pos rfl, reg_eq]
  · rw [addresses 0, if_neg (by omega), ← first]
    apply addressAt_congr _ (Nat.zero_le _)
    intro j listed other
    rw [kept listed, if_neg other]
  · intro i small
    rw [addresses (i + 1), if_pos ⟨Nat.succ_pos i, small⟩]
    rfl

/-- The PHY is on, and what it said last was something else. -/
def Mode.Changes (s : Mode) (l : Link) : Prop := l.up = true ∧ s.oldDuplex ≠ some l.full

instance (s : Mode) (l : Link) : Decidable (s.Changes l) := inferInstanceAs (Decidable (_ ∧ _))

theorem adjustLink_changes (name : String) {s : Mode} {l : Link} (changes : s.Changes l) :
    adjustLink name l s = ⟨iowrite16 (s.lp.mcr0 ||| if l.full then 0x8000#16 else 0#16) mcr0 s.nic,
      { s.lp with mcr0 := s.lp.mcr0 ||| if l.full then 0x8000#16 else 0#16 }, l.up, some l.full,
      s.console ++ [l.text name]⟩ := if_pos changes

theorem adjustLink_same (name : String) {s : Mode} {l : Link} (same : ¬ s.Changes l) :
    (adjustLink name l s).nic = s.nic ∧ (adjustLink name l s).lp = s.lp ∧
      (adjustLink name l s).oldDuplex = s.oldDuplex := by
  have unchanged : adjustLink name l s = { s with
      oldLink := l.up
      console := if s.oldLink ≠ l.up then s.console ++ [l.text name] else s.console } := if_neg same
  rw [unchanged]
  exact ⟨rfl, rfl, rfl⟩

theorem timeout_regs (lp : Private) (nic : State) {j : Nat} (listed : j ∈ modeRegs) :
    (initMacRegs lp (ioread16 misr (ioread16 mier nic).2).2).regs j =
      if j = mcr0W then lp.mcr0 ||| 0x0002#16 else nic.regs j := by
  rw [initMacRegs_regs listed, ioread16_mier, ioread16_misr, setReg_mode listed (by decide)]

/-! ## Runs -/

section
variable (crcLe : List Byte → Dword) (name : String)

/-- What holds of the bits of `MCR0` at any time. -/
structure Mode.Right (s : Mode) : Prop where
  receives : (s.nic.regs mcr0W).getLsbD 1 = true ∧ s.lp.mcr0.getLsbD 1 = true
  sends : (s.nic.regs mcr0W).getLsbD 12 = true ∧ s.lp.mcr0.getLsbD 12 = true
  duplex : (s.nic.regs mcr0W).getLsbD 15 = s.lp.mcr0.getLsbD 15
  full : s.oldDuplex = some true → s.lp.mcr0.getLsbD 15 = true

theorem start_right (lp : Private) (nic : State) : (Mode.start lp nic).Right := by
  have reg : (Mode.start lp nic).nic.regs mcr0W = 0x1002#16 ||| 0x0002#16 := by
    rw [Mode.start, initMacRegs_regs (by decide), if_pos rfl]
  have remembered : (Mode.start lp nic).lp.mcr0 = 0x1002#16 := rfl
  refine ⟨⟨?_, ?_⟩, ⟨?_, ?_⟩, ?_, ?_⟩
  · rw [reg]
    decide
  · rw [remembered]
    decide
  · rw [reg]
    decide
  · rw [remembered]
    decide
  · rw [reg, remembered]
    decide
  · intro full
    cases full

/-- A request leaves all bits but two. -/
theorem multicastList_bit (r : RxMode) (s : Mode) {k : Nat} (other : k ∈ [1, 12, 15]) :
    ((multicastList crcLe r s).nic.regs mcr0W).getLsbD k = (s.nic.regs mcr0W).getLsbD k ∧
      (multicastList crcLe r s).lp.mcr0.getLsbD k = s.lp.mcr0.getLsbD k := by
  have bits : ∀ k ∈ [1, 12, 15], (~~~0x0120#16).getLsbD k = true ∧ (0x0020#16).getLsbD k = false := by
    decide
  obtain ⟨mask, all⟩ := bits k other
  obtain ⟨reg, -⟩ := multicastList_effect crcLe r s
  constructor
  · rw [reg, BitVec.getLsbD_or, BitVec.getLsbD_and, mask, Bool.and_true]
    split
    · rw [all, Bool.or_false]
    · rw [BitVec.getLsbD_zero, Bool.or_false]
  · change (if r.promisc then { s.lp with mcr0 := s.lp.mcr0 ||| 0x0020#16 } else s.lp).mcr0.getLsbD k = _
    split
    · exact (BitVec.getLsbD_or ..).trans (by rw [all, Bool.or_false])
    · rfl

theorem apply_right (op : ModeOp) (s : Mode) (h : s.Right) : (op.apply crcLe name s).Right := by
  cases op with
  | rxMode r =>
    have kept {k : Nat} (other : k ∈ [1, 12, 15]) := multicastList_bit crcLe r s other
    refine ⟨⟨?_, ?_⟩, ⟨?_, ?_⟩, ?_, ?_⟩
    · exact (kept (by decide)).1.trans h.receives.1
    · exact (kept (by decide)).2.trans h.receives.2
    · exact (kept (by decide)).1.trans h.sends.1
    · exact (kept (by decide)).2.trans h.sends.2
    · exact (kept (by decide)).1.trans (h.duplex.trans (kept (by decide)).2.symm)
    · exact fun up => (kept (by decide)).2.trans (h.full up)
  | link l =>
    change (adjustLink name l s).Right
    by_cases changes : s.Changes l
    · rw [adjustLink_changes name changes]
      have reg := iowrite16_mcr0 (s.lp.mcr0 ||| if l.full then 0x8000#16 else 0#16) s.nic
        (show mcr0W ∈ modeRegs by decide)
      rw [if_pos rfl] at reg
      refine ⟨⟨?_, ?_⟩, ⟨?_, ?_⟩, ?_, ?_⟩
      · rw [reg, BitVec.getLsbD_or, h.receives.2, Bool.true_or]
      · rw [BitVec.getLsbD_or, h.receives.2, Bool.true_or]
      · rw [reg, BitVec.getLsbD_or, h.sends.2, Bool.true_or]
      · rw [BitVec.getLsbD_or, h.sends.2, Bool.true_or]
      · rw [reg]
      · intro full
        rw [if_pos (Option.some.inj full), BitVec.getLsbD_or]
        exact Bool.or_true _
    · obtain ⟨nic, lp, duplex⟩ := adjustLink_same name changes
      refine ⟨?_, ?_, ?_, ?_⟩
      · rw [nic, lp]
        exact h.receives
      · rw [nic, lp]
        exact h.sends
      · rw [nic, lp]
        exact h.duplex
      · rw [lp, duplex]
        exact h.full
  | timeout =>
    have reg := timeout_regs s.lp s.nic (show mcr0W ∈ modeRegs by decide)
    rw [if_pos rfl] at reg
    refine ⟨⟨?_, h.receives.2⟩, ⟨?_, h.sends.2⟩, ?_, h.full⟩
    · exact (congrArg (fun w : Word => w.getLsbD 1) reg).trans
        (by rw [BitVec.getLsbD_or, h.receives.2, Bool.true_or])
    · exact (congrArg (fun w : Word => w.getLsbD 12) reg).trans
        (by rw [BitVec.getLsbD_or, h.sends.2, Bool.true_or])
    · exact (congrArg (fun w : Word => w.getLsbD 15) reg).trans
        (by rw [BitVec.getLsbD_or]; exact Bool.or_false _)

theorem run_right (lp : Private) (nic : State) (ops : List ModeOp) :
    (Transition.run (ModeOp.apply crcLe name) (.start lp nic) ops).Right :=
  Transition.run_invariant _ _ (start_right lp nic) (apply_right crcLe name) ops

/-! ## What is remembered -/

/-- The duplex that a PHY that is on has. -/
def ModeOp.upDuplex : ModeOp → Option Bool
  | .link l => if l.up then some l.full else none
  | .rxMode _ => none
  | .timeout => none

/-- What the PHY said last while it was on. -/
def lastDuplex (ops : List ModeOp) : Option Bool := (ops.filterMap ModeOp.upDuplex).getLast?

/-- `MCR0` is written from `lp->mcr0`, after the PHY has last said `duplex`. -/
def Rewritten (duplex : Option Bool) (later : List ModeOp) : Prop :=
  .timeout ∈ later ∨ ∃ l, .link l ∈ later ∧ l.up = true ∧ duplex ≠ some l.full

section
variable (lp : Private) (nic : State) (ops : List ModeOp)

theorem run_oldDuplex : (Transition.run (ModeOp.apply crcLe name) (.start lp nic) ops).oldDuplex =
    lastDuplex ops := by
  induction ops using List.reverseRecOn with
  | nil => rfl
  | append_singleton ops op ih =>
    rw [Transition.run_append]
    generalize Transition.run (ModeOp.apply crcLe name) (.start lp nic) ops = s at ih ⊢
    unfold lastDuplex at ih ⊢
    rw [List.filterMap_append]
    cases op with
    | rxMode r =>
      change s.oldDuplex = _
      simpa [ModeOp.upDuplex] using ih
    | timeout =>
      change s.oldDuplex = _
      simpa [ModeOp.upDuplex] using ih
    | link l =>
      change (adjustLink name l s).oldDuplex = _
      by_cases changes : s.Changes l
      · rw [adjustLink_changes name changes]
        simp [ModeOp.upDuplex, changes.1]
      · rw [(adjustLink_same name changes).2.2]
        by_cases up : l.up = true
        · have same : s.oldDuplex = some l.full := by
            by_contra other
            exact changes ⟨up, other⟩
          simp [ModeOp.upDuplex, up, same]
        · simpa [ModeOp.upDuplex, up] using ih

theorem multicastList_promisc (r : RxMode) (s : Mode) :
    (multicastList crcLe r s).lp.mcr0.getLsbD 5 = (s.lp.mcr0.getLsbD 5 || r.promisc) := by
  change (if r.promisc then { s.lp with mcr0 := s.lp.mcr0 ||| 0x0020#16 } else s.lp).mcr0.getLsbD 5 = _
  split
  · rename_i promisc
    rw [promisc]
    exact (BitVec.getLsbD_or ..).trans (by rw [show (0x0020#16).getLsbD 5 = true by decide])
  · rename_i normal
    rw [Bool.eq_false_iff.mpr normal, Bool.or_false]

theorem duplex_promisc (full : Bool) : (if full then 0x8000#16 else 0#16).getLsbD 5 = false := by
  cases full <;> decide

theorem adjustLink_promisc (l : Link) (s : Mode) :
    (adjustLink name l s).lp.mcr0.getLsbD 5 = s.lp.mcr0.getLsbD 5 := by
  by_cases changes : s.Changes l
  · rw [adjustLink_changes name changes]
    dsimp only
    rw [BitVec.getLsbD_or, duplex_promisc, Bool.or_false]
  · rw [(adjustLink_same name changes).2.1]

/-- A request for promiscuous mode is never forgotten. -/
theorem run_promisc :
    (Transition.run (ModeOp.apply crcLe name) (.start lp nic) ops).lp.mcr0.getLsbD 5 = true ↔
      ∃ r, .rxMode r ∈ ops ∧ r.promisc = true := by
  induction ops using List.reverseRecOn with
  | nil =>
    refine iff_of_false ?_ (by simp)
    change ¬ (0x1002#16).getLsbD 5 = true
    decide
  | append_singleton ops op ih =>
    rw [Transition.run_append]
    generalize Transition.run (ModeOp.apply crcLe name) (.start lp nic) ops = s at ih ⊢
    cases op with
    | rxMode r =>
      change (multicastList crcLe r s).lp.mcr0.getLsbD 5 = true ↔ _
      rw [multicastList_promisc, Bool.or_eq_true, ih]
      simp [or_and_right, exists_or]
    | link l =>
      change (adjustLink name l s).lp.mcr0.getLsbD 5 = true ↔ _
      rw [adjustLink_promisc, ih]
      simp
    | timeout =>
      change s.lp.mcr0.getLsbD 5 = true ↔ _
      rw [ih]
      simp

/-- Neither is full duplex. -/
theorem run_full :
    (Transition.run (ModeOp.apply crcLe name) (.start lp nic) ops).lp.mcr0.getLsbD 15 = true ↔
      ∃ l, .link l ∈ ops ∧ l.up = true ∧ l.full = true := by
  induction ops using List.reverseRecOn with
  | nil =>
    refine iff_of_false ?_ (by simp)
    change ¬ (0x1002#16).getLsbD 15 = true
    decide
  | append_singleton ops op ih =>
    have right := run_right crcLe name lp nic ops
    rw [Transition.run_append]
    generalize Transition.run (ModeOp.apply crcLe name) (.start lp nic) ops = s at ih right ⊢
    cases op with
    | rxMode r =>
      change (multicastList crcLe r s).lp.mcr0.getLsbD 15 = true ↔ _
      rw [(multicastList_bit crcLe r s (by decide)).2, ih]
      simp
    | timeout =>
      change s.lp.mcr0.getLsbD 15 = true ↔ _
      rw [ih]
      simp
    | link l =>
      have after : (adjustLink name l s).lp.mcr0.getLsbD 15 = true ↔
          s.lp.mcr0.getLsbD 15 = true ∨ l.up = true ∧ l.full = true := by
        by_cases changes : s.Changes l
        · rw [adjustLink_changes name changes]
          dsimp only
          rw [BitVec.getLsbD_or, Bool.or_eq_true]
          cases l.full with
          | true => simp [changes.1]
          | false => simp
        · rw [(adjustLink_same name changes).2.1]
          refine ⟨.inl, ?_⟩
          rintro (set | ⟨up, full⟩)
          · exact set
          · -- the driver has noted full duplex before, and the bit with it
            apply right.full
            by_contra other
            exact changes ⟨up, by rwa [full]⟩
      change (adjustLink name l s).lp.mcr0.getLsbD 15 = true ↔ _
      rw [after, ih]
      simp [or_and_right, exists_or]

end

/-! ## Since the last request -/

/-- What a rewrite brings back, and what there is without one. -/
structure Since (s : Mode) (later : List ModeOp) (s' : Mode) : Prop where
  rewritten : Rewritten s.oldDuplex later →
    (s'.nic.regs mcr0W).getLsbD 5 = s.lp.mcr0.getLsbD 5
  kept : ¬ Rewritten s.oldDuplex later →
    (s'.nic.regs mcr0W).getLsbD 5 = (s.nic.regs mcr0W).getLsbD 5
  addresses : ∀ k ≤ mcastMax, addressAt s'.nic k = addressAt s.nic k

/-- A step that rewrites `MCR0`, and what follows. -/
theorem Since.rewrite {s s₁ s' : Mode} {later later' : List ModeOp} (h : Since s₁ later s')
    (rewrites : Rewritten s.oldDuplex later')
    (memory : s₁.lp.mcr0.getLsbD 5 = s.lp.mcr0.getLsbD 5)
    (reg : (s₁.nic.regs mcr0W).getLsbD 5 = s.lp.mcr0.getLsbD 5)
    (addresses : ∀ k ≤ mcastMax, addressAt s₁.nic k = addressAt s.nic k) : Since s later' s' := by
  refine ⟨?_, fun never => absurd rewrites never, ?_⟩
  · intro
    by_cases again : Rewritten s₁.oldDuplex later
    · exact (h.rewritten again).trans memory
    · exact (h.kept again).trans reg
  · intro k small
    exact (h.addresses k small).trans (addresses k small)

theorem run_since_request (later : List ModeOp) (quiet : ∀ r, .rxMode r ∉ later) (s : Mode) :
    Since s later (Transition.run (ModeOp.apply crcLe name) s later) := by
  -- the first rewrite settles it: later ones write the same bit again
  induction later generalizing s with
  | nil =>
    refine ⟨?_, fun _ => rfl, fun _ _ => rfl⟩
    rintro (never | ⟨l, never, -⟩)
    · cases never
    · cases never
  | cons op later ih =>
    have rest := ih (fun r here => quiet r (List.mem_cons_of_mem op here))
    cases op with
    | rxMode r => exact absurd List.mem_cons_self (quiet r)
    | timeout =>
      have regs {j : Nat} (listed : j ∈ modeRegs) := timeout_regs s.lp s.nic listed
      refine (rest (ModeOp.timeout.apply crcLe name s)).rewrite (.inl List.mem_cons_self) rfl ?_ ?_
      · refine (congrArg (fun w : Word => w.getLsbD 5) ((regs (by decide)).trans (if_pos rfl))).trans ?_
        rw [BitVec.getLsbD_or]
        exact Bool.or_false _
      · intro k small
        exact addressAt_congr (fun j listed other => (regs listed).trans (if_neg other)) small
    | link l =>
      have next := rest (adjustLink name l s)
      by_cases changes : s.Changes l
      · refine next.rewrite (.inr ⟨l, List.mem_cons_self, changes⟩) (adjustLink_promisc name l s) ?_ ?_
        · rw [adjustLink_changes name changes, iowrite16_mcr0 _ _ (by decide), if_pos rfl,
            BitVec.getLsbD_or, duplex_promisc, Bool.or_false]
        · intro k small
          rw [adjustLink_changes name changes]
          refine addressAt_congr (fun j listed other => ?_) small
          rw [iowrite16_mcr0 _ _ listed, if_neg other]
      · obtain ⟨nic, lp, duplex⟩ := adjustLink_same name changes
        have same : Rewritten s.oldDuplex (.link l :: later) ↔ Rewritten s.oldDuplex later := by
          unfold Rewritten
          constructor
          · rintro (first | ⟨l', here, up, other⟩)
            · exact .inl (List.mem_of_ne_of_mem (fun eq => ModeOp.noConfusion eq) first)
            · rcases List.mem_cons.mp here with eq | here
              · cases eq
                exact absurd ⟨up, other⟩ changes
              · exact .inr ⟨l', here, up, other⟩
          · rintro (first | ⟨l', here, up, other⟩)
            · exact .inl (List.mem_cons_of_mem _ first)
            · exact .inr ⟨l', List.mem_cons_of_mem _ here, up, other⟩
        refine ⟨?_, ?_, ?_⟩
        · intro rewrites
          exact (next.rewritten (duplex ▸ same.mp rewrites)).trans (by rw [lp])
        · intro never
          exact (next.kept (duplex ▸ fun again => never (same.mpr again))).trans (by rw [nic])
        · intro k small
          exact (next.addresses k small).trans (by rw [nic])

/-- The mode of the device over any history of requests, link changes and timeouts. It sends and
receives, it is in full duplex if the link ever was, it has the addresses of the last request,
and it receives everything if that was requested last; once `MCR0` has been written from
`lp->mcr0` since then, it does so if promiscuous mode was ever requested. -/
theorem mode_of_history (lp : Private) (nic : State) (ops : List ModeOp) :
    let s := Transition.run (ModeOp.apply crcLe name) (.start lp nic) ops
    (s.nic.regs mcr0W).getLsbD 1 = true ∧ (s.nic.regs mcr0W).getLsbD 12 = true ∧
    ((s.nic.regs mcr0W).getLsbD 15 = true ↔ ∃ l, .link l ∈ ops ∧ l.up = true ∧ l.full = true) ∧
    ∀ before r later, ops = before ++ .rxMode r :: later → (∀ r', .rxMode r' ∉ later) →
      (Rewritten (lastDuplex before) later → ((s.nic.regs mcr0W).getLsbD 5 = true ↔
        ∃ r', .rxMode r' ∈ ops ∧ r'.promisc = true)) ∧
      (¬ Rewritten (lastDuplex before) later → (s.nic.regs mcr0W).getLsbD 5 = r.wantsAll) ∧
      addressAt s.nic 0 = r.devAddr ∧
      ∀ i < mcastMax, addressAt s.nic (i + 1) = r.mcAddrs.getD i noAddr := by
  intro s
  have right : s.Right := run_right crcLe name lp nic ops
  refine ⟨right.receives.1, right.sends.1, ?_, ?_⟩
  · rw [right.duplex]
    exact run_full crcLe name lp nic ops
  · rintro before r later split quiet
    have promisc := run_promisc crcLe name lp nic (before ++ [.rxMode r])
    have duplex := run_oldDuplex crcLe name lp nic before
    rw [Transition.run_append] at promisc
    generalize reached : Transition.run (ModeOp.apply crcLe name) (.start lp nic) before = s₀
      at promisc duplex
    obtain ⟨reg, own, others⟩ := multicastList_effect crcLe r s₀
    have since := run_since_request crcLe name later quiet (multicastList crcLe r s₀)
    have end_eq : s = Transition.run (ModeOp.apply crcLe name) (multicastList crcLe r s₀) later := by
      change Transition.run _ _ ops = _
      rw [split, Transition.run_append_cons, reached]
      rfl
    rw [← end_eq] at since
    refine ⟨?_, ?_, ?_, ?_⟩
    · intro rewritten
      rw [since.rewritten (duplex ▸ rewritten)]
      refine promisc.trans ?_
      simp [split, quiet]
    · intro never
      rw [since.kept (duplex ▸ never), reg, BitVec.getLsbD_or, BitVec.getLsbD_and,
        show (~~~0x0120#16).getLsbD 5 = false by decide, Bool.and_false, Bool.false_or]
      cases r.wantsAll with
      | true => decide
      | false => decide
    · rw [since.addresses 0 (Nat.zero_le _), own]
    · intro i small
      rw [since.addresses (i + 1) small, others i small]

end

end Bifferboard.Netdev
