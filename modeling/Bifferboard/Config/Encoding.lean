import Mathlib.Data.List.DropRight
import Bifferboard.Config.Readers

/-!
# Building the configuration block

`GetConfig` of `make_config_block.py` and of `bb_eth_setconfig.py`, with Python's numbers
and strings. Both fill the command line up to 1024 bytes but never cut it, so that a longer
one moves what comes after it. `GetValues` reads every block back but one with an empty
command line.
-/

namespace Bifferboard.Config
open Nor Upload

/-- What `GetConfig` is given. -/
structure Settings where
  choices : Choice → Int
  loadaddress : Int
  cmdline : List Byte
  kernelmax : Int

/-- A number in `struct.pack`, up to `limit`. -/
def pack (limit : Int) (bytes : Int → List Byte) (v : Int) : Except String (List Byte) :=
  if 0 ≤ v ∧ v ≤ limit then .ok (bytes v) else .error "struct.error"

def bytesB (v : Int) : List Byte := [BitVec.ofInt 8 v]

def bytesL (v : Int) : List Byte := dwordBytes (BitVec.ofInt 32 v)

def bytesH (v : Int) : List Byte :=
  [Word.lo (BitVec.ofInt 16 v), Word.hi (BitVec.ofInt 16 v)]

/-- `struct.pack("<iBBBBL", 1, ...)`. -/
def packHeader (s : Settings) : Except String (List Byte) := do
  let bootsource ← pack 0xff bytesB (s.choices .bootsource)
  let console ← pack 0xff bytesB (s.choices .console)
  let nic ← pack 0xff bytesB (s.choices .nic)
  let boottype ← pack 0xff bytesB (s.choices .boottype)
  let loadaddress ← pack 0xffffffff bytesL s.loadaddress
  return dwordBytes 1#32 ++ bootsource ++ console ++ nic ++ boottype ++ loadaddress

/-- `struct.pack("<H", kernelmax)`. -/
def packKernelmax (kernelmax : Int) : Except String (List Byte) := pack 0xffff bytesH kernelmax

def MakeConfigBlock.getConfig (md5 : Md5) (s : Settings) : Except String (List Byte) := do
  let cfg ← packHeader s
  let cmd := padTo 1024 0#8 s.cmdline
  let cfg := cfg ++ cmd
  let kernelmax ← packKernelmax s.kernelmax
  let cfg := cfg ++ kernelmax
  let cfg := padTo (0x2000 - 0x10) 0xff#8 cfg
  return cfg ++ md5.digest cfg

def BbEthSetconfig.getConfig (md5 : Md5) (s : Settings) : Except String (List Byte) := do
  let config ← packHeader s
  let cmdline := padTo 1024 0#8 s.cmdline
  let block := config ++ cmdline
  let kernelmax ← packKernelmax s.kernelmax
  let block := block ++ kernelmax
  let block := padTo (0x2000 - 0x10) 0xff#8 block
  return block ++ md5.digest block

/-! ## What is built -/

/-- `struct.pack` accepts all numbers. -/
structure Settings.Packs (s : Settings) : Prop where
  choices : ∀ c, 0 ≤ s.choices c ∧ s.choices c ≤ 0xff
  loadaddress : 0 ≤ s.loadaddress ∧ s.loadaddress ≤ 0xffffffff
  kernelmax : 0 ≤ s.kernelmax ∧ s.kernelmax ≤ 0xffff

namespace Settings
variable (s : Settings)

def header : List Byte :=
  dwordBytes 1#32 ++ bytesB (s.choices .bootsource) ++ bytesB (s.choices .console) ++
    bytesB (s.choices .nic) ++ bytesB (s.choices .boottype) ++ bytesL s.loadaddress

/-- The command line, filled up with NULs. -/
def line : List Byte := s.cmdline ++ List.replicate (1024 - s.cmdline.length) 0#8

/-- Everything up to the digest. -/
def body : List Byte :=
  s.header ++ s.line ++ bytesH s.kernelmax ++
    List.replicate (0x1ff0 - (s.header ++ s.line ++ bytesH s.kernelmax).length) 0xff#8

end Settings

theorem bind_eq_ok {α β : Type} {x : Except String α} {f : α → Except String β} {b : β} :
    x >>= f = .ok b ↔ ∃ a, x = .ok a ∧ f a = .ok b := by
  cases x with
  | error e => simp [bind, Except.bind]
  | ok a => simp [bind, Except.bind]

theorem map_eq_ok {α β : Type} {x : Except String α} {f : α → β} {b : β} :
    x.map f = .ok b ↔ ∃ a, x = .ok a ∧ f a = b := by
  cases x with
  | error e => simp [Except.map]
  | ok a => simp [Except.map]

theorem pack_eq_ok {limit : Int} {bytes : Int → List Byte} {v : Int} {b : List Byte} :
    pack limit bytes v = .ok b ↔ (0 ≤ v ∧ v ≤ limit) ∧ bytes v = b := by
  rw [pack]
  split
  · rename_i inRange
    simp [inRange]
  · rename_i outside
    simp [outside]

theorem packHeader_eq_ok {s : Settings} {b : List Byte} :
    packHeader s = .ok b ↔ (∀ c, 0 ≤ s.choices c ∧ s.choices c ≤ 0xff) ∧
      (0 ≤ s.loadaddress ∧ s.loadaddress ≤ 0xffffffff) ∧ b = s.header := by
  simp only [packHeader, bind_eq_ok, pack_eq_ok, pure, Except.pure, Except.ok.injEq]
  constructor
  · rintro ⟨_, ⟨bootsource, rfl⟩, _, ⟨console, rfl⟩, _, ⟨nic, rfl⟩, _, ⟨boottype, rfl⟩, _,
      ⟨loadaddress, rfl⟩, rfl⟩
    refine ⟨?_, loadaddress, rfl⟩
    intro c
    cases c with
    | bootsource => exact bootsource
    | console => exact console
    | nic => exact nic
    | boottype => exact boottype
  · rintro ⟨choices, loadaddress, rfl⟩
    exact ⟨_, ⟨choices _, rfl⟩, _, ⟨choices _, rfl⟩, _, ⟨choices _, rfl⟩, _, ⟨choices _, rfl⟩, _,
      ⟨loadaddress, rfl⟩, rfl⟩

/-- `GetConfig` fails only if `struct.pack` does. -/
theorem getConfig_eq_ok {md5 : Md5} {s : Settings} {b : List Byte} :
    BbEthSetconfig.getConfig md5 s = .ok b ↔ s.Packs ∧ b = s.body ++ md5.digest s.body := by
  simp only [BbEthSetconfig.getConfig, packKernelmax, bind_eq_ok, packHeader_eq_ok, pack_eq_ok,
    padTo_eq, pure, Except.pure, Except.ok.injEq]
  constructor
  · rintro ⟨_, ⟨choices, loadaddress, rfl⟩, _, ⟨kernelmax, rfl⟩, rfl⟩
    exact ⟨⟨choices, loadaddress, kernelmax⟩, rfl⟩
  · rintro ⟨packs, rfl⟩
    exact ⟨_, ⟨packs.choices, packs.loadaddress, rfl⟩, _, ⟨packs.kernelmax, rfl⟩, rfl⟩

/-! ## Reading a block back -/

/-- The same as Python numbers. -/
def Params.settings (p : Params) : Settings where
  choices c := (p.choices c).toNat
  loadaddress := p.loadaddress.toNat
  cmdline := p.cmdline
  kernelmax := p.kernelmax.toNat

section
variable (md5 : Md5) (p : Params)

theorem settings_packs : p.settings.Packs := by
  refine ⟨fun c => ?_, ?_, ?_⟩
  · have limit := (p.choices c).isLt
    dsimp only [Params.settings]
    omega
  · have limit := p.loadaddress.isLt
    dsimp only [Params.settings]
    omega
  · have limit := p.kernelmax.isLt
    dsimp only [Params.settings]
    omega

theorem settings_body : p.settings.body ++ md5.digest p.settings.body = getConfig md5 p := by
  have header : p.settings.header = p.header := by
    simp [Settings.header, Params.header, Params.settings, bytesB, bytesL]
  have kernelmax : bytesH p.settings.kernelmax = [p.kernelmax.lo, p.kernelmax.hi] := by
    simp [bytesH, Params.settings]
  have line : p.settings.line = p.field := rfl
  rw [getConfig, Settings.body, header, line, kernelmax]

theorem length_getConfig : (getConfig md5 p).length = 0x2000 := by
  have header : p.header.length = 12 := rfl
  simp only [getConfig, List.length_append, md5.length_digest, List.length_replicate, header,
    length_field, List.length_cons, List.length_nil]

theorem load_block {k n : Nat} (inside : k + n ≤ 0x2000) :
    (block md5 p).load k n = ((getConfig md5 p).drop k).take n := by
  have slice := Mem.load_store_slice (fun _ => 0#8) 0
    (inside.trans_eq (length_getConfig md5 p).symm)
  rwa [Nat.zero_add] at slice

theorem block_version : (block md5 p).dword 0 = 1#32 :=
  Mem.dword_of_load (load_block md5 p (by decide))

theorem block_loadaddress : (block md5 p).dword 8 = p.loadaddress :=
  Mem.dword_of_load (load_block md5 p (by decide))

theorem block_kernelmax : (block md5 p).word 1036 = p.kernelmax := by
  have length : (p.header ++ p.field).length = 1036 := by
    rw [List.length_append, length_field]
    rfl
  apply Mem.word_of_load
  rw [load_block md5 p (by decide), getConfig]
  simp only [List.append_assoc]
  rw [← List.append_assoc, List.drop_left' length]
  rfl

theorem block_cmdline : (block md5 p).load 12 p.cmdline.length = p.cmdline := by
  have short := p.short
  have header : p.header.length = 12 := rfl
  rw [load_block md5 p (by omega), getConfig, Params.field]
  simp only [List.append_assoc]
  rw [List.drop_left' header, List.take_left' rfl]

end

/-- Both tools build the same block, and `GetValues` finds in it what it was built from. -/
structure RoundTrip (md5 : Md5) (p : Params) (config : List Byte) : Prop where
  make : MakeConfigBlock.getConfig md5 p.settings = .ok config
  eth : BbEthSetconfig.getConfig md5 p.settings = .ok config
  read : getValues (Mem.store (fun _ => 0#8) 0 config) = .ok {
    version := 1#32
    choices := p.choices
    loadaddress := p.loadaddress
    cmdline := p.cmdline
    kernelmax := p.kernelmax }

theorem settings_built (md5 : Md5) (p : Params) :
    BbEthSetconfig.getConfig md5 p.settings = .ok (getConfig md5 p) :=
  getConfig_eq_ok.mpr ⟨settings_packs p, (settings_body md5 p).symm⟩

/-- An empty command line makes `GetValues` fail, and nothing else. -/
theorem config_round_trip_iff (md5 : Md5) (p : Params) :
    (∃ config, RoundTrip md5 p config) ↔ p.cmdline ≠ [] := by
  have built := settings_built md5 p
  have field := field_block md5 p
  constructor
  · rintro ⟨config, trip⟩ empty
    obtain rfl := Except.ok.inj (trip.eth.symm.trans built)
    rw [empty] at field
    cases (getValues_empty field).symm.trans trip.read
  · intro nonempty
    have read := getValues_ok field (List.length_pos_iff.mpr nonempty)
    simp only [block_version, block_choice, block_loadaddress, block_cmdline, block_kernelmax]
      at read
    exact ⟨_, built, built, read⟩

/-- No command line. -/
def bareParams : Params where
  choices := fun _ => 1#8
  loadaddress := 0x400000#32
  cmdline := []
  kernelmax := 0x10#16
  nulFree := by decide
  short := by decide

theorem bare_block_unreadable :
    BbEthSetconfig.getConfig plainLib.md5 bareParams.settings =
      .ok (getConfig plainLib.md5 bareParams) ∧
    getValues (block plainLib.md5 bareParams) = .error "string index out of range" :=
  ⟨settings_built _ _, getValues_empty (field_block plainLib.md5 bareParams)⟩

/-! ## Long command lines -/

/-- `MainGUI` when its button is pressed: the active entries of its boxes, the values of its
numbers, and the text of the command line. -/
structure MainGUI where
  choices : Choice → Int
  loadaddress : Int
  cmndline : List Byte
  kernelmax : Int

def strip (s : List Byte) : List Byte := (s.dropWhile isSpace).rdropWhile isSpace

/-- The settings that `Write` calls `GetConfig` with. -/
def MainGUI.settings (gui : MainGUI) : Settings where
  choices := gui.choices
  loadaddress := gui.loadaddress
  cmdline := strip gui.cmndline
  kernelmax := gui.kernelmax / 0x10000

/-- The chunk that `Write` sends. -/
def MainGUI.write (gui : MainGUI) (md5 : Md5) : Except String (List Byte) :=
  BbEthSetconfig.getConfig md5 gui.settings

/-- A block of 8 KB that ends in its digest and has `kernelmax` where the other tools look
for it. -/
structure WellFormed (md5 : Md5) (kernelmax : Int) (b : List Byte) : Prop where
  length : b.length = 0x2000
  digest : b.drop 0x1ff0 = md5.digest (b.take 0x1ff0)
  kernelmax : (b.drop 1036).take 2 = bytesH kernelmax

namespace Settings
variable (s : Settings)

/-- The command line fits, or `kernelmax` is by chance where it should be. -/
def Fitting : Prop :=
  s.cmdline.length ≤ 1024 ∨ s.cmdline.length ≤ 0x1fe2 ∧
    ((s.cmdline ++ bytesH s.kernelmax).drop 1024).take 2 = bytesH s.kernelmax

theorem length_line : s.line.length = max s.cmdline.length 1024 := by
  rw [line, List.length_append, List.length_replicate]
  omega

theorem length_body : s.body.length = max 0x1ff0 (14 + max s.cmdline.length 1024) := by
  have header : s.header.length = 12 := rfl
  have kernelmax : (bytesH s.kernelmax).length = 2 := rfl
  simp only [body, List.length_append, List.length_replicate, length_line, header, kernelmax]
  omega

/-- The two bytes where `kernelmax` should be. -/
theorem kernelmax_place (rest : List Byte) :
    ((s.body ++ rest).drop 1036).take 2 =
      ((s.line ++ bytesH s.kernelmax).drop 1024).take 2 := by
  have header : s.header.length = 12 := rfl
  have kernelmax : (bytesH s.kernelmax).length = 2 := rfl
  have length : (s.line ++ bytesH s.kernelmax).length = max s.cmdline.length 1024 + 2 := by
    rw [List.length_append, length_line, kernelmax]
  rw [body, List.append_assoc s.header, List.append_assoc, List.append_assoc, List.drop_append,
    List.drop_of_length_le (by omega), header, List.nil_append,
    List.drop_append_of_le_length (by omega), List.take_append_of_le_length]
  rw [List.length_drop]
  omega

theorem wellFormed_iff (md5 : Md5) :
    WellFormed md5 s.kernelmax (s.body ++ md5.digest s.body) ↔ s.Fitting := by
  have body := s.length_body
  have digest := md5.length_digest s.body
  have total : (s.body ++ md5.digest s.body).length = s.body.length + 16 := by
    rw [List.length_append, digest]
  -- a command line that fits is filled up to 1024 bytes
  have fits (short : s.cmdline.length ≤ 1024) :
      ((s.line ++ bytesH s.kernelmax).drop 1024).take 2 = bytesH s.kernelmax := by
    have line : s.line.length = 1024 := by
      rw [length_line]
      omega
    rw [List.drop_left' line]
    rfl
  have unpadded (long : 1024 < s.cmdline.length) : s.line = s.cmdline := by
    rw [line, Nat.sub_eq_zero_of_le (Nat.le_of_lt long), List.replicate_zero, List.append_nil]
  constructor
  · intro formed
    have length := formed.length
    have place := formed.kernelmax
    rw [kernelmax_place] at place
    by_cases short : s.cmdline.length ≤ 1024
    · exact .inl short
    · rw [unpadded (by omega)] at place
      exact .inr ⟨by omega, place⟩
  · intro fitting
    have small : s.cmdline.length ≤ 0x1fe2 := by
      rcases fitting with short | ⟨small, -⟩
      · omega
      · exact small
    have whole : s.body.length = 0x1ff0 := by omega
    refine ⟨by omega, ?_, ?_⟩
    · rw [List.drop_left' whole, List.take_left' whole]
    · rw [kernelmax_place]
      by_cases short : s.cmdline.length ≤ 1024
      · exact fits short
      · rw [unpadded (by omega)]
        exact (fitting.resolve_left short).2

end Settings

/-- What is asked of `Write`: a block that is well-formed, or an error. -/
def KeepsLayout (md5 : Md5) (gui : MainGUI) : Prop :=
  ∀ b, gui.write md5 = .ok b → WellFormed md5 gui.settings.kernelmax b

/-- `Write` keeps the layout as long as the command line fits, and otherwise only if what is
there happens to be `kernelmax`. -/
theorem write_keeps_layout_iff (md5 : Md5) (gui : MainGUI) :
    KeepsLayout md5 gui ↔ ¬ gui.settings.Packs ∨ gui.settings.Fitting := by
  rw [← gui.settings.wellFormed_iff md5]
  constructor
  · intro keeps
    by_cases packs : gui.settings.Packs
    · exact .inr (keeps _ (getConfig_eq_ok.mpr ⟨packs, rfl⟩))
    · exact .inl packs
  · intro either b built
    obtain ⟨packs, rfl⟩ := getConfig_eq_ok.mp built
    exact either.resolve_left (not_not.mpr packs)

theorem strip_replicate (n : Nat) {b : Byte} (visible : isSpace b = false) :
    strip (List.replicate n b) = List.replicate n b := by
  have kept (k : Nat) : (List.replicate k b).dropWhile isSpace = List.replicate k b := by
    rw [List.dropWhile_replicate, visible]
    rfl
  rw [strip, kept, List.rdropWhile, List.reverse_replicate, kept, List.reverse_replicate]

/-- A command line of `n` letters. -/
def chatty (n : Nat) : MainGUI where
  choices := fun _ => 1
  loadaddress := 0x400000
  cmndline := List.replicate n 0x61#8
  kernelmax := 0x100000

theorem chatty_packs (n : Nat) : (chatty n).settings.Packs := by
  constructor <;> simp [chatty, MainGUI.settings]

theorem chatty_line (n : Nat) :
    (chatty (1024 + n)).settings.line = List.replicate 1024 0x61#8 ++ List.replicate n 0x61#8 := by
  have cmdline : (chatty (1024 + n)).settings.cmdline = List.replicate (1024 + n) 0x61#8 :=
    strip_replicate (1024 + n) (by decide)
  rw [Settings.line, cmdline, List.length_replicate, Nat.sub_eq_zero_of_le (Nat.le_add_right _ _),
    List.replicate_zero, List.append_nil, List.replicate_append_replicate]

/-- Of 1026 letters the last two are where `kernelmax` should be. -/
theorem chatty_layout_broken : ∃ b, (chatty 1026).write plainLib.md5 = .ok b ∧
    (b.drop 1036).take 2 = [0x61#8, 0x61#8] ∧
    ¬ WellFormed plainLib.md5 (chatty 1026).settings.kernelmax b := by
  have place (rest : List Byte) :
      (((chatty 1026).settings.body ++ rest).drop 1036).take 2 = [0x61#8, 0x61#8] := by
    rw [Settings.kernelmax_place, chatty_line 2, List.append_assoc,
      List.drop_left' List.length_replicate]
    rfl
  refine ⟨_, getConfig_eq_ok.mpr ⟨chatty_packs 1026, rfl⟩, place _, fun formed => ?_⟩
  exact absurd ((place _).symm.trans formed.kernelmax) (by decide)

end Bifferboard.Config
