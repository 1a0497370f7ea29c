import Bifferboard.Nor.Text
import Bifferboard.Upload.Packet

/-!
# The configuration block

`make_config_block.py` and `bb_eth_setconfig.py` build the 8 KB block that Biffboot
is configured with, `biffconfig` changes it on the board, and both `biffconfig` and
`read_config_block.py` show what is in it. All four know the layout of the block
only as a sequence of fields.
-/

namespace Bifferboard.Config
open Nor Upload

/-- What the tools leave to libraries: MD5, and `sscanf(text, "%x", &v)`. -/
structure Lib where
  md5 : Md5
  sscanfHex : List Byte → Option Dword

def ascii (s : String) : List Byte := s.toList.map fun c => BitVec.ofNat 8 c.toNat

/-- White space, for C and for Python. -/
def isSpace (b : Byte) : Bool := b = 0x20#8 ∨ 0x09#8 ≤ b ∧ b ≤ 0x0d#8

/-- The settings that are one of a few. -/
inductive Choice where
  | bootsource
  | console
  | nic
  | boottype
  deriving DecidableEq, Repr

def dwordBytes (d : Dword) : List Byte := [d.byte 0, d.byte 1, d.byte 2, d.byte 3]

/-! ## Building a block -/

/-- What a block is built from. -/
structure Params where
  choices : Choice → Byte
  loadaddress : Dword
  cmdline : List Byte
  kernelmax : Word
  nulFree : 0#8 ∉ cmdline
  short : cmdline.length < 1024

/-- The version and what is packed with it. -/
def Params.header (p : Params) : List Byte :=
  dwordBytes 1#32 ++
    [p.choices .bootsource, p.choices .console, p.choices .nic, p.choices .boottype] ++
    dwordBytes p.loadaddress

/-- The command line, filled up with NULs. -/
def Params.field (p : Params) : List Byte :=
  p.cmdline ++ List.replicate (1024 - p.cmdline.length) 0#8

/-- `GetConfig`, the same in both tools. -/
def getConfig (md5 : Md5) (p : Params) : List Byte :=
  let cfg := p.header ++ p.field ++ [p.kernelmax.lo, p.kernelmax.hi]
  let cfg := cfg ++ List.replicate (0x2000 - 0x10 - cfg.length) 0xff#8
  cfg ++ md5.digest cfg

/-- The block as it is written to the flash. -/
def block (md5 : Md5) (p : Params) : Mem := Mem.store (fun _ => 0#8) 0 (getConfig md5 p)

/-! ## biffconfig -/

/-- The parameters, `CFG_BOOTSOURCE` to `CFG_KERNELMAX`. -/
inductive Param where
  | choice (c : Choice)
  | loadaddress
  | cmndline
  | kernelmax
  deriving DecidableEq, Repr

/-- Where `struct _cfg_vals` has a choice. -/
def Choice.offset : Choice → Nat
  | .bootsource => 4
  | .console => 5
  | .nic => 6
  | .boottype => 7

/-- The names that `render` has for the values from 0 on. -/
def renderNames : Choice → List String
  | .bootsource => ["flash", "MMC", "Net"]
  | .console => ["disabled", "enabled"]
  | .nic => ["disabled", "enabled", "promiscuous"]
  | .boottype => ["flatbin", "Linux", "Multiboot", "Coreboot"]

/-- The names that `setval` compares with, for the values from 0 on. -/
def setvalNames : Choice → List String
  | .bootsource => ["flash", "MMC", "Net"]
  | .console => ["disabled", "enabled"]
  | .nic => ["disabled", "enabled", "promiscuous"]
  | .boottype => ["flatbin", "Linux", "Multiboot", "Coreboot"]

/-- `"0x%x"`. -/
def hex (n : Nat) : List Byte := ascii "0x" ++ ascii (String.ofList (Nat.toDigits 16 n))

def render (g : Mem) : Param → List Byte
  | .choice c => ascii ((renderNames c).getD (g c.offset).toNat "Invalid")
  | .loadaddress => hex (g.dword 8).toNat
  | .cmndline => g.text 12 1024
  | .kernelmax => hex (g.word 1036).toNat

/-- A number in `setval`, with its mandatory prefix. -/
def scanHex (lib : Lib) (val : List Byte) : Option Dword :=
  if val.take 2 = ascii "0x" then lib.sscanfHex (val.drop 2) else none

/-- The values of the block after `setval`, without the digest. -/
def setField (lib : Lib) (index : Param) (val : List Byte) (g : Mem) : Option Mem :=
  match index with
  | .choice c => ((setvalNames c).findIdx? fun name => val = ascii name).map fun v =>
      g.store c.offset [BitVec.ofNat 8 v]
  | .loadaddress => (scanHex lib val).map fun v => g.store 8 (dwordBytes v)
  | .cmndline => if 1024 ≤ val.length then none else some (g.store 12 (val ++ [0#8]))
  | .kernelmax => (scanHex lib val).map fun v => g.storeWord 1036 (v.setWidth 16)

/-- `setval`; `none` is its return value 0. -/
def setval (lib : Lib) (index : Param) (val : List Byte) (g : Mem) : Option Mem :=
  (setField lib index val g).map fun g => g.store 0x1ff0 (lib.md5.digest (g.load 0 0x1ff0))

/-! ## read_config_block.py -/

def optionvalues : Choice → List (String × Nat)
  | .bootsource => [("flash", 0), ("MMC", 1), ("Net", 2)]
  | .console => [("disabled", 0), ("enabled", 1)]
  | .nic => [("disabled", 0), ("enabled", 1), ("promiscuous", 2)]
  | .boottype => [("flatbin", 0), ("Linux", 1), ("Multiboot", 2), ("Coreboot", 3)]

structure Values where
  version : Dword
  choices : Choice → Byte
  loadaddress : Dword
  cmdline : List Byte
  kernelmax : Word

/-- `s[i]`, which counts from the end if `i` is negative. -/
def pyIndex (s : List Byte) (i : Int) : Option Byte :=
  if 0 ≤ i then s[i.toNat]? else if 0 ≤ s.length + i then s[(s.length + i).toNat]? else none

/-- `s[:k]`. -/
def pyTake (s : List Byte) (k : Int) : List Byte :=
  s.take (if 0 ≤ k then k else s.length + k).toNat

/-- The loop of `GetValues`, from index `k - 1025` on downwards. -/
def findEnd (s : List Byte) : (k : Nat) → Except String Int
  | 0 => .error "string index out of range"
  | k + 1 =>
    match pyIndex s (k - 1024) with
    | none => .error "string index out of range"
    | some b => if b = 0#8 then findEnd s k else .ok (k - 1024)

/-- `GetValues`, with the format `<iBBBBL1024sH`. -/
def getValues (config : Mem) : Except String Values :=
  let cmdline := config.load 12 1024
  (findEnd cmdline 2048).map fun strend =>
    { version := config.dword 0
      choices := fun
        | .bootsource => config 4
        | .console => config 5
        | .nic => config 6
        | .boottype => config 7
      loadaddress := config.dword 8
      cmdline := pyTake cmdline (strend + 1)
      kernelmax := config.word 1036 }

/-! ## Agreement -/

/-- The value of a text, by the table of `read_config_block.py`. -/
def valueOf (c : Choice) (text : List Byte) : Option Nat :=
  ((optionvalues c).find? fun option => ascii option.1 = text).map Prod.snd

/-- Both readers show the same. -/
def Agree (g : Mem) : Prop :=
  ∃ values, getValues g = .ok values ∧
    (∀ c, valueOf c (render g (.choice c)) = some (values.choices c).toNat) ∧
    render g .loadaddress = hex values.loadaddress.toNat ∧
    render g .cmndline = values.cmdline ∧
    render g .kernelmax = hex values.kernelmax.toNat

end Bifferboard.Config
