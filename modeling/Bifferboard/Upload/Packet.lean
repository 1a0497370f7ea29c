import Bifferboard.Nor.Memory

/-!
# Packets of the upload protocol

A datagram is a command, an argument and data (`struct` format `<HL`, then the
rest). `Request` and `Answer` are the packets the two programs exchange;
`unpack_pack` reads back what was packed.
-/

namespace Bifferboard.Upload
open Nor

abbrev Datagram := List Byte

/-- `hashlib.md5(..).digest()`. -/
structure Md5 where
  digest : List Byte → List Byte
  length_digest : ∀ data, (digest data).length = 16

theorem Md5.nil_ne_digest (md5 : Md5) (data : List Byte) : [] ≠ md5.digest data := by
  intro same
  have length := md5.length_digest data
  rw [← same] at length
  cases length

def typeAttn : Word := 0#16
def typeRelease : Word := 2#16
def typeDataReset : Word := 4#16
def typeDataAdd : Word := 6#16
def typeDataDigest : Word := 8#16
def typeDataWrite : Word := 0xa#16
def typeEraseSector : Word := 0xc#16

def pack (cmd : Word) (arg : Dword) (data : List Byte) : Datagram :=
  cmd.lo :: cmd.hi :: arg.byte 0 :: arg.byte 1 :: arg.byte 2 :: arg.byte 3 :: data

/-- `none` if the datagram is too short. -/
def unpack : Datagram → Option (Word × Dword × List Byte)
  | c₀ :: c₁ :: a₀ :: a₁ :: a₂ :: a₃ :: data =>
    some (Word.ofBytes c₀ c₁, Word.ofBytes a₂ a₃ ++ Word.ofBytes a₀ a₁, data)
  | _ => none

/-- `recvfrom(1000)` cuts a longer datagram off. -/
def recvfrom (d : Datagram) : Datagram := d.take 1000

theorem unpack_pack (cmd : Word) (arg : Dword) (data : List Byte) (short : data.length ≤ 994) :
    unpack (recvfrom (pack cmd arg data)) = some (cmd, arg, data) := by
  have whole : recvfrom (pack cmd arg data) = pack cmd arg data :=
    List.take_of_length_le (by simp only [pack, List.length_cons]; omega)
  rw [whole, pack, unpack, Word.ofBytes_lo_hi, Dword.ofBytes_byte]

/-- The requests the client sends. -/
inductive Request where
  | attn
  | reset
  | add (data : List Byte) (fits : data.length ≤ 512)
  | digest
  | write (offset : Nat)
  | release

def Request.command : Request → Word
  | .attn => typeAttn
  | .reset => typeDataReset
  | .add _ _ => typeDataAdd
  | .digest => typeDataDigest
  | .write _ => typeDataWrite
  | .release => typeRelease

def Request.encode : Request → Datagram
  | .attn => pack typeAttn 0#32 []
  | .reset => pack typeDataReset 0#32 []
  | .add data _ => pack typeDataAdd 512#32 data
  | .digest => pack typeDataDigest 0#32 []
  | .write offset => pack typeDataWrite (BitVec.ofNat 32 offset) []
  | .release => pack typeRelease 0#32 []

/-- The answers the board gives to them. -/
inductive Answer where
  | attn
  | digest (sum : List Byte) (whole : sum.length = 16)
  | write
  | release

def Answer.command : Answer → Word
  | .attn => typeAttn
  | .digest _ _ => typeDataDigest
  | .write => typeDataWrite
  | .release => typeRelease

def Answer.encode : Answer → Datagram
  | .attn => pack (typeAttn ||| 1#16) 0#32 []
  | .digest sum _ => pack (typeDataDigest ||| 1#16) 16#32 sum
  | .write => pack (typeDataWrite ||| 1#16) 1#32 [0#8]
  | .release => pack (typeRelease ||| 1#16) 0#32 []

/-- The command a datagram carries. -/
def command (d : Datagram) : Option Word := (unpack (recvfrom d)).map Prod.fst

theorem command_pack (cmd : Word) (arg : Dword) (data : List Byte) (short : data.length ≤ 994) :
    command (pack cmd arg data) = some cmd := by
  rw [command, unpack_pack cmd arg data short]
  rfl

theorem Request.command_encode (r : Request) : Upload.command r.encode = some r.command := by
  cases r with
  | add data fits => exact command_pack _ _ _ (Nat.le_trans fits (by decide))
  | attn | reset | digest | write | release => exact command_pack _ _ [] (Nat.zero_le _)

theorem Answer.command_encode (a : Answer) : Upload.command a.encode = some (a.command ||| 1#16) := by
  cases a with
  | digest sum whole => exact command_pack _ _ _ (by rw [whole]; decide)
  | write => exact command_pack _ _ [0#8] (by decide)
  | attn | release => exact command_pack _ _ [] (Nat.zero_le _)

end Bifferboard.Upload
