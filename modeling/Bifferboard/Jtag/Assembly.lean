import Bifferboard.Jtag.Xilinx

/-!
# JTAG in assembly

`jtag.S` drives the same test access port from another board, through the data
register of its GPIO lines. Its macros are lists of instructions here, of a small
machine with three registers, a stack and the port.
-/

namespace Bifferboard.Gpio
open Nor Tap Jtag

/-! ## The machine -/

inductive Reg where
  | eax
  | ebx
  | edx
  deriving DecidableEq, Repr

/-- The low bytes that are used. -/
inductive Reg8 where
  | al
  | bl
  deriving DecidableEq, Repr

/-- A source operand: a constant, a register, or what is at an offset from `%esp`. -/
inductive Source (ρ : Type) (w : Nat) where
  | imm (v : BitVec w)
  | reg (r : ρ)
  | esp (offset : Nat)

/-- The instructions that are used, with the destination last. The destination of
`movw` is `%dx`, and ports are read and written through `%al` and `%dx`. -/
inductive Instr where
  | movb (src : Source Reg8 8) (dst : Reg8)
  | andb (v : Byte) (dst : Reg8)
  | orb (v : Byte) (dst : Reg8)
  | shlb (k : Nat) (dst : Reg8)
  | movw (v : Word)
  | movl (src : Source Reg 32) (dst : Reg)
  | andl (v : Dword) (dst : Reg)
  | orl (src dst : Reg)
  | xorl (src dst : Reg)
  | shll (k : Nat) (dst : Reg)
  | shrl (k : Nat) (dst : Reg)
  | outb
  | inb
  | push (r : Reg)
  | pop (r : Reg)
  | ret

/-- The machine, with the stack from `%esp` on, and all that has happened at the wires. -/
structure Machine where
  eax : Dword
  ebx : Dword
  edx : Dword
  stack : List Dword
  log : Log

def port : Word := 0xcfd#16

def bitTDO : Byte := 0x02#8
def bitTMS : Byte := 0x08#8
def bitTCK : Byte := 0x10#8
def bitTDI : Byte := 0x20#8

/-- The wires, by the byte at the port. -/
def lines (b : Byte) : Levels := ⟨b &&& bitTMS ≠ 0#8, b &&& bitTDI ≠ 0#8, b &&& bitTCK ≠ 0#8⟩

/-- What can be read from the ports, after what has happened. -/
abbrev Ports := Word → Log → Byte

/-- The level of TDO that the port stands for. -/
def level (io : Ports) (log : Log) : Bool := io port log &&& bitTDO ≠ 0#8

/-- A register with another low byte. -/
def setLow (r : Dword) (b : Byte) : Dword := r.extractLsb' 8 24 ++ b

/-- A register with another low word. -/
def setLow16 (r : Dword) (w : Word) : Dword := r.extractLsb' 16 16 ++ w

namespace Machine

def get (m : Machine) : Reg → Dword
  | .eax => m.eax
  | .ebx => m.ebx
  | .edx => m.edx

def set (m : Machine) : Reg → Dword → Machine
  | .eax, v => { m with eax := v }
  | .ebx, v => { m with ebx := v }
  | .edx, v => { m with edx := v }

def get8 (m : Machine) : Reg8 → Byte
  | .al => m.eax.setWidth 8
  | .bl => m.ebx.setWidth 8

def set8 (m : Machine) : Reg8 → Byte → Machine
  | .al, b => { m with eax := setLow m.eax b }
  | .bl, b => { m with ebx := setLow m.ebx b }

def dx (m : Machine) : Word := m.edx.setWidth 16

def read (m : Machine) : Source Reg 32 → Dword
  | .imm v => v
  | .reg r => m.get r
  | .esp offset => m.stack.getD (offset / 4) 0#32

def read8 (m : Machine) : Source Reg8 8 → Byte
  | .imm v => v
  | .reg r => m.get8 r
  | .esp offset => (m.stack.getD (offset / 4) 0#32).setWidth 8

end Machine

/-- One instruction. Only the one port is connected to the wires. -/
def exec (io : Ports) (m : Machine) : Instr → Machine
  | .movb src dst => m.set8 dst (m.read8 src)
  | .andb v dst => m.set8 dst (m.get8 dst &&& v)
  | .orb v dst => m.set8 dst (m.get8 dst ||| v)
  | .shlb k dst => m.set8 dst (m.get8 dst <<< k)
  | .movw v => { m with edx := setLow16 m.edx v }
  | .movl src dst => m.set dst (m.read src)
  | .andl v dst => m.set dst (m.get dst &&& v)
  | .orl src dst => m.set dst (m.get dst ||| m.get src)
  | .xorl src dst => m.set dst (m.get dst ^^^ m.get src)
  | .shll k dst => m.set dst (m.get dst <<< k)
  | .shrl k dst => m.set dst (m.get dst >>> k)
  | .outb => if m.dx = port then { m with log := m.log ++ [.drive (lines (m.get8 .al))] } else m
  | .inb =>
    let m' := m.set8 .al (io m.dx m.log)
    if m.dx = port then { m' with log := m.log ++ [.sample (level io m.log)] } else m'
  | .push r => { m with stack := m.get r :: m.stack }
  | .pop r => { m.set r (m.stack.headD 0#32) with stack := m.stack.tail }
  | .ret => { m with stack := m.stack.tail }

def run (io : Ports) (code : List Instr) (m : Machine) : Machine := code.foldl (exec io) m

/-! ## The macros -/

def setState (value : Byte) : List Instr :=
  [.movw port, .movb (.imm (bitTDO ||| value)) .al, .outb,
    .movb (.imm (bitTDO ||| value ||| bitTCK)) .al, .outb]

def setState10 : List Instr := setState bitTMS
def setState00 : List Instr := setState 0#8

def idleToShiftIr : List Instr := setState10 ++ setState10 ++ setState00 ++ setState00
def idleToShiftDr : List Instr := setState10 ++ setState00 ++ setState00
def shiftToUpdate : List Instr := setState10 ++ setState10
def updateToShiftDr : List Instr := setState10 ++ setState00 ++ setState00
def updateToIdle : List Instr := setState00
def shiftToIdle : List Instr := shiftToUpdate ++ setState00

/-- What `shift_in` does for a bit. -/
def shiftInBit : List Instr :=
  [.movb (.reg .bl) .al, .andb 1#8 .al, .shlb 5 .al, .orb bitTDO .al, .outb,
    .orb bitTCK .al, .outb, .shrl 1 .ebx]

def shiftIn (value : Nat) : List Instr := .movw port :: (List.replicate value shiftInBit).flatten

def sample (value : Nat) : List Instr :=
  [.shrl 1 .ebx, .movb (.imm (bitTDO ||| bitTCK)) .al, .outb, .movb (.imm bitTDO) .al, .outb, .inb,
    .andl 2#32 .eax, .shll (value - 1 - 1) .eax, .orl .eax .ebx]

def shiftOut (value : Nat) : List Instr :=
  [.movw port, .xorl .ebx .ebx] ++ (List.replicate value (sample value)).flatten ++
    [.movl (.reg .ebx) .eax]

def writeIr (value : Source Reg8 8) : List Instr :=
  idleToShiftIr ++ [.movb value .bl] ++ shiftIn 8 ++ shiftToIdle

def readDr (value : Nat) : List Instr :=
  shiftOut value ++ [.movl (.reg .eax) .ebx] ++ shiftToUpdate ++ [.movl (.reg .ebx) .eax]

def writeDr (value : Nat) : List Instr := shiftIn value ++ shiftToUpdate

def memAccessImpl (value1 value2 : Source Reg 32) : List Instr :=
  writeIr (.imm 0x11#8) ++ idleToShiftDr ++ [.movl value1 .ebx] ++ writeDr 32 ++
    updateToShiftDr ++ [.movl value2 .ebx] ++ writeDr 8

/-! ## The functions -/

def enter : List Instr := [.push .edx, .push .ebx]
def leave : List Instr := [.pop .ebx, .pop .edx, .ret]

def jtagMemAccess : List Instr :=
  enter ++ [.movw port] ++ memAccessImpl (.esp 12) (.esp 16) ++ leave

def jtagReadMem16 : List Instr :=
  enter ++ [.movw port] ++ memAccessImpl (.esp 12) (.imm 0x19#32) ++ updateToShiftDr ++ readDr 16 ++
    [.movl (.reg .eax) .ebx] ++ updateToIdle ++ [.movl (.reg .ebx) .eax] ++ leave

def jtagWriteMem16 : List Instr :=
  enter ++ [.movw port] ++ memAccessImpl (.esp 12) (.imm 0x1d#32) ++ updateToShiftDr ++
    [.movl (.esp 16) .ebx] ++ writeDr 16 ++ updateToIdle ++ leave

def jtagWriteIr : List Instr := enter ++ writeIr (.esp 12) ++ leave
def jtagIdleToShiftDr : List Instr := enter ++ idleToShiftDr ++ leave
def jtagReadDr (value : Nat) : List Instr := enter ++ readDr value ++ leave
def jtagReadDr8 : List Instr := jtagReadDr 8
def jtagReadDr16 : List Instr := jtagReadDr 16
def jtagReadDr32 : List Instr := jtagReadDr 32
def jtagUpdateToIdle : List Instr := enter ++ updateToIdle ++ leave
def jtagUpdateToShiftDr : List Instr := enter ++ updateToShiftDr ++ leave
def jtagWriteDr32 : List Instr := enter ++ [.movl (.esp 12) .ebx] ++ writeDr 32 ++ leave

/-! ## The calls from C -/

/-- What the compiler has in the registers when it calls a function, and the return
address. Nothing depends on it. -/
structure Caller where
  eax : Log → Dword
  ebx : Log → Dword
  edx : Log → Dword
  address : Log → Dword

section
variable (io : Ports) (caller : Caller)

/-- A call, with the value in `%eax` after it. -/
def call (code : List Instr) (args : List Dword) (log : Log) : Dword × Log :=
  let m := run io code ⟨caller.eax log, caller.ebx log, caller.edx log, caller.address log :: args,
    log⟩
  (m.eax, m.log)

/-- `Status`. -/
def status (log : Log) : Word × Log :=
  let log := (call io caller jtagWriteIr [0x0f#32] log).2
  let log := (call io caller jtagIdleToShiftDr [] log).2
  let tmp := call io caller jtagReadDr16 [] log
  ((tmp.1 &&& 0xffff#32).setWidth 16, (call io caller jtagUpdateToIdle [] tmp.2).2)

/-- The loop of `ReadData32`. -/
def readLoop : (dataLength : Nat) → Log → List Dword × Log
  | 0, log => ([], log)
  | n + 1, log =>
    let word := call io caller jtagReadDr32 [] log
    let log := if n + 1 = 1 then (call io caller jtagUpdateToIdle [] word.2).2
      else (call io caller jtagUpdateToShiftDr [] word.2).2
    let rest := readLoop n log
    (word.1 :: rest.1, rest.2)

/-- `ReadData32`, with what it stores. -/
def readData32 (command : Byte) (dataLength : Nat) (log : Log) : List Dword × Log :=
  let log := (call io caller jtagWriteIr [command.setWidth 32] log).2
  if dataLength ≠ 0 then
    readLoop io caller (dataLength / 4) (call io caller jtagIdleToShiftDr [] log).2
  else ([], log)

/-- The loop of `WriteData`, from the word number `i` on. -/
def writeLoop (data : Nat → Dword) : (i dataLength : Nat) → Log → Log
  | _, 0, log => log
  | i, n + 1, log =>
    let log := (call io caller jtagWriteDr32 [data i] log).2
    let log := if n + 1 = 1 then (call io caller jtagUpdateToIdle [] log).2
      else (call io caller jtagUpdateToShiftDr [] log).2
    writeLoop data (i + 1) n log

/-- `WriteData`, for the words at a pointer. -/
def writeData (command : Byte) (data : Nat → Dword) (dataLength : Nat) (log : Log) : Log :=
  let log := (call io caller jtagWriteIr [command.setWidth 32] log).2
  if dataLength ≠ 0 then
    writeLoop io caller data 0 (dataLength / 4) (call io caller jtagIdleToShiftDr [] log).2
  else log

/-- The three words of `ResetFlags`. -/
def tosend : List Dword := [0x2#32, 0xff00#32, 0x9090f000#32]

def resetFlags (log : Log) : Log := writeData io caller 0x0d#8 (fun i => tosend.getD i 0#32) 12 log

/-- The loop of `DumpMem`. -/
def dumpLoop : (count : Nat) → Log → List Byte × Log
  | 0, log => ([], log)
  | count + 1, log =>
    let log := (call io caller jtagUpdateToShiftDr [] log).2
    let tmp := call io caller jtagReadDr8 [] log
    let rest := dumpLoop count tmp.2
    ((tmp.1 &&& 0xff#32).setWidth 8 :: rest.1, rest.2)

/-- `DumpMem`, with what it stores. Larger blocks are refused. -/
def dumpMem (addr : Dword) (count : Nat) (log : Log) : List Byte × Log :=
  if count > 0x80 then ([], log)
  else
    let log := resetFlags io caller log
    let log := (call io caller jtagMemAccess [addr, 0x18#32] log).2
    let data := dumpLoop io caller count log
    (data.1, (call io caller jtagUpdateToIdle [] data.2).2)

end

end Bifferboard.Gpio
