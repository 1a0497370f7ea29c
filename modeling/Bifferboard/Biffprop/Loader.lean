import Bifferboard.Biffnor.Eon
import Bifferboard.Jtag.Tap

/-!
# The Propeller loader

`biffprop` loads a program into a Propeller chip over the serial port. The chip does not listen
to bytes but to pulses: a short low pulse is a one, a long one a zero. The loader chooses its
bytes such that the start bit and the data bits of a UART frame make up to three such pulses.

`pulses_line`: how long the pauses between the frames are does not matter.
-/

namespace Bifferboard.Biffprop
open Nor

/-! ## The program -/

def lfsrNext (seed : Byte) : Byte :=
  ((seed <<< 1) &&& 0xfe#8) |||
    (((seed >>> 7) ^^^ (seed >>> 5) ^^^ (seed >>> 4) ^^^ (seed >>> 1)) &&& 1#8)

def lfsrFrom : Nat → Byte → List Byte
  | 0, _ => []
  | n + 1, seed => (seed &&& 1#8) :: lfsrFrom n (lfsrNext seed)

/-- `lfsr_data`, as `lfsr_init` leaves it. -/
def lfsrData : List Byte := lfsrFrom 500 0x50#8

/-- What goes to the ports. -/
inductive Out where
  | tx (p : Byte)
  | rst (high : Bool)
  deriving DecidableEq, Repr

/-- The ports, with what is going to be received, and the console. -/
structure Port where
  outs : List Out
  input : List Byte
  console : List String

def Port.printf (s : Port) (text : String) : Port := { s with console := s.console ++ [text] }

/-- The bytes that were sent. -/
def Port.sent (s : Port) : List Byte := s.outs.filterMap fun
  | .tx p => some p
  | .rst _ => none

def rst (high : Bool) (s : Port) : Port := { s with outs := s.outs ++ [.rst high] }

/-- The transmitter gets ready some time. -/
def txByte (p : Byte) (s : Port) : Port := { s with outs := s.outs ++ [.tx p] }

/-- Waits for ever if nothing comes. -/
def rxByte (s : Port) : Option (Byte × Port) :=
  match s.input with
  | [] => none
  | p :: rest => some (p, { s with input := rest })

/-- The loop of `writeLong`: the byte for the lowest three bits. -/
def threeBits (value : Dword) : Byte :=
  (0x92#32 ||| (value &&& 0x01#32) ||| ((value &&& 2#32) <<< 2) |||
    ((value &&& 4#32) <<< 4)).setWidth 8

def twoBits (value : Dword) : Byte :=
  (0xf2#32 ||| (value &&& 0x01#32) ||| ((value &&& 2#32) <<< 2)).setWidth 8

def writeLongFrom : Nat → Dword → Port → Port
  | 0, value, s => txByte (twoBits value) s
  | n + 1, value, s => writeLongFrom n (value >>> 3) (txByte (threeBits value) s)

def writeLong (value : Dword) (s : Port) : Port := writeLongFrom 10 value s

/-- The check of the echo, with the rest of `lfsr_data` from index `i` on. -/
def echo : Nat → List Byte → Port → Option Port
  | _, [], s => some s
  | i, d :: rest, s => do
    let (received, s) ← rxByte (txByte 0xf9#8 s)
    echo (i + 1) rest (if d ||| 0xfe#8 ≠ received then
      s.printf ("Error in data stream at " ++ toString i ++ " " ++ fmtX received.toNat ++ "  (" ++
        toString d.toNat ++ ")\n") else s)

def readVersion : Nat → Byte → Port → Option (Byte × Port)
  | 0, version, s => some (version, s)
  | n + 1, version, s => do
    let (received, s) ← rxByte (txByte 0xf9#8 s)
    readVersion n (version >>> 1 ||| if received = 0xff#8 then 0x80#8 else 0#8) s

def propConnect (s : Port) : Option (Byte × Port) := do
  let s := txByte 0xf9#8 (rst true (rst false s))
  let s := (lfsrData.take 250).foldl (fun s d => txByte (d ||| 0xfe#8) s) s
  let s ← echo 250 (lfsrData.drop 250) s
  readVersion 8 0#8 s

/-- The file as 32-bit values. -/
def longs : List Byte → List Dword
  | b₀ :: b₁ :: b₂ :: b₃ :: rest => (b₃ ++ b₂ ++ b₁ ++ b₀) :: longs rest
  | _ => []

/-- `rounds` is how often the chip is asked for the checksum in vain. -/
def propUpload (buffer : List Byte) (rounds : Nat) (s : Port) : Option Port := do
  let s := writeLong 1#32 s
  let s := writeLong (BitVec.ofNat 32 (buffer.length / 4)) s
  let s := (longs buffer).foldl (fun s value => writeLong value s) s
  let s := (List.replicate (rounds + 1) 0xf9#8).foldl (fun s p => txByte p s) s
  let (response, s) ← rxByte s
  some (s.printf ("Responded: " ++ fmtX response.toNat ++ "\n"))

/-- What the file system has to say about a file: that it cannot be opened or read, or its
contents. -/
inductive FileState where
  | missing
  | unreadable
  | contents (bytes : List Byte)

/-- The length, with 0 for an error, and the buffer. -/
def load (fname : String) (file : FileState) (s : Port) : Nat × List Byte × Port :=
  let s := s.printf ("Loading " ++ fname ++ "\n")
  let odd := s.printf (fname ++ " length should be a multiple of 4 - not a Propeller bin file?\n")
  match file with
  | .missing => (0, [], s.printf "Unable to open file\n")
  | .unreadable => (0, [], odd)
  | .contents bytes =>
    let buffer := bytes.take 0x8001
    if buffer.length = 0x8001 then
      (0, buffer, s.printf (fname ++ " too large, not a Propeller bin file?\n"))
    else if buffer.length % 4 ≠ 0 then (0, buffer, odd)
    else (buffer.length, buffer, s)

/-- `main` with one argument, once the ports are set up. -/
def main (fname : String) (file : FileState) (rounds : Nat) (s : Port) : Option (Int × Port) :=
  let (length, buffer, s) := load fname file s
  if length = 0 then some (1, s)
  else do
    let (res, s) ← propConnect s
    let s := s.printf ("Prop found, version " ++ toString res.toNat ++ "\n")
    let s ← propUpload (buffer.take length) rounds s
    some (0, s)

/-! ## The line -/

/-- The frame of a byte, as the levels of the line. -/
def frame (p : Byte) : List Bool := false :: (List.range 8).map p.getLsbD ++ [true]

/-- The line while the bytes are sent. Before byte `i + 1` it rests for a while. -/
def line (gap : Nat → Nat) : Nat → List Byte → List Bool
  | _, [] => []
  | i, p :: rest => frame p ++ (List.replicate (gap i) true ++ line gap (i + 1) rest)

/-- The lengths of the low pulses, if the line has been low for a time. -/
def pulses : Nat → List Bool → List Nat
  | 0, [] => []
  | n + 1, [] => [n + 1]
  | n, false :: rest => pulses (n + 1) rest
  | 0, true :: rest => pulses 0 rest
  | n + 1, true :: rest => (n + 1) :: pulses 0 rest

theorem pulses_high (n : Nat) (xs ys : List Bool) :
    pulses n (xs ++ true :: ys) = pulses n (xs ++ [true]) ++ pulses 0 ys := by
  induction xs generalizing n with
  | nil => cases n <;> simp [pulses]
  | cons x xs ih =>
    cases x with
    | false => simpa [pulses] using ih (n + 1)
    | true =>
      cases n with
      | zero => simpa [pulses] using ih 0
      | succ n => simpa [pulses] using ih 0

theorem pulses_rest (n : Nat) (xs : List Bool) :
    pulses 0 (List.replicate n true ++ xs) = pulses 0 xs := by
  induction n with
  | zero => rfl
  | succ n ih => simpa [List.replicate_succ, pulses] using ih

/-- The pulses of each byte on its own. -/
theorem pulses_line (gap : Nat → Nat) (i : Nat) (bytes : List Byte) :
    pulses 0 (line gap i bytes) = bytes.flatMap fun p => pulses 0 (frame p) := by
  induction bytes generalizing i with
  | nil => rfl
  | cons p rest ih =>
    have split : frame p ++ (List.replicate (gap i) true ++ line gap (i + 1) rest) =
        (false :: (List.range 8).map p.getLsbD) ++
          true :: (List.replicate (gap i) true ++ line gap (i + 1) rest) := by
      simp [frame]
    rw [line, split, pulses_high, pulses_rest, ih]
    rfl

/-! ## The bytes -/

def bitPulse (b : Bool) : Nat := if b then 1 else 2

/-- The bits of a value, the lowest one first. -/
def longBits (value : Dword) : List Bool := (List.range 32).map value.getLsbD

theorem frame_eq (p : Byte) : frame p = [false, p.getLsbD 0, p.getLsbD 1, p.getLsbD 2, p.getLsbD 3,
    p.getLsbD 4, p.getLsbD 5, p.getLsbD 6, p.getLsbD 7, true] := rfl

theorem pulses_threeBits (value : Dword) : pulses 0 (frame (threeBits value)) =
    [bitPulse (value.getLsbD 0), bitPulse (value.getLsbD 1), bitPulse (value.getLsbD 2)] := by
  have levels : frame (threeBits value) = [false, value.getLsbD 0, true, false, value.getLsbD 1,
      true, false, value.getLsbD 2, true, true] := by
    simp [frame_eq, threeBits]
  have each : ∀ a b c, pulses 0 [false, a, true, false, b, true, false, c, true, true] =
      [bitPulse a, bitPulse b, bitPulse c] := by decide
  rw [levels, each]

theorem pulses_twoBits (value : Dword) : pulses 0 (frame (twoBits value)) =
    [bitPulse (value.getLsbD 0), bitPulse (value.getLsbD 1)] := by
  have levels : frame (twoBits value) = [false, value.getLsbD 0, true, false, value.getLsbD 1, true,
      true, true, true, true] := by
    simp [frame_eq, twoBits]
  have each : ∀ a b, pulses 0 [false, a, true, false, b, true, true, true, true, true] =
      [bitPulse a, bitPulse b] := by decide
  rw [levels, each]

/-- A pulse of each kind. -/
theorem pulses_pacing : pulses 0 (frame 0xf9#8) = [1, 2] := by decide

theorem pulses_lfsr (d : Byte) : pulses 0 (frame (d ||| 0xfe#8)) = [bitPulse (d.getLsbD 0)] := by
  have levels : frame (d ||| 0xfe#8) = [false, d.getLsbD 0, true, true, true, true, true, true,
      true, true] := by
    simp [frame_eq]
  have each : ∀ a, pulses 0 [false, a, true, true, true, true, true, true, true, true] =
      [bitPulse a] := by decide
  rw [levels, each]

/-! ## What was sent, as pulses -/

/-- The pulses of what has been sent. -/
def Port.heard (s : Port) : List Nat := s.sent.flatMap fun p => pulses 0 (frame p)

@[simp] theorem heard_txByte (p : Byte) (s : Port) :
    (txByte p s).heard = s.heard ++ pulses 0 (frame p) := by
  simp [Port.heard, Port.sent, txByte]

@[simp] theorem heard_rst (high : Bool) (s : Port) : (rst high s).heard = s.heard := by
  simp [Port.heard, Port.sent, rst]

@[simp] theorem heard_printf (s : Port) (text : String) : (s.printf text).heard = s.heard := rfl

theorem heard_foldl (bytes : List Byte) (f : Byte → Byte) (s : Port) :
    (bytes.foldl (fun s d => txByte (f d) s) s).heard =
      s.heard ++ bytes.flatMap fun d => pulses 0 (frame (f d)) := by
  induction bytes generalizing s with
  | nil => simp
  | cons b bytes ih => simp [ih]

/-- The ports differ only in what went out. -/
def Port.SentFrom (s' s : Port) : Prop := s'.input = s.input ∧ s'.console = s.console

theorem sentFrom_foldl {α : Type} {send : α → Port → Port}
    (only : ∀ a s, (send a s).SentFrom s) (as : List α) (s : Port) :
    (as.foldl (fun s a => send a s) s).SentFrom s := by
  induction as generalizing s with
  | nil => exact ⟨rfl, rfl⟩
  | cons a as ih => exact ⟨(ih _).1.trans (only a s).1, (ih _).2.trans (only a s).2⟩

theorem sentFrom_txByte (p : Byte) (s : Port) : (txByte p s).SentFrom s := ⟨rfl, rfl⟩

/-- After `n` of the ten bytes. -/
theorem writeLongFrom_heard (n : Nat) (value : Dword) (s : Port) :
    (writeLongFrom n value s).heard =
      s.heard ++ ((List.range (3 * n + 2)).map value.getLsbD).map bitPulse := by
  induction n generalizing value s with
  | zero => simp [writeLongFrom, pulses_twoBits, List.range_succ]
  | succ n ih =>
    have shifted : (List.range (3 * (n + 1) + 2)).map value.getLsbD =
        [value.getLsbD 0, value.getLsbD 1, value.getLsbD 2] ++
          (List.range (3 * n + 2)).map (value >>> 3).getLsbD := by
      rw [show 3 * (n + 1) + 2 = 3 + (3 * n + 2) by omega, List.range_add]
      simp [List.range_succ, Function.comp_def]
    rw [writeLongFrom, ih, heard_txByte, pulses_threeBits, shifted]
    simp

theorem writeLong_heard (value : Dword) (s : Port) :
    (writeLong value s).heard = s.heard ++ (longBits value).map bitPulse :=
  writeLongFrom_heard 10 value s

theorem sentFrom_writeLong (value : Dword) (s : Port) : (writeLong value s).SentFrom s := by
  have every (n : Nat) (value : Dword) (s : Port) : (writeLongFrom n value s).SentFrom s := by
    induction n generalizing value s with
    | zero => exact sentFrom_txByte _ s
    | succ n ih => exact ih _ _
  exact every 10 value s

/-! ## The session -/

/-- So many pairs of pulses for the chip to answer. -/
def pacing (n : Nat) : List Nat := (List.replicate n [1, 2]).flatten

theorem pacing_succ (n : Nat) : pacing (n + 1) = [1, 2] ++ pacing n := by
  simp only [pacing, List.replicate_succ, List.flatten_cons]

theorem pacing_add (m n : Nat) : pacing (m + n) = pacing m ++ pacing n := by
  simp only [pacing, List.replicate_add, List.flatten_append]

theorem rxByte_cons {s : Port} {p : Byte} {rest : List Byte} (input : s.input = p :: rest) :
    rxByte s = some (p, { s with input := rest }) := by
  simp [rxByte, input]

/-- Asking the chip is a pair of pulses. -/
theorem heard_asked (s : Port) (rest : List Byte) :
    Port.heard { txByte 0xf9#8 s with input := rest } = s.heard ++ [1, 2] :=
  (heard_txByte 0xf9#8 s).trans (by rw [pulses_pacing])

/-- The chip is asked for every bit of the echo, whether it is right or not. -/
theorem echo_heard (data : List Byte) (i : Nat) (s : Port) (enough : data.length ≤ s.input.length) :
    ∃ s', echo i data s = some s' ∧ s'.heard = s.heard ++ pacing data.length ∧
      s'.input = s.input.drop data.length := by
  induction data generalizing i s with
  | nil => exact ⟨s, rfl, by simp [pacing], rfl⟩
  | cons d data ih =>
    cases input : s.input with
    | nil => simp [input] at enough
    | cons received rest =>
      simp only [input, List.length_cons, Nat.add_le_add_iff_right] at enough
      have got := rxByte_cons (s := txByte 0xf9#8 s) input
      generalize next : (if d ||| 0xfe#8 ≠ received then
        Port.printf { txByte 0xf9#8 s with input := rest } ("Error in data stream at " ++
          toString i ++ " " ++ fmtX received.toNat ++ "  (" ++ toString d.toNat ++ ")\n")
        else { txByte 0xf9#8 s with input := rest }) = s₁
      have heard₁ : s₁.heard = s.heard ++ [1, 2] := by
        rw [← next]
        split
        · exact heard_asked s rest
        · exact heard_asked s rest
      have input₁ : s₁.input = rest := by
        rw [← next]
        split <;> rfl
      obtain ⟨s', run, heard, left⟩ := ih (i + 1) s₁ (input₁ ▸ enough)
      refine ⟨s', ?_, ?_, ?_⟩
      · simp only [echo, got, Option.bind_eq_bind, Option.bind_some, next]
        exact run
      · rw [heard, heard₁, List.length_cons, pacing_succ, List.append_assoc]
      · rw [left, input₁]
        rfl

theorem version_shifted (version : Byte) (one : Prop) [Decidable one] {j : Nat} (low : j < 8) :
    (version >>> 1 ||| if one then 0x80#8 else 0#8).getLsbD j =
      if j < 7 then version.getLsbD (j + 1) else decide one := by
  have top : ∀ k < 8, (0x80#8 : Byte).getLsbD k = decide (k = 7) := by decide
  rw [BitVec.getLsbD_or, BitVec.getLsbD_ushiftRight, Nat.add_comm 1 j]
  by_cases below : j < 7
  · rw [if_pos below]
    split
    · rw [top j low, decide_eq_false (by omega), Bool.or_false]
    · rw [BitVec.getLsbD_zero, Bool.or_false]
  · obtain rfl : j = 7 := by omega
    rw [if_neg below, BitVec.getLsbD_of_ge _ _ (by decide), Bool.false_or]
    split
    · rename_i yes
      rw [top 7 low, decide_eq_true yes]
      rfl
    · rename_i no
      rw [BitVec.getLsbD_zero, decide_eq_false no]

/-- Each answer shifts the version by one bit. -/
theorem readVersion_heard (n : Nat) (version : Byte) (s : Port) (enough : n ≤ s.input.length) :
    ∃ v s', readVersion n version s = some (v, s') ∧ s'.heard = s.heard ++ pacing n ∧
      s'.input = s.input.drop n ∧ ∀ j < 8, v.getLsbD j =
        if j + n < 8 then version.getLsbD (j + n)
        else decide (s.input.getD (j + n - 8) 0#8 = 0xff#8) := by
  induction n generalizing version s with
  | zero => exact ⟨version, s, rfl, by simp [pacing], rfl, fun j low => (if_pos low).symm⟩
  | succ n ih =>
    cases input : s.input with
    | nil => simp [input] at enough
    | cons received rest =>
      simp only [input, List.length_cons, Nat.add_le_add_iff_right] at enough
      have got := rxByte_cons (s := txByte 0xf9#8 s) input
      obtain ⟨v, s', run, heard, left, bits⟩ := ih
        (version >>> 1 ||| if received = 0xff#8 then 0x80#8 else 0#8)
        { txByte 0xf9#8 s with input := rest } enough
      refine ⟨v, s', ?_, ?_, left, ?_⟩
      · simp only [readVersion, got, Option.bind_eq_bind, Option.bind_some]
        exact run
      · rw [heard, heard_asked, pacing_succ, List.append_assoc]
      · intro j low
        rw [bits j low]
        rcases Nat.lt_trichotomy (j + n) 7 with below | last | beyond
        · rw [if_pos (show j + n < 8 by omega), if_pos (show j + (n + 1) < 8 by omega),
            version_shifted _ _ (by omega), if_pos below]
          rfl
        · rw [if_pos (show j + n < 8 by omega), if_neg (show ¬j + (n + 1) < 8 by omega),
            version_shifted _ _ (by omega), if_neg (by omega), show j + (n + 1) - 8 = 0 by omega]
          rfl
        · rw [if_neg (show ¬j + n < 8 by omega), if_neg (show ¬j + (n + 1) < 8 by omega),
            show j + (n + 1) - 8 = j + n - 8 + 1 by omega]
          rfl

theorem lfsrData_length : lfsrData.length = 500 := by
  have every (n : Nat) (seed : Byte) : (lfsrFrom n seed).length = n := by
    induction n generalizing seed with
    | zero => rfl
    | succ n ih => exact congrArg (· + 1) (ih _)
  exact every 500 _

/-! ## The sequence -/

/-- The bits that the chip expects, from the eighth on. The first eight are those of a `P`, the
highest one first. -/
def sequence : Nat → Bool
  | 0 | 2 | 4 | 5 | 6 | 7 => false
  | 1 | 3 => true
  | n + 8 => sequence n ^^ sequence (n + 2) ^^ sequence (n + 3) ^^ sequence (n + 6)

theorem lfsrNext_low : ∀ seed : Byte, (lfsrNext seed).getLsbD 0 =
    (seed.getLsbD 7 ^^ seed.getLsbD 5 ^^ seed.getLsbD 4 ^^ seed.getLsbD 1) := by decide

theorem lfsrNext_high : ∀ seed : Byte, ∀ k < 7, (lfsrNext seed).getLsbD (k + 1) = seed.getLsbD k := by
  decide

/-- The register is a window on the sequence. -/
theorem lfsrFrom_sequence (n j : Nat) (seed : Byte)
    (window : ∀ k < 8, seed.getLsbD k = sequence (j + 7 - k)) :
    (lfsrFrom n seed).map (·.getLsbD 0) = (List.range n).map fun i => sequence (j + 7 + i) := by
  induction n generalizing j seed with
  | zero => rfl
  | succ n ih =>
    have moved : ∀ k < 8, (lfsrNext seed).getLsbD k = sequence (j + 1 + 7 - k) := by
      intro k low
      cases k with
      | zero =>
        rw [lfsrNext_low, window 7 (by decide), window 5 (by decide), window 4 (by decide),
          window 1 (by decide)]
        rfl
      | succ k =>
        rw [lfsrNext_high seed k (by omega), window k (by omega)]
        congr 1
        omega
    have first : (seed &&& 1#8).getLsbD 0 = sequence (j + 7) := by
      rw [BitVec.getLsbD_and, window 0 (by decide)]
      exact Bool.and_true _
    rw [lfsrFrom, List.map_cons, first, ih (j + 1) _ moved, List.range_succ_eq_map, List.map_cons,
      List.map_map]
    congr 2
    funext i
    exact congrArg sequence (by omega)

theorem lfsrData_sequence :
    lfsrData.map (·.getLsbD 0) = (List.range 500).map fun i => sequence (7 + i) := by
  have window : ∀ k < 8, (0x50#8 : Byte).getLsbD k = sequence (0 + 7 - k) := by decide
  have all := lfsrFrom_sequence 500 0 0x50#8 window
  rwa [Nat.zero_add] at all

/-- The handshake: a pair of pulses, the bits of the sequence, and time to answer. -/
def handshake : List Nat :=
  [1, 2] ++ (List.range 250).map (fun i => bitPulse (sequence (7 + i))) ++ pacing 258

theorem lfsrData_handshake : (lfsrData.take 250).map (fun d => bitPulse (d.getLsbD 0)) =
    (List.range 250).map fun i => bitPulse (sequence (7 + i)) := by
  have bits := congrArg (fun bits => (bits.take 250).map bitPulse) lfsrData_sequence
  rw [← List.map_take, ← List.map_take, List.take_range, List.map_map, List.map_map] at bits
  exact bits

theorem propConnect_heard (s : Port) (enough : 258 ≤ s.input.length) :
    ∃ v s', propConnect s = some (v, s') ∧ s'.heard = s.heard ++ handshake ∧
      s'.input = s.input.drop 258 ∧
      ∀ j < 8, v.getLsbD j = decide (s.input.getD (250 + j) 0#8 = 0xff#8) := by
  generalize started : (lfsrData.take 250).foldl (fun s d => txByte (d ||| 0xfe#8) s)
    (txByte 0xf9#8 (rst true (rst false s))) = s₁
  have input₁ : s₁.input = s.input := by
    rw [← started]
    exact (sentFrom_foldl (fun d => sentFrom_txByte (d ||| 0xfe#8)) _ _).1
  have heard₁ : s₁.heard =
      s.heard ++ [1, 2] ++ (lfsrData.take 250).map fun d => bitPulse (d.getLsbD 0) := by
    rw [← started, heard_foldl, heard_txByte, heard_rst, heard_rst, pulses_pacing]
    simp [pulses_lfsr, ← List.map_eq_flatMap]
  have rest : (lfsrData.drop 250).length = 250 := by rw [List.length_drop, lfsrData_length]
  obtain ⟨s₂, echoed, heard₂, input₂⟩ := echo_heard (lfsrData.drop 250) 250 s₁
    (by rw [rest, input₁]; omega)
  rw [rest] at heard₂ input₂
  obtain ⟨v, s', run, heard, left, bits⟩ := readVersion_heard 8 0#8 s₂
    (by rw [input₂, input₁, List.length_drop]; omega)
  refine ⟨v, s', ?_, ?_, ?_, ?_⟩
  · rw [propConnect]
    simp only [started, echoed, Option.bind_eq_bind, Option.bind_some]
    exact run
  · rw [heard, heard₂, heard₁, lfsrData_handshake, handshake, show 258 = 250 + 8 from rfl, pacing_add]
    simp only [List.append_assoc]
  · rw [left, input₂, input₁, List.drop_drop]
  · intro j low
    rw [bits j low, if_neg (by omega), input₂, input₁, Nat.add_sub_cancel]
    simp

/-! ## The chip -/

/-- The next 32 pulses as a value. -/
def takeLong (ps : List Nat) : Option (Dword × List Nat) :=
  if ps.length < 32 then none
  else some (BitVec.ofNat 32 (Tap.value ((ps.take 32).map (· == 1))), ps.drop 32)

def takeLongs : Nat → List Nat → Option (List Dword × List Nat)
  | 0, ps => some ([], ps)
  | n + 1, ps => do
    let (value, ps) ← takeLong ps
    let (values, ps) ← takeLongs n ps
    some (value :: values, ps)

def bytesOf (value : Dword) : List Byte := (List.range 4).map value.byte

/-- The number of values, and the values. -/
def takeProgram (ps : List Nat) : Option (List Byte) :=
  (takeLong ps).bind fun count => (takeLongs count.1.toNat count.2).map fun values =>
    values.1.flatMap bytesOf

/-- What a chip that waits for the handshake makes of the pulses: the command and the program. -/
def listen (ps : List Nat) : Option (Dword × List Byte) :=
  if ps.take handshake.length = handshake then
    (takeLong (ps.drop handshake.length)).bind fun command =>
      (takeProgram command.2).map fun program => (command.1, program)
  else none

/-- The pulses of a value. -/
def longPulses (value : Dword) : List Nat := (longBits value).map bitPulse

theorem takeLong_pulses (value : Dword) (rest : List Nat) :
    takeLong (longPulses value ++ rest) = some (value, rest) := by
  have length : (longPulses value).length = 32 := by simp [longPulses, longBits]
  have levels : (longPulses value).map (· == 1) = longBits value := by
    have each (b : Bool) : (bitPulse b == 1) = b := by cases b <;> rfl
    simp [longPulses, Function.comp_def, each]
  have same : value.toNat = Tap.value (longBits value) := by
    apply Tap.eq_value
    intro i
    rw [BitVec.testBit_toNat, longBits]
    by_cases low : i < 32
    · rw [List.getD_eq_getElem _ _ (by simpa using low)]
      simp
    · rw [List.getD_eq_default _ _ (by simpa using low), BitVec.getLsbD_of_ge _ _ (by omega)]
  rw [takeLong, if_neg (by rw [List.length_append]; omega), List.take_left' length,
    List.drop_left' length, levels, ← same, BitVec.ofNat_toNat, BitVec.setWidth_eq]

theorem takeLongs_pulses (values : List Dword) (rest : List Nat) :
    takeLongs values.length (values.flatMap longPulses ++ rest) = some (values, rest) := by
  induction values with
  | nil => rfl
  | cons value values ih => simp [takeLongs, takeLong_pulses, ih]

theorem takeProgram_pulses (values : List Dword) (rest : List Nat)
    (short : values.length < 2 ^ 32) :
    takeProgram (longPulses (BitVec.ofNat 32 values.length) ++
      (values.flatMap longPulses ++ rest)) = some (values.flatMap bytesOf) := by
  rw [takeProgram, takeLong_pulses, Option.bind_some, BitVec.toNat_ofNat, Nat.mod_eq_of_lt short,
    takeLongs_pulses, Option.map_some]

theorem listen_heard (command : Dword) (values : List Dword) (rest : List Nat)
    (short : values.length < 2 ^ 32) :
    listen (handshake ++ (longPulses command ++ (longPulses (BitVec.ofNat 32 values.length) ++
      (values.flatMap longPulses ++ rest)))) = some (command, values.flatMap bytesOf) := by
  rw [listen]
  -- nothing here depends on what the handshake is
  generalize handshake = start
  rw [List.take_left, if_pos rfl, List.drop_left, takeLong_pulses, Option.bind_some,
    takeProgram_pulses values rest short, Option.map_some]

theorem appended_bit (b₀ b₁ b₂ b₃ : Byte) (k : Nat) : (b₃ ++ b₂ ++ b₁ ++ b₀).getLsbD k =
    if k < 8 then b₀.getLsbD k else if k < 16 then b₁.getLsbD (k - 8)
      else if k < 24 then b₂.getLsbD (k - 16) else b₃.getLsbD (k - 24) := by
  rw [BitVec.getLsbD_append, BitVec.getLsbD_append, BitVec.getLsbD_append, Nat.sub_sub, Nat.sub_sub]
  repeat' split
  all_goals first | rfl | omega

theorem bytesOf_bytes (b₀ b₁ b₂ b₃ : Byte) : bytesOf (b₃ ++ b₂ ++ b₁ ++ b₀) = [b₀, b₁, b₂, b₃] := by
  have each (i : Nat) (b : Byte) (bits : ∀ j < 8, (b₃ ++ b₂ ++ b₁ ++ b₀).getLsbD (8 * i + j) =
      b.getLsbD j) : Dword.byte (b₃ ++ b₂ ++ b₁ ++ b₀) i = b := by
    apply BitVec.eq_of_getLsbD_eq
    intro j low
    exact (Dword.byte_bit _ i low).trans (bits j low)
  rw [bytesOf, show List.range 4 = [0, 1, 2, 3] from rfl]
  simp only [List.map_cons, List.map_nil]
  rw [each 0 b₀, each 1 b₁, each 2 b₂, each 3 b₃]
  all_goals
    intro j low
    rw [appended_bit]
    grind

/-- The chip has the file if its length is a multiple of four. -/
theorem longs_bytes (n : Nat) (buffer : List Byte) (length : buffer.length = 4 * n) :
    (longs buffer).length = n ∧ (longs buffer).flatMap bytesOf = buffer := by
  induction n generalizing buffer with
  | zero => simp_all [longs]
  | succ n ih =>
    obtain ⟨b₀, b₁, b₂, b₃, rest, rfl⟩ :
        ∃ b₀ b₁ b₂ b₃ rest, buffer = b₀ :: b₁ :: b₂ :: b₃ :: rest := by
      match buffer, length with
      | b₀ :: b₁ :: b₂ :: b₃ :: rest, _ => exact ⟨b₀, b₁, b₂, b₃, rest, rfl⟩
    obtain ⟨count, bytes⟩ := ih rest (by simp at length; omega)
    constructor
    · simp [longs, count]
    · simp [longs, bytes, bytesOf_bytes]

theorem writeLongs_heard (values : List Dword) (s : Port) :
    (values.foldl (fun s value => writeLong value s) s).heard =
      s.heard ++ values.flatMap longPulses := by
  induction values generalizing s with
  | nil => simp
  | cons value values ih => simp [ih, writeLong_heard, longPulses]

theorem propUpload_heard (buffer : List Byte) (rounds : Nat) (s : Port) (enough : s.input ≠ []) :
    ∃ s', propUpload buffer rounds s = some s' ∧ s.console <+: s'.console ∧
      s'.heard = s.heard ++ (longPulses 1#32 ++
        (longPulses (BitVec.ofNat 32 (buffer.length / 4)) ++
          ((longs buffer).flatMap longPulses ++ pacing (rounds + 1)))) := by
  generalize written : (longs buffer).foldl (fun s value => writeLong value s)
    (writeLong (BitVec.ofNat 32 (buffer.length / 4)) (writeLong 1#32 s)) = s₁
  have frame₁ := sentFrom_foldl sentFrom_writeLong (longs buffer)
    (writeLong (BitVec.ofNat 32 (buffer.length / 4)) (writeLong 1#32 s))
  have heard₁ := writeLongs_heard (longs buffer)
    (writeLong (BitVec.ofNat 32 (buffer.length / 4)) (writeLong 1#32 s))
  rw [written] at frame₁ heard₁
  generalize asked : (List.replicate (rounds + 1) 0xf9#8).foldl (fun s p => txByte p s) s₁ = s₂
  have frame₂ := sentFrom_foldl sentFrom_txByte (List.replicate (rounds + 1) 0xf9#8) s₁
  have heard₂ := heard_foldl (List.replicate (rounds + 1) 0xf9#8) id s₁
  simp only [id_eq] at heard₂
  rw [asked] at frame₂ heard₂
  obtain ⟨response, rest, input⟩ := List.exists_cons_of_ne_nil enough
  have input₂ : s₂.input = response :: rest := by
    rw [frame₂.1, frame₁.1, (sentFrom_writeLong _ _).1, (sentFrom_writeLong _ _).1, input]
  have console₂ : s₂.console = s.console := by
    rw [frame₂.2, frame₁.2, (sentFrom_writeLong _ _).2, (sentFrom_writeLong _ _).2]
  refine ⟨Port.printf { s₂ with input := rest } ("Responded: " ++ fmtX response.toNat ++ "\n"),
    ?_, ?_, ?_⟩
  · simp only [propUpload, written, asked, rxByte_cons input₂, Option.bind_eq_bind,
      Option.bind_some]
  · rw [← console₂]
    exact List.prefix_append _ _
  · change s₂.heard = _
    rw [heard₂, heard₁, writeLong_heard, writeLong_heard, List.flatMap_replicate, pulses_pacing]
    simp only [pacing, longPulses, List.append_assoc]

/-- A file that is a program for the chip. -/
def FileState.Loadable (bytes : List Byte) (file : FileState) : Prop :=
  file = .contents bytes ∧ 0 < bytes.length ∧ bytes.length ≤ 0x8000 ∧ 4 ∣ bytes.length

/-- A loadable file is there to be loaded, anything else is an error. -/
theorem load_cases (fname : String) (file : FileState) (s : Port) :
    ((load fname file s).1 = 0 ∧ ¬∃ bytes, file.Loadable bytes) ∨
      ∃ bytes, file.Loadable bytes ∧ (load fname file s).1 = bytes.length ∧
        (load fname file s).2.1 = bytes := by
  cases file with
  | missing => exact .inl ⟨rfl, by rintro ⟨bytes, ⟨⟩, -⟩⟩
  | unreadable => exact .inl ⟨rfl, by rintro ⟨bytes, ⟨⟩, -⟩⟩
  | contents bytes =>
    have length : (bytes.take 0x8001).length = min 0x8001 bytes.length := List.length_take
    by_cases good : 0 < bytes.length ∧ bytes.length ≤ 0x8000 ∧ 4 ∣ bytes.length
    · obtain ⟨nonempty, small, four⟩ := good
      have whole : bytes.take 0x8001 = bytes := List.take_of_length_le (by omega)
      refine .inr ⟨bytes, ⟨rfl, nonempty, small, four⟩, ?_, ?_⟩
      all_goals
        simp only [load, whole]
        rw [if_neg (by omega), if_neg (by omega)]
    · refine .inl ⟨?_, ?_⟩
      · simp only [load]
        split
        · rfl
        · split
          · rfl
          · change (bytes.take 0x8001).length = 0
            omega
      · rintro ⟨_, ⟨rfl⟩, fits⟩
        exact good fits

theorem load_port (fname : String) (file : FileState) (s : Port) :
    (load fname file s).2.2.outs = s.outs ∧ (load fname file s).2.2.input = s.input := by
  cases file with
  | missing => exact ⟨rfl, rfl⟩
  | unreadable => exact ⟨rfl, rfl⟩
  | contents bytes =>
    simp only [load]
    split
    · exact ⟨rfl, rfl⟩
    · split <;> exact ⟨rfl, rfl⟩

/-- A file gets to the chip as it is, however long the pauses between the bytes are. What is not
a program for it is not sent at all. -/
theorem program_reaches_chip (fname : String) (file : FileState) (rounds : Nat) (s : Port)
    (fresh : s.outs = []) (enough : 259 ≤ s.input.length) :
    ∃ code s', main fname file rounds s = some (code, s') ∧
      ((code = 1 ∧ s'.outs = [] ∧ ¬∃ bytes, file.Loadable bytes) ∨
        (code = 0 ∧ ∃ bytes, file.Loadable bytes ∧
          (∀ gap, listen (pulses 0 (line gap 0 s'.sent)) = some (1#32, bytes)) ∧
          ∃ version : Byte, "Prop found, version " ++ toString version.toNat ++ "\n" ∈ s'.console ∧
            ∀ j < 8, version.getLsbD j = decide (s.input.getD (250 + j) 0#8 = 0xff#8))) := by
  obtain ⟨outs₁, input₁⟩ := load_port fname file s
  rcases load_cases fname file s with ⟨bad, unfit⟩ | ⟨bytes, good, length, contents⟩
  · refine ⟨1, (load fname file s).2.2, ?_, .inl ⟨rfl, outs₁.trans fresh, unfit⟩⟩
    simp only [main]
    rw [if_pos bad]
  · generalize loaded : (load fname file s).2.2 = s₁ at outs₁ input₁
    obtain ⟨version, s₂, connected, heard₂, input₂, bits⟩ := propConnect_heard s₁
      (by rw [input₁]; omega)
    obtain ⟨s', uploaded, console, heard⟩ := propUpload_heard bytes rounds
      (s₂.printf ("Prop found, version " ++ toString version.toNat ++ "\n"))
      (by
        refine List.ne_nil_of_length_pos ?_
        change 0 < s₂.input.length
        rw [input₂, input₁, List.length_drop]
        omega)
    obtain ⟨-, nonempty, small, n, four⟩ := id good
    obtain ⟨count, same⟩ := longs_bytes n bytes four
    refine ⟨0, s', ?_, .inr ⟨rfl, bytes, good, ?_, version, ?_, ?_⟩⟩
    · simp only [main]
      rw [if_neg (by omega), length, contents, List.take_length, loaded]
      simp only [connected, uploaded, Option.bind_eq_bind, Option.bind_some]
    · intro gap
      have quiet : s₁.heard = [] := by simp [Port.heard, Port.sent, outs₁, fresh]
      rw [pulses_line]
      change listen s'.heard = _
      rw [heard, heard_printf, heard₂, quiet, List.nil_append,
        show bytes.length / 4 = (longs bytes).length by omega, listen_heard _ _ _ (by omega), same]
    · exact console.subset (by simp [Port.printf])
    · intro j low
      rw [bits j low, input₁]

/-- A program of one long word. -/
theorem program_reaches_chip_word :
    ∃ code s', main "a" (.contents [1#8, 2#8, 3#8, 4#8]) 0 ⟨[], List.replicate 259 0xfe#8, []⟩ =
        some (code, s') ∧ code = 0 ∧
      ∀ gap, listen (pulses 0 (line gap 0 s'.sent)) = some (1#32, [1#8, 2#8, 3#8, 4#8]) := by
  obtain ⟨code, s', run, bad | ⟨good, bytes, ⟨same, -⟩, arrives, -⟩⟩ :=
    program_reaches_chip "a" (.contents [1#8, 2#8, 3#8, 4#8]) 0 ⟨[], List.replicate 259 0xfe#8, []⟩
      rfl (by rw [List.length_replicate])
  · exact absurd ⟨[1#8, 2#8, 3#8, 4#8], rfl, by decide⟩ bad.2.2
  · cases same
    exact ⟨code, s', run, good, arrives⟩

end Bifferboard.Biffprop
