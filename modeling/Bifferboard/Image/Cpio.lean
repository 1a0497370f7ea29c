import Bifferboard.Config.Encoding
import Bifferboard.Config.Numbers

/-!
# Reading a cpio archive

`mkbiffrd.py` reads the archive that `cpio` has made of the root file system. An entry is a
header of thirteen fields, a name and a file, and name and file are filled up to a multiple of
four bytes. The loops that read the filling do not look at the end of the data: where it is cut
off in the filling, they read nothing for ever. A field is evaluated as an expression, in which
the file that is being read has a name; apart from what such an expression does, nothing else
keeps the script from an end.
-/

namespace Bifferboard.Image.Cpio
open Nor Config

/-- What `eval` makes of a header field: a number, or some other object. -/
inductive PyValue where
  | int (n : Int)
  | other (object : Nat)
  deriving DecidableEq, Repr

/-- The symbol of a hexadecimal digit. -/
def hexSymbol (d : Nat) : Byte := symbol d.digitChar

/-- A call that returns or raises an exception, if it comes to an end. -/
abbrev Call := ExceptT String Option

def Call.of {α : Type} (r : Except String α) : Call α := some r

/-- The result of a loop. -/
def Call.loop {α : Type} (r : Option α) : Call α := r.map .ok

/-- What the script leaves to Python. -/
structure Python where
  /-- `eval("0x"+text)`, with `fp` still to be read. The expression may read on: `0x0 in fp`
  goes through all of it. -/
  eval : (text fp : List Byte) → Call (PyValue × List Byte)
  /-- How many of the bytes that are left `fp.read(object)` takes. -/
  amount : (object left : Nat) → Except String Nat
  /-- `"%08lx" % object`. -/
  format : (object : Nat) → Except String (List Byte)
  eval_suffix : ∀ text fp v rest, eval text fp = some (.ok (v, rest)) → rest <:+ fp
  eval_hex : ∀ (ds : List Nat) (fp : List Byte), ds.length = 8 → (∀ d ∈ ds, d < 16) →
    eval (ds.map hexSymbol) fp = some (.ok (.int (Numeral.value 16 ds), fp))

/-- The fields of a header. -/
inductive Field where
  | ino
  | mode
  | uid
  | gid
  | nlink
  | mtime
  | filesize
  | devmajor
  | devminor
  | rdevmajor
  | rdevminor
  | namesize
  | check
  deriving DecidableEq, Repr

/-- In the order in which they are read and written. -/
def Field.all : List Field :=
  [ino, mode, uid, gid, nlink, mtime, filesize, devmajor, devminor, rdevmajor, rdevminor, namesize,
   check]

structure Entry where
  fields : Field → PyValue
  name : List Byte
  file : List Byte

structure Archive where
  files : List Entry
  finalPadding : List Byte

def magic : List Byte := ascii "070701"

section
variable (py : Python)

/-- `C2P`. What is left of the data is passed on. -/
def c2p (fp : List Byte) : Call (PyValue × List Byte) := py.eval (fp.take 8) (fp.drop 8)

def readFields : List Field → (Field → PyValue) → List Byte → Call ((Field → PyValue) × List Byte)
  | [], d, fp => return (d, fp)
  | f :: fs, d, fp => do
    let field ← c2p py fp
    readFields fs (fun g => if g = f then field.1 else d g) field.2

/-- `CPIO2Python_all`, up to the name. -/
def readHeader (fp : List Byte) : Call ((Field → PyValue) × List Byte) :=
  if fp.take 6 = magic then readFields py Field.all (fun _ => .int 0) (fp.drop 6)
  else throw "Unrecognised CPIO format"

def amount (v : PyValue) (left : Nat) : Except String Nat :=
  match v with
  | .int n => .ok (if n < 0 then left else n.toNat)
  | .other object => py.amount object left

/-- `fp.read(v)`. -/
def read (v : PyValue) (fp : List Byte) : Except String (List Byte × List Byte) :=
  (amount py v fp.length).map fun k => (fp.take k, fp.drop k)

end

/-- A way to fill up what has been read. -/
abbrev Pad := (skew : Nat) → (text fp : List Byte) → Option (List Byte × List Byte)

/-- `while ((skew+len(text))%4): text += fp.read(1)`, if it ends within so many rounds. -/
def padLoop : (rounds : Nat) → Pad
  | 0, _, _, _ => none
  | rounds + 1, skew, text, fp =>
    if (skew + text.length) % 4 = 0 then some (text, fp)
    else padLoop rounds skew (text ++ fp.take 1) (fp.drop 1)

def Entry.isTrailer (d : Entry) : Bool := d.name.take 10 = ascii "TRAILER!!!"

section
variable (py : Python) (pad : Pad)

/-- `CPIO2Python_all`, from the name on. -/
def readBody (d : Field → PyValue) (fp : List Byte) : Call (Entry × List Byte) := do
  let name ← .of (read py (d .namesize) fp)
  let name ← .loop (pad 2 name.1 name.2)
  let file ← .of (read py (d .filesize) name.2)
  let file ← .loop (pad 0 file.1 file.2)
  return (⟨d, name.1, file.1⟩, file.2)

/-- `CPIO2Python_all`. -/
def cpio2Python (fp : List Byte) : Call (Entry × List Byte) := do
  let header ← readHeader py fp
  readBody py pad header.1 header.2

/-- The loop of `CpioArchive`, if it ends within so many rounds. -/
def readEntries : (rounds : Nat) → List Byte → Call Archive
  | 0, _ => none
  | rounds + 1, fp => do
    let d ← cpio2Python py pad fp
    if d.1.isTrailer then return ⟨[d.1], d.2⟩
    else
      let later ← readEntries rounds d.2
      return { later with files := d.1 :: later.files }

end

/-- `CpioArchive`, if none of its loops makes more rounds than that. -/
def cpioArchive (py : Python) (rounds : Nat) (data : List Byte) : Call Archive :=
  readEntries py (padLoop rounds) rounds data

/-! ## What the loops come to -/

/-- How much is missing to a multiple of four. -/
def gap (n : Nat) : Nat := (4 - n % 4) % 4

/-- What the filling comes to, if there is enough for it. -/
def padded : Pad := fun skew text fp =>
  let n := gap (skew + text.length)
  if n ≤ fp.length then some (text ++ fp.take n, fp.drop n) else none

theorem gap_lt (n : Nat) : gap n < 4 := Nat.mod_lt _ (by decide)

theorem padded_aligned {skew : Nat} {text : List Byte} (aligned : (skew + text.length) % 4 = 0)
    (fp : List Byte) : padded skew text fp = some (text, fp) := by
  simp [padded, gap, aligned]

theorem padded_step {skew : Nat} {text : List Byte} (ragged : (skew + text.length) % 4 ≠ 0)
    (fp : List Byte) : padded skew text fp = padded skew (text ++ fp.take 1) (fp.drop 1) := by
  cases fp with
  | nil => simp
  | cons c fp =>
    have less : gap (skew + text.length) = gap (skew + (text.length + 1)) + 1 := by
      unfold gap
      omega
    simp [padded, less]

theorem padLoop_sound {rounds skew : Nat} {text fp : List Byte} {r : List Byte × List Byte}
    (ends : padLoop rounds skew text fp = some r) : padded skew text fp = some r := by
  induction rounds generalizing text fp with
  | zero => cases ends
  | succ rounds ih =>
    rw [padLoop] at ends
    by_cases aligned : (skew + text.length) % 4 = 0
    · rw [if_pos aligned] at ends
      rw [padded_aligned aligned, ends]
    · rw [if_neg aligned] at ends
      rw [padded_step aligned]
      exact ih ends

theorem padLoop_complete {rounds skew : Nat} {text fp : List Byte} {r : List Byte × List Byte}
    (enough : gap (skew + text.length) < rounds) (filled : padded skew text fp = some r) :
    padLoop rounds skew text fp = some r := by
  induction rounds generalizing text fp with
  | zero => omega
  | succ rounds ih =>
    rw [padLoop]
    by_cases aligned : (skew + text.length) % 4 = 0
    · rw [if_pos aligned, ← padded_aligned aligned, filled]
    · rw [if_neg aligned]
      rw [padded_step aligned] at filled
      refine ih ?_ filled
      cases fp with
      | nil =>
        simp [padded, gap] at filled
        omega
      | cons c fp =>
        unfold gap at *
        simp only [List.take_succ_cons, List.take_zero, List.length_append, List.length_singleton]
        omega

namespace Call
variable {α β : Type}

/-- What a call does next depends on how it went so far. -/
theorem bind_cases (x : Call α) (f : α → Call β) :
    (x = none ∧ x >>= f = none) ∨ (∃ e, x = some (.error e) ∧ x >>= f = some (.error e)) ∨
      ∃ a, x = some (.ok a) ∧ x >>= f = f a := by
  cases x with
  | none => exact .inl ⟨rfl, rfl⟩
  | some r =>
    cases r with
    | error e => exact .inr (.inl ⟨e, rfl, rfl⟩)
    | ok a => exact .inr (.inr ⟨a, rfl, rfl⟩)

theorem bind_eq_ok {x : Call α} {f : α → Call β} {b : β} (ends : x >>= f = some (.ok b)) :
    ∃ a, x = some (.ok a) ∧ f a = some (.ok b) := by
  rcases bind_cases x f with ⟨-, none⟩ | ⟨e, -, raised⟩ | ⟨a, first, next⟩
  · rw [none] at ends
    cases ends
  · rw [raised] at ends
    cases ends
  · exact ⟨a, first, next.symm.trans ends⟩

theorem bind_eq_none {x : Call α} {f : α → Call β} (never : x >>= f = none) :
    x = none ∨ ∃ a, x = some (.ok a) ∧ f a = none := by
  rcases bind_cases x f with ⟨none, -⟩ | ⟨e, -, raised⟩ | ⟨a, first, next⟩
  · exact .inl none
  · rw [raised] at never
    cases never
  · exact .inr ⟨a, first, next.symm.trans never⟩

theorem of_eq {r : Except String α} {a : α} (ends : Call.of r = some (.ok a)) : r = .ok a :=
  Option.some.inj ends

theorem loop_eq {r : Option α} {a : α} (ends : Call.loop r = some (.ok a)) : r = some a := by
  cases r with
  | none => cases ends
  | some b =>
    cases ends
    rfl

theorem loop_eq_none {r : Option α} (never : Call.loop r = none) : r = none := by
  cases r with
  | none => rfl
  | some b => cases never

/-- What ends in `x` ends in `y`, with the same result. -/
def Le (x y : Call α) : Prop := ∀ r, x = some r → y = some r

theorem Le.refl (x : Call α) : x.Le x := fun _ ends => ends

theorem Le.bind {x y : Call α} {f g : α → Call β} (first : x.Le y) (next : ∀ a, (f a).Le (g a)) :
    (x >>= f).Le (y >>= g) := by
  intro r ends
  rcases bind_cases x f with ⟨-, none⟩ | ⟨e, failed, raised⟩ | ⟨a, done, later⟩
  · rw [none] at ends
    cases ends
  · rw [first _ failed]
    exact raised.symm.trans ends
  · rw [first _ done]
    exact next a r (later.symm.trans ends)

theorem Le.loop {x y : Option α} (more : ∀ r, x = some r → y = some r) :
    (Call.loop x).Le (Call.loop y) := by
  intro r ends
  cases x with
  | none => cases ends
  | some a =>
    rw [more a rfl]
    exact ends

end Call

/-- A way to fill up that ends wherever the other does. -/
def Pad.Le (pad pad' : Pad) : Prop :=
  ∀ skew text fp r, pad skew text fp = some r → pad' skew text fp = some r

section
variable {py : Python} {pad pad' : Pad} (more : pad.Le pad')
include more

theorem cpio2Python_le (fp : List Byte) : (cpio2Python py pad fp).Le (cpio2Python py pad' fp) := by
  refine .bind (.refl _) fun header => ?_
  refine .bind (.refl _) fun name => ?_
  refine .bind (.loop (more _ _ _)) fun name => ?_
  refine .bind (.refl _) fun file => ?_
  exact .bind (.loop (more _ _ _)) fun file => .refl _

/-- More rounds do not change what comes out. -/
theorem readEntries_le {rounds rounds' : Nat} (longer : rounds ≤ rounds') (fp : List Byte) :
    (readEntries py pad rounds fp).Le (readEntries py pad' rounds' fp) := by
  induction rounds generalizing rounds' fp with
  | zero =>
    intro r ends
    cases ends
  | succ rounds ih =>
    obtain ⟨rounds', rfl⟩ : ∃ n, rounds' = n + 1 := ⟨rounds' - 1, by omega⟩
    refine .bind (cpio2Python_le more fp) fun d => ?_
    split
    · exact .refl _
    · exact .bind (ih (by omega) d.2) fun later => .refl _

end

theorem padLoop_le (rounds : Nat) : (padLoop rounds).Le padded := fun _ _ _ _ => padLoop_sound

theorem padded_le (rounds : Nat) : padded.Le (padLoop (rounds + 4)) := by
  intro skew text fp r filled
  exact padLoop_complete (Nat.lt_of_lt_of_le (gap_lt _) (Nat.le_add_left 4 rounds)) filled

/-- With enough rounds, the archive is what comes of it without a limit to the filling. -/
theorem cpioArchive_iff {py : Python} {data : List Byte} {r : Except String Archive} :
    (∃ rounds, cpioArchive py rounds data = some r) ↔
      ∃ rounds, readEntries py padded rounds data = some r := by
  constructor
  · rintro ⟨rounds, ends⟩
    exact ⟨rounds, readEntries_le (padLoop_le rounds) (Nat.le_refl _) data r ends⟩
  · rintro ⟨rounds, ends⟩
    exact ⟨rounds + 4, readEntries_le (padded_le rounds) (Nat.le_add_right _ 4) data r ends⟩

/-! ## What is read -/

section
variable {py : Python}

theorem read_append {v : PyValue} {fp text rest : List Byte} (got : read py v fp = .ok (text, rest)) :
    text ++ rest = fp := by
  obtain ⟨k, -, cut⟩ := map_eq_ok.mp got
  cases cut
  exact List.take_append_drop k fp

theorem padded_ok {skew : Nat} {text fp text' fp' : List Byte}
    (filled : padded skew text fp = some (text', fp')) : gap (skew + text.length) ≤ fp.length ∧
      text' = text ++ fp.take (gap (skew + text.length)) ∧
      fp' = fp.drop (gap (skew + text.length)) := by
  unfold padded at filled
  dsimp only at filled
  split at filled
  · rename_i enough
    cases filled
    exact ⟨enough, rfl, rfl⟩
  · cases filled

theorem padded_split {skew : Nat} {text fp text' fp' : List Byte}
    (filled : padded skew text fp = some (text', fp')) :
    ∃ filling, text' = text ++ filling ∧ fp = filling ++ fp' := by
  obtain ⟨-, rfl, rfl⟩ := padded_ok filled
  exact ⟨_, rfl, (List.take_append_drop _ fp).symm⟩

theorem padded_short {skew : Nat} {text fp : List Byte}
    (short : fp.length < gap (skew + text.length)) : padded skew text fp = none :=
  if_neg (Nat.not_le.mpr short)

theorem padded_eq_none {skew : Nat} {text fp : List Byte} (never : padded skew text fp = none) :
    fp.length < gap (skew + text.length) := by
  unfold padded at never
  dsimp only at never
  split at never
  · cases never
  · omega

theorem readBody_iff {d : Field → PyValue} {fp rest : List Byte} {e : Entry} :
    readBody py padded d fp = some (.ok (e, rest)) ↔
      ∃ name fp₁ fp₂ file fp₃, read py (d .namesize) fp = .ok (name, fp₁) ∧
        padded 2 name fp₁ = some (e.name, fp₂) ∧ read py (d .filesize) fp₂ = .ok (file, fp₃) ∧
        padded 0 file fp₃ = some (e.file, rest) ∧ e.fields = d := by
  constructor
  · intro ends
    obtain ⟨⟨name, fp₁⟩, got, ends⟩ := Call.bind_eq_ok ends
    obtain ⟨⟨name', fp₂⟩, filled, ends⟩ := Call.bind_eq_ok ends
    obtain ⟨⟨file, fp₃⟩, contents, ends⟩ := Call.bind_eq_ok ends
    obtain ⟨⟨file', fp₄⟩, filled', ends⟩ := Call.bind_eq_ok ends
    cases ends
    exact ⟨name, fp₁, fp₂, file, fp₃, Call.of_eq got, Call.loop_eq filled, Call.of_eq contents,
      Call.loop_eq filled', rfl⟩
  · rintro ⟨name, fp₁, fp₂, file, fp₃, got, filled, contents, filled', rfl⟩
    rw [readBody, got]
    change (Call.loop (padded 2 name fp₁) >>= _) = _
    rw [filled]
    change (Call.of (read py (e.fields .filesize) fp₂) >>= _) = _
    rw [contents]
    change (Call.loop (padded 0 file fp₃) >>= _) = _
    rw [filled']
    rfl

theorem readBody_ok {d : Field → PyValue} {fp rest : List Byte} {e : Entry}
    (ends : readBody py padded d fp = some (.ok (e, rest))) :
    e.fields = d ∧ e.name ++ e.file ++ rest = fp := by
  obtain ⟨name, fp₁, fp₂, file, fp₃, got, filled, contents, filled', fields⟩ := readBody_iff.mp ends
  refine ⟨fields, ?_⟩
  obtain ⟨filling, full, rfl⟩ := padded_split filled
  obtain ⟨filling', full', rfl⟩ := padded_split filled'
  rw [full, full', ← read_append got, ← read_append contents]
  simp only [List.append_assoc]

theorem readFields_length {fs : List Field} {d d' : Field → PyValue} {fp rest : List Byte}
    (got : readFields py fs d fp = some (.ok (d', rest))) : rest.length ≤ fp.length := by
  induction fs generalizing d fp with
  | nil =>
    cases got
    exact Nat.le_refl _
  | cons f fs ih =>
    obtain ⟨⟨v, left⟩, value, got⟩ := Call.bind_eq_ok got
    have shorter := ih got
    have evaluated := (py.eval_suffix _ _ v left value).length_le
    rw [List.length_drop] at evaluated
    dsimp only at shorter
    omega

theorem readHeader_ok {d : Field → PyValue} {fp body : List Byte}
    (got : readHeader py fp = some (.ok (d, body))) :
    fp.take 6 = magic ∧
      readFields py Field.all (fun _ => .int 0) (fp.drop 6) = some (.ok (d, body)) := by
  unfold readHeader at got
  split at got
  · rename_i marked
    exact ⟨marked, got⟩
  · cases got

theorem cpio2Python_ok {fp rest : List Byte} {e : Entry}
    (ends : cpio2Python py padded fp = some (.ok (e, rest))) :
    ∃ body, readHeader py fp = some (.ok (e.fields, body)) ∧
      readBody py padded e.fields body = some (.ok (e, rest)) := by
  obtain ⟨⟨d, body⟩, header, ends⟩ := Call.bind_eq_ok ends
  obtain ⟨rfl, -⟩ := readBody_ok ends
  exact ⟨body, header, ends⟩

/-- Every entry takes some of the data. -/
theorem cpio2Python_shorter {fp rest : List Byte} {e : Entry}
    (ends : cpio2Python py padded fp = some (.ok (e, rest))) : rest.length < fp.length := by
  obtain ⟨body, header, ends⟩ := cpio2Python_ok ends
  obtain ⟨-, parts⟩ := readBody_ok ends
  obtain ⟨marked, fields⟩ := readHeader_ok header
  have six := congrArg List.length marked
  have shorter := readFields_length fields
  have sum := congrArg List.length parts
  simp only [List.length_append, List.length_take, List.length_drop] at six shorter sum
  have count : magic.length = 6 := rfl
  omega

end

/-! ## When the parser ends -/

/-- The evaluation of a field does not come to an end, or the data runs out in the filling of
a name or of a file. -/
inductive Starves (py : Python) : List Byte → Prop
  | field {fp : List Byte} (never : readHeader py fp = none) : Starves py fp
  | name {fp body name rest : List Byte} {d : Field → PyValue}
      (header : readHeader py fp = some (.ok (d, body)))
      (got : read py (d .namesize) body = .ok (name, rest))
      (short : rest.length < gap (2 + name.length)) : Starves py fp
  | file {fp body name rest file last : List Byte} {d : Field → PyValue}
      (header : readHeader py fp = some (.ok (d, body)))
      (got : read py (d .namesize) body = .ok (name, rest))
      (filled : gap (2 + name.length) ≤ rest.length)
      (contents : read py (d .filesize) (rest.drop (gap (2 + name.length))) = .ok (file, last))
      (short : last.length < gap (0 + file.length)) : Starves py fp
  | later {fp rest : List Byte} {d : Entry}
      (entry : cpio2Python py padded fp = some (.ok (d, rest))) (more : d.isTrailer = false)
      (starves : Starves py rest) : Starves py fp

section
variable {py : Python}

theorem starves_of_none {fp : List Byte} (never : cpio2Python py padded fp = none) :
    Starves py fp := by
  rcases Call.bind_eq_none never with ends | ⟨⟨d, body⟩, header, never⟩
  · exact .field ends
  rcases Call.bind_eq_none never with ends | ⟨⟨name, rest⟩, got, never⟩
  · cases ends
  rcases Call.bind_eq_none never with ends | ⟨⟨name', rest'⟩, filled, never⟩
  · exact .name header (Call.of_eq got) (padded_eq_none (Call.loop_eq_none ends))
  rcases Call.bind_eq_none never with ends | ⟨⟨file, last⟩, contents, never⟩
  · cases ends
  rcases Call.bind_eq_none never with ends | ⟨_, _, never⟩
  · obtain ⟨enough, rfl, rfl⟩ := padded_ok (Call.loop_eq filled)
    exact .file header (Call.of_eq got) enough (Call.of_eq contents)
      (padded_eq_none (Call.loop_eq_none ends))
  · cases never

theorem readEntries_never {fp : List Byte} (never : cpio2Python py padded fp = none) (rounds : Nat) :
    readEntries py padded rounds fp = none := by
  cases rounds with
  | zero => rfl
  | succ rounds =>
    rw [readEntries, never]
    rfl

theorem cpio2Python_header {fp body : List Byte} {d : Field → PyValue}
    (header : readHeader py fp = some (.ok (d, body))) :
    cpio2Python py padded fp = readBody py padded d body := by
  rw [cpio2Python, header]
  rfl

/-- The body, once it is known how long name and file are. -/
theorem readBody_name {body name rest : List Byte} {d : Field → PyValue}
    (got : read py (d .namesize) body = .ok (name, rest)) : readBody py padded d body =
      Call.loop (padded 2 name rest) >>= fun name => do
        let file ← .of (read py (d .filesize) name.2)
        let file ← .loop (padded 0 file.1 file.2)
        return (⟨d, name.1, file.1⟩, file.2) := by
  rw [readBody, got]
  rfl

theorem Starves.never {fp : List Byte} (starves : Starves py fp) (rounds : Nat) :
    readEntries py padded rounds fp = none := by
  induction starves generalizing rounds with
  | field never =>
    apply readEntries_never
    rw [cpio2Python, never]
    rfl
  | name header got short =>
    apply readEntries_never
    rw [cpio2Python_header header, readBody_name got, padded_short short]
    rfl
  | file header got filled contents short =>
    apply readEntries_never
    rw [cpio2Python_header header, readBody_name got, padded, if_pos filled]
    change (Call.of (read py _ _) >>= _) = none
    rw [contents]
    change (Call.loop (padded 0 _ _) >>= _) = none
    rw [padded_short short]
    rfl
  | later entry more _ ih =>
    cases rounds with
    | zero => rfl
    | succ rounds =>
      rw [readEntries, entry]
      change (if Entry.isTrailer _ then _ else _) = none
      rw [more, ih rounds]
      rfl

theorem readEntries_ends {fp : List Byte} (fed : ¬ Starves py fp) {rounds : Nat}
    (enough : fp.length < rounds) : ∃ r, readEntries py padded rounds fp = some r := by
  induction rounds generalizing fp with
  | zero => omega
  | succ rounds ih =>
    rw [readEntries]
    rcases Call.bind_cases (cpio2Python py padded fp) _ with ⟨never, -⟩ | ⟨e, -, raised⟩ |
      ⟨⟨d, rest⟩, entry, next⟩
    · exact absurd (starves_of_none never) fed
    · exact ⟨_, raised⟩
    · rw [next]
      cases last : d.isTrailer with
      | true => exact ⟨_, rfl⟩
      | false =>
        have shorter := cpio2Python_shorter entry
        obtain ⟨r, ends⟩ := ih (fun starves => fed (.later entry last starves)) (by omega)
        rw [ends]
        cases r with
        | error e => exact ⟨_, rfl⟩
        | ok later => exact ⟨_, rfl⟩

/-- The parser comes to an end exactly if every field does that it evaluates, and the data does
not run out in the filling of a name or of a file. -/
theorem parsing_ends_iff (py : Python) (data : List Byte) :
    (∃ rounds r, cpioArchive py rounds data = some r) ↔ ¬ Starves py data := by
  rw [exists_comm]
  simp only [cpioArchive_iff]
  constructor
  · rintro ⟨r, rounds, ends⟩ starves
    rw [starves.never] at ends
    cases ends
  · intro fed
    obtain ⟨r, ends⟩ := readEntries_ends fed (Nat.lt_succ_self _)
    exact ⟨r, _, ends⟩

end

/-- Python, as far as numbers go. -/
def plainPython : Python where
  eval text fp :=
    let ds := Numeral.leading hexDigit text
    if ds ≠ [] ∧ ds.length = text.length then return (.int (Numeral.value 16 ds), fp)
    else throw "invalid token"
  amount _ _ := .error "unsupported operand type(s)"
  format _ := .error "%x format: a number is required"
  eval_suffix := by
    intro text fp v rest evaluated
    dsimp only at evaluated
    split at evaluated
    · cases evaluated
      exact List.suffix_rfl
    · cases evaluated
  eval_hex := by
    intro ds fp length digits
    have all : Numeral.leading hexDigit (ds.map hexSymbol) = ds :=
      Numeral.leading_map fun d member => hexDigit_symbol d (digits d member)
    have nonempty : ds ≠ [] := by
      rintro rfl
      cases length
    simp only [all, List.length_map, and_true, if_pos nonempty]
    rfl

/-- An archive that is cut off after the first header. -/
def cutArchive : List Byte :=
  ascii ("070701" ++ "00000001000081a400000000000000000000000100000000" ++
    "0000000000000000000000000000000000000000" ++ "0000000200000000")

theorem cut_archive_hangs : ¬ ∃ rounds r, cpioArchive plainPython rounds cutArchive = some r := by
  have starves : Starves plainPython cutArchive := .name rfl rfl (by decide)
  rintro ⟨rounds, r, ends⟩
  obtain ⟨rounds', ends⟩ := cpioArchive_iff.mp ⟨rounds, ends⟩
  rw [starves.never] at ends
  cases ends

end Bifferboard.Image.Cpio
