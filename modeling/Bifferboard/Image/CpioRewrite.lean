import Mathlib.Data.List.Forall2
import Bifferboard.Image.Cpio

/-!
# Rewriting a cpio archive

`mkbiffrd.py` makes a device node of the console in the archive and writes it back. Names and
files keep their filling, so that nothing moves: of an archive as `cpio` writes it, only the
three fields of the node change.
-/

namespace Bifferboard.Image.Cpio
open Nor Config

/-! ## Writing -/

/-- `"%08lx" % n`. -/
def hex8 (n : Int) : List Byte :=
  let sign := if n < 0 then ['-'] else []
  let digits := Nat.toDigits 16 n.natAbs
  (sign ++ List.replicate (8 - sign.length - digits.length) '0' ++ digits).map symbol

section
variable (py : Python)

/-- What `P2C` writes. -/
def p2c : PyValue → Except String (List Byte)
  | .int n => .ok (hex8 n)
  | .other object => py.format object

def writeFields (d : Field → PyValue) : List Field → Except String (List Byte)
  | [] => .ok []
  | f :: fs => do
    let text ← p2c py (d f)
    let rest ← writeFields d fs
    return text ++ rest

/-- What `Python2CPIO_all` writes. -/
def python2Cpio (d : Entry) : Except String (List Byte) := do
  let fields ← writeFields py d.fields Field.all
  return magic ++ (fields ++ (d.name ++ d.file))

def writeFiles : List Entry → Except String (List Byte)
  | [] => .ok []
  | d :: files => do
    let text ← python2Cpio py d
    let rest ← writeFiles files
    return text ++ rest

/-- What `WriteAs` writes. -/
def writeAs (a : Archive) : Except String (List Byte) := do
  let files ← writeFiles py a.files
  return files ++ a.finalPadding

end

/-- The name without NULs is that of the console. -/
def Entry.isConsole (d : Entry) : Bool := d.name.filter (· ≠ 0#8) = ascii "dev/console"

/-- The console as a device node. -/
def Entry.console (d : Entry) : Entry :=
  { d with fields := fun f =>
      match f with
      | .rdevmajor => .int 5
      | .rdevminor => .int 1
      | .mode => .int 8576
      | f => d.fields f }

def consoleAdded : List Entry → Except String (List Entry)
  | [] => .error "Unable to find dummy console device, it's needed for boot!"
  | d :: files => if d.isConsole then .ok (d.console :: files) else (consoleAdded files).map (d :: ·)

/-- `AddConsoleDevice`. -/
def addConsoleDevice (a : Archive) : Except String Archive :=
  (consoleAdded a.files).map fun files => { a with files := files }

/-! ## Fields as `cpio` writes them -/

/-- Eight lower case hexadecimal digits. -/
def LowerHex (text : List Byte) : Prop :=
  ∃ ds : List Nat, ds.length = 8 ∧ (∀ d ∈ ds, d < 16) ∧ text = ds.map hexSymbol

/-- The digits are those of the value. -/
def Shows (text : List Byte) (v : PyValue) : Prop :=
  ∃ ds : List Nat, ds.length = 8 ∧ (∀ d ∈ ds, d < 16) ∧ text = ds.map hexSymbol ∧
    v = .int (Numeral.value 16 ds)

theorem LowerHex.shows {text : List Byte} (hex : LowerHex text) : ∃ v, Shows text v := by
  obtain ⟨ds, length, digits, text⟩ := hex
  exact ⟨_, ds, length, digits, text, rfl⟩

namespace Shows
variable {text : List Byte} {v : PyValue} (shown : Shows text v)
include shown

theorem length : text.length = 8 := by
  obtain ⟨ds, length, -, rfl, -⟩ := shown
  rw [List.length_map, length]

theorem eval (py : Python) (fp : List Byte) : py.eval text fp = some (.ok (v, fp)) := by
  obtain ⟨ds, length, digits, rfl, rfl⟩ := shown
  exact py.eval_hex ds fp length digits

theorem p2c (py : Python) : p2c py v = .ok text := by
  obtain ⟨ds, length, digits, rfl, rfl⟩ := shown
  have nonempty : ds ≠ [] := by
    rintro rfl
    cases length
  have written := Numeral.padded_toDigits (by decide : 1 < 16) nonempty digits
  rw [length] at written
  have positive : ¬ (Numeral.value 16 ds : Int) < 0 := by omega
  simp only [Cpio.p2c, hex8, if_neg positive, Int.natAbs_natCast, List.nil_append, List.length_nil,
    Nat.sub_zero, written, List.map_map]
  rfl

end Shows

theorem writeFields_shown {py : Python} {d : Field → PyValue} {t : Field → List Byte}
    (shown : ∀ f, Shows (t f) (d f)) (fs : List Field) :
    writeFields py d fs = .ok (fs.flatMap t) := by
  induction fs with
  | nil => rfl
  | cons f fs ih =>
    rw [writeFields, (shown f).p2c, ih]
    rfl

theorem readFields_shown {py : Python} {v : Field → PyValue} {t : Field → List Byte}
    (shown : ∀ f, Shows (t f) (v f)) (fs : List Field) (d : Field → PyValue) (body : List Byte) :
    readFields py fs d (fs.flatMap t ++ body) =
      some (.ok (fun f => if f ∈ fs then v f else d f, body)) := by
  induction fs generalizing d with
  | nil =>
    simp only [readFields, List.not_mem_nil, ↓reduceIte]
    rfl
  | cons f fs ih =>
    have field : c2p py ((f :: fs).flatMap t ++ body) = some (.ok (v f, fs.flatMap t ++ body)) := by
      rw [c2p, List.flatMap_cons, List.append_assoc, List.take_left' (shown f).length,
        List.drop_left' (shown f).length, (shown f).eval]
    rw [readFields, field]
    refine (ih _).trans ?_
    congr 3
    funext g
    by_cases same : g = f
    · simp [same]
    · simp [same]

theorem Field.mem_all (f : Field) : f ∈ Field.all := by
  cases f <;> decide

theorem readHeader_shown {py : Python} {v : Field → PyValue} {t : Field → List Byte}
    (shown : ∀ f, Shows (t f) (v f)) (body : List Byte) :
    readHeader py (magic ++ (Field.all.flatMap t ++ body)) = some (.ok (v, body)) := by
  have marked : magic.length = 6 := rfl
  rw [readHeader, List.take_left' marked, if_pos rfl, List.drop_left' marked, readFields_shown shown]
  simp [Field.mem_all]

theorem python2Cpio_shown {py : Python} {d : Entry} {t : Field → List Byte}
    (shown : ∀ f, Shows (t f) (d.fields f)) :
    python2Cpio py d = .ok (magic ++ (Field.all.flatMap t ++ (d.name ++ d.file))) := by
  rw [python2Cpio, writeFields_shown shown]
  rfl

/-! ## Entries -/

/-- After the magic there are thirteen fields as `cpio` writes them. -/
def HexHeader (x : List Byte) : Prop :=
  ∃ t : Field → List Byte, (∀ f, LowerHex (t f)) ∧ Field.all.flatMap t <+: x.drop 6

/-- All headers of an archive are like that. -/
inductive HexHeaders (py : Python) : List Byte → Prop
  | last {x rest : List Byte} {d : Entry} (hex : HexHeader x)
      (entry : cpio2Python py padded x = some (.ok (d, rest))) (trailer : d.isTrailer = true) :
      HexHeaders py x
  | more {x rest : List Byte} {d : Entry} (hex : HexHeader x)
      (entry : cpio2Python py padded x = some (.ok (d, rest))) (more : d.isTrailer = false)
      (later : HexHeaders py rest) : HexHeaders py x

section
variable {py : Python}

/-- An entry that was read is where it was read from. -/
theorem entry_text {x rest : List Byte} {e : Entry} (hex : HexHeader x)
    (entry : cpio2Python py padded x = some (.ok (e, rest))) :
    ∃ t : Field → List Byte, (∀ f, Shows (t f) (e.fields f)) ∧
      x = magic ++ (Field.all.flatMap t ++ (e.name ++ e.file ++ rest)) ∧
      readBody py padded e.fields (e.name ++ e.file ++ rest) = some (.ok (e, rest)) := by
  obtain ⟨t, lower, body, split⟩ := hex
  choose v shown using fun f => (lower f).shows
  obtain ⟨body', header, ends⟩ := cpio2Python_ok entry
  have marked : x = magic ++ (Field.all.flatMap t ++ body) := by
    rw [split, ← (readHeader_ok header).1, List.take_append_drop]
  rw [marked, readHeader_shown shown] at header
  cases header
  obtain ⟨-, parts⟩ := readBody_ok ends
  exact ⟨t, shown, by rw [parts]; exact marked, by rw [parts]; exact ends⟩

theorem read_replace {v : PyValue} {text rest rest' : List Byte}
    (got : read py v (text ++ rest) = .ok (text, rest)) (same : rest'.length = rest.length) :
    read py v (text ++ rest') = .ok (text, rest') := by
  by_cases none : rest = []
  · subst none
    rw [List.length_nil, List.length_eq_zero_iff] at same
    rw [same]
    exact got
  · have longer := List.length_pos_of_ne_nil none
    obtain ⟨k, count, cut⟩ := map_eq_ok.mp got
    have left : (text ++ rest).drop k = rest := congrArg Prod.snd cut
    have length : text.length = k := by
      have lengths := congrArg List.length left
      rw [List.length_drop, List.length_append] at lengths
      omega
    rw [List.length_append, ← same] at count
    simp [read, count, Except.map, ← length]

theorem padded_replace {skew : Nat} {text filling rest : List Byte}
    (filled : padded skew text (filling ++ rest) = some (text ++ filling, rest))
    (rest' : List Byte) : padded skew text (filling ++ rest') = some (text ++ filling, rest') := by
  obtain ⟨enough, -, left⟩ := padded_ok filled
  have lengths := congrArg List.length left
  rw [List.length_drop] at lengths
  rw [List.length_append] at lengths enough
  have length : filling.length = gap (skew + text.length) := by omega
  simp [padded, ← length]

/-- What comes after an entry does not matter, as long as it is as long. -/
theorem readBody_replace {d d' : Field → PyValue} {name file rest rest' : List Byte}
    (ends : readBody py padded d (name ++ file ++ rest) = some (.ok (⟨d, name, file⟩, rest)))
    (namesize : d' .namesize = d .namesize) (filesize : d' .filesize = d .filesize)
    (same : rest'.length = rest.length) :
    readBody py padded d' (name ++ file ++ rest') = some (.ok (⟨d', name, file⟩, rest')) := by
  obtain ⟨raw, fp₁, fp₂, raw', fp₃, got, filled, contents, filled', -⟩ := readBody_iff.mp ends
  obtain ⟨filling, rfl, rfl⟩ := padded_split filled
  obtain ⟨filling', rfl, rfl⟩ := padded_split filled'
  obtain rfl := read_append contents
  simp only [List.append_assoc] at got
  apply readBody_iff.mpr
  refine ⟨raw, filling ++ (raw' ++ (filling' ++ rest')), raw' ++ (filling' ++ rest'), raw',
    filling' ++ rest', ?_, padded_replace filled _, ?_, padded_replace filled' _, rfl⟩
  · simp only [List.append_assoc, namesize]
    exact read_replace got (by simp only [List.length_append, same])
  · rw [filesize]
    exact read_replace contents (by simp only [List.length_append, same])

/-! ## Archives -/

/-- An archive with such headers, and what is read from it. -/
inductive HexArchive (py : Python) : List Byte → List Entry → List Byte → Prop
  | last {x rest : List Byte} {d : Entry} (hex : HexHeader x)
      (entry : cpio2Python py padded x = some (.ok (d, rest))) (trailer : d.isTrailer = true) :
      HexArchive py x [d] rest
  | more {x rest padding : List Byte} {d : Entry} {files : List Entry} (hex : HexHeader x)
      (entry : cpio2Python py padded x = some (.ok (d, rest))) (more : d.isTrailer = false)
      (later : HexArchive py rest files padding) : HexArchive py x (d :: files) padding

theorem HexHeaders.archive {x : List Byte} (hex : HexHeaders py x) {rounds : Nat} {a : Archive}
    (parsed : readEntries py padded rounds x = some (.ok a)) :
    HexArchive py x a.files a.finalPadding := by
  induction hex generalizing rounds a with
  | last hex entry trailer =>
    cases rounds with
    | zero => cases parsed
    | succ rounds =>
      obtain ⟨⟨d, rest⟩, found, parsed⟩ := Call.bind_eq_ok parsed
      cases entry.symm.trans found
      rw [trailer] at parsed
      cases parsed
      exact .last hex entry trailer
  | more hex entry more _ ih =>
    cases rounds with
    | zero => cases parsed
    | succ rounds =>
      obtain ⟨⟨d, rest⟩, found, parsed⟩ := Call.bind_eq_ok parsed
      cases entry.symm.trans found
      rw [more] at parsed
      obtain ⟨later, others, joined⟩ := Call.bind_eq_ok parsed
      cases joined
      exact .more hex entry more (ih others)

theorem writeFiles_cons {d : Entry} {files : List Entry} {text rest : List Byte}
    (first : python2Cpio py d = .ok text) (later : writeFiles py files = .ok rest) :
    writeFiles py (d :: files) = .ok (text ++ rest) := by
  rw [writeFiles, first, later]
  rfl

theorem writeAs_ok {files : List Entry} {text : List Byte} (written : writeFiles py files = .ok text)
    (padding : List Byte) : writeAs py ⟨files, padding⟩ = .ok (text ++ padding) := by
  rw [writeAs, written]
  rfl

/-- An archive is written as it was read. -/
theorem HexArchive.written {x padding : List Byte} {files : List Entry}
    (archive : HexArchive py x files padding) :
    ∃ text, writeFiles py files = .ok text ∧ x = text ++ padding := by
  induction archive with
  | last hex entry trailer =>
    obtain ⟨t, shown, rfl, -⟩ := entry_text hex entry
    exact ⟨_, writeFiles_cons (python2Cpio_shown shown) rfl, by simp⟩
  | more hex entry _ _ ih =>
    obtain ⟨text, written, rfl⟩ := ih
    obtain ⟨t, shown, rfl, -⟩ := entry_text hex entry
    exact ⟨_, writeFiles_cons (python2Cpio_shown shown) written, by simp⟩

/-- The fields of an entry have been changed, but name and file are as they were. -/
structure Rewritten (d d' : Entry) : Prop where
  name : d'.name = d.name
  file : d'.file = d.file
  namesize : d'.fields .namesize = d.fields .namesize
  filesize : d'.fields .filesize = d.fields .filesize
  shown : (∀ f, ∃ text, Shows text (d.fields f)) → ∀ f, ∃ text, Shows text (d'.fields f)

theorem Rewritten.refl (d : Entry) : Rewritten d d := ⟨rfl, rfl, rfl, rfl, id⟩

theorem length_fields {d : Field → PyValue} {t : Field → List Byte}
    (shown : ∀ f, Shows (t f) (d f)) : (Field.all.flatMap t).length = 104 := by
  simp [(shown _).length, Field.all]

theorem entry_reread {x rest rest' : List Byte} {d d' : Entry} (hex : HexHeader x)
    (entry : cpio2Python py padded x = some (.ok (d, rest))) (changed : Rewritten d d')
    (same : rest'.length = rest.length) :
    ∃ text, python2Cpio py d' = .ok text ∧ (text ++ rest').length = x.length ∧
      cpio2Python py padded (text ++ rest') = some (.ok (d', rest')) := by
  obtain ⟨t, shown, rfl, body⟩ := entry_text hex entry
  choose t' shown' using changed.shown fun f => ⟨t f, shown f⟩
  refine ⟨_, python2Cpio_shown shown', ?_, ?_⟩
  · simp only [List.length_append, length_fields shown, length_fields shown', changed.name,
      changed.file, same]
    omega
  · have reread := readBody_replace body changed.namesize changed.filesize same
    rw [← changed.name, ← changed.file] at reread
    simp only [List.append_assoc] at reread ⊢
    rw [cpio2Python_header (readHeader_shown shown' _)]
    exact reread

theorem readEntries_last {x rest : List Byte} {d : Entry}
    (entry : cpio2Python py padded x = some (.ok (d, rest))) (trailer : d.isTrailer = true) :
    readEntries py padded 1 x = some (.ok ⟨[d], rest⟩) := by
  rw [readEntries, entry]
  change (if d.isTrailer then _ else _) = _
  rw [trailer]
  rfl

theorem readEntries_more {x rest : List Byte} {d : Entry} {rounds : Nat} {a : Archive}
    (entry : cpio2Python py padded x = some (.ok (d, rest))) (more : d.isTrailer = false)
    (later : readEntries py padded rounds rest = some (.ok a)) :
    readEntries py padded (rounds + 1) x = some (.ok ⟨d :: a.files, a.finalPadding⟩) := by
  rw [readEntries, entry]
  change (if d.isTrailer then _ else _) = _
  rw [more, later]
  rfl

theorem Rewritten.isTrailer {d d' : Entry} (changed : Rewritten d d') :
    d'.isTrailer = d.isTrailer := by
  rw [Entry.isTrailer, changed.name, Entry.isTrailer]

/-- An archive with changed fields is as long, and is read as it was written. -/
theorem HexArchive.reread {x padding : List Byte} {files files' : List Entry}
    (archive : HexArchive py x files padding) (changed : List.Forall₂ Rewritten files files') :
    ∃ text rounds, writeFiles py files' = .ok text ∧ (text ++ padding).length = x.length ∧
      readEntries py padded rounds (text ++ padding) = some (.ok ⟨files', padding⟩) := by
  induction archive generalizing files' with
  | last hex entry trailer =>
    obtain _ | ⟨first, none⟩ := changed
    cases none
    obtain ⟨text, written, length, again⟩ := entry_reread hex entry first rfl
    refine ⟨_, 1, writeFiles_cons written rfl, ?_, ?_⟩
    · rwa [List.append_nil]
    · rw [List.append_nil]
      exact readEntries_last again (first.isTrailer.trans trailer)
  | more hex entry more _ ih =>
    obtain _ | ⟨first, others⟩ := changed
    obtain ⟨rest, rounds, written, same, parsed⟩ := ih others
    obtain ⟨text, first', length, again⟩ := entry_reread hex entry first same
    refine ⟨_, rounds + 1, writeFiles_cons first' written, ?_, ?_⟩
    · rwa [List.append_assoc]
    · rw [List.append_assoc]
      exact readEntries_more again (first.isTrailer.trans more) parsed

/-! ## The console -/

theorem consoleAdded_ok {files files' : List Entry} (added : consoleAdded files = .ok files') :
    ∃ before d later, files = before ++ d :: later ∧ (∀ e ∈ before, e.isConsole = false) ∧
      d.isConsole = true ∧ files' = before ++ d.console :: later := by
  induction files generalizing files' with
  | nil => cases added
  | cons d files ih =>
    rw [consoleAdded] at added
    cases found : d.isConsole with
    | true =>
      rw [found] at added
      cases added
      exact ⟨[], d, files, rfl, by simp, found, rfl⟩
    | false =>
      rw [found] at added
      obtain ⟨rest, next, rfl⟩ := map_eq_ok.mp added
      obtain ⟨before, e, later, rfl, none, console, rfl⟩ := ih next
      refine ⟨d :: before, e, later, rfl, ?_, console, rfl⟩
      intro e' member
      rcases List.mem_cons.mp member with rfl | member
      · exact found
      · exact none e' member

/-- Digits as they are written for small numbers. -/
theorem shows_hex8 : Shows (hex8 8576) (.int 8576) ∧ Shows (hex8 5) (.int 5) ∧
    Shows (hex8 1) (.int 1) := by
  refine ⟨⟨[0, 0, 0, 0, 2, 1, 8, 0], rfl, by decide, by decide, rfl⟩,
    ⟨[0, 0, 0, 0, 0, 0, 0, 5], rfl, by decide, by decide, rfl⟩,
    ⟨[0, 0, 0, 0, 0, 0, 0, 1], rfl, by decide, by decide, rfl⟩⟩

/-- How the fields of the console look. -/
def consoleText (t : Field → List Byte) (f : Field) : List Byte :=
  match f with
  | .rdevmajor => hex8 5
  | .rdevminor => hex8 1
  | .mode => hex8 8576
  | f => t f

theorem shows_console {d : Entry} {t : Field → List Byte} (shown : ∀ f, Shows (t f) (d.fields f))
    (f : Field) : Shows (consoleText t f) (d.console.fields f) := by
  obtain ⟨mode, major, minor⟩ := shows_hex8
  cases f with
  | rdevmajor => exact major
  | rdevminor => exact minor
  | mode => exact mode
  | ino | uid | gid | nlink | mtime | filesize | devmajor | devminor | namesize | check =>
    exact shown _

theorem rewritten_console (d : Entry) : Rewritten d d.console := by
  refine ⟨rfl, rfl, rfl, rfl, ?_⟩
  intro shown
  choose t shown using shown
  exact fun f => ⟨_, shows_console shown f⟩

/-- `t` in the place of what is at `i`. -/
def splice (s : List Byte) (i : Nat) (t : List Byte) : List Byte :=
  s.take i ++ t ++ s.drop (i + t.length)

theorem splice_append {a b c t : List Byte} {i : Nat} (start : a.length = i)
    (same : b.length = t.length) : splice (a ++ (b ++ c)) i t = a ++ (t ++ c) := by
  rw [splice, List.take_left' start, ← same, ← List.drop_drop, List.drop_left' start,
    List.drop_left' rfl, List.append_assoc]

theorem splice_three {a b c m m' r r' s s' : List Byte} {i j k : Nat} (first : a.length = i)
    (second : (a ++ m' ++ b).length = j) (third : (a ++ m' ++ b ++ r').length = k)
    (mode : m.length = m'.length) (major : r.length = r'.length) (minor : s.length = s'.length) :
    splice (splice (splice (a ++ (m ++ (b ++ (r ++ (s ++ c))))) i m') j r') k s' =
      a ++ (m' ++ (b ++ (r' ++ (s' ++ c)))) := by
  have step₁ := @splice_append a m (b ++ (r ++ (s ++ c))) m' i first mode
  have step₂ := @splice_append (a ++ m' ++ b) r (s ++ c) r' j second major
  have step₃ := @splice_append (a ++ m' ++ b ++ r') s c s' k third minor
  simp only [List.append_assoc] at step₁ step₂ step₃
  rw [step₁, step₂, step₃]

/-- The console differs in three fields. -/
theorem console_text {d : Entry} {t : Field → List Byte} (shown : ∀ f, Shows (t f) (d.fields f))
    (start body : List Byte) :
    start ++ (magic ++ (Field.all.flatMap (consoleText t) ++ body)) =
      splice (splice (splice (start ++ (magic ++ (Field.all.flatMap t ++ body)))
        (start.length + 14) (hex8 8576)) (start.length + 78) (hex8 5)) (start.length + 86) (hex8 1) := by
  have field (f : Field) : (t f).length = 8 := (shown f).length
  obtain ⟨mode, major, minor⟩ := shows_hex8
  have marked : magic.length = 6 := rfl
  have three := @splice_three (start ++ (magic ++ t .ino))
    (t .uid ++ (t .gid ++ (t .nlink ++ (t .mtime ++ (t .filesize ++ (t .devmajor ++ t .devminor))))))
    (t .namesize ++ (t .check ++ body)) (t .mode) (hex8 8576) (t .rdevmajor) (hex8 5)
    (t .rdevminor) (hex8 1) (start.length + 14) (start.length + 78) (start.length + 86)
    (by simp only [List.length_append, field, marked])
    (by simp only [List.length_append, field, marked, mode.length])
    (by simp only [List.length_append, field, marked, mode.length, major.length])
    (by rw [field, mode.length]) (by rw [field, major.length]) (by rw [field, minor.length])
  simp only [List.append_assoc] at three
  simp only [Field.all, List.flatMap_cons, List.flatMap_nil, List.append_assoc, consoleText,
    List.nil_append]
  exact three.symm

theorem HexArchive.shown {x padding : List Byte} {files : List Entry}
    (archive : HexArchive py x files padding) :
    ∀ e ∈ files, ∃ t : Field → List Byte, ∀ f, Shows (t f) (e.fields f) := by
  induction archive with
  | last hex entry _ =>
    intro e member
    obtain ⟨t, shown, -, -⟩ := entry_text hex entry
    rw [List.mem_singleton.mp member]
    exact ⟨t, shown⟩
  | more hex entry _ _ ih =>
    intro e member
    rcases List.mem_cons.mp member with rfl | later
    · obtain ⟨t, shown, -, -⟩ := entry_text hex entry
      exact ⟨t, shown⟩
    · exact ih e later

theorem writeFiles_shown {files : List Entry}
    (shown : ∀ e ∈ files, ∃ t : Field → List Byte, ∀ f, Shows (t f) (e.fields f)) :
    ∃ text, writeFiles py files = .ok text := by
  induction files with
  | nil => exact ⟨[], rfl⟩
  | cons d files ih =>
    obtain ⟨rest, written⟩ := ih fun e member => shown e (List.mem_cons_of_mem _ member)
    obtain ⟨t, fields⟩ := shown d List.mem_cons_self
    exact ⟨_, writeFiles_cons (python2Cpio_shown fields) written⟩

theorem writeFiles_append {files later : List Entry} {text rest : List Byte}
    (first : writeFiles py files = .ok text) (second : writeFiles py later = .ok rest) :
    writeFiles py (files ++ later) = .ok (text ++ rest) := by
  induction files generalizing text with
  | nil =>
    cases first
    exact second
  | cons d files ih =>
    obtain ⟨text, one, first⟩ := bind_eq_ok.mp first
    obtain ⟨rest, others, joined⟩ := bind_eq_ok.mp first
    cases joined
    rw [List.cons_append, List.append_assoc]
    exact writeFiles_cons one (ih others)

theorem console_rewritten (before : List Entry) (d : Entry) (later : List Entry) :
    List.Forall₂ Rewritten (before ++ d :: later) (before ++ d.console :: later) := by
  induction before with
  | nil => exact .cons (rewritten_console d) (List.forall₂_same.mpr fun e _ => .refl e)
  | cons e before ih => exact .cons (.refl e) ih

theorem console_names (before : List Entry) (d : Entry) (later : List Entry) :
    (before ++ d.console :: later).map (fun e => (e.name, e.file)) =
      (before ++ d :: later).map (fun e => (e.name, e.file)) := by
  simp [Entry.console]

end

/-- Where a field is in an entry. -/
def Field.offset (f : Field) : Nat := 6 + 8 * Field.all.idxOf f

/-- An archive with headers as `cpio` writes them is written back as it is. If the console is
made a device node, only three fields of its first entry change, and names and files are read
as before. -/
theorem rewriting_exact (py : Python) (x : List Byte) (a : Archive)
    (parsed : ∃ rounds, cpioArchive py rounds x = some (.ok a)) (hex : HexHeaders py x) :
    writeAs py a = .ok x ∧
    ∀ a', addConsoleDevice a = .ok a' →
      ∃ before d later start out, a.files = before ++ d :: later ∧
        (∀ e ∈ before, e.isConsole = false) ∧ d.isConsole = true ∧
        writeFiles py before = .ok start ∧ start <+: x ∧
        out = splice (splice (splice x
          (start.length + Field.mode.offset) (ascii "00002180"))
          (start.length + Field.rdevmajor.offset) (ascii "00000005"))
          (start.length + Field.rdevminor.offset) (ascii "00000001") ∧
        writeAs py a' = .ok out ∧
        ∃ rounds a'', cpioArchive py rounds out = some (.ok a'') ∧
          a''.files.map (fun e => (e.name, e.file)) = a.files.map (fun e => (e.name, e.file)) := by
  obtain ⟨rounds, parsed⟩ := cpioArchive_iff.mp parsed
  have archive := hex.archive parsed
  obtain ⟨text, written, whole⟩ := archive.written
  refine ⟨?_, ?_⟩
  · rw [whole]
    exact writeAs_ok written a.finalPadding
  · intro a' added
    obtain ⟨files', next, rfl⟩ := map_eq_ok.mp added
    obtain ⟨before, d, later, split, none, console, rfl⟩ := consoleAdded_ok next
    have shown := archive.shown
    rw [split] at archive shown written
    obtain ⟨start, begun⟩ := @writeFiles_shown py before
      fun e member => shown e (List.mem_append_left _ member)
    obtain ⟨tail, ended⟩ := @writeFiles_shown py later
      fun e member => shown e (List.mem_append_right _ (List.mem_cons_of_mem _ member))
    obtain ⟨t, fields⟩ := shown d (List.mem_append_right _ List.mem_cons_self)
    have read := writeFiles_append begun (writeFiles_cons (python2Cpio_shown fields) ended)
    have wrote := writeFiles_append begun
      (writeFiles_cons (python2Cpio_shown (shows_console fields)) ended)
    obtain ⟨text', rounds', written', -, again⟩ :=
      archive.reread (console_rewritten before d later)
    obtain rfl := Except.ok.inj (read.symm.trans written)
    obtain rfl := Except.ok.inj (wrote.symm.trans written')
    obtain ⟨rounds'', again⟩ := cpioArchive_iff.mpr ⟨rounds', again⟩
    refine ⟨before, d, later, start, _, split, none, console, begun, ?_, ?_,
      writeAs_ok written' _, rounds'', _, again, ?_⟩
    · rw [whole, List.append_assoc]
      exact List.prefix_append _ _
    · have text := console_text fields start (d.name ++ (d.file ++ (tail ++ a.finalPadding)))
      simp only [List.append_assoc] at whole ⊢
      rw [whole]
      exact text
    · rw [split]
      exact console_names before d later

/-- The fields of an empty file with a name of so many bytes. -/
def emptyFile (namesize : Nat) : Field → PyValue
  | .mode => .int 0x81a4
  | .nlink => .int 1
  | .namesize => .int namesize
  | _ => .int 0

def emptyFileText (namesize : List Byte) : Field → List Byte
  | .mode => ascii "000081a4"
  | .nlink => ascii "00000001"
  | .namesize => namesize
  | _ => ascii "00000000"

theorem shows_emptyFile {n : Nat} {text : List Byte} (namesize : Shows text (.int n)) (f : Field) :
    Shows (emptyFileText text f) (emptyFile n f) := by
  have zero : Shows (ascii "00000000") (.int 0) :=
    ⟨[0, 0, 0, 0, 0, 0, 0, 0], rfl, by decide, by decide, rfl⟩
  have one : Shows (ascii "00000001") (.int 1) :=
    ⟨[0, 0, 0, 0, 0, 0, 0, 1], rfl, by decide, by decide, rfl⟩
  have regular : Shows (ascii "000081a4") (.int 0x81a4) :=
    ⟨[0, 0, 0, 0, 8, 1, 10, 4], rfl, by decide, by decide, rfl⟩
  cases f with
  | mode => exact regular
  | nlink => exact one
  | namesize => exact namesize
  | ino | uid | gid | mtime | filesize | devmajor | devminor | rdevmajor | rdevminor | check =>
    exact zero

/-- An entry for an empty file. -/
def emptyEntry (namesize name rest : List Byte) : List Byte :=
  magic ++ (Field.all.flatMap (emptyFileText namesize) ++ (name ++ rest))

theorem emptyEntry_hex {n : Nat} {text : List Byte} (namesize : Shows text (.int n))
    (name rest : List Byte) : HexHeader (emptyEntry text name rest) := by
  have marked : magic.length = 6 := rfl
  refine ⟨emptyFileText text, ?_, ?_⟩
  · intro f
    obtain ⟨ds, length, digits, text, -⟩ := shows_emptyFile namesize f
    exact ⟨ds, length, digits, text⟩
  · rw [emptyEntry, List.drop_left' marked]
    exact List.prefix_append _ _

theorem emptyEntry_read (py : Python) {n : Nat} {text name filling : List Byte}
    (namesize : Shows text (.int n)) (length : name.length = n)
    (filled : filling.length = gap (2 + n)) (rest : List Byte) :
    cpio2Python py padded (emptyEntry text (name ++ filling) rest) =
      some (.ok (⟨emptyFile n, name ++ filling, []⟩, rest)) := by
  subst length
  rw [emptyEntry, cpio2Python_header (readHeader_shown (shows_emptyFile namesize) _)]
  apply readBody_iff.mpr
  refine ⟨name, filling ++ rest, rest, [], rest, ?_, ?_, ?_, ?_, rfl⟩
  · have positive : ¬ (name.length : Int) < 0 := by omega
    simp [read, amount, emptyFile, positive, Except.map]
  · simp [padded, ← filled]
  · simp [read, amount, emptyFile, Except.map]
  · simp [padded, gap]

theorem shows_twelve : Shows (ascii "0000000c") (.int (12 : Nat)) :=
  ⟨[0, 0, 0, 0, 0, 0, 0, 12], rfl, by decide, by decide, rfl⟩

theorem shows_eleven : Shows (ascii "0000000b") (.int (11 : Nat)) :=
  ⟨[0, 0, 0, 0, 0, 0, 0, 11], rfl, by decide, by decide, rfl⟩

/-- An archive that holds nothing but a dummy for the console. -/
def consoleArchive : List Byte :=
  emptyEntry (ascii "0000000c") (ascii "dev/console\x00" ++ List.replicate 2 0#8)
    (emptyEntry (ascii "0000000b") (ascii "TRAILER!!!\x00" ++ List.replicate 3 0#8) [])

theorem console_archive_rewritten : ∃ a a' out, writeAs plainPython a = .ok consoleArchive ∧
    addConsoleDevice a = .ok a' ∧ writeAs plainPython a' = .ok out ∧
    ∃ rounds a'', cpioArchive plainPython rounds out = some (.ok a'') := by
  have trailer := emptyEntry_read plainPython shows_eleven (by decide : (ascii "TRAILER!!!\x00").length = 11)
    (by decide : (List.replicate 3 0#8).length = _) []
  have console := emptyEntry_read plainPython shows_twelve (by decide : (ascii "dev/console\x00").length = 12)
    (by decide : (List.replicate 2 0#8).length = _)
    (emptyEntry (ascii "0000000b") (ascii "TRAILER!!!\x00" ++ List.replicate 3 0#8) [])
  have parsed := cpioArchive_iff.mpr
    ⟨2, readEntries_more console (by decide) (readEntries_last trailer (by decide))⟩
  have hex : HexHeaders plainPython consoleArchive :=
    .more (emptyEntry_hex shows_twelve _ _) console (by decide)
      (.last (emptyEntry_hex shows_eleven _ _) trailer (by decide))
  obtain ⟨back, added⟩ := rewriting_exact plainPython consoleArchive _ parsed hex
  obtain ⟨-, -, -, -, out, -, -, -, -, -, -, written, rounds, a'', again, -⟩ := added _ rfl
  exact ⟨_, _, out, back, rfl, written, rounds, a'', again⟩

end Bifferboard.Image.Cpio
