import Bifferboard.Nor.Memory

/-!
# Files that are renamed

`main_message` and `main_therm` write a file under a name in `/tmp` and rename it to the
name under which `chmon` reads it. Each of the calls is a step of its own. The file is
opened without `O_TRUNC`, and every request uses the same name in `/tmp`.

So requests that overlap write over each other. One at a time, they leave a file alone
once it has its name.
-/

namespace Bifferboard.Heating
open Nor

/-- The call that a request makes next. -/
inductive Stage where
  | atUnlink
  | atOpen
  | atWrite (inode : Nat)
  | atRename
  deriving DecidableEq, Repr

/-- A request, with the text that it writes. -/
structure Writer where
  text : List Byte
  stage : Stage
  deriving DecidableEq, Repr

/-- The files that one kind of request has made, and those that stand under the two names. -/
structure Spool where
  inodes : List (List Byte)
  tmp : Option Nat
  named : Option Nat
  writers : List Writer
  /-- The texts of the requests that have made their last call. -/
  posted : List (List Byte)
  deriving DecidableEq, Repr

namespace Spool

def content (s : Spool) (inode : Nat) : List Byte := s.inodes.getD inode []

/-- `write` at the start of a file. What was longer stays. -/
def overwrite (inode : Nat) (text : List Byte) (s : Spool) : Spool :=
  { s with inodes := s.inodes.set inode (text ++ (s.content inode).drop text.length) }

def unlink (s : Spool) : Spool := { s with named := none }

/-- `open` with `O_CREAT`, of the name in `/tmp`. -/
def openTmp (s : Spool) : Nat × Spool :=
  match s.tmp with
  | some inode => (inode, s)
  | none => (s.inodes.length, { s with inodes := s.inodes ++ [[]], tmp := some s.inodes.length })

/-- `fopen` with `"w"`, of the other name. -/
def fopen (s : Spool) : Nat × Spool :=
  match s.named with
  | some inode => (inode, { s with inodes := s.inodes.set inode [] })
  | none => (s.inodes.length, { s with inodes := s.inodes ++ [[]], named := some s.inodes.length })

def rename (s : Spool) : Spool :=
  match s.tmp with
  | some inode => { s with tmp := none, named := some inode }
  | none => s

def begin (w : Writer) (s : Spool) : Spool := { s with writers := s.writers ++ [w] }

/-- A request makes its next call. -/
def next (k : Nat) (s : Spool) : Spool :=
  match s.writers[k]? with
  | none => s
  | some w =>
    match w.stage with
    | .atUnlink => { s.unlink with writers := s.writers.set k ⟨w.text, .atOpen⟩ }
    | .atOpen => { s.openTmp.2 with writers := s.writers.set k ⟨w.text, .atWrite s.openTmp.1⟩ }
    | .atWrite inode =>
      { s.overwrite inode w.text with writers := s.writers.set k ⟨w.text, .atRename⟩ }
    | .atRename =>
      { s.rename with writers := s.writers.eraseIdx k, posted := s.posted ++ [w.text] }

/-- Nobody writes, and nothing is left in `/tmp`. -/
def holding (file : Option (List Byte)) : Spool :=
  ⟨file.toList, none, file.map fun _ => 0, [], file.toList⟩

/-! ## One request at a time -/

variable {s : Spool}

/-- Where a request is that is alone. -/
def At (s : Spool) (w : Writer) : Prop :=
  match w.stage with
  | .atUnlink | .atOpen => s.tmp = none
  | .atWrite inode => s.tmp = some inode ∧ s.content inode = []
  | .atRename => ∃ inode, s.tmp = some inode ∧ s.content inode = w.text

/-- The file is there, and not under the name in `/tmp`. -/
def Kept (s : Spool) (inode : Nat) : Prop := inode < s.inodes.length ∧ s.tmp ≠ some inode

structure Tidy (s : Spool) : Prop where
  alone : s.writers = [] ∧ s.tmp = none ∨ ∃ w, s.writers = [w] ∧ s.At w
  known : ∀ inode, s.tmp = some inode → inode < s.inodes.length
  kept : ∀ inode, s.named = some inode → s.Kept inode

theorem holding_tidy (file : Option (List Byte)) : (holding file).Tidy := by
  refine ⟨.inl ⟨rfl, rfl⟩, ?_, ?_⟩
  · intro inode tmp
    cases tmp
  · intro inode named
    cases file with
    | none => cases named
    | some text =>
      cases named
      exact ⟨Nat.one_pos, (Option.some_ne_none _).symm⟩

theorem Tidy.begin (tidy : s.Tidy) (idle : s.writers = []) {w : Writer}
    (first : w.stage = .atUnlink ∨ w.stage = .atOpen) : (s.begin w).Tidy := by
  have empty : s.tmp = none := by
    rcases tidy.alone with ⟨-, none⟩ | ⟨w', busy, -⟩
    · exact none
    · rw [idle] at busy
      cases busy
  refine ⟨.inr ⟨w, by rw [Spool.begin, idle, List.nil_append], ?_⟩, tidy.known, tidy.kept⟩
  unfold At
  rcases first with first | first
  · rw [first]
    exact empty
  · rw [first]
    exact empty

theorem Tidy.unlink (tidy : s.Tidy) : s.unlink.Tidy :=
  ⟨tidy.alone, tidy.known, fun inode named => by cases named⟩

theorem content_append {inode : Nat} (text : List Byte) (known : inode < s.inodes.length) :
    (s.inodes ++ [text]).getD inode [] = s.content inode := by
  rw [content, List.getD_append _ _ _ _ known]

theorem content_set {inode other : Nat} (text : List Byte) (differs : inode ≠ other) :
    (s.inodes.set inode text).getD other [] = s.content other := by
  rw [content, List.getD_eq_getElem?_getD, List.getElem?_set_ne differs, List.getD_eq_getElem?_getD]

/-- What a call does, if the request is alone: no file changes that is not in `/tmp`, and a
file that is given its name has the text of the request in it. -/
structure Called (s s' : Spool) : Prop where
  tidy : s'.Tidy
  files : ∀ inode, s.Kept inode → s'.Kept inode ∧ s'.content inode = s.content inode
  names : s'.posted = s.posted ∧ (s'.named = s.named ∨ s'.named = none) ∨
    ∃ inode, s'.named = some inode ∧ s'.posted = s.posted ++ [s'.content inode]

section
variable {w : Writer} (tidy : s.Tidy)
include tidy

theorem Tidy.called_unlink (empty : s.tmp = none) (stage : w.stage = .atOpen) :
    Called s { s.unlink with writers := [w] } where
  tidy := by
    refine ⟨.inr ⟨w, rfl, ?_⟩, tidy.known, tidy.unlink.kept⟩
    unfold At
    rw [stage]
    exact empty
  files inode kept := ⟨kept, rfl⟩
  names := .inl ⟨rfl, .inr rfl⟩

theorem Tidy.called_open (stage : w.stage = .atWrite s.inodes.length) :
    Called s { s with inodes := s.inodes ++ [[]], tmp := some s.inodes.length, writers := [w] } := by
  have more : s.inodes.length < (s.inodes ++ [[]]).length := by simp
  have stay (inode : Nat) (kept : s.Kept inode) : inode < (s.inodes ++ [[]]).length ∧
      some s.inodes.length ≠ some inode :=
    ⟨Nat.lt_trans kept.1 more, fun same => Nat.ne_of_gt kept.1 (Option.some.inj same)⟩
  refine ⟨⟨.inr ⟨w, rfl, ?_⟩, ?_, ?_⟩, ?_, .inl ⟨rfl, .inl rfl⟩⟩
  · unfold At
    rw [stage]
    refine ⟨rfl, ?_⟩
    change (s.inodes ++ [[]]).getD s.inodes.length [] = []
    simp
  · intro inode tmp
    cases tmp
    exact more
  · intro inode named
    exact stay inode (tidy.kept inode named)
  · intro inode kept
    exact ⟨stay inode kept, content_append _ kept.1⟩

theorem Tidy.called_write {inode : Nat} (tmp : s.tmp = some inode) (empty : s.content inode = [])
    (stage : w.stage = .atRename) : Called s { s.overwrite inode w.text with writers := [w] } := by
  have same : (s.overwrite inode w.text).inodes.length = s.inodes.length := List.length_set
  refine ⟨⟨.inr ⟨w, rfl, ?_⟩, ?_, ?_⟩, ?_, .inl ⟨rfl, .inl rfl⟩⟩
  · unfold At
    rw [stage]
    refine ⟨inode, tmp, ?_⟩
    change (s.overwrite inode w.text).inodes.getD inode [] = w.text
    rw [overwrite, List.getD_eq_getElem?_getD, List.getElem?_set_self (tidy.known inode tmp), empty,
      List.drop_nil, List.append_nil, Option.getD_some]
  · intro other tmp
    exact Nat.lt_of_lt_of_eq (tidy.known other tmp) same.symm
  · intro other named
    exact ⟨Nat.lt_of_lt_of_eq (tidy.kept other named).1 same.symm, (tidy.kept other named).2⟩
  · intro other kept
    refine ⟨⟨Nat.lt_of_lt_of_eq kept.1 same.symm, kept.2⟩, content_set _ ?_⟩
    rintro rfl
    exact kept.2 tmp

theorem Tidy.called_rename {inode : Nat} (tmp : s.tmp = some inode) (written : s.content inode = w.text) :
    Called s { s with tmp := none, named := some inode, writers := [], posted := s.posted ++ [w.text] } := by
  refine ⟨⟨.inl ⟨rfl, rfl⟩, ?_, ?_⟩, ?_, .inr ⟨inode, rfl, ?_⟩⟩
  · intro other none
    cases none
  · intro other named
    cases named
    exact ⟨tidy.known inode tmp, (Option.some_ne_none _).symm⟩
  · intro other kept
    exact ⟨⟨kept.1, (Option.some_ne_none _).symm⟩, rfl⟩
  · rw [← written]
    rfl

theorem Tidy.next (k : Nat) : Called s (s.next k) := by
  unfold Spool.next
  cases writer : s.writers[k]? with
  | none => exact ⟨tidy, fun inode kept => ⟨kept, rfl⟩, .inl ⟨rfl, .inl rfl⟩⟩
  | some w =>
    obtain ⟨rfl, only, place⟩ : k = 0 ∧ s.writers = [w] ∧ s.At w := by
      rcases tidy.alone with ⟨idle, -⟩ | ⟨w', busy, place⟩
      · rw [idle] at writer
        cases writer
      · rw [busy, List.getElem?_singleton] at writer
        obtain ⟨first, same⟩ := Option.ite_none_right_eq_some.mp writer
        cases same
        exact ⟨first, busy, place⟩
    unfold At at place
    dsimp only
    rw [only]
    cases stage : w.stage with
    | atUnlink =>
      rw [stage] at place
      exact tidy.called_unlink place rfl
    | atOpen =>
      rw [stage] at place
      dsimp only
      rw [openTmp, place]
      exact tidy.called_open rfl
    | atWrite inode =>
      rw [stage] at place
      exact tidy.called_write (w := ⟨w.text, .atRename⟩) place.1 place.2 rfl
    | atRename =>
      rw [stage] at place
      obtain ⟨inode, tmp, written⟩ := place
      dsimp only
      rw [rename, tmp]
      exact tidy.called_rename tmp written

end

/-- Requests that overlap: the second opens the file of the first and writes over it, and
what the first one renames is neither text. -/
theorem overlapping_requests (first second : List Byte) :
    let s := [0, 0, 0, 1, 1, 1, 0].foldl (fun s k => s.next k)
      (((holding none).begin ⟨first, .atUnlink⟩).begin ⟨second, .atUnlink⟩)
    s.posted = [first] ∧ s.named.map s.content = some (second ++ first.drop second.length) := by
  simp [holding, begin, next, unlink, openTmp, overwrite, rename, content]

end Spool

end Bifferboard.Heating
