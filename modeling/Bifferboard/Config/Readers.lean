import Mathlib.Data.Nat.Init
import Bifferboard.Config.Block

/-!
# The two readers of the configuration

`biffconfig` takes the command line to end at its first NUL, `GetValues` strips the
NULs at the end of the field. `biffconfig` copies a new command line over the old
one, so the two differ when something of a longer one is left. A field of NULs only
makes `GetValues` fail.
-/

namespace Bifferboard.Config
open Nor Upload

/-! ## Finding the end of the command line -/

section
variable {m : Mem} {len extent : Nat}

/-- Indices from the end are the same bytes again. -/
theorem pyIndex_load {k : Nat} (inside : k < 2048) :
    pyIndex (m.load 12 1024) (k - 1024) = some (m (12 + k % 1024)) := by
  have found (j : Nat) (small : j < 1024) : (m.load 12 1024)[j]? = some (m (12 + j)) := by
    rw [Mem.load, List.getElem?_map, List.getElem?_range small, Option.map_some]
  unfold pyIndex
  rw [Mem.length_load]
  by_cases forward : (0 : Int) ≤ k - 1024
  · rw [if_pos forward, show ((k : Int) - 1024).toNat = k % 1024 by omega]
    exact found _ (Nat.mod_lt k (by decide))
  · rw [if_neg forward, if_pos (by omega),
      show (((1024 : Nat) : Int) + (k - 1024)).toNat = k % 1024 by omega]
    exact found _ (Nat.mod_lt k (by decide))

theorem findEnd_succ {k : Nat} (inside : k < 2048) : findEnd (m.load 12 1024) (k + 1) =
    if m (12 + k % 1024) = 0#8 then findEnd (m.load 12 1024) k else .ok (k - 1024) := by
  rw [findEnd, pyIndex_load inside]

/-- The loop stops at the last byte that is not NUL. -/
theorem findEnd_extent (h : m.Field 12 1024 len extent) {i : Nat} (nonempty : extent = i + 1) :
    findEnd (m.load 12 1024) 2048 = .ok i := by
  have upper := h.upper
  have down (k : Nat) (low : i + 1025 ≤ k) (high : k ≤ 2048) :
      findEnd (m.load 12 1024) k = .ok i := by
    induction k, low using Nat.le_induction with
    | base =>
      rw [show i + 1025 = i + 1024 + 1 by omega, findEnd_succ (by omega),
        show (i + 1024) % 1024 = i by omega, if_neg (h.last i nonempty)]
      exact congrArg Except.ok (by omega)
    | succ k low ih =>
      have nul : m (12 + k % 1024) = 0#8 := h.rest (k % 1024) (by omega) (Nat.mod_lt k (by decide))
      rw [findEnd_succ (by omega), if_pos nul]
      exact ih (by omega)
  exact down 2048 (by omega) (Nat.le_refl _)

/-- If there is none, the loop runs out of the string. -/
theorem findEnd_empty (h : m.Field 12 1024 len 0) :
    findEnd (m.load 12 1024) 2048 = .error "string index out of range" := by
  have down (k : Nat) (high : k ≤ 2048) :
      findEnd (m.load 12 1024) k = .error "string index out of range" := by
    induction k with
    | zero => rfl
    | succ k ih =>
      have nul : m (12 + k % 1024) = 0#8 := h.rest _ (Nat.zero_le _) (Nat.mod_lt k (by decide))
      rw [findEnd_succ high, if_pos nul]
      exact ih (Nat.le_of_succ_le high)
  exact down 2048 (Nat.le_refl _)

end

/-! ## Choices -/

theorem valueOf_invalid (c : Choice) : valueOf c (ascii "Invalid") = none := by
  cases c <;> decide

theorem valueOf_name (c : Choice) : ∀ n < (renderNames c).length,
    valueOf c (ascii ((renderNames c).getD n "Invalid")) = some n := by
  cases c <;> decide

/-- What is shown has the value of the byte, if that has a name. -/
theorem valueOf_render (c : Choice) (n : Nat) :
    valueOf c (ascii ((renderNames c).getD n "Invalid")) = some n ↔ n < (renderNames c).length := by
  constructor
  · intro shown
    by_contra unnamed
    rw [List.getD_eq_default _ _ (Nat.le_of_not_lt unnamed), valueOf_invalid] at shown
    cases shown
  · exact valueOf_name c n

/-! ## One block -/

/-- What `GetValues` returns for a field that is not empty. -/
theorem getValues_ok {g : Mem} {len extent : Nat} (h : g.Field 12 1024 len extent)
    (positive : 0 < extent) : getValues g = .ok {
      version := g.dword 0
      choices := fun c => g c.offset
      loadaddress := g.dword 8
      cmdline := g.load 12 extent
      kernelmax := g.word 1036 } := by
  obtain ⟨i, rfl⟩ := Nat.exists_eq_add_of_lt positive
  rw [Nat.zero_add] at h ⊢
  have upper := h.upper
  have stripped : pyTake (g.load 12 1024) (i + 1) = g.load 12 (i + 1) := by
    rw [pyTake, if_pos (by omega), show ((i : Int) + 1).toNat = i + 1 by omega, Mem.take_load,
      Nat.min_eq_left upper]
  rw [getValues, findEnd_extent h rfl, ← stripped]
  simp only [Except.map, Except.ok.injEq, Values.mk.injEq, true_and, and_true]
  funext c
  cases c <;> rfl

theorem getValues_empty {g : Mem} {len : Nat} (h : g.Field 12 1024 len 0) :
    getValues g = .error "string index out of range" := by
  rw [getValues, findEnd_empty h]
  rfl

/-- Which blocks the readers agree on. -/
theorem agree_iff {g : Mem} {len extent : Nat} (h : g.Field 12 1024 len extent) :
    Agree g ↔ (∀ c : Choice, (g c.offset).toNat < (renderNames c).length) ∧ extent = len ∧ 0 < len := by
  have lower := h.lower
  by_cases empty : extent = 0
  · subst empty
    constructor
    · rintro ⟨values, read, -⟩
      rw [getValues_empty h] at read
      cases read
    · rintro ⟨-, same, positive⟩
      omega
  · have read := getValues_ok h (Nat.pos_of_ne_zero empty)
    have shown : render g .cmndline = g.load 12 len := h.text_eq
    constructor
    · rintro ⟨values, read', choices, -, cmdline, -⟩
      obtain rfl := Except.ok.inj (read.symm.trans read')
      refine ⟨?_, ?_⟩
      · intro c
        exact (valueOf_render c _).mp (choices c)
      · have lengths : (render g .cmndline).length = (g.load 12 extent).length :=
          congrArg List.length cmdline
        rw [shown, Mem.length_load, Mem.length_load] at lengths
        omega
    · rintro ⟨named, same, -⟩
      refine ⟨_, read, ?_, rfl, ?_, rfl⟩
      · intro c
        exact (valueOf_render c _).mpr (named c)
      · rw [shown, same]

/-! ## Editing -/

/-- A call of `setval`. Strings have no NULs in them. -/
structure Call where
  index : Param
  val : List Byte
  nulFree : 0#8 ∉ val

/-- Calls of `setval` that all succeed. -/
def applyAll (lib : Lib) : List Call → Mem → Option Mem
  | [], g => some g
  | c :: rest, g => (setval lib c.index c.val g).bind (applyAll lib rest)

/-- The field after some command lines have been copied into it, by their lengths:
the end of what is not NUL. -/
def extentAfter (extent : Nat) : List Call → Nat
  | [] => extent
  | c :: rest => extentAfter
      (if c.index = .cmndline then
        (if extent ≤ c.val.length + 1 then c.val.length else extent)
      else extent) rest

/-- The length of the command line that was set last. -/
def lengthAfter (len : Nat) : List Call → Nat
  | [] => len
  | c :: rest => lengthAfter (if c.index = .cmndline then c.val.length else len) rest

/-! ### A block that has just been built -/

section
variable (md5 : Md5) (p : Params)

theorem length_field : p.field.length = 1024 := by
  have short := p.short
  rw [Params.field, List.length_append, List.length_replicate]
  omega

theorem block_start {x : Nat} (inside : x < 12 + 1024) :
    block md5 p x = (p.header ++ p.field).getD x 0#8 := by
  have start : p.header ++ p.field <+: getConfig md5 p :=
    ((List.prefix_append _ _).trans (List.prefix_append _ _)).trans (List.prefix_append _ _)
  have length : (p.header ++ p.field).length = 12 + 1024 := by
    rw [List.length_append, length_field]
    rfl
  obtain ⟨rest, split⟩ := start
  have stored : block md5 p (0 + x) = (getConfig md5 p).getD x 0#8 := by
    apply Mem.store_inside
    rw [← split, List.length_append]
    omega
  rw [Nat.zero_add] at stored
  rw [stored, ← split, List.getD_append _ _ _ _ (by omega)]

theorem block_choice (c : Choice) : block md5 p c.offset = p.choices c := by
  cases c <;> exact block_start md5 p (by decide)

theorem block_field {i : Nat} (inside : i < 1024) : block md5 p (12 + i) = p.field.getD i 0#8 := by
  have header : p.header.length = 12 := rfl
  rw [block_start md5 p (by omega), List.getD_append_right _ _ _ _ (by omega), header,
    Nat.add_sub_cancel_left]

/-- There is nothing behind the command line. -/
theorem field_block : (block md5 p).Field 12 1024 p.cmdline.length p.cmdline.length := by
  have short := p.short
  apply Mem.Field.padded
  · intro i inside
    rw [block_field md5 p (by omega), Params.field, List.getD_append _ _ _ _ inside,
      List.getD_eq_getElem _ _ inside]
    intro nul
    exact p.nulFree (nul ▸ List.getElem_mem inside)
  · exact short
  · intro i low high
    rw [block_field md5 p high, Params.field, List.getD_append_right _ _ _ _ low]
    apply List.getD_replicate
    omega

end

/-! ### Calls of setval -/

/-- Where a parameter is, and how many bytes it has. -/
def Param.start : Param → Nat
  | .choice c => c.offset
  | .loadaddress => 8
  | .cmndline => 12
  | .kernelmax => 1036

def Param.size : Param → Nat
  | .choice _ => 1
  | .loadaddress => 4
  | .cmndline => 1024
  | .kernelmax => 2

/-- The parameters do not overlap. -/
theorem Param.apart {p q : Param} (other : p ≠ q) :
    p.start + p.size ≤ q.start ∨ q.start + q.size ≤ p.start := by
  rcases p with ⟨_ | _ | _ | _⟩ | _ | _ | _ <;> rcases q with ⟨_ | _ | _ | _⟩ | _ | _ | _ <;>
    first | exact absurd rfl other | decide

section
variable {lib : Lib} {index : Param} {val : List Byte} {g g' : Mem}

/-- A command line that is accepted is copied. -/
theorem setField_cmndline (done : setField lib .cmndline val g = some g') :
    val.length < 1024 ∧ g' = g.store 12 (val ++ [0#8]) := by
  rw [setField, Option.ite_none_left_eq_some] at done
  obtain ⟨short, done⟩ := done
  cases done
  exact ⟨Nat.not_le.mp short, rfl⟩

/-- A call changes its own parameter only. -/
theorem setField_frame (done : setField lib index val g = some g') {x : Nat}
    (outside : x < index.start ∨ index.start + index.size ≤ x) : g' x = g x := by
  cases index with
  | choice c =>
    obtain ⟨v, -, rfl⟩ := Option.map_eq_some_iff.mp done
    exact g.store_frame outside
  | loadaddress =>
    obtain ⟨v, -, rfl⟩ := Option.map_eq_some_iff.mp done
    exact g.store_frame outside
  | cmndline =>
    obtain ⟨short, rfl⟩ := setField_cmndline done
    have start : Param.cmndline.start = 12 := rfl
    have size : Param.cmndline.size = 1024 := rfl
    apply g.store_frame
    rw [List.length_append, List.length_singleton]
    omega
  | kernelmax =>
    obtain ⟨v, -, rfl⟩ := Option.map_eq_some_iff.mp done
    exact g.store_frame outside

/-- The new digest is out of the way. -/
theorem setval_values (done : setval lib index val g = some g') :
    ∃ values, setField lib index val g = some values ∧ ∀ x < 0x1ff0, g' x = values x := by
  obtain ⟨values, set, rfl⟩ := Option.map_eq_some_iff.mp done
  refine ⟨values, set, ?_⟩
  intro x below
  exact values.store_frame (.inl below)

/-- The choices that can be set are those that are shown. -/
theorem setvalNames_length (c : Choice) :
    (setvalNames c).length = (renderNames c).length ∧ (renderNames c).length < 256 := by
  cases c <;> decide

/-- The value that a choice is set to is the number of its name. -/
theorem setval_choice {c : Choice} (done : setval lib (.choice c) val g = some g') :
    ∃ v, (setvalNames c).findIdx? (fun name => val = ascii name) = some v ∧
      (g' c.offset).toNat = v := by
  obtain ⟨values, set, same⟩ := setval_values done
  have low : c.offset < 0x1ff0 := by cases c <;> decide
  obtain ⟨v, found, rfl⟩ := Option.map_eq_some_iff.mp set
  obtain ⟨inside, -⟩ := List.findIdx?_eq_some_iff_getElem.mp found
  obtain ⟨lengths, small⟩ := setvalNames_length c
  have stored : g.store c.offset [BitVec.ofNat 8 v] (c.offset + 0) = BitVec.ofNat 8 v :=
    g.store_inside Nat.zero_lt_one
  rw [Nat.add_zero] at stored
  refine ⟨v, found, ?_⟩
  rw [same _ low, stored, BitVec.toNat_ofNat, Nat.mod_eq_of_lt (by omega)]

/-- A choice has a name if it had one, or if it has just been set. -/
theorem setval_named (done : setval lib index val g = some g') (c : Choice) :
    (g' c.offset).toNat < (renderNames c).length ↔
      (g c.offset).toNat < (renderNames c).length ∨ index = .choice c := by
  by_cases here : index = .choice c
  · subst here
    obtain ⟨v, found, value⟩ := setval_choice done
    obtain ⟨inside, -⟩ := List.findIdx?_eq_some_iff_getElem.mp found
    obtain ⟨lengths, -⟩ := setvalNames_length c
    exact iff_of_true (by omega) (.inr rfl)
  · obtain ⟨values, set, same⟩ := setval_values done
    have low : c.offset < 0x1ff0 := by cases c <;> decide
    have outside : c.offset < index.start ∨ index.start + index.size ≤ c.offset :=
      (Param.apart here).symm
    rw [same _ low, setField_frame set outside]
    exact (or_iff_left here).symm

/-- The field of the command line after one call. -/
theorem setval_field (done : setval lib index val g = some g') (nulFree : 0#8 ∉ val)
    {len extent : Nat} (h : g.Field 12 1024 len extent) :
    g'.Field 12 1024 (if index = .cmndline then val.length else len)
      (if index = .cmndline then (if extent ≤ val.length + 1 then val.length else extent)
      else extent) := by
  obtain ⟨values, set, same⟩ := setval_values done
  have unchanged : ∀ i < 1024, g' (12 + i) = values (12 + i) := fun i inside => same _ (by omega)
  by_cases here : index = .cmndline
  · subst here
    obtain ⟨short, rfl⟩ := setField_cmndline set
    rw [if_pos rfl, if_pos rfl]
    exact (h.copy nulFree short).congr unchanged
  · rw [if_neg here, if_neg here]
    apply h.congr
    intro i inside
    rw [unchanged i inside]
    apply setField_frame set
    rcases Param.apart here with below | above
    · change _ ≤ 12 at below
      omega
    · change 12 + 1024 ≤ _ at above
      omega

end

/-! ### A run -/

theorem applyAll_field {lib : Lib} {calls : List Call} {g g' : Mem}
    (applied : applyAll lib calls g = some g') {len extent : Nat}
    (h : g.Field 12 1024 len extent) :
    g'.Field 12 1024 (lengthAfter len calls) (extentAfter extent calls) := by
  induction calls generalizing g len extent with
  | nil =>
    cases applied
    exact h
  | cons call rest ih =>
    obtain ⟨next, done, rest⟩ := Option.bind_eq_some_iff.mp applied
    exact ih rest (setval_field done call.nulFree h)

theorem applyAll_named {lib : Lib} {calls : List Call} {g g' : Mem}
    (applied : applyAll lib calls g = some g') (c : Choice) :
    (g' c.offset).toNat < (renderNames c).length ↔
      (g c.offset).toNat < (renderNames c).length ∨ ∃ call ∈ calls, call.index = .choice c := by
  induction calls generalizing g with
  | nil =>
    cases applied
    simp
  | cons call rest ih =>
    obtain ⟨next, done, later⟩ := Option.bind_eq_some_iff.mp applied
    rw [ih later, setval_named done c, or_assoc, List.exists_mem_cons_iff]

/-- Every choice is one that has a name, from the start or because it has been
set; the last command line is not empty, and no longer one shows behind it. -/
structure Fits (p : Params) (calls : List Call) : Prop where
  named : ∀ c : Choice, (p.choices c).toNat < (renderNames c).length ∨
    ∃ call ∈ calls, call.index = .choice c
  covered : extentAfter p.cmdline.length calls = lengthAfter p.cmdline.length calls
  nonempty : 0 < lengthAfter p.cmdline.length calls

/-- Which edits of which blocks leave one that both readers show alike. -/
theorem readers_agree_iff (lib : Lib) (p : Params) (calls : List Call) (g : Mem)
    (applied : applyAll lib calls (block lib.md5 p) = some g) : Agree g ↔ Fits p calls := by
  rw [agree_iff (applyAll_field applied (field_block lib.md5 p))]
  have named (c : Choice) := applyAll_named applied c
  simp only [block_choice] at named
  constructor
  · rintro ⟨shown, covered, nonempty⟩
    exact ⟨fun c => (named c).mp (shown c), covered, nonempty⟩
  · rintro ⟨shown, covered, nonempty⟩
    exact ⟨fun c => (named c).mpr (shown c), covered, nonempty⟩

/-- Checksums and `sscanf` do not matter. -/
def plainLib : Lib where
  md5 := { digest := fun _ => List.replicate 16 0#8, length_digest := fun _ => rfl }
  sscanfHex := fun _ => none

/-- A block for Linux in flash, with a command line of three letters. -/
def plainParams : Params where
  choices := fun _ => 1#8
  loadaddress := 0x400000#32
  cmdline := ascii "abc"
  kernelmax := 0x10#16
  nulFree := by decide
  short := by decide

/-- A shorter command line, and then a longer one, which covers both. -/
def coveringEdits : List Call :=
  [⟨.cmndline, ascii "a", by decide⟩, ⟨.cmndline, ascii "wxyz", by decide⟩]

theorem covered_readers_agree : ∃ g,
    applyAll plainLib coveringEdits (block plainLib.md5 plainParams) = some g ∧ Agree g := by
  obtain ⟨g, applied⟩ : ∃ g,
      applyAll plainLib coveringEdits (block plainLib.md5 plainParams) = some g := ⟨_, rfl⟩
  refine ⟨g, applied, (readers_agree_iff plainLib plainParams coveringEdits g applied).mpr ?_⟩
  exact ⟨fun c => .inl (by cases c <;> decide), by decide, by decide⟩

/-- A shorter command line leaves the last letter for `GetValues`. -/
theorem shorter_cmdline_differs : ∃ g values,
    setval plainLib .cmndline (ascii "a") (block plainLib.md5 plainParams) = some g ∧
    render g .cmndline = ascii "a" ∧
    getValues g = .ok values ∧ values.cmdline = ascii "a" ++ [0#8] ++ ascii "c" ∧ ¬ Agree g := by
  obtain ⟨g, done⟩ : ∃ g,
      setval plainLib .cmndline (ascii "a") (block plainLib.md5 plainParams) = some g := ⟨_, rfl⟩
  have field : g.Field 12 1024 1 3 :=
    setval_field done (by decide) (field_block plainLib.md5 plainParams)
  have read := getValues_ok field (by decide)
  have stored (i : Nat) (inside : i < 2) : g (12 + i) = (ascii "a" ++ [0#8]).getD i 0#8 := by
    obtain ⟨written, set, same⟩ := setval_values done
    cases set
    rw [same _ (by omega)]
    exact Mem.store_inside _ inside
  have left : g (12 + 2) = (ascii "abc").getD 2 0#8 := by
    obtain ⟨written, set, same⟩ := setval_values done
    cases set
    rw [same _ (by decide), Mem.store_frame _ (.inr (by decide))]
    exact block_field plainLib.md5 plainParams (by decide)
  refine ⟨g, _, done, ?_, read, ?_, ?_⟩
  · have shown : render g .cmndline = g.load 12 1 := field.text_eq
    rw [shown]
    exact congrArg (fun b => [b]) (stored 0 (by decide))
  · dsimp only
    rw [show g.load 12 3 = [g (12 + 0), g (12 + 1), g (12 + 2)] from rfl, stored 0 (by decide),
      stored 1 (by decide), left]
    rfl
  · rw [agree_iff field]
    rintro ⟨-, same, -⟩
    cases same

end Bifferboard.Config
