import Bifferboard.Config.Readers
import Bifferboard.Transition.Reach

/-!
# Editing the configuration block

`biffconfig` reads the block into `g_vals` and then works on that. `setval` is given here
as the statements of the source, where a `return` keeps what has been stored before it, and
shown to store nothing before it has accepted its value. Whatever was read, there is an
end to the command line from `config_init` on.
-/

namespace Bifferboard.Config
open Nor Upload

/-- Statements on `g_vals`, which may return early. -/
abbrev Stmt := ExceptT Int (StateM Mem)

/-- A call: the value that is returned, early or at the end, and `g_vals`. -/
def Stmt.call (body : Stmt Int) (g : Mem) : Int × Mem :=
  match body.run.run g with
  | (.ok result, g) => (result, g)
  | (.error result, g) => (result, g)

/-- `CFG_BOOTSOURCE` to `CFG_KERNELMAX`. -/
def Param.ofIndex : Int → Option Param
  | 0 => some (.choice .bootsource)
  | 1 => some (.choice .console)
  | 2 => some (.choice .nic)
  | 3 => some (.choice .boottype)
  | 4 => some .loadaddress
  | 5 => some .cmndline
  | 6 => some .kernelmax
  | _ => none

namespace Biffconfig

/-- Two digits of `"%02x"` for each byte. -/
def printMd5 (d : List Byte) : String :=
  String.join (d.map fun b => String.ofList
    [Nat.digitChar (b.toNat / 16), Nat.digitChar (b.toNat % 16)])

/-- What is printed, and `g_vals` after `g` has been read into it. -/
def configInit (md5 : Md5) (g : Mem) : List String × Mem :=
  let digest := md5.digest (g.load 0 0x1ff0)
  let warnings :=
    if g.load 0x1ff0 16 ≠ digest then
      ["WARNING: Configuration md5 mismatch, Biffboot config may have been corrupted\n",
        "Expected: " ++ printMd5 digest ++ "\n",
        "Actual:   " ++ printMd5 (g.load 0x1ff0 16) ++ "\n"]
    else []
  if (List.range 1024).any fun i => g (12 + i) = 0#8 then (warnings, g)
  else (warnings ++
    ["Kernel command-line lacks termination, Biffboot config may have been corrupted\n"],
    g.store (12 + 1023) [0#8])

/-- The name of a choice. -/
def matched (names : List String) (val : List Byte) : Stmt Byte :=
  match names.findIdx? fun name => val = ascii name with
  | some v => return BitVec.ofNat 8 v
  | none => throw 0

/-- A number in hex format. -/
def scanned (lib : Lib) (val : List Byte) : Stmt Dword := do
  if val.take 2 ≠ ascii "0x" then throw 0
  match lib.sscanfHex (val.drop 2) with
  | some v => return v
  | none => throw 0

/-- `setval`, statement by statement. -/
def setval (lib : Lib) (index : Int) (val : List Byte) : Stmt Int := do
  match Param.ofIndex index with
  | some (.choice c) =>
    let v ← matched (setvalNames c) val
    modify (·.store c.offset [v])
  | some .loadaddress =>
    let v ← scanned lib val
    modify (·.store 8 (dwordBytes v))
  | some .cmndline =>
    if 1024 ≤ val.length then throw 0
    modify (·.store 12 (val ++ [0#8]))
  | some .kernelmax =>
    let v ← scanned lib val
    modify (·.storeWord 1036 (v.setWidth 16))
  | none => throw 0
  modify fun g => g.store 0x1ff0 (lib.md5.digest (g.load 0 0x1ff0))
  return 1

theorem scanned_eq (lib : Lib) (val : List Byte) :
    scanned lib val = match scanHex lib val with
      | some v => return v
      | none => throw 0 := by
  rw [scanned, scanHex]
  by_cases marked : val.take 2 = ascii "0x"
  · rw [if_neg (not_not.mpr marked), if_pos marked]
  · rw [if_pos marked, if_neg marked]
    rfl

/-- The statements accept a value as a whole or leave the block alone. -/
theorem call_setval (lib : Lib) (index : Int) (val : List Byte) (g : Mem) :
    (setval lib index val).call g =
      match (Param.ofIndex index).bind (Config.setval lib · val g) with
      | some g' => (1, g')
      | none => (0, g) := by
  cases param : Param.ofIndex index with
  | none =>
    simp only [setval, param]
    rfl
  | some p =>
    simp only [setval, param, Option.bind_some, Config.setval]
    cases p with
    | choice c =>
      simp only [matched, setField]
      cases (setvalNames c).findIdx? fun name => val = ascii name with
      | none => rfl
      | some v => rfl
    | cmndline =>
      simp only [setField]
      by_cases long : 1024 ≤ val.length
      · rw [if_pos long, if_pos long]
        rfl
      · rw [if_neg long, if_neg long]
        rfl
    | loadaddress | kernelmax =>
      simp only [scanned_eq, setField]
      cases scanHex lib val with
      | none => rfl
      | some v => rfl

end Biffconfig

/-! ## One call -/

/-- The command line ends inside its field. -/
def Terminated (g : Mem) : Prop := ∃ i < 1024, g (12 + i) = 0#8

/-- Only the parameter and the digest may have changed, and the digest is right. -/
structure Edited (md5 : Md5) (p : Param) (g g' : Mem) : Prop where
  frame : ∀ x, x < p.start ∨ p.start + p.size ≤ x → x < 0x1ff0 ∨ 0x2000 ≤ x → g' x = g x
  digest : g'.load 0x1ff0 16 = md5.digest (g'.load 0 0x1ff0)

section
variable {lib : Lib} {index : Param} {val : List Byte} {g g' : Mem}

theorem setval_edited (done : setval lib index val g = some g') : Edited lib.md5 index g g' := by
  obtain ⟨values, set, rfl⟩ := Option.map_eq_some_iff.mp done
  have length := lib.md5.length_digest (values.load 0 0x1ff0)
  constructor
  · intro x outside apart
    rw [values.store_frame (by omega)]
    exact setField_frame set outside
  · have same : (values.store 0x1ff0 (lib.md5.digest (values.load 0 0x1ff0))).load 0 0x1ff0 =
        values.load 0 0x1ff0 := by
      apply Mem.load_congr
      intro i below
      exact values.store_frame (by omega)
    have stored := values.load_store 0x1ff0 (lib.md5.digest (values.load 0 0x1ff0))
    rw [length] at stored
    rw [stored, same]

theorem setval_terminated (done : setval lib index val g = some g') (ended : Terminated g) :
    Terminated g' := by
  obtain ⟨values, set, same⟩ := setval_values done
  by_cases here : index = .cmndline
  · subst here
    obtain ⟨short, rfl⟩ := setField_cmndline set
    refine ⟨val.length, short, ?_⟩
    rw [same _ (by omega)]
    exact g.copied_nul
  · obtain ⟨i, small, nul⟩ := ended
    refine ⟨i, small, ?_⟩
    rw [same _ (by omega), setField_frame set, nul]
    have apart := Param.apart here
    have start : Param.cmndline.start = 12 := rfl
    have size : Param.cmndline.size = 1024 := rfl
    omega

end

theorem configInit_terminated (md5 : Md5) (g : Mem) :
    Terminated (Biffconfig.configInit md5 g).2 := by
  rw [Biffconfig.configInit]
  split
  · rename_i found
    obtain ⟨i, small, nul⟩ := List.any_eq_true.mp found
    exact ⟨i, List.mem_range.mp small, of_decide_eq_true nul⟩
  · have stored : g.store (12 + 1023) [0#8] (12 + 1023 + 0) = 0#8 := g.store_inside Nat.zero_lt_one
    exact ⟨1023, by decide, stored⟩

/-! ## A run -/

/-- Arguments of `setval`. -/
structure Edit where
  index : Int
  val : List Byte

def Edit.apply (lib : Lib) (e : Edit) (g : Mem) : Mem :=
  ((Biffconfig.setval lib e.index e.val).call g).2

/-- A call that succeeds sets one parameter, and any other changes nothing. -/
theorem call_cases (lib : Lib) (index : Int) (val : List Byte) (g : Mem) :
    (Biffconfig.setval lib index val).call g = (0, g) ∨
      ∃ p g', Param.ofIndex index = some p ∧ setval lib p val g = some g' ∧
        (Biffconfig.setval lib index val).call g = (1, g') := by
  rw [Biffconfig.call_setval]
  cases result : (Param.ofIndex index).bind (setval lib · val g) with
  | none => exact .inl rfl
  | some g' =>
    obtain ⟨p, param, done⟩ := Option.bind_eq_some_iff.mp result
    exact .inr ⟨p, g', param, done, rfl⟩

theorem apply_terminated (lib : Lib) (e : Edit) (g : Mem) (ended : Terminated g) :
    Terminated (e.apply lib g) := by
  rw [Edit.apply]
  rcases call_cases lib e.index e.val g with refused | ⟨p, g', -, done, accepted⟩
  · rw [refused]
    exact ended
  · rw [accepted]
    exact setval_terminated done ended

/-- Whatever block was read and whatever has been set since, the command line ends, and
the next call either returns 0 and changes nothing or returns 1 and sets one parameter and the
digest. -/
theorem edits_atomic (lib : Lib) (flash : Mem) (edits : List Edit) (index : Int) (val : List Byte) :
    let g := Transition.run (Edit.apply lib) (Biffconfig.configInit lib.md5 flash).2 edits
    Terminated g ∧
      ((Biffconfig.setval lib index val).call g = (0, g) ∨
        ∃ p g', Param.ofIndex index = some p ∧ Edited lib.md5 p g g' ∧
          (Biffconfig.setval lib index val).call g = (1, g')) := by
  intro g
  refine ⟨?_, ?_⟩
  · exact Transition.run_invariant _ _ (configInit_terminated lib.md5 flash)
      (apply_terminated lib) edits
  · rcases call_cases lib index val g with refused | ⟨p, g', param, done, accepted⟩
    · exact .inl refused
    · exact .inr ⟨p, g', param, setval_edited done, accepted⟩

end Bifferboard.Config
