import Mathlib.Data.List.Nodup

/-!
# The initramfs of the tiny firmware

`make_initrd` of the build script writes the list from which `gen_init_cpio` makes the initramfs:
a base that is always the same, a link for each applet of busybox, and the tree of the profile.
The kernel unpacks it in this order.

The tree never lacks a directory, and neither do the links. The base does: `/usr` and `/var` are
not in it, but directories below them are.
-/

namespace Bifferboard.Tiny

abbrev Text := List Char

/-! ## make_initrd -/

def baseInitrd : Text :=
  "dir /sbin 0755 0 0
slink /bin /sbin 0755 0 0
dir /dev 0755 0 0
nod /dev/console 0660 0 0 c 5 1
dir /home 0755 0 0
dir /proc 0755 0 0
dir /sys 0755 0 0
dir /tmp 0755 0 0
dir /usr/bin 0755 0 0
dir /usr/sbin 0755 0 0
dir /var/log 0755 0 0
dir /var/run 0755 0 0
dir /config 0755 0 0
file /sbin/busybox ./busybox-1.22.1/busybox 0755 0 0
".toList

/-- `text.replace(old, "", 1)`. -/
def replaceFirst (old : Text) : Text → Text
  | [] => []
  | c :: text =>
    if old.isPrefixOf (c :: text) then (c :: text).drop old.length
    else c :: replaceFirst old text

/-- Something below `rootfs`: the names on the way to it, and what `is_dir` says. -/
structure Entry where
  names : List Text
  isDir : Bool
  deriving DecidableEq

/-- Its path below `/`. -/
def Entry.relative (e : Entry) : Text := e.names.flatMap fun name => '/' :: name

/-- `f"\x7bpath\x7d"`. -/
def Entry.path (rootfs : Text) (e : Entry) : Text := rootfs ++ e.relative

/-- A directory and what `rglob("*")` lists: every directory before its contents. -/
structure Rootfs where
  path : Text
  rglob : List Entry
  named : ∀ e ∈ rglob, e.names ≠ [] ∧ ∀ name ∈ e.names, name ≠ [] ∧ '/' ∉ name
  distinct : (rglob.map Entry.names).Nodup
  ordered : ∀ before e after, rglob = before ++ e :: after →
    e.names.dropLast = [] ∨ ⟨e.names.dropLast, true⟩ ∈ before

def existingDirs (spec : Text) : List Text :=
  ((spec.splitOn '\n').filter fun line => "dir".toList.isPrefixOf line).map
    fun line => (line.splitOn ' ').getD 1 []

/-- The line that is written for `path`. -/
def addPath (rootfs : Text) (existing : List Text) (spec : Text) (e : Entry) : Text :=
  let relative := replaceFirst rootfs (e.path rootfs)
  if e.isDir then
    if relative ∈ existing then spec else spec ++ ("dir ".toList ++ relative ++ " 0755 0 0\n".toList)
  else spec ++ ("file ".toList ++ relative ++ " ./".toList ++ e.path rootfs ++ " 0755 0 0\n".toList)

/-- The text of `initramfs.spec`. -/
def makeInitrd (applets : List Text) (rootfs : Rootfs) : Text :=
  let spec := baseInitrd
  let existing := existingDirs spec
  let spec := applets.foldl (fun spec applet =>
    spec ++ ("slink /sbin/".toList ++ applet ++ " /sbin/busybox 0755 0 0\n".toList)) spec
  rootfs.rglob.foldl (addPath rootfs.path existing) spec

/-! ## Its lines -/

inductive Line where
  | dir (name : Text)
  | slink (name target : Text)
  | nod (name : Text)
  | file (name location : Text)
  deriving DecidableEq

namespace Line

def name : Line → Text
  | dir name | slink name _ | nod name | file name _ => name

def text : Line → Text
  | dir name => "dir ".toList ++ name ++ " 0755 0 0\n".toList
  | slink name target =>
    "slink ".toList ++ name ++ " ".toList ++ target ++ " 0755 0 0\n".toList
  | nod name => "nod ".toList ++ name ++ " 0660 0 0 c 5 1\n".toList
  | file name location => "file ".toList ++ name ++ " ".toList ++ location ++ " 0755 0 0\n".toList

theorem text_dir (name : Text) :
    (dir name).text = "dir ".toList ++ name ++ " 0755 0 0\n".toList := rfl

theorem text_slink (name target : Text) : (slink name target).text =
    "slink ".toList ++ name ++ " ".toList ++ target ++ " 0755 0 0\n".toList := rfl

theorem text_file (name location : Text) : (file name location).text =
    "file ".toList ++ name ++ " ".toList ++ location ++ " 0755 0 0\n".toList := rfl

end Line

def baseLines : List Line :=
  [.dir "/sbin".toList, .slink "/bin".toList "/sbin".toList, .dir "/dev".toList,
    .nod "/dev/console".toList, .dir "/home".toList, .dir "/proc".toList, .dir "/sys".toList,
    .dir "/tmp".toList, .dir "/usr/bin".toList, .dir "/usr/sbin".toList, .dir "/var/log".toList,
    .dir "/var/run".toList, .dir "/config".toList,
    .file "/sbin/busybox".toList "./busybox-1.22.1/busybox".toList]

def appletLine (applet : Text) : Line :=
  .slink ("/sbin/".toList ++ applet) "/sbin/busybox".toList

/-- A directory of the base is not listed again. -/
def Entry.listed (existing : List Text) (e : Entry) : Bool := !(e.isDir && e.relative ∈ existing)

def Entry.line (rootfs : Text) (e : Entry) : Line :=
  if e.isDir then .dir e.relative else .file e.relative ("./".toList ++ e.path rootfs)

def treeLines (rootfs : Text) (existing : List Text) (entries : List Entry) : List Line :=
  (entries.filter (Entry.listed existing)).map (Entry.line rootfs)

def specLines (applets : List Text) (rootfs : Rootfs) : List Line :=
  baseLines ++ applets.map appletLine ++
    treeLines rootfs.path (existingDirs baseInitrd) rootfs.rglob

set_option maxRecDepth 4000 in
theorem baseInitrd_eq : baseInitrd = baseLines.flatMap Line.text := by
  have chars : baseInitrd = _ := String.toList_ofList
  rw [chars]
  decide +kernel

theorem replaceFirst_append (old : Text) {text : Text} (more : text ≠ []) :
    replaceFirst old (old ++ text) = text := by
  generalize whole : old ++ text = all
  cases all with
  | nil => simp_all
  | cons c rest =>
    have starts : old.isPrefixOf (c :: rest) = true := by
      rw [List.isPrefixOf_iff_prefix, ← whole]
      exact List.prefix_append old text
    rw [replaceFirst, if_pos starts, ← whole, List.drop_left]

theorem addPath_eq (rootfs spec : Text) (existing : List Text) {e : Entry} (named : e.names ≠ []) :
    addPath rootfs existing spec e =
      spec ++ if e.listed existing then (e.line rootfs).text else [] := by
  have more : e.relative ≠ [] := by
    obtain ⟨name, names, named⟩ := List.exists_cons_of_ne_nil named
    simp [Entry.relative, named]
  rw [addPath, Entry.path, replaceFirst_append rootfs more]
  cases dir : e.isDir with
  | true =>
    have line : e.line rootfs = .dir e.relative := if_pos dir
    by_cases known : e.relative ∈ existing
    · simp [Entry.listed, dir, known]
    · rw [line, Line.text_dir]
      simp [Entry.listed, dir, known]
  | false =>
    have line : e.line rootfs = .file e.relative ("./".toList ++ e.path rootfs) :=
      if_neg (by simp [dir])
    rw [line, Line.text_file]
    simp [Entry.listed, Entry.path, dir]

theorem foldl_addPath (rootfs spec : Text) (existing : List Text) {entries : List Entry}
    (named : ∀ e ∈ entries, e.names ≠ []) : entries.foldl (addPath rootfs existing) spec =
      spec ++ (treeLines rootfs existing entries).flatMap Line.text := by
  induction entries generalizing spec with
  | nil => simp [treeLines]
  | cons e entries ih =>
    rw [List.foldl_cons, addPath_eq _ _ _ (named e List.mem_cons_self),
      ih _ fun e' later => named e' (List.mem_cons_of_mem e later)]
    cases listed : e.listed existing <;> simp [treeLines, listed]

/-- The text is that of the lines. -/
theorem makeInitrd_eq (applets : List Text) (rootfs : Rootfs) :
    makeInitrd applets rootfs = (specLines applets rootfs).flatMap Line.text := by
  have link (applet : Text) : "slink /sbin/".toList ++ applet ++
      " /sbin/busybox 0755 0 0\n".toList = (appletLine applet).text := by
    rw [appletLine, Line.text_slink]
    simp
  have links : (applets.map fun applet => "slink /sbin/".toList ++ applet ++
      " /sbin/busybox 0755 0 0\n".toList).flatten = (applets.map appletLine).flatMap Line.text := by
    simp only [link, List.flatMap_map]
    rfl
  rw [makeInitrd, foldl_addPath _ _ _ fun e member => (rootfs.named e member).1,
    List.foldl_append_eq_append, links, specLines, List.flatMap_append, List.flatMap_append,
    ← baseInitrd_eq]

/-! ## Directories -/

def parent (path : Text) : Text := (path.reverse.dropWhile (· ≠ '/')).tail.reverse

/-- A directory, or a link to one. -/
def Line.isDir (before : List Line) : Line → Bool
  | .dir _ => true
  | .slink _ target => .dir target ∈ before
  | .nod _ | .file _ _ => false

/-- There is a directory at a path. -/
def created (before : List Line) (path : Text) : Bool :=
  before.any fun line => line.name = path && line.isDir before

/-- The lines whose parent directory has not been created before. -/
def orphansFrom (before : List Line) : List Line → List Line
  | [] => []
  | line :: later =>
    if parent line.name = [] ∨ created before (parent line.name) then
      orphansFrom (before ++ [line]) later
    else line :: orphansFrom (before ++ [line]) later

def orphans (lines : List Line) : List Line := orphansFrom [] lines

/-- Every path occurs once, after its parent directory. -/
def Installable (lines : List Line) : Prop :=
  (lines.map Line.name).Nodup ∧ ∀ before line after, lines = before ++ line :: after →
    parent line.name = [] ∨ created before (parent line.name) = true

theorem orphansFrom_eq_nil {before lines : List Line}
    (preceded : ∀ early line late, lines = early ++ line :: late →
      parent line.name = [] ∨ created (before ++ early) (parent line.name) = true) :
    orphansFrom before lines = [] := by
  induction lines generalizing before with
  | nil => rfl
  | cons line lines ih =>
    have found := preceded [] line lines rfl
    rw [List.append_nil] at found
    rw [orphansFrom, if_pos found]
    refine ih fun early line' late split => ?_
    have later := preceded (line :: early) line' late (by rw [split, List.cons_append])
    rwa [List.append_cons] at later

theorem orphansFrom_append (before lines later : List Line) :
    orphansFrom before (lines ++ later) =
      orphansFrom before lines ++ orphansFrom (before ++ lines) later := by
  induction lines generalizing before with
  | nil => simp [orphansFrom]
  | cons line lines ih =>
    simp only [List.cons_append, orphansFrom, ih, List.append_assoc, List.nil_append]
    split <;> rfl

theorem parent_append (path : Text) {name : Text} (plain : '/' ∉ name) :
    parent (path ++ '/' :: name) = path := by
  have skipped : ∀ c ∈ name.reverse, decide (c ≠ '/') = true := by
    intro c member
    simpa using ne_of_mem_of_not_mem (List.mem_reverse.mp member) plain
  rw [parent, List.reverse_append, List.reverse_cons, List.append_assoc,
    List.dropWhile_append_of_pos skipped]
  simp

theorem created_of_dir {before : List Line} {path : Text} (member : .dir path ∈ before) :
    created before path = true :=
  List.any_eq_true.mpr ⟨_, member, by simp [Line.name, Line.isDir]⟩

theorem base_orphans : orphans baseLines = [.dir "/usr/bin".toList, .dir "/usr/sbin".toList,
    .dir "/var/log".toList, .dir "/var/run".toList] := by decide +kernel

/-! ### Links -/

theorem base_below_sbin : ∀ line ∈ baseLines, "/sbin/".toList.isPrefixOf line.name = true →
    line = .file "/sbin/busybox".toList "./busybox-1.22.1/busybox".toList := by decide +kernel

theorem not_created_below_sbin (done : List Text) (path : Text) :
    created (baseLines ++ done.map appletLine) ("/sbin/".toList ++ path) = false := by
  have absent : Line.dir "/sbin/busybox".toList ∉ baseLines ++ done.map appletLine := by
    rw [List.mem_append, not_or]
    refine ⟨by decide +kernel, ?_⟩
    simp [appletLine]
  rw [created, List.any_eq_false]
  intro line member
  rcases List.mem_append.mp member with base | link
  · by_cases same : line.name = "/sbin/".toList ++ path
    · have starts : "/sbin/".toList.isPrefixOf line.name = true := by
        rw [List.isPrefixOf_iff_prefix, same]
        exact List.prefix_append _ _
      simp [base_below_sbin line base starts, Line.isDir]
    · rw [decide_eq_false same]
      simp
  · obtain ⟨applet, -, rfl⟩ := List.mem_map.mp link
    simp only [appletLine, Line.isDir, absent, decide_false, Bool.and_false]
    simp

/-- Only a name with a slash leads out of `/sbin`. -/
theorem link_orphan_iff (done : List Text) (applet : Text) :
    (parent (appletLine applet).name = [] ∨
      created (baseLines ++ done.map appletLine) (parent (appletLine applet).name) = true) ↔
    '/' ∉ applet := by
  constructor
  · intro found slash
    -- the name is cut at its last slash, the first one from behind
    obtain ⟨rear, front, cut, plain⟩ :=
      List.eq_append_cons_of_mem (List.mem_reverse.mpr slash)
    have parts : (appletLine applet).name = ("/sbin/".toList ++ front.reverse) ++ '/' :: rear.reverse := by
      have whole := congrArg List.reverse cut
      simp only [List.reverse_reverse, List.reverse_append, List.reverse_cons, List.append_assoc,
        List.singleton_append] at whole
      rw [whole]
      simp [appletLine, Line.name]
    rw [parts, parent_append _ (by simpa using plain), not_created_below_sbin] at found
    simp at found
  · intro plain
    have above : parent (appletLine applet).name = "/sbin".toList :=
      parent_append "/sbin".toList plain
    rw [above]
    exact .inr (created_of_dir (List.mem_append_left _ (by decide +kernel)))

theorem link_orphans (done applets : List Text) :
    orphansFrom (baseLines ++ done.map appletLine) (applets.map appletLine) =
      (applets.filter fun applet => '/' ∈ applet).map appletLine := by
  induction applets generalizing done with
  | nil => rfl
  | cons applet applets ih =>
    have next : baseLines ++ done.map appletLine ++ [appletLine applet] =
        baseLines ++ (done ++ [applet]).map appletLine := by simp
    rw [List.map_cons, orphansFrom, next, ih]
    simp only [link_orphan_iff]
    by_cases slash : '/' ∈ applet <;> simp [slash]

/-! ### The tree -/

theorem Entry.name_line (rootfs : Text) (e : Entry) : (e.line rootfs).name = e.relative := by
  rw [Entry.line]
  split <;> rfl

set_option maxRecDepth 4000 in
theorem existing_base : ∀ path ∈ existingDirs baseInitrd, Line.dir path ∈ baseLines := by
  have chars : baseInitrd = _ := String.toList_ofList
  rw [chars]
  decide +kernel

theorem parent_relative {e : Entry} (some : e.names ≠ []) (plain : ∀ name ∈ e.names, '/' ∉ name) :
    parent e.relative = (⟨e.names.dropLast, true⟩ : Entry).relative := by
  obtain ⟨names, isDir⟩ := e
  obtain ⟨above, last, rfl⟩ := (List.eq_nil_or_concat' names).resolve_left some
  simp only [Entry.relative, List.dropLast_concat, List.flatMap_append, List.flatMap_singleton]
  exact parent_append _ (plain last (by simp))

/-- What is in the tree comes after its parent, unless the base has that already. -/
theorem tree_orphans (rootfs : Rootfs) {base : List Line} {existing : List Text}
    (holds : ∀ path ∈ existing, .dir path ∈ base) {done todo : List Entry}
    (split : rootfs.rglob = done ++ todo) :
    orphansFrom (base ++ treeLines rootfs.path existing done)
      (treeLines rootfs.path existing todo) = [] := by
  induction todo generalizing done with
  | nil => rfl
  | cons e todo ih =>
    have later := @ih (done ++ [e]) (by simp [split])
    cases listed : e.listed existing with
    | false => simpa [treeLines, listed] using later
    | true =>
      obtain ⟨some, plain⟩ := rootfs.named e (by simp [split])
      have above := parent_relative some fun name member => (plain name member).2
      have found : parent (e.line rootfs.path).name = [] ∨
          created (base ++ treeLines rootfs.path existing done)
            (parent (e.line rootfs.path).name) = true := by
        rw [Entry.name_line, above]
        rcases rootfs.ordered done e todo split with top | earlier
        · exact .inl (by simp [Entry.relative, top])
        · refine .inr (created_of_dir (List.mem_append.mpr ?_))
          -- the parent was listed, or it was skipped because the base has it
          by_cases known : (⟨e.names.dropLast, true⟩ : Entry).relative ∈ existing
          · exact .inl (holds _ known)
          · have listed : (⟨e.names.dropLast, true⟩ : Entry).listed existing = true := by
              simp [Entry.listed, known]
            exact .inr (List.mem_map.mpr ⟨_, List.mem_filter.mpr ⟨earlier, listed⟩, rfl⟩)
      have next : treeLines rootfs.path existing (e :: todo) =
          e.line rootfs.path :: treeLines rootfs.path existing todo := by simp [treeLines, listed]
      rw [next, orphansFrom, if_pos found]
      simpa [treeLines, listed] using later

/-! ## Paths that occur twice -/

theorem relative_inj {names names' : List Text} (plain : ∀ name ∈ names, '/' ∉ name)
    (plain' : ∀ name ∈ names', '/' ∉ name)
    (same : (names.flatMap fun name => '/' :: name) = names'.flatMap fun name => '/' :: name) :
    names = names' := by
  have first (name : Text) (names : List Text) (plain : '/' ∉ name) :
      (name ++ names.flatMap fun name => '/' :: name).takeWhile (· ≠ '/') = name := by
    rw [List.takeWhile_append_of_pos fun c member => by simpa using ne_of_mem_of_not_mem member plain]
    cases names <;> simp
  induction names generalizing names' with
  | nil => cases names' with
    | nil => rfl
    | cons name' names' => simp at same
  | cons name names ih => cases names' with
    | nil => simp at same
    | cons name' names' =>
      simp only [List.flatMap_cons, List.cons_append, List.cons.injEq, true_and] at same
      obtain rfl : name = name' := by
        rw [← first name names (plain name List.mem_cons_self), same,
          first name' names' (plain' name' List.mem_cons_self)]
      rw [ih (fun n later => plain n (List.mem_cons_of_mem name later))
        (fun n later => plain' n (List.mem_cons_of_mem name later)) (List.append_cancel_left same)]

theorem tree_nodup (rootfs : Rootfs) (existing : List Text) :
    ((treeLines rootfs.path existing rootfs.rglob).map Line.name).Nodup := by
  have names : (treeLines rootfs.path existing rootfs.rglob).map Line.name =
      (rootfs.rglob.filter (Entry.listed existing)).map Entry.relative := by
    simp [treeLines, Entry.name_line]
  rw [names]
  refine List.Nodup.sublist (List.filter_sublist.map _) ?_
  refine List.Nodup.map_on ?_ rootfs.distinct.of_map
  intro e member e' member' same
  refine List.inj_on_of_nodup_map rootfs.distinct member member' (relative_inj ?_ ?_ same)
  · exact fun name inside => ((rootfs.named e member).2 name inside).2
  · exact fun name inside => ((rootfs.named e' member').2 name inside).2

theorem base_nodup : (baseLines.map Line.name).Nodup := by decide +kernel

theorem links_nodup_iff (applets : List Text) :
    ((baseLines ++ applets.map appletLine).map Line.name).Nodup ↔
      applets.Nodup ∧ "busybox".toList ∉ applets := by
  have names : (applets.map appletLine).map Line.name = applets.map ("/sbin/".toList ++ ·) := by
    rw [List.map_map]
    rfl
  rw [List.map_append, names, List.nodup_append, List.nodup_map_iff (List.append_right_injective _)]
  simp only [base_nodup, true_and]
  refine and_congr_right fun _ => ?_
  constructor
  · intro apart listed
    exact apart _ (List.mem_map_of_mem (show Line.file "/sbin/busybox".toList
      "./busybox-1.22.1/busybox".toList ∈ baseLines by decide +kernel)) _
      (List.mem_map_of_mem listed) rfl
  · intro absent name base path link same
    obtain ⟨line, member, rfl⟩ := List.mem_map.mp base
    obtain ⟨applet, listed, rfl⟩ := List.mem_map.mp link
    have starts : "/sbin/".toList.isPrefixOf line.name = true := by
      rw [List.isPrefixOf_iff_prefix, same]
      exact List.prefix_append _ _
    rw [base_below_sbin line member starts] at same
    have whole : "/sbin/busybox".toList = "/sbin/".toList ++ "busybox".toList := rfl
    have busybox : "busybox".toList = applet := List.append_cancel_left (whole.symm.trans same)
    exact absent (busybox ▸ listed)

theorem spec_orphans (applets : List Text) (rootfs : Rootfs) :
    orphans (specLines applets rootfs) =
      [.dir "/usr/bin".toList, .dir "/usr/sbin".toList, .dir "/var/log".toList,
        .dir "/var/run".toList] ++ (applets.filter fun applet => '/' ∈ applet).map appletLine := by
  have links := link_orphans [] applets
  have tree := @tree_orphans rootfs (baseLines ++ applets.map appletLine) _
    (fun path known => List.mem_append_left _ (existing_base path known)) [] rootfs.rglob rfl
  simp only [List.map_nil, List.append_nil, treeLines, List.filter_nil] at links tree
  rw [← base_orphans, specLines, orphans, orphansFrom_append, orphansFrom_append, List.nil_append,
    List.nil_append, links, treeLines, tree, List.append_nil, orphans]

theorem spec_nodup_iff (applets : List Text) (rootfs : Rootfs) :
    ((specLines applets rootfs).map Line.name).Nodup ↔
      applets.Nodup ∧ "busybox".toList ∉ applets ∧
        ∀ e ∈ rootfs.rglob, e.listed (existingDirs baseInitrd) = true →
          e.relative ∉ (baseLines ++ applets.map appletLine).map Line.name := by
  rw [specLines, List.map_append, List.nodup_append, links_nodup_iff, and_assoc]
  simp only [tree_nodup, true_and]
  refine and_congr_right fun _ => and_congr_right fun _ => ?_
  constructor
  · intro apart e member listed clash
    refine apart _ clash _ ?_ rfl
    rw [← Entry.name_line rootfs.path]
    exact List.mem_map_of_mem (List.mem_map_of_mem (List.mem_filter.mpr ⟨member, listed⟩))
  · intro apart name clash name' tree same
    obtain ⟨line, inside, rfl⟩ := List.mem_map.mp tree
    obtain ⟨e, member, rfl⟩ := List.mem_map.mp inside
    obtain ⟨member, listed⟩ := List.mem_filter.mp member
    rw [Entry.name_line] at same
    exact apart e member listed (same ▸ clash)

/-- No list can be installed in its order: four directories come without their parents. Nothing
else does, unless an applet has a slash in its name. A path occurs twice exactly if an applet
does, or is called `busybox`, or something in the tree is where the base or a link already is. -/
theorem initrd_not_installable (applets : List Text) (rootfs : Rootfs) :
    let lines := specLines applets rootfs
    makeInitrd applets rootfs = lines.flatMap Line.text ∧ ¬ Installable lines ∧
      orphans lines = [.dir "/usr/bin".toList, .dir "/usr/sbin".toList, .dir "/var/log".toList,
        .dir "/var/run".toList] ++ (applets.filter fun applet => '/' ∈ applet).map appletLine ∧
      ((lines.map Line.name).Nodup ↔ applets.Nodup ∧ "busybox".toList ∉ applets ∧
        ∀ e ∈ rootfs.rglob, e.listed (existingDirs baseInitrd) = true →
          e.relative ∉ (baseLines ++ applets.map appletLine).map Line.name) := by
  have alone := spec_orphans applets rootfs
  refine ⟨makeInitrd_eq applets rootfs, ?_, alone, spec_nodup_iff applets rootfs⟩
  rintro ⟨-, preceded⟩
  have none : orphans (specLines applets rootfs) = [] := orphansFrom_eq_nil preceded
  rw [none] at alone
  simp at alone

/-- A profile without files of its own. -/
def emptyRootfs : Rootfs where
  path := "profiles/default/rootfs".toList
  rglob := []
  named := by simp
  distinct := by simp
  ordered := by simp

theorem empty_profile_orphans : orphans (specLines [] emptyRootfs) =
    [.dir "/usr/bin".toList, .dir "/usr/sbin".toList, .dir "/var/log".toList,
      .dir "/var/run".toList] := by
  rw [spec_orphans]
  rfl

end Bifferboard.Tiny
