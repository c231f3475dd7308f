import Webserver.Storage.NamedFiles
import Webserver.Storage.Steps

namespace Webserver
namespace Storage

open Disk FileSystem LexicalPaths Programs

/-!
# The storage below a directory

A call whose path extends a root stays with the files below the directory of that root.
What it finds depends on nothing else, as long as the directories are there through which
the root's own path leads.

For `writeFile` this needs a root that does not lose its directory: a relative path of one
component is opened in the root directory of the file system.
-/

/-- The root is absolute, or it has two components. -/
def Anchored (root : Text) : Prop := absolute root = true ∨ 2 ≤ (components root).length

instance (root : Text) : Decidable (Anchored root) := inferInstanceAs (Decidable (_ ∨ _))

theorem Anchored.nonempty {root : Text} (anchored : Anchored root) : root ≠ [] := by
  rintro rfl
  exact absurd anchored (by decide)

/-! ## The path that is opened -/

theorem components_length_of_noSlash {text : Text} (plain : '/' ∉ text) :
    (components text).length ≤ 1 := by
  by_cases empty : text = []
  · rw [empty]
    exact Nat.zero_le 1
  · rw [components_of_name empty plain]
    exact Nat.le_refl 1

theorem components_length_of_concat {text : Text} (plain : '/' ∉ text) (symbol : Char) :
    (components (text ++ [symbol])).length ≤ 1 := by
  by_cases slash : symbol = '/'
  · rw [slash, components_concat_slash]
    exact components_length_of_noSlash plain
  · apply components_length_of_noSlash
    simp [plain, Ne.symm slash]

/-- A path has a slash where its components meet. -/
theorem hasDirectory_of_components {path : Text} (long : 2 ≤ (components path).length) :
    HasDirectory path := by
  by_contra plain
  rw [HasDirectory] at plain
  by_cases trailing : path.getLast? = some '/'
  · rw [if_pos trailing] at plain
    rcases List.getLast?_eq_some_iff.mp trailing with ⟨front, rfl⟩
    rw [List.dropLast_concat] at plain
    rw [components_concat_slash] at long
    rcases List.eq_nil_or_concat front with rfl | ⟨before, symbol, rfl⟩
    · cases long
    · rw [List.concat_eq_append] at long plain
      rw [List.dropLast_concat] at plain
      have short := components_length_of_concat plain symbol
      omega
  · rw [if_neg trailing] at plain
    have short := components_length_of_noSlash plain
    omega

theorem components_of_not_hasName {path : Text} (nameless : ¬ HasName path) : components path = [] := by
  by_contra some_
  rcases List.exists_mem_of_ne_nil _ some_ with ⟨name, member⟩
  rcases mem_components member with ⟨nonempty, plain, subset⟩
  rcases List.exists_mem_of_ne_nil _ nonempty with ⟨symbol, here⟩
  exact nameless ⟨symbol, subset here, fun slash => plain (slash ▸ here)⟩

/-- An absolute path with a name has its first slash in front of the name. -/
theorem hasDirectory_of_absolute {path : Text} (isAbsolute : absolute path = true)
    (named : HasName path) : HasDirectory path := by
  rcases List.head?_eq_some_iff.mp (beq_iff_eq.mp isAbsolute) with ⟨rest, rfl⟩
  rw [HasDirectory]
  split
  · rename_i trailing
    rcases named with ⟨symbol, member, other⟩
    have inRest := (List.mem_cons.mp member).resolve_left other
    rcases List.eq_nil_or_concat rest with rfl | ⟨front, last, rfl⟩
    · cases inRest
    · rw [List.concat_eq_append] at inRest trailing ⊢
      rw [← List.cons_append, List.getLast?_concat, Option.some.injEq] at trailing
      rw [← List.cons_append, List.dropLast_concat]
      cases front with
      | nil =>
          rw [List.nil_append, List.mem_singleton] at inRest
          exact absurd (inRest.trans trailing) other
      | cons first more => exact List.mem_cons_self
  · exact List.mem_cons_self

/-- `writeFile` takes its two parts from the path. -/
theorem splitPath_subset (path : Text) : (splitPath path).1 ⊆ path ∧ (splitPath path).2 ⊆ path := by
  rw [splitPath]
  split
  · exact ⟨List.nil_subset path, List.Subset.refl path⟩
  · split
    · exact ⟨List.nil_subset path, List.Subset.refl path⟩
    · split
      · dsimp only
        split
        · exact ⟨List.take_subset _ _,
            List.Subset.trans (List.take_subset _ _) (List.drop_subset _ _)⟩
        · exact ⟨List.nil_subset path, List.take_subset _ _⟩
      · exact ⟨List.take_subset _ _, List.drop_subset _ _⟩

theorem absolute_of_not_hasName {path : Text} (nonempty : path ≠ []) (nameless : ¬ HasName path) :
    absolute path = true := by
  cases path with
  | nil => exact absurd rfl nonempty
  | cons first rest =>
      by_contra relative
      refine nameless ⟨first, List.mem_cons_self, ?_⟩
      rintro rfl
      exact relative rfl

/-- Behind an anchored root, what `writeFile` opens leads to the place of its path. -/
theorem samePlace_openedPath {root path : Text} (anchored : Anchored root)
    (longer : Extends root path) : SamePlace (openedPath path) path := by
  rcases longer with ⟨text, rfl, apart, _⟩
  have starts := absolute_append anchored.nonempty text
  have parts := components_append_of_separated apart
  by_cases named : HasName (root ++ text)
  · refine ((opensItsFile_iff named).mpr ?_).2
    rcases anchored with isAbsolute | long
    · exact hasDirectory_of_absolute (starts.trans isAbsolute) named
    · apply hasDirectory_of_components
      rw [parts, List.length_append]
      exact long.trans (Nat.le_add_right _ _)
  · -- The path has slashes only, and so has what is opened.
    have nonempty : root ++ text ≠ [] :=
      fun empty => anchored.nonempty (List.append_eq_nil_iff.mp empty).1
    have nameless : ¬ HasName (openedPath (root ++ text)) := by
      rintro ⟨symbol, member, other⟩
      apply named
      rcases List.mem_append.mp member with inFront | behind
      · exact ⟨symbol, (splitPath_subset _).1 inFront, other⟩
      · rcases List.mem_cons.mp behind with same | inName
        · exact absurd same other
        · exact ⟨symbol, (splitPath_subset _).2 inName, other⟩
    have opened : openedPath (root ++ text) ≠ [] := by
      rw [openedPath]
      exact List.append_ne_nil_of_right_ne_nil _ (List.cons_ne_nil _ _)
    refine ⟨?_, ?_⟩
    · rw [components_of_not_hasName nameless, components_of_not_hasName named]
    · rw [absolute_of_not_hasName opened nameless, absolute_of_not_hasName nonempty named]

/-! ## Near a root -/

namespace Disk

/-- The path of the root leads through the key, or the key is above or below the root. -/
def Near (disk : Disk) (root : Text) (key : Key) : Prop :=
  disk.Passes root key ∨ disk.key root <+: key ∨ key <+: disk.key root

/-- The path leads below the root, and on the way to it stays near the root. -/
structure Under (disk : Disk) (root path : Text) : Prop where
  near : forall key, disk.Passes path key -> disk.Near root key
  below : disk.key root <+: disk.key path

variable {disk : Disk} {root path : Text}

theorem near_dropLast {key : Key} (below : disk.key root <+: key) : disk.Near root key.dropLast :=
  Or.inr (List.prefix_or_prefix_of_prefix below (List.dropLast_prefix key))

/-- The path string itself is passed at its end. -/
theorem passes_key (disk : Disk) (path : Text) : disk.Passes path (disk.key path) :=
  ⟨components path, List.prefix_rfl, rfl⟩

/-- A path that extends the root goes to the root and from there on below it. -/
theorem near_of_passes (nonempty : root ≠ []) (longer : Extends root path) {part : Text}
    (starts : absolute part = absolute path) (first : components part <+: components path)
    {key : Key} (passed : disk.Passes part key) : disk.Near root key := by
  rcases longer with ⟨text, rfl, apart, descends⟩
  rcases passed with ⟨front, inPart, rfl⟩
  have startIs : disk.start part = disk.start root := by
    rw [start, start, starts, absolute_append nonempty]
  have whole := inPart.trans first
  rw [components_append_of_separated apart] at whole
  rw [startIs]
  rcases List.prefix_or_prefix_of_prefix whole (List.prefix_append _ _) with inRoot | ⟨more, rfl⟩
  · exact Or.inl ⟨front, inRoot, rfl⟩
  · rcases (List.prefix_append_right_inj _).mp whole with ⟨rest, split⟩
    rw [Descends, ← split] at descends
    have kept := resolveFrom_of_staysBelow true (disk.key root) [] List.not_mem_nil more
      (staysBelow_of_append descends)
    rw [List.append_nil] at kept
    rw [resolveFrom_append]
    exact Or.inr (Or.inl kept)

theorem Under.of_extends (disk : Disk) (nonempty : root ≠ []) (longer : Extends root path)
    {part : Text} (same : SamePlace part path) : disk.Under root part := by
  refine ⟨fun key passed =>
    near_of_passes nonempty longer same.absolute (same.components ▸ List.prefix_rfl) passed, ?_⟩
  rcases longer with ⟨text, rfl, apart, descends⟩
  have keyIs : disk.key part = resolveFrom true (disk.key root) (components text) := by
    rw [same.key, Disk.key, start_append disk nonempty, components_append_of_separated apart,
      resolveFrom_append]
    rfl
  have kept := resolveFrom_of_staysBelow true (disk.key root) [] List.not_mem_nil (components text)
    descends
  rwa [List.append_nil, ← keyIs] at kept

/-- The steps near a root: their paths lead below it, and directories are made on the way. -/
def Within (disk : Disk) (root : Text) : FsStep -> Prop
  | .openInput path => disk.Under root path
  | .readFile path => disk.Under root path
  | .listFiles path => disk.Under root path
  | .makeWay directory => directory ≠ [] -> forall key, disk.Passes directory key -> disk.Near root key
  | .store path _ => disk.Under root path
  | .openOutput path => disk.Under root path
  | .remove path => disk.Under root path

/-- A call whose path extends an anchored root takes steps near that root. -/
theorem within_steps (disk : Disk) (anchored : Anchored root) {call : FsCall}
    (longer : Extends root call.path) : call.steps.CallsOnly (disk.Within root) := by
  have nonempty := anchored.nonempty
  have under : disk.Under root call.path := .of_extends disk nonempty longer ⟨rfl, rfl⟩
  cases call with
  | openInput path => exact ⟨under, fun _ => trivial⟩
  | readFile path => exact ⟨under, fun _ => trivial⟩
  | listFiles path => exact ⟨under, fun _ => trivial⟩
  | deleteFile path =>
      refine ⟨under, fun opened => .ite trivial ⟨under, fun _ => trivial⟩⟩
  | writeFile path data =>
      have same : SamePlace (openedPath path) path := samePlace_openedPath anchored longer
      refine .ite trivial ⟨?_, fun _ => ⟨.of_extends disk nonempty longer same, fun _ => trivial⟩⟩
      intro directory key passed
      refine near_of_passes nonempty longer ?_ ?_ passed
      · rw [FsCall.path, ← same.absolute, openedPath, absolute_append directory]
      · rw [FsCall.path, ← same.components, openedPath, components_append_slash]
        exact List.prefix_append _ _

/-- A handler whose calls extend an anchored root takes steps near that root. -/
theorem within_stepwise {A : Type} (disk : Disk) (anchored : Anchored root) {handling : Handling A}
    (calls : handling.CallsOnly (fun call => Extends root call.path)) :
    handling.stepwise.CallsOnly (disk.Within root) :=
  Program.CallsOnly.expand calls (fun _ longer => disk.within_steps anchored longer)

end Disk

/-! ## Outside the root -/

theorem openOutput_cwd (environment : Environment) (path : Text) (disk : Disk) :
    (disk.openOutput environment path).2.cwd = disk.cwd := by
  rcases openOutput_cases environment path disk with ⟨_, _, _, _, truncated⟩ | ⟨_, unchanged⟩
  · rw [truncated, place_cwd]
  · rw [unchanged]

theorem exec_cwd (environment : Environment) (step : FsStep) (disk : Disk) :
    (step.exec environment disk).2.cwd = disk.cwd := by
  cases step with
  | openInput path => rfl
  | readFile path => rfl
  | listFiles path => rfl
  | makeWay directory => exact (sameFiles_makeWay environment directory disk).cwd
  | openOutput path => exact openOutput_cwd environment path disk
  | remove path => exact remove_cwd environment path disk
  | store path data =>
      by_cases refused : (disk.openOutput environment path).1 = false
      · simp only [FsStep.exec, if_pos refused, openOutput_cwd]
      · simp only [FsStep.exec, if_neg refused, write, place_cwd, openOutput_cwd]

section Outside

variable {base disk : Disk} {root : Text} (same : disk.cwd = base.cwd)

include same

theorem passes_congr {path : Text} {key : Key} (passed : disk.Passes path key) : base.Passes path key := by
  rcases passed with ⟨front, below, rfl⟩
  exact ⟨front, below, by rw [start_congr same]⟩

/-- A step near a root changes nodes below the root, or it makes directories near it. -/
theorem node_exec_cases {step : FsStep} (within : base.Within root step) (environment : Environment)
    (key : Key) : (step.exec environment disk).2.node key = disk.node key ∨ base.key root <+: key ∨
      Exists fun directory : Text => step = .makeWay directory ∧ disk.node key = none ∧
        base.Near root key := by
  have opened : forall {path : Text}, base.Under root path ->
      (disk.openOutput environment path).2.node key = disk.node key ∨ base.key root <+: key := by
    intro path under
    rcases openOutput_cases environment path disk with ⟨_, top, parent, free, truncated⟩ | ⟨_, unchanged⟩
    · by_cases here : disk.key path = key
      · rw [← here, key_congr same]
        exact Or.inr under.below
      · rw [truncated, node_place top parent free, if_neg here]
        exact Or.inl rfl
    · rw [unchanged]
      exact Or.inl rfl
  cases step with
  | openInput path => exact Or.inl rfl
  | readFile path => exact Or.inl rfl
  | listFiles path => exact Or.inl rfl
  | openOutput path => exact (opened within).imp_right Or.inl
  | makeWay directory =>
      rcases node_makeWay_cases environment directory disk key with kept | ⟨nonempty, made⟩
      · exact Or.inl kept
      · exact Or.inr (Or.inr ⟨directory, rfl, made.free,
          within nonempty key (passes_congr same made.passed)⟩)
  | remove path =>
      by_cases here : disk.key path = key
      · rw [← here, key_congr same]
        exact Or.inr (Or.inl within.below)
      · exact Or.inl (node_remove_of_ne environment path disk here)
  | store path data =>
      by_cases refused : (disk.openOutput environment path).1 = false
      · simp only [FsStep.exec, if_pos refused]
        exact (opened within).imp_right Or.inl
      · simp only [FsStep.exec, if_neg refused, write]
        have keyIs := key_congr ((openOutput_cwd environment path disk).trans same) path
        rcases node_place_cases (disk.openOutput environment path).2
          ((disk.openOutput environment path).2.key path) (.file (environment.stored data)) with
            kept | ⟨_, placed⟩
        · rw [kept]
          exact (opened within).imp_right Or.inl
        · rw [placed]
          split
          · rename_i here
            rw [← here, keyIs]
            exact Or.inr (Or.inl within.below)
          · exact (opened within).imp_right Or.inl

/-- A step near a root changes no file outside the directory of that root. -/
theorem fileAt_exec_outside {step : FsStep} (within : base.Within root step) (environment : Environment)
    {key : Key} (outside : ¬ base.key root <+: key) :
    (step.exec environment disk).2.fileAt key = disk.fileAt key := by
  rcases node_exec_cases same within environment key with kept | below | ⟨directory, rfl, _⟩
  · exact fileAt_congr kept
  · exact absurd below outside
  · exact (sameFiles_makeWay environment directory disk).files key

end Outside

/-! ## The same storage below a root -/

/-- Two disks, each as `base` has become, have the same nodes below the root, and on both
the directories around the root are there. -/
structure SameBelow (base : Disk) (root : Text) (first second : Disk) : Prop where
  cwd : first.cwd = base.cwd ∧ second.cwd = base.cwd
  around : forall key, base.Near root key -> ¬ base.key root <+: key ->
    first.node key = some .directory ∧ second.node key = some .directory
  nodes : forall key, base.key root <+: key -> second.node key = first.node key

/-- The names in a directory depend on its nodes only. -/
theorem children_congr {first second : Disk} {key : Key}
    (same : forall name, second.node (key ++ [name]) = first.node (key ++ [name])) :
    second.children key = first.children key := by
  have filtered : forall disk : Disk, disk.children key =
      (disk.nodes.entries.filter (fun entry => entry.1.dropLast = key)).filterMap
        (fun entry => entry.1.getLast?) := by
    intro disk
    rw [Disk.children, List.filterMap_filter]
    congr 1
    funext entry
    simp
  have stored : forall (disk : Disk) (name : Name) (node : Node),
      (key ++ [name], node) ∈ disk.nodes.entries ↔ disk.node (key ++ [name]) = some node := by
    intro disk name node
    rw [SortedMap.mem_entries_iff, Disk.node, if_neg (by simp)]
  have shape : forall {disk : Disk} {entry : Key × Node}, entry ∈ disk.nodes.entries ->
      entry.1.dropLast = key -> Exists fun name : Name => entry.1 = key ++ [name] := by
    intro disk entry member parent
    have present := (SortedMap.mem_entries_iff _ _ _).mp member
    rcases List.eq_nil_or_concat entry.1 with empty | ⟨front, name, whole⟩
    · exact absurd empty (disk.closed _ _ present).1
    · rw [whole, List.concat_eq_append, List.dropLast_concat] at parent
      exact ⟨name, by rw [whole, List.concat_eq_append, parent]⟩
  rw [filtered, filtered, SortedMap.filter_entries_congr]
  rintro ⟨child, node⟩ kind
  have parent : child.dropLast = key := of_decide_eq_true kind
  constructor
  · intro member
    rcases shape member parent with ⟨name, rfl⟩
    rwa [stored, ← same, ← stored]
  · intro member
    rcases shape member parent with ⟨name, rfl⟩
    rwa [stored, same, ← stored]

namespace SameBelow

variable {base first second : Disk} {root : Text}

/-- A root whose directory is found has the directories around it. -/
theorem refl (there : base.nodeAt root = some .directory) : SameBelow base root base base := by
  refine ⟨⟨rfl, rfl⟩, ?_, fun _ _ => rfl⟩
  intro key near notBelow
  refine (fun both => ⟨both, both⟩) ?_
  rcases near with passed | below | ⟨rest, whole⟩
  · exact directory_of_passes there passed
  · exact absurd below notBelow
  · have stored := directory_of_passes there (passes_key base root)
    rw [← whole] at stored
    refine directory_of_below stored ?_
    rintro rfl
    rw [List.append_nil] at whole
    exact notBelow (whole ▸ List.prefix_rfl)

theorem node (same : SameBelow base root first second) {key : Key} (near : base.Near root key) :
    second.node key = first.node key := by
  by_cases below : base.key root <+: key
  · exact same.nodes key below
  · rw [(same.around key near below).1, (same.around key near below).2]

theorem start (same : SameBelow base root first second) (path : Text) :
    first.start path = base.start path ∧ second.start path = base.start path :=
  ⟨start_congr same.cwd.1 path, start_congr same.cwd.2 path⟩

theorem key (same : SameBelow base root first second) (path : Text) :
    first.key path = base.key path ∧ second.key path = base.key path :=
  ⟨key_congr same.cwd.1 path, key_congr same.cwd.2 path⟩

/-- The same change of one node below the root. -/
theorem update (same : SameBelow base root first second) {key : Key} (below : base.key root <+: key)
    {value : Option Node} {after afterToo : Disk} (cwd : after.cwd = first.cwd)
    (cwdToo : afterToo.cwd = second.cwd)
    (changed : forall other, after.node other = if key = other then value else first.node other)
    (changedToo : forall other, afterToo.node other = if key = other then value else second.node other) :
    SameBelow base root after afterToo := by
  refine ⟨⟨cwd.trans same.cwd.1, cwdToo.trans same.cwd.2⟩, ?_, ?_⟩
  · intro other near notBelow
    have apart : key ≠ other := fun equal => notBelow (equal ▸ below)
    rw [changed, changedToo, if_neg apart, if_neg apart]
    exact same.around other near notBelow
  · intro other inside
    rw [changed, changedToo, same.nodes other inside]

/-- The same node is placed, or it fits on neither disk. -/
theorem place (same : SameBelow base root first second) {key : Key} (near : base.Near root key)
    (node : Node) : SameBelow base root (first.place key node) (second.place key node) := by
  by_cases below : base.key root <+: key
  · have parent := same.node (near_dropLast below)
    have here := same.nodes key below
    by_cases fits : key ≠ [] ∧ first.node key.dropLast = some .directory ∧
        first.node key ≠ some .directory
    · exact same.update below (place_cwd _ _ _) (place_cwd _ _ _)
        (node_place fits.1 fits.2.1 fits.2.2 node)
        (node_place fits.1 (parent.trans fits.2.1) (here ▸ fits.2.2) node)
    · rw [Disk.place, dif_neg fits, Disk.place, dif_neg (by rwa [parent, here])]
      exact same
  · -- Around the root there are directories, which are never replaced.
    rcases same.around key near below with ⟨there, thereToo⟩
    rw [Disk.place, dif_neg (fun fits => fits.2.2 there), Disk.place,
      dif_neg (fun fits => fits.2.2 thereToo)]
    exact same

theorem children (same : SameBelow base root first second) {key : Key} (below : base.key root <+: key) :
    second.children key = first.children key :=
  children_congr (fun name => same.nodes _ (below.trans (List.prefix_append key [name])))

theorem discard (same : SameBelow base root first second) {key : Key} (below : base.key root <+: key) :
    SameBelow base root (first.discard key) (second.discard key) := by
  have childless := same.children below
  by_cases removable : key ≠ [] ∧ first.children key = []
  · exact same.update below (discard_cwd _ _) (discard_cwd _ _)
      (node_discard removable.1 removable.2)
      (node_discard removable.1 (childless.trans removable.2))
  · rw [Disk.discard, dif_neg removable, Disk.discard, dif_neg (by rwa [childless])]
    exact same

/-! ## What is found -/

theorem walks (same : SameBelow base root first second) {here : Key} {names : List Name}
    (near : forall front, front <+: names -> base.Near root (resolveFrom true here front)) :
    second.walks here names = first.walks here names := by
  induction names generalizing here with
  | nil => rfl
  | cons name rest inductionHypothesis =>
      have atHere : second.node here = first.node here := same.node (near [] List.nil_prefix)
      rw [Disk.walks, Disk.walks, atHere, inductionHypothesis]
      intro front below
      exact near (name :: front) (List.cons_prefix_cons.mpr ⟨rfl, below⟩)

theorem nodeAt (same : SameBelow base root first second) {path : Text}
    (near : forall key, base.Passes path key -> base.Near root key) :
    second.nodeAt path = first.nodeAt path := by
  have reached : second.reaches path = first.reaches path := by
    rw [reaches, reaches, (same.start path).1, (same.start path).2]
    exact same.walks (fun front below => near _ ⟨front, below, rfl⟩)
  rw [Disk.nodeAt, Disk.nodeAt, reached, (same.key path).1, (same.key path).2,
    same.node (near _ (passes_key base path))]

theorem openInput (same : SameBelow base root first second) {path : Text}
    (under : base.Under root path) : second.openInput path = first.openInput path := by
  rw [Disk.openInput, Disk.openInput, same.nodeAt under.near]

theorem readDir (same : SameBelow base root first second) (environment : Environment) {path : Text}
    (under : base.Under root path) :
    second.readDir environment path = first.readDir environment path := by
  rw [Disk.readDir, Disk.readDir, same.nodeAt under.near, (same.key path).1, (same.key path).2,
    same.children under.below]

/-! ## What is changed -/

theorem openOutput (same : SameBelow base root first second) (environment : Environment) {path : Text}
    (under : base.Under root path) :
    (second.openOutput environment path).1 = (first.openOutput environment path).1 ∧
      SameBelow base root (first.openOutput environment path).2
        (second.openOutput environment path).2 := by
  have reached : second.reaches path = first.reaches path := by
    rw [reaches, reaches, (same.start path).1, (same.start path).2]
    exact same.walks (fun front below => under.near _ ⟨front, below, rfl⟩)
  unfold Disk.openOutput
  dsimp only
  rw [reached, (same.key path).1, (same.key path).2, same.nodes _ under.below,
    same.node (near_dropLast under.below)]
  split
  · exact ⟨rfl, same⟩
  · exact ⟨rfl, same.place (Or.inr (Or.inl under.below)) _⟩

theorem write (same : SameBelow base root first second) (environment : Environment) {path : Text}
    (under : base.Under root path) (data : Text) :
    SameBelow base root (first.write environment path data) (second.write environment path data) := by
  rw [Disk.write, Disk.write, (same.key path).1, (same.key path).2]
  exact same.place (Or.inr (Or.inl under.below)) _

theorem remove (same : SameBelow base root first second) (environment : Environment) {path : Text}
    (under : base.Under root path) :
    (second.remove environment path).1 = (first.remove environment path).1 ∧
      SameBelow base root (first.remove environment path).2 (second.remove environment path).2 := by
  rw [Disk.remove, Disk.remove, same.nodeAt under.near, (same.key path).1, (same.key path).2,
    same.children under.below]
  split
  · exact ⟨rfl, same⟩
  · exact ⟨rfl, same.discard under.below⟩

/-- A directory is made on both disks, or on neither. -/
theorem makeDirectories (same : SameBelow base root first second) (budget : Option Nat) {here : Key}
    {names : List Name}
    (near : forall front, front <+: names -> base.Near root (resolveFrom true here front)) :
    (Disk.makeDirectories budget here names second).1 =
        (Disk.makeDirectories budget here names first).1 ∧
      SameBelow base root (Disk.makeDirectories budget here names first).2
        (Disk.makeDirectories budget here names second).2 := by
  induction names generalizing budget here first second with
  | nil => exact ⟨rfl, same⟩
  | cons name rest inductionHypothesis =>
      have next : base.Near root (resolveStep true here name) :=
        near [name] (List.cons_prefix_cons.mpr ⟨rfl, List.nil_prefix⟩)
      have later : forall front, front <+: rest ->
          base.Near root (resolveFrom true (resolveStep true here name) front) :=
        fun front below => near (name :: front) (List.cons_prefix_cons.mpr ⟨rfl, below⟩)
      rw [Disk.makeDirectories, Disk.makeDirectories, same.node next]
      cases first.node (resolveStep true here name) with
      | none =>
          dsimp only
          split
          · exact ⟨rfl, same⟩
          · exact inductionHypothesis (same.place next _) _ later
      | some node =>
          cases node with
          | directory => exact inductionHypothesis same _ later
          | file content => exact ⟨rfl, same⟩

theorem makeWay (same : SameBelow base root first second) (environment : Environment) {directory : Text}
    (near : directory ≠ [] -> forall key, base.Passes directory key -> base.Near root key) :
    (FileSystem.makeWay environment directory second).1 =
        (FileSystem.makeWay environment directory first).1 ∧
      SameBelow base root (FileSystem.makeWay environment directory first).2
        (FileSystem.makeWay environment directory second).2 := by
  unfold FileSystem.makeWay
  by_cases nonempty : directory = []
  · rw [if_neg (fun both => both.1 nonempty), if_neg (fun both => both.1 nonempty)]
    exact ⟨rfl, same⟩
  · have passed := near nonempty
    have atStart : base.Near root (base.start directory) := passed _ ⟨[], List.nil_prefix, rfl⟩
    rw [pathExists, pathExists, same.nodeAt passed]
    split
    · rw [createDirectories, createDirectories, (same.start directory).1, (same.start directory).2,
        same.node atStart]
      split
      · exact same.makeDirectories _ (fun front below => passed _ ⟨front, below, rfl⟩)
      · exact ⟨rfl, same⟩
    · exact ⟨rfl, same⟩

/-- A step near the root does the same on both disks. -/
theorem exec (same : SameBelow base root first second) {step : FsStep} (within : base.Within root step)
    (environment : Environment) :
    (step.exec environment second).1 = (step.exec environment first).1 ∧
      SameBelow base root (step.exec environment first).2 (step.exec environment second).2 := by
  cases step with
  | openInput path => exact ⟨congrArg Except.ok (same.openInput within), same⟩
  | readFile path =>
      have read : FileSystem.readFile path second = FileSystem.readFile path first := by
        rw [FileSystem.readFile, FileSystem.readFile, same.openInput within]
      exact ⟨congrArg Except.ok read, same⟩
  | listFiles path =>
      have listed : FileSystem.listFiles environment path second =
          FileSystem.listFiles environment path first := by
        rw [FileSystem.listFiles, FileSystem.listFiles, same.readDir environment within]
      exact ⟨congrArg Except.ok listed, same⟩
  | makeWay directory =>
      rcases same.makeWay environment within with ⟨made, after⟩
      refine ⟨?_, after⟩
      simp only [FsStep.exec, made]
  | openOutput path =>
      rcases same.openOutput environment within with ⟨opened, after⟩
      exact ⟨congrArg Except.ok opened, after⟩
  | remove path =>
      rcases same.remove environment within with ⟨removed, after⟩
      exact ⟨congrArg Except.ok removed, after⟩
  | store path data =>
      rcases same.openOutput environment within with ⟨opened, after⟩
      simp only [FsStep.exec, opened]
      split
      · exact ⟨rfl, after⟩
      · exact ⟨rfl, after.write environment within data⟩

end SameBelow

/-! ## Roots apart -/

/-- Neither directory is, or is above, one that the other root's path leads through. -/
def Disk.Apart (disk : Disk) (first second : Text) : Prop :=
  (forall key, disk.Passes first key -> ¬ disk.key second <+: key) ∧
    (forall key, disk.Passes second key -> ¬ disk.key first <+: key)

instance (disk : Disk) (first second : Text) : Decidable (disk.Apart first second) :=
  decidable_of_iff
    ((forall front, front ∈ (components first).inits ->
        ¬ disk.key second <+: resolveFrom true (disk.start first) front) ∧
      forall front, front ∈ (components second).inits ->
        ¬ disk.key first <+: resolveFrom true (disk.start second) front)
    (by simp only [List.mem_inits, Disk.Apart, Disk.Passes, forall_exists_index, and_imp,
      forall_apply_eq_imp_iff₂])

theorem Disk.Apart.symm {disk : Disk} {first second : Text} (apart : disk.Apart first second) :
    disk.Apart second first :=
  ⟨apart.2, apart.1⟩

/-- Nothing below one root is near the other. -/
theorem Disk.Apart.not_near {disk : Disk} {first second : Text} (apart : disk.Apart first second)
    {key : Key} (below : disk.key first <+: key) : ¬ disk.Near second key := by
  rintro (passed | under | above)
  · exact apart.2 key passed below
  · rcases List.prefix_or_prefix_of_prefix below under with inside | outside
    · exact apart.2 _ (passes_key disk second) inside
    · exact apart.1 _ (passes_key disk first) outside
  · exact apart.2 _ (passes_key disk second) (below.trans above)

/-- A step near one root changes nothing below another that is apart from it. -/
theorem SameBelow.exec_other {base first second : Disk} {root other : Text}
    (same : SameBelow base root first second) (apart : base.Apart other root) {step : FsStep}
    (within : base.Within other step) (environment : Environment) :
    SameBelow base root (step.exec environment first).2 second := by
  refine ⟨⟨(exec_cwd environment step first).trans same.cwd.1, same.cwd.2⟩, ?_, ?_⟩
  · intro key near notBelow
    rcases same.around key near notBelow with ⟨there, thereToo⟩
    refine ⟨?_, thereToo⟩
    rcases node_exec_cases same.cwd.1 within environment key with kept | below | ⟨_, _, free, _⟩
    · rw [kept, there]
    · exact absurd near (apart.not_near below)
    · rw [there] at free
      cases free
  · intro key below
    rw [same.nodes key below]
    rcases node_exec_cases same.cwd.1 within environment key with kept | under | ⟨_, _, _, near⟩
    · exact kept.symm
    · exact absurd (Or.inr (Or.inl below)) (apart.not_near under)
    · exact absurd near (apart.symm.not_near below)

/-! ## Directories -/

end Storage
end Webserver
