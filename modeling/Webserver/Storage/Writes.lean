import Mathlib.Data.Finset.Card
import Webserver.Storage.Effects

namespace Webserver
namespace Storage

open LexicalPaths

/-!
# The steps of `writeFile`

A write first makes the directories of its path, then opens the file, and then
writes.  The steps can stop at two places: a directory or the file can be
refused.  What has been made up to there stays.  `SameTree` compares whole
trees, directories included, and `CreatesDirectories` says on the tree before
the write whether its first step adds anything.
-/

/-- Every file and every directory is the same. -/
structure SameTree (before after : Disk) : Prop where
  cwd : after.cwd = before.cwd
  nodes : forall key, after.node key = before.node key

theorem SameTree.refl (disk : Disk) : SameTree disk disk := ⟨rfl, fun _ => rfl⟩

namespace Disk

variable {disk : Disk}

/-- Whatever lies below a key, the key is that of a directory. -/
theorem directory_of_below {front rest : Key} {node : Node}
    (stored : disk.node (front ++ rest) = some node) (below : rest ≠ []) :
    disk.node front = some .directory := by
  induction rest using List.reverseRecOn generalizing node with
  | nil => exact absurd rfl below
  | append_singleton rest name inductionHypothesis =>
      have parent := disk.closed_node (by simp) stored
      rw [← List.append_assoc, List.dropLast_concat] at parent
      by_cases direct : rest = []
      · rw [direct, List.append_nil] at parent
        exact parent
      · exact inductionHypothesis parent direct

/-- The way of the path string passes the key. -/
def Passes (disk : Disk) (path : Text) (key : Key) : Prop :=
  Exists fun front : List Name =>
    front <+: components path ∧ resolveFrom true (disk.start path) front = key

/-! ## Ways -/

/-- From a directory every name leads to a directory or to something in it. -/
theorem node_resolveStep_cases {here : Key} (there : disk.node here = some .directory)
    (name : Name) : disk.node (resolveStep true here name) = some .directory ∨
      resolveStep true here name = here ++ [name] := by
  rw [resolveStep]
  by_cases isDot : name = dot
  · rw [if_pos isDot]
    exact Or.inl there
  rw [if_neg isDot]
  by_cases isUp : name = dotDot
  · rw [if_pos isUp, if_neg (by simp)]
    left
    by_cases top : here = []
    · simp [top, node]
    · exact disk.closed_node top there
  · rw [if_neg isUp]
    exact Or.inr rfl

/-- A name under which there is nothing is behind the directory. -/
theorem resolveStep_of_none {here : Key} {name : Name} (there : disk.node here = some .directory)
    (absent : disk.node (resolveStep true here name) = none) :
    resolveStep true here name = here ++ [name] := by
  apply (node_resolveStep_cases there name).resolve_left
  rw [absent]
  simp

/-- A statement about the whole way is one about its start and one about the rest. -/
theorem forall_prefix_cons_iff (property : Key -> Prop) {here : Key} (atStart : property here)
    (name : Name) (rest : List Name) :
    (forall front, front <+: name :: rest -> property (resolveFrom true here front)) <->
      forall front, front <+: rest ->
        property (resolveFrom true (resolveStep true here name) front) := by
  constructor
  · intro whole front below
    exact whole (name :: front) (List.cons_prefix_cons.mpr ⟨rfl, below⟩)
  · intro later front below
    cases front with
    | nil => exact atStart
    | cons first others =>
        rcases List.cons_prefix_cons.mp below with ⟨rfl, inside⟩
        exact later others inside

/-- The way comes to a name under which there is nothing. -/
def BreaksOff (disk : Disk) (here : Key) (names : List Name) : Prop :=
  Exists fun front : List Name => front <+: names ∧ disk.walks here front = true ∧
    disk.node (resolveFrom true here front) = none

theorem breaksOff_cons_iff {here : Key} (there : disk.node here = some .directory) (name : Name)
    (rest : List Name) : disk.BreaksOff here (name :: rest) <->
      disk.BreaksOff (resolveStep true here name) rest := by
  constructor
  · rintro ⟨front, below, walked, absent⟩
    cases front with
    | nil =>
        have present : disk.node here = none := absent
        rw [there] at present
        cases present
    | cons first others =>
        rcases List.cons_prefix_cons.mp below with ⟨rfl, inside⟩
        rw [walks, Bool.and_eq_true] at walked
        exact ⟨others, inside, walked.2, absent⟩
  · rintro ⟨front, inside, walked, absent⟩
    refine ⟨name :: front, List.cons_prefix_cons.mpr ⟨rfl, inside⟩, ?_, absent⟩
    rw [walks, Bool.and_eq_true, decide_eq_true_eq]
    exact ⟨there, walked⟩

/-- A way that reaches its end does not break off. -/
theorem not_breaksOff {here : Key} {names : List Name} (walked : disk.walks here names = true)
    (present : disk.node (resolveFrom true here names) ≠ none) : ¬ disk.BreaksOff here names := by
  rintro ⟨front, ⟨rest, rfl⟩, _, absent⟩
  rw [walks_append, Bool.and_eq_true] at walked
  cases rest with
  | nil =>
      rw [List.append_nil] at present
      exact present absent
  | cons name rest =>
      rw [walks, Bool.and_eq_true, decide_eq_true_eq, absent] at walked
      cases walked.2.1

/-- Nothing is found at the end of a way that breaks off. -/
theorem nodeAt_of_breaksOff {path : Text}
    (breaks : disk.BreaksOff (disk.start path) (components path)) : disk.nodeAt path = none := by
  rw [nodeAt]
  split
  · rfl
  · rename_i found
    simp only [Bool.or_eq_true, not_or, Bool.not_eq_true', Bool.not_eq_false] at found
    by_contra present
    exact not_breaksOff found.1.2 present breaks

/-! ## Making directories -/

/-- A node placed where nothing was leaves the others in place. -/
theorem node_place_of_some {key other : Key} (free : disk.node key = none) {stored : Node}
    (present : disk.node other = some stored) (node : Node) :
    (disk.place key node).node other = some stored := by
  rcases node_place_cases disk key node with kept | ⟨_, placed⟩
  · rw [kept, present]
  · have different : key ≠ other := by
      rintro rfl
      rw [free] at present
      cases present
    rw [placed, if_neg different, present]

/-- A node is placed under a name of a directory where nothing was. -/
theorem node_place_next {here : Key} {name : Name} (there : disk.node here = some .directory)
    (free : disk.node (resolveStep true here name) = none) (node : Node) (other : Key) :
    (disk.place (resolveStep true here name) node).node other =
      if resolveStep true here name = other then some node else disk.node other := by
  have shape := resolveStep_of_none there free
  apply node_place _ _ (by rw [free]; simp)
  · rw [shape]
    simp
  · rw [shape, List.dropLast_concat]
    exact there

/-- Only directories on the way are made, and only where nothing was. -/
theorem node_makeDirectories_cases (budget : Option Nat) (here : Key) (names : List Name)
    (disk : Disk) (key : Key) :
    (makeDirectories budget here names disk).2.node key = disk.node key ∨
      ((Exists fun front : List Name => front <+: names ∧ resolveFrom true here front = key) ∧
        disk.node key = none) := by
  induction names generalizing budget here disk with
  | nil => exact Or.inl rfl
  | cons name rest inductionHypothesis =>
      have longer : forall front : List Name, front <+: rest ->
          resolveFrom true (resolveStep true here name) front = key ->
          Exists fun front : List Name =>
            front <+: name :: rest ∧ resolveFrom true here front = key :=
        fun front below same => ⟨name :: front, List.cons_prefix_cons.mpr ⟨rfl, below⟩, same⟩
      rw [makeDirectories]
      cases found : disk.node (resolveStep true here name) with
      | none =>
          by_cases spent : budget = some 0
          · left
            simp only [if_pos spent]
          · simp only [if_neg spent]
            rcases inductionHypothesis (budget.map Nat.pred) (resolveStep true here name)
              (disk.place (resolveStep true here name) .directory) with same | ⟨⟨front, below, at_⟩, absent⟩
            · by_cases next : resolveStep true here name = key
              · exact Or.inr ⟨longer [] List.nil_prefix next, next ▸ found⟩
              · left
                rw [same]
                rcases node_place_cases disk (resolveStep true here name) .directory with
                  kept | ⟨_, placed⟩
                · rw [kept]
                · rw [placed, if_neg next]
            · refine Or.inr ⟨longer front below at_, ?_⟩
              cases stored : disk.node key with
              | none => rfl
              | some node =>
                  rw [node_place_of_some found stored] at absent
                  cases absent
      | some node =>
          cases node with
          | directory =>
              rcases inductionHypothesis budget (resolveStep true here name) disk with
                same | ⟨⟨front, below, at_⟩, absent⟩
              · exact Or.inl same
              · exact Or.inr ⟨longer front below at_, absent⟩
          | file content => exact Or.inl rfl

/-- The system may make a directory at the key for the path. -/
structure MayMake (disk : Disk) (path : Text) (key : Key) : Prop where
  there : disk.node (disk.start path) = some .directory
  passed : disk.Passes path key
  free : disk.node key = none

/-- The last name of a directory that is made is one of the path. -/
theorem MayMake.name {path : Text} {key : Key} (made : disk.MayMake path key) :
    Exists fun above : Key => Exists fun name : Name => key = above ++ [name] ∧
      name ∈ components path ∧ name ≠ dot ∧ name ≠ dotDot := by
  rcases made with ⟨there, ⟨front, below, rfl⟩, free⟩
  rcases resolveFrom_eq_take_append (disk.start path) front with ⟨count, news, same, read⟩
  rcases List.eq_nil_or_concat news with rfl | ⟨before, name, rfl⟩
  · -- Above the start there are directories only.
    rw [same, List.append_nil] at free
    by_cases whole : (disk.start path).drop count = []
    · rw [List.take_of_length_le (List.drop_eq_nil_iff.mp whole), there] at free
      cases free
    · rw [← List.take_append_drop count (disk.start path)] at there
      rw [directory_of_below there whole] at free
      cases free
  · rw [List.concat_eq_append] at same read
    rw [same, ← List.append_assoc]
    rcases read name (by simp) with ⟨member, notDot, notUp⟩
    exact ⟨_, name, rfl, below.subset member, notDot, notUp⟩

theorem node_createDirectories_cases (environment : Environment) (path : Text) (disk : Disk)
    (key : Key) : (disk.createDirectories environment path).2.node key = disk.node key ∨
      disk.MayMake path key := by
  rw [createDirectories]
  by_cases there : disk.node (disk.start path) = some .directory
  · rw [if_pos there]
    exact (node_makeDirectories_cases _ _ _ disk key).imp_right
      (fun both => ⟨there, both.1, both.2⟩)
  · rw [if_neg there]
    exact Or.inl rfl

/-- Nothing is made when creation is refused at once or when the way does not
break off. -/
theorem makeDirectories_unchanged {budget : Option Nat} {here : Key} {names : List Name}
    (there : disk.node here = some .directory)
    (nothing : budget = some 0 ∨ ¬ disk.BreaksOff here names) :
    (makeDirectories budget here names disk).2 = disk := by
  induction names generalizing here with
  | nil => rfl
  | cons name rest inductionHypothesis =>
      rw [breaksOff_cons_iff there] at nothing
      rw [makeDirectories]
      cases found : disk.node (resolveStep true here name) with
      | none =>
          have spent : budget = some 0 := by
            apply nothing.resolve_right
            exact fun whole => whole ⟨[], List.nil_prefix, rfl, found⟩
          simp only [if_pos spent]
      | some node =>
          cases node with
          | file content => rfl
          | directory => exact inductionHypothesis found nothing

/-- Otherwise a directory is made. -/
theorem makeDirectories_creates {budget : Option Nat} {here : Key} {names : List Name}
    (there : disk.node here = some .directory) (allowed : budget ≠ some 0)
    (breaks : disk.BreaksOff here names) :
    Exists fun key : Key => disk.node key = none ∧
      (makeDirectories budget here names disk).2.node key = some .directory := by
  induction names generalizing here with
  | nil =>
      rcases breaks with ⟨front, empty, _, absent⟩
      have present : disk.node here = none := by
        rw [List.prefix_nil.mp empty] at absent
        exact absent
      rw [there] at present
      cases present
  | cons name rest inductionHypothesis =>
      rw [breaksOff_cons_iff there] at breaks
      rw [makeDirectories]
      cases found : disk.node (resolveStep true here name) with
      | none =>
          simp only [if_neg allowed]
          refine ⟨resolveStep true here name, found, ?_⟩
          apply (sameFiles_makeDirectories _ _ _ _).directories
          rw [node_place_next there found, if_pos rfl]
      | some node =>
          cases node with
          | file content =>
              rcases breaks with ⟨front, _, walked, absent⟩
              cases front with
              | nil =>
                  have present : disk.node (resolveStep true here name) = none := absent
                  rw [found] at present
                  cases present
              | cons first others =>
                  rw [walks, Bool.and_eq_true, decide_eq_true_eq, found] at walked
                  cases walked.1
          | directory => exact inductionHypothesis found breaks

/-- The keys on the way at which there is nothing. -/
def missing (disk : Disk) (here : Key) (names : List Name) : Finset Key :=
  (names.inits.map (resolveFrom true here)).toFinset.filter (fun key => disk.node key = none)

theorem mem_missing_iff {here key : Key} {names : List Name} :
    key ∈ disk.missing here names <->
      (Exists fun front : List Name => front <+: names ∧ resolveFrom true here front = key) ∧
        disk.node key = none := by
  simp [missing]

theorem missing_cons {here : Key} (there : disk.node here = some .directory) (name : Name)
    (rest : List Name) :
    disk.missing here (name :: rest) = disk.missing (resolveStep true here name) rest := by
  ext key
  rw [mem_missing_iff, mem_missing_iff]
  constructor
  · rintro ⟨⟨front, below, at_⟩, absent⟩
    cases front with
    | nil =>
        have same : here = key := at_
        rw [← same, there] at absent
        cases absent
    | cons first others =>
        rcases List.cons_prefix_cons.mp below with ⟨rfl, inside⟩
        exact ⟨⟨others, inside, at_⟩, absent⟩
  · rintro ⟨⟨front, below, at_⟩, absent⟩
    exact ⟨⟨name :: front, List.cons_prefix_cons.mpr ⟨rfl, below⟩, at_⟩, absent⟩

/-- A directory that has been made is no longer missing. -/
theorem missing_place_next {here : Key} {name : Name} (there : disk.node here = some .directory)
    (free : disk.node (resolveStep true here name) = none) (rest : List Name) :
    (disk.place (resolveStep true here name) .directory).missing (resolveStep true here name) rest =
      (disk.missing (resolveStep true here name) rest).erase (resolveStep true here name) := by
  ext key
  rw [Finset.mem_erase, mem_missing_iff, mem_missing_iff, node_place_next there free]
  by_cases same : resolveStep true here name = key
  · simp [same]
  · simp [same, Ne.symm same]

/-- The directories can be made exactly when no file is on the way and the system
lets as many be made as are missing. -/
theorem makeDirectories_isOk_iff {budget : Option Nat} {here : Key} {names : List Name}
    (there : disk.node here = some .directory) :
    (makeDirectories budget here names disk).1 = true <->
      (forall front, front <+: names -> disk.fileAt (resolveFrom true here front) = none) ∧
        forall limit, budget = some limit -> (disk.missing here names).card ≤ limit := by
  have noFile : forall {disk : Disk} {here : Key}, disk.node here = some .directory ->
      disk.fileAt here = none := by
    intro disk here there
    rw [fileAt, there]
  induction names generalizing budget here disk with
  | nil =>
      have nothing : disk.missing here [] = ∅ := by
        ext key
        rw [mem_missing_iff]
        constructor
        · rintro ⟨⟨front, empty, at_⟩, absent⟩
          rw [List.prefix_nil.mp empty] at at_
          have same : here = key := at_
          rw [← same, there] at absent
          cases absent
        · intro impossible
          cases impossible
      refine ⟨fun _ => ⟨?_, fun limit _ => ?_⟩, fun _ => rfl⟩
      · intro front empty
        rw [List.prefix_nil.mp empty]
        exact noFile there
      · rw [nothing]
        exact Nat.zero_le limit
  | cons name rest inductionHypothesis =>
      rw [forall_prefix_cons_iff (fun key => disk.fileAt key = none) (noFile there), missing_cons there,
        makeDirectories]
      cases found : disk.node (resolveStep true here name) with
      | some node =>
          cases node with
          | directory => exact inductionHypothesis found
          | file content =>
              constructor
              · intro impossible
                cases impossible
              · rintro ⟨free, _⟩
                have isFile : disk.fileAt (resolveStep true here name) = none :=
                  free [] List.nil_prefix
                rw [fileAt, found] at isFile
                cases isFile
      | none =>
          have next : resolveStep true here name ∈ disk.missing (resolveStep true here name) rest :=
            mem_missing_iff.mpr ⟨⟨[], List.nil_prefix, rfl⟩, found⟩
          have fewer := Finset.card_erase_of_mem next
          have some_ := Finset.card_pos.mpr ⟨_, next⟩
          by_cases spent : budget = some 0
          · simp only [if_pos spent]
            constructor
            · intro impossible
              cases impossible
            · rintro ⟨_, allowed⟩
              have few := allowed 0 spent
              omega
          · have kept := sameFiles_place_directory found
            have placed := node_place_next there found .directory (resolveStep true here name)
            rw [if_pos rfl] at placed
            simp only [if_neg spent]
            refine (inductionHypothesis placed).trans ?_
            rw [missing_place_next there found, fewer]
            apply and_congr
            · simp only [kept.files]
            · constructor
              · rintro allowed limit rfl
                cases limit with
                | zero => exact absurd rfl spent
                | succ limit =>
                    have enough := allowed limit rfl
                    omega
              · intro allowed limit less
                cases budget with
                | none => cases less
                | some whole =>
                    have enough := allowed whole rfl
                    have predecessor : whole.pred = limit := Option.some.inj less
                    rw [Nat.pred_eq_sub_one] at predecessor
                    omega

/-- Made or found, the directories are there. -/
theorem walks_of_makeDirectories {budget : Option Nat} {here : Key} {names : List Name}
    (there : disk.node here = some .directory)
    (made : (makeDirectories budget here names disk).1 = true) :
    (makeDirectories budget here names disk).2.walks here names = true ∧
      (makeDirectories budget here names disk).2.node (resolveFrom true here names) =
        some .directory := by
  have kept := (sameFiles_makeDirectories budget here names disk).directories here there
  induction names generalizing budget here disk with
  | nil => exact ⟨rfl, there⟩
  | cons name rest inductionHypothesis =>
      have later : forall (budget : Option Nat) (disk : Disk),
          disk.node (resolveStep true here name) = some .directory ->
          (makeDirectories budget (resolveStep true here name) rest disk).1 = true ->
          (makeDirectories budget (resolveStep true here name) rest disk).2.node here =
            some .directory ->
          (makeDirectories budget (resolveStep true here name) rest disk).2.walks here
              (name :: rest) = true ∧
            (makeDirectories budget (resolveStep true here name) rest disk).2.node
              (resolveFrom true here (name :: rest)) = some .directory := by
        intro budget disk next success stays
        have whole := inductionHypothesis next success
          ((sameFiles_makeDirectories _ _ _ _).directories _ next)
        rw [walks, Bool.and_eq_true, decide_eq_true_eq]
        exact ⟨⟨stays, whole.1⟩, whole.2⟩
      rw [makeDirectories] at made kept ⊢
      cases found : disk.node (resolveStep true here name) with
      | some node =>
          simp only [found] at made kept
          cases node with
          | directory => exact later budget disk found made kept
          | file content => cases made
      | none =>
          simp only [found] at made kept
          by_cases spent : budget = some 0
          · rw [if_pos spent] at made
            cases made
          · simp only [if_neg spent] at made kept ⊢
            have placed := node_place_next there found .directory (resolveStep true here name)
            rw [if_pos rfl] at placed
            exact later _ _ placed made kept

end Disk

namespace FileSystem

open Disk

variable {environment : Environment} {disk : Disk}

/-- The directory step of `writeFile`. -/
def makeWay (environment : Environment) (directory : Text) (disk : Disk) : Bool × Disk :=
  if directory ≠ [] ∧ disk.pathExists directory = false then
    disk.createDirectories environment directory
  else (true, disk)

/-- The directory step adds a directory: the way to the directory breaks off, and
the system does not refuse to create the first one that is missing. -/
def CreatesDirectories (environment : Environment) (directory : Text) (disk : Disk) : Prop :=
  environment.mkdirBudget ≠ some 0 ∧ disk.node (disk.start directory) = some .directory ∧
    disk.BreaksOff (disk.start directory) (components directory)

theorem sameFiles_makeWay (environment : Environment) (directory : Text) (disk : Disk) :
    SameFiles disk (makeWay environment directory disk).2 := by
  rw [makeWay]
  split
  · exact sameFiles_createDirectories _ _ _
  · exact SameFiles.refl disk

/-- The directory step leaves the tree alone exactly when it adds no directory. -/
theorem sameTree_makeWay_iff (environment : Environment) (directory : Text) (disk : Disk) :
    SameTree disk (makeWay environment directory disk).2 <->
      ¬ CreatesDirectories environment directory disk := by
  rw [makeWay]
  by_cases needed : directory ≠ [] ∧ disk.pathExists directory = false
  · rw [if_pos needed, createDirectories]
    by_cases top : disk.node (disk.start directory) = some .directory
    · rw [if_pos top]
      constructor
      · rintro same ⟨allowed, _, breaks⟩
        rcases makeDirectories_creates top allowed breaks with ⟨key, absent, created⟩
        rw [same.nodes, absent] at created
        cases created
      · intro nothing
        rw [makeDirectories_unchanged top]
        · exact SameTree.refl disk
        · by_cases spent : environment.mkdirBudget = some 0
          · exact Or.inl spent
          · exact Or.inr (fun breaks => nothing ⟨spent, top, breaks⟩)
    · rw [if_neg top]
      exact ⟨fun _ creates => top creates.2.1, fun _ => SameTree.refl disk⟩
  · rw [if_neg needed]
    refine ⟨fun _ creates => needed ⟨?_, ?_⟩, fun _ => SameTree.refl disk⟩
    · rintro rfl
      rcases creates with ⟨_, top, front, empty, _, absent⟩
      have present : disk.node (disk.start []) = none := by
        rw [List.prefix_nil.mp empty] at absent
        exact absent
      rw [top] at present
      cases present
    · rw [pathExists, nodeAt_of_breaksOff creates.2.2]
      rfl

/-! ## The three outcomes of a write -/

/-- The path that `writeFile` opens. -/
def openedPath (path : Text) : Text := (splitPath path).1 ++ '/' :: (splitPath path).2

/-- The directories can be made, and then the file can be opened. -/
def Opens (environment : Environment) (path : Text) (disk : Disk) : Prop :=
  (makeWay environment (splitPath path).1 disk).1 = true ∧
    ((makeWay environment (splitPath path).1 disk).2.openOutput environment
      (openedPath path)).1 = true

instance (environment : Environment) (path : Text) (disk : Disk) :
    Decidable (Opens environment path disk) := inferInstanceAs (Decidable (_ ∧ _))

theorem writeFile_eq (environment : Environment) (path data : Text) (disk : Disk) :
    writeFile environment path data disk =
      if (splitPath path).2 = [] then (.ok false, disk)
      else
        let made := makeWay environment (splitPath path).1 disk
        if made.1 = false then (.error .filesystemError, made.2)
        else
          let opened := made.2.openOutput environment (openedPath path)
          if opened.1 = false then (.ok false, opened.2)
          else (.ok true, opened.2.write environment (openedPath path) data) := rfl

theorem writeFile_of_noName {path : Text} (unnamed : (splitPath path).2 = []) (data : Text) :
    writeFile environment path data disk = (.ok false, disk) := by
  rw [writeFile_eq, if_pos unnamed]

/-- A refused write leaves the directories that it has made. -/
theorem writeFile_of_not_opens {path : Text} (named : (splitPath path).2 ≠ [])
    (refused : ¬ Opens environment path disk) (data : Text) :
    (writeFile environment path data disk).1 ≠ .ok true ∧
      (writeFile environment path data disk).2 =
        (makeWay environment (splitPath path).1 disk).2 := by
  rw [writeFile_eq, if_neg named]
  dsimp only
  by_cases made : (makeWay environment (splitPath path).1 disk).1 = false
  · rw [if_pos made]
    exact ⟨by simp, rfl⟩
  · rw [if_neg made]
    rw [Bool.not_eq_false] at made
    rcases openOutput_cases environment (openedPath path)
      (makeWay environment (splitPath path).1 disk).2 with ⟨opened, _⟩ | ⟨unopened, unchanged⟩
    · exact absurd ⟨made, opened⟩ refused
    · rw [if_pos unopened]
      exact ⟨by simp, unchanged⟩

/-- An opened file is truncated and takes what the system stores of the data. -/
theorem writeFile_of_opens {path : Text} (named : (splitPath path).2 ≠ [])
    (opens : Opens environment path disk) (data : Text) :
    (writeFile environment path data disk).1 = .ok true ∧
      (writeFile environment path data disk).2.cwd = disk.cwd ∧
      forall other, (writeFile environment path data disk).2.node other =
        if disk.key (openedPath path) = other then some (.file (environment.stored data))
        else (makeWay environment (splitPath path).1 disk).2.node other := by
  rcases opens with ⟨made, opened⟩
  have kept := sameFiles_makeWay environment (splitPath path).1 disk
  rw [writeFile_eq, if_neg named]
  dsimp only
  rw [if_neg (by simp [made]), if_neg (by simp [opened])]
  rcases openOutput_cases environment (openedPath path)
    (makeWay environment (splitPath path).1 disk).2 with
      ⟨_, top, parent, free, truncated⟩ | ⟨unopened, _⟩
  · rw [truncated, write, place_key]
    refine ⟨rfl, by rw [place_cwd, place_cwd, kept.cwd], ?_⟩
    intro other
    rw [node_place_again top parent free, key_congr kept.cwd]
  · rw [unopened] at opened
    cases opened

theorem fileAt_writeFile_of_opens {path : Text} (named : (splitPath path).2 ≠ [])
    (opens : Opens environment path disk) (data : Text) (other : Key) :
    (writeFile environment path data disk).2.fileAt other =
      if disk.key (openedPath path) = other then some (environment.stored data)
      else disk.fileAt other := by
  have nodeIs := (writeFile_of_opens named opens data).2.2 other
  by_cases same : disk.key (openedPath path) = other
  · rw [if_pos same] at nodeIs ⊢
    exact (fileAt_eq_some_iff _ _ _).mpr nodeIs
  · rw [if_neg same] at nodeIs ⊢
    rw [fileAt_congr nodeIs]
    exact (sameFiles_makeWay environment (splitPath path).1 disk).files other

/-- A write changes no file but the one that it opens. -/
theorem writeFile_effect (environment : Environment) (path data : Text) (disk : Disk) :
    SameFilesExcept (disk.key (openedPath path)) disk (writeFile environment path data disk).2 := by
  have kept := sameFiles_makeWay environment (splitPath path).1 disk
  by_cases unnamed : (splitPath path).2 = []
  · rw [writeFile_of_noName unnamed]
    exact (SameFiles.refl disk).except _
  by_cases opens : Opens environment path disk
  · rcases writeFile_of_opens unnamed opens data with ⟨_, cwd, nodeIs⟩
    refine ⟨cwd, fun other there => ?_, fun other different => ?_⟩
    · have stays := kept.directories other there
      rw [nodeIs, if_neg, stays]
      rintro rfl
      rcases openOutput_cases environment (openedPath path)
        (makeWay environment (splitPath path).1 disk).2 with ⟨_, _, _, free, _⟩ | ⟨unopened, _⟩
      · rw [key_congr kept.cwd] at free
        exact free stays
      · rw [opens.2] at unopened
        cases unopened
    · rw [fileAt_writeFile_of_opens unnamed opens, if_neg different]
  · rw [(writeFile_of_not_opens unnamed opens data).2]
    exact kept.except _

/-- A written file is found under the path that has been opened. -/
theorem nodeAt_writeFile_of_opens {path : Text} (named : (splitPath path).2 ≠ [])
    (opens : Opens environment path disk) (data : Text) :
    (writeFile environment path data disk).2.nodeAt (openedPath path) =
      some (.file (environment.stored data)) := by
  rcases reaches_of_openOutput opens.2 with ⟨nonempty, isName, reached⟩
  have cwd := (writeFile_of_opens named opens data).2.1
  rw [nodeAt_eq_file_iff, key_congr cwd, fileAt_writeFile_of_opens named opens, if_pos rfl]
  refine ⟨nonempty, ?_, isName, rfl⟩
  -- What the directory step has left is kept by opening and writing.
  rw [writeFile_eq, if_neg named]
  dsimp only
  rw [if_neg (by simp [opens.1]), if_neg (by simp [opens.2])]
  rcases openOutput_cases environment (openedPath path)
    (makeWay environment (splitPath path).1 disk).2 with ⟨_, _, _, _, truncated⟩ | ⟨unopened, _⟩
  · rw [truncated, write]
    refine reaches_mono ?_ (fun key there => directory_place (directory_place there _ _) _ _) reached
    rw [place_cwd, place_cwd]
  · exact absurd opens.2 (by simp [unopened])

/-! ## Where nodes change -/

/-- The directory step changes nodes on the way to the directory only, where there
was nothing. -/
theorem node_makeWay_cases (environment : Environment) (directory : Text) (disk : Disk)
    (key : Key) :
    (makeWay environment directory disk).2.node key = disk.node key ∨
      (directory ≠ [] ∧ disk.MayMake directory key) := by
  rw [makeWay]
  by_cases needed : directory ≠ [] ∧ disk.pathExists directory = false
  · rw [if_pos needed]
    exact (node_createDirectories_cases _ _ disk key).imp_right (fun made => ⟨needed.1, made⟩)
  · rw [if_neg needed]
    exact Or.inl rfl

theorem writeFile_cwd (environment : Environment) (path data : Text) (disk : Disk) :
    (writeFile environment path data disk).2.cwd = disk.cwd :=
  (writeFile_effect environment path data disk).cwd

/-- A write changes the node of its file and nodes on the way to it. -/
theorem node_writeFile_cases (environment : Environment) (path data : Text) (disk : Disk)
    (key : Key) :
    (writeFile environment path data disk).2.node key = disk.node key ∨
      disk.key (openedPath path) = key ∨
      ((splitPath path).1 ≠ [] ∧ disk.MayMake (splitPath path).1 key) := by
  by_cases unnamed : (splitPath path).2 = []
  · rw [writeFile_of_noName unnamed]
    exact Or.inl rfl
  · by_cases opens : Opens environment path disk
    · rw [(writeFile_of_opens unnamed opens data).2.2 key]
      by_cases same : disk.key (openedPath path) = key
      · exact Or.inr (Or.inl same)
      · rw [if_neg same]
        exact (node_makeWay_cases _ _ _ _).imp_right Or.inr
    · rw [(writeFile_of_not_opens unnamed opens data).2]
      exact (node_makeWay_cases _ _ _ _).imp_right Or.inr

/-! ## A name behind a directory path -/

/-- A write stores its data in the file that its path names, or it reports a
failure and changes no file. -/
theorem writeFile_cases (environment : Environment) {path : Text} (nonempty : path ≠ [])
    {name : Name} (plain : Plain name) (data : Text) (disk : Disk) :
    ((writeFile environment (path ++ '/' :: name) data disk).1 = .ok true ∧
      SameFilesExcept (disk.key path ++ [name]) disk
        (writeFile environment (path ++ '/' :: name) data disk).2 ∧
      (writeFile environment (path ++ '/' :: name) data disk).2.nodeAt (path ++ '/' :: name) =
        some (.file (environment.stored data))) ∨
    ((writeFile environment (path ++ '/' :: name) data disk).1 ≠ .ok true ∧
      SameFiles disk (writeFile environment (path ++ '/' :: name) data disk).2) := by
  have split := splitPath_append_name nonempty plain
  have named : (splitPath (path ++ '/' :: name)).2 ≠ [] := by
    rw [split]
    exact plain.1
  have opened : openedPath (path ++ '/' :: name) = path ++ '/' :: name := by
    rw [openedPath, split]
  by_cases opens : Opens environment (path ++ '/' :: name) disk
  · have effect := writeFile_effect environment (path ++ '/' :: name) data disk
    have found := nodeAt_writeFile_of_opens named opens data
    rw [opened] at effect found
    rw [key_append_name disk nonempty plain] at effect
    exact Or.inl ⟨(writeFile_of_opens named opens data).1, effect, found⟩
  · rcases writeFile_of_not_opens named opens data with ⟨refused, after⟩
    rw [after]
    exact Or.inr ⟨refused, sameFiles_makeWay _ _ _⟩

/-- How `writeFile` takes a name off the path in front of it. -/
theorem splitPath_name (front : Text) {name : Name} (plain : Plain name) :
    (splitPath (front ++ '/' :: name)).2 ≠ [] ∧
      disk.key (openedPath (front ++ '/' :: name)) = disk.key (front ++ ['/']) ++ [name] ∧
      (splitPath (front ++ '/' :: name)).1 = front ∧
      mustBeDirectory (openedPath (front ++ '/' :: name)) = false := by
  by_cases top : front = []
  · subst top
    have split : splitPath ([] ++ '/' :: name) = ([], '/' :: name) := by
      rw [splitPath, Strings.findLast_append [] plain.2.1]
      rfl
    have opened : openedPath ([] ++ '/' :: name) = ['/'] ++ '/' :: name := by
      rw [openedPath, split]
      rfl
    rw [opened, split, key_append_name disk (by simp) plain]
    exact ⟨List.cons_ne_nil _ _, rfl, rfl, mustBeDirectory_append_name _ plain⟩
  · have split := splitPath_append_name top plain
    have opened : openedPath (front ++ '/' :: name) = front ++ '/' :: name := by
      rw [openedPath, split]
    rw [opened, split, key_append_name disk top plain, key_concat_slash disk top]
    exact ⟨plain.1, rfl, rfl, mustBeDirectory_append_name _ plain⟩

/-- A name is opened through the directory in front of it. -/
theorem reaches_openedPath_name (disk : Disk) (front : Text) {name : Name} (plain : Plain name) :
    disk.reaches (openedPath (front ++ '/' :: name)) = true <->
      disk.nodeAt (front ++ ['/']) = some .directory := by
  have behind : forall path : Text, disk.reaches (path ++ '/' :: name) = true <->
      disk.nodeAt (path ++ ['/']) = some .directory := by
    intro path
    have ends : (path ++ ['/']).getLast? = some '/' := List.getLast?_concat
    have reached := reaches_append_of_slash disk ends plain
    rwa [List.append_assoc, List.singleton_append] at reached
  by_cases top : front = []
  · have split : splitPath ([] ++ '/' :: name) = ([], '/' :: name) := by
      rw [splitPath, Strings.findLast_append [] plain.2.1]
      rfl
    have opened : openedPath ([] ++ '/' :: name) = ['/'] ++ '/' :: name := by
      rw [openedPath, split]
      rfl
    rw [top, opened, behind, nodeAt_eq_directory_iff, nodeAt_eq_directory_iff]
    exact ⟨fun _ => ⟨List.cons_ne_nil _ _, rfl, rfl⟩, fun _ => ⟨List.cons_ne_nil _ _, rfl, rfl⟩⟩
  · rw [openedPath, splitPath_append_name top plain]
    exact behind front

/-- A slash at the end changes nothing on the way. -/
theorem passes_concat_slash (disk : Disk) {front : Text} (nonempty : front ≠ []) (key : Key) :
    disk.Passes (front ++ ['/']) key <-> disk.Passes front key := by
  rw [Passes, Passes, components_concat_slash, start_append disk nonempty]

/-- A write under a name changes the node of that name and nodes on the way to the
directory, where there was nothing. -/
theorem node_writeFile_name (environment : Environment) (front data : Text) {name : Name}
    (plain : Plain name) (disk : Disk) (key : Key) :
    (writeFile environment (front ++ '/' :: name) data disk).2.node key = disk.node key ∨
      disk.key (front ++ ['/']) ++ [name] = key ∨
      disk.MayMake front key := by
  rcases splitPath_name front plain with ⟨_, keyIs, directoryIs, _⟩
  rcases node_writeFile_cases environment (front ++ '/' :: name) data disk key with
    same | written | ⟨_, made⟩
  · exact Or.inl same
  · exact Or.inr (Or.inl (keyIs ▸ written))
  · exact Or.inr (Or.inr (directoryIs ▸ made))

/-- A directory is at the end of the way or can be put there: no file is on the way,
and the system lets as many directories be made as are missing. -/
def CanHold (environment : Environment) (path : Text) (disk : Disk) : Prop :=
  disk.node (disk.start path) = some .directory ∧
    (forall key, disk.Passes path key -> disk.fileAt key = none) ∧
    forall limit, environment.mkdirBudget = some limit ->
      (disk.missing (disk.start path) (components path)).card ≤ limit

/-- The way can be made exactly when there can be a directory at its end. -/
theorem createDirectories_isOk_iff (environment : Environment) (path : Text) (disk : Disk) :
    (disk.createDirectories environment path).1 = true <-> CanHold environment path disk := by
  rw [createDirectories, CanHold]
  by_cases there : disk.node (disk.start path) = some .directory
  · rw [if_pos there, makeDirectories_isOk_iff there]
    constructor
    · rintro ⟨free, enough⟩
      refine ⟨there, ?_, enough⟩
      rintro key ⟨front, below, rfl⟩
      exact free front below
    · rintro ⟨_, free, enough⟩
      exact ⟨fun front below => free _ ⟨front, below, rfl⟩, enough⟩
  · rw [if_neg there]
    constructor
    · intro impossible
      cases impossible
    · rintro ⟨impossible, _⟩
      exact absurd impossible there

theorem nodeAt_createDirectories {environment : Environment} {path : Text} (nonempty : path ≠ [])
    (made : (disk.createDirectories environment path).1 = true) :
    (disk.createDirectories environment path).2.nodeAt path = some .directory := by
  have kept := sameFiles_createDirectories environment path disk
  rw [nodeAt_eq_directory_iff, key_congr kept.cwd, reaches, start_congr kept.cwd]
  rw [createDirectories] at made ⊢
  by_cases there : disk.node (disk.start path) = some .directory
  · rw [if_pos there] at made ⊢
    exact ⟨nonempty, walks_of_makeDirectories there made⟩
  · rw [if_neg there] at made
    cases made

/-- The way to a directory that is found passes directories only. -/
theorem directory_of_passes {path : Text} {key : Key} (found : disk.nodeAt path = some .directory)
    (passed : disk.Passes path key) : disk.node key = some .directory := by
  rcases (nodeAt_eq_directory_iff disk path).mp found with ⟨_, reached, present⟩
  rcases passed with ⟨front, ⟨rest, whole⟩, rfl⟩
  cases rest with
  | nil =>
      rw [List.append_nil] at whole
      rw [whole]
      exact present
  | cons name rest =>
      rw [reaches, ← whole, walks_append, Bool.and_eq_true, walks, Bool.and_eq_true,
        decide_eq_true_eq] at reached
      exact reached.2.1

/-- The way to a directory that is found leads through the directories in front of it. -/
theorem nodeAt_of_longer {path text : Text}
    (found : disk.nodeAt (path ++ '/' :: text) = some .directory) :
    disk.nodeAt (path ++ ['/']) = some .directory := by
  have nonempty : path ++ ['/'] ≠ [] := by simp
  have start : disk.start (path ++ '/' :: text) = disk.start (path ++ ['/']) := by
    rw [← start_append disk nonempty text, List.append_assoc, List.singleton_append]
  have before : components path <+: components (path ++ '/' :: text) := by
    rw [components_append_slash]
    exact List.prefix_append _ _
  have there := directory_of_passes found ⟨components path, before, rfl⟩
  have reached := ((nodeAt_eq_directory_iff _ _).mp found).2.1
  rw [reaches, start, components_append_slash, walks_append, Bool.and_eq_true] at reached
  rw [nodeAt_eq_directory_iff, reaches, Disk.key, components_concat_slash, ← start]
  exact ⟨nonempty, start ▸ reached.1, there⟩

/-- Where a directory is found nothing has to be made. -/
theorem canHold_of_nodeAt (environment : Environment) {path : Text}
    (found : disk.nodeAt path = some .directory) : CanHold environment path disk := by
  have none_ : disk.missing (disk.start path) (components path) = ∅ := by
    ext key
    rw [mem_missing_iff]
    constructor
    · rintro ⟨passed, absent⟩
      rw [directory_of_passes found passed] at absent
      cases absent
    · intro impossible
      cases impossible
  refine ⟨directory_of_passes found ⟨[], List.nil_prefix, rfl⟩, ?_, ?_⟩
  · intro key passed
    rw [fileAt, directory_of_passes found passed]
  · intro limit _
    rw [none_]
    exact Nat.zero_le limit

/-- The directory step ends in a directory exactly when there can be one. -/
theorem makeWay_isDirectory_iff (environment : Environment) (front : Text) (disk : Disk) :
    ((makeWay environment front disk).1 = true ∧
      (makeWay environment front disk).2.nodeAt (front ++ ['/']) = some .directory) <->
    CanHold environment (front ++ ['/']) disk := by
  by_cases top : front = []
  · subst top
    have there : disk.nodeAt ['/'] = some .directory := by
      rw [nodeAt_eq_directory_iff]
      exact ⟨List.cons_ne_nil _ _, rfl, rfl⟩
    rw [makeWay, if_neg (fun both => both.1 rfl)]
    exact ⟨fun _ => canHold_of_nodeAt environment there, fun _ => ⟨rfl, there⟩⟩
  have sameHold : CanHold environment (front ++ ['/']) disk <-> CanHold environment front disk := by
    simp only [CanHold, passes_concat_slash disk top, components_concat_slash, start_append disk top]
  rw [sameHold, nodeAt_concat_slash _ top, makeWay]
  by_cases needed : front ≠ [] ∧ disk.pathExists front = false
  · rw [if_pos needed, ← createDirectories_isOk_iff]
    exact ⟨fun both => both.1, fun made => ⟨made, nodeAt_createDirectories top made⟩⟩
  · rw [if_neg needed]
    refine ⟨fun both => canHold_of_nodeAt environment both.2, fun holds => ⟨rfl, ?_⟩⟩
    have present : disk.pathExists front = true := by
      rw [← Bool.not_eq_false]
      exact fun absent => needed ⟨top, absent⟩
    rcases Option.isSome_iff_exists.mp present with ⟨found, nodeIs⟩
    cases found with
    | directory => exact nodeIs
    | file content =>
        have isFile := ((nodeAt_eq_file_iff _ _ _).mp nodeIs).2.2.2
        rw [key, holds.2.1 _ ⟨components front, List.prefix_rfl, rfl⟩] at isFile
        cases isFile

end FileSystem
end Storage
end Webserver
