import Mathlib.Data.List.DropRight
import Webserver.Storage.Writes

namespace Webserver
namespace Storage

open Disk LexicalPaths

/-!
# The file that `writeFile` opens

`writeFile` takes its path apart at a slash and puts it together again with a
slash between the two parts, also where there is no directory to stand in front
of it.  A path without a slash becomes absolute so.  Behind a path that ends in a
slash, the name is looked for in front of the last two characters: `last_pos - 1`
drops one character more than the slash.
-/

/-- Two path strings lead to the same place: they have the same components and
start from the same directory. -/
structure SamePlace (first second : Text) : Prop where
  components : components first = components second
  absolute : absolute first = absolute second

instance (first second : Text) : Decidable (SamePlace first second) :=
  decidable_of_iff (components first = components second ∧ absolute first = absolute second)
    ⟨fun both => ⟨both.1, both.2⟩, fun same => ⟨same.components, same.absolute⟩⟩

theorem SamePlace.start {first second : Text} (same : SamePlace first second) (disk : Disk) :
    disk.start first = disk.start second := by
  rw [Disk.start, Disk.start, same.absolute]

theorem SamePlace.key {first second : Text} (same : SamePlace first second) (disk : Disk) :
    disk.key first = disk.key second := by
  rw [Disk.key, Disk.key, same.components, same.start]

theorem SamePlace.reaches {first second : Text} (same : SamePlace first second) (disk : Disk) :
    disk.reaches first = disk.reaches second := by
  rw [Disk.reaches, Disk.reaches, same.components, same.start]

/-- The path without its trailing slashes. -/
def withoutSlashes (path : Text) : Text := path.rdropWhile (fun symbol => symbol == '/')

/-- Some character is not a slash. -/
def HasName (path : Text) : Prop := Exists fun symbol => symbol ∈ path ∧ symbol ≠ '/'

theorem HasName.ne_nil {path : Text} (named : HasName path) : path ≠ [] := by
  rintro rfl
  rcases named with ⟨_, member, _⟩
  cases member

theorem hasName_of_concat_slash {front : Text} (named : HasName (front ++ ['/'])) :
    HasName front := by
  rcases named with ⟨symbol, member, other⟩
  rcases List.mem_append.mp member with before | here
  · exact ⟨symbol, before, other⟩
  · exact absurd (List.mem_singleton.mp here) other

theorem withoutSlashes_of_hasName {path : Text} (named : HasName path) :
    withoutSlashes path ≠ [] := by
  rcases named with ⟨symbol, member, other⟩
  intro empty
  have slash := List.rdropWhile_eq_nil_iff.mp empty symbol member
  exact other (by simpa using slash)

theorem withoutSlashes_getLast (path : Text) : (withoutSlashes path).getLast? ≠ some '/' := by
  intro ends
  have nonempty : withoutSlashes path ≠ [] := by
    rintro empty
    rw [empty] at ends
    cases ends
  have other := List.rdropWhile_last_not (fun symbol => symbol == '/') path nonempty
  rw [List.getLast?_eq_some_getLast nonempty, Option.some.injEq] at ends
  exact other (by rw [beq_iff_eq]; exact ends)

theorem samePlace_withoutSlashes {path : Text} (named : HasName path) :
    SamePlace (withoutSlashes path) path := by
  induction path using List.reverseRecOn with
  | nil => exact absurd rfl named.ne_nil
  | append_singleton front symbol inductionHypothesis =>
      by_cases slash : symbol = '/'
      · subst slash
        have earlier := hasName_of_concat_slash named
        have same := inductionHypothesis earlier
        rw [withoutSlashes, List.rdropWhile_concat_pos _ _ _ (by decide), ← withoutSlashes]
        exact ⟨by rw [components_concat_slash, same.components],
          by rw [absolute_append earlier.ne_nil, same.absolute]⟩
      · rw [withoutSlashes, List.rdropWhile_concat_neg _ _ _ (by simpa using slash)]
        exact ⟨rfl, rfl⟩

namespace FileSystem

/-! ## The path that is opened -/

/-- A slash stands where `writeFile` looks for the end of the directory: anywhere
in the path, or in front of the last two characters of a path that ends in a
slash. -/
def HasDirectory (path : Text) : Prop :=
  '/' ∈ (if path.getLast? = some '/' then path.dropLast.dropLast else path)

instance (path : Text) : Decidable (HasDirectory path) := inferInstanceAs (Decidable (_ ∈ _))

/-- What `writeFile` opens leads to the place that its path names. -/
def OpensItsFile (path : Text) : Prop :=
  (splitPath path).2 ≠ [] ∧ SamePlace (openedPath path) path

instance (path : Text) : Decidable (OpensItsFile path) := inferInstanceAs (Decidable (_ ∧ _))

theorem splitPath_of_noSlash {path : Text} (plain : '/' ∉ path) : splitPath path = ([], path) := by
  rw [splitPath, (Strings.findLast_eq_none_iff _ _).mpr plain]

/-- Without a slash the path is opened in the root directory. -/
theorem not_opensItsFile_of_noSlash {path : Text} (plain : '/' ∉ path) : ¬ OpensItsFile path := by
  rintro ⟨_, same⟩
  have relative : absolute path = false := by
    cases path with
    | nil => rfl
    | cons first rest =>
        rw [absolute, List.head?_cons]
        exact beq_eq_false_iff_ne.mpr (fun here => plain (by simp [Option.some.inj here]))
  have starts := same.absolute
  rw [openedPath, splitPath_of_noSlash plain, relative] at starts
  cases starts

/-- A path whose last slash has a name behind it is opened as it is, up to a second
slash at its start. -/
theorem opensItsFile_of_name (directory : Text) {file : Text} (named : file ≠ [])
    (last : '/' ∉ file) : OpensItsFile (directory ++ '/' :: file) := by
  by_cases top : directory = []
  · subst top
    have split : splitPath ('/' :: file) = ([], '/' :: file) := by
      rw [splitPath, ← List.nil_append ('/' :: file), Strings.findLast_append [] last]
      rfl
    rw [List.nil_append, OpensItsFile, openedPath, split]
    exact ⟨List.cons_ne_nil _ _, components_cons_slash _, rfl⟩
  · have split := splitPath_inner top named last
    rw [OpensItsFile, openedPath, split]
    exact ⟨named, rfl, rfl⟩

/-- Behind a trailing slash the directory ends at the last slash in front of the last
two characters, and the rest is the file. -/
theorem splitPath_trailing_inner (directory : Text) {rest : Text} (plain : '/' ∉ rest)
    (symbol : Char) :
    splitPath (directory ++ '/' :: rest ++ [symbol] ++ ['/']) = (directory, rest ++ [symbol]) := by
  have last := Strings.findLast_append (directory ++ '/' :: rest ++ [symbol])
    (List.not_mem_nil (a := '/'))
  have front : (directory ++ '/' :: rest ++ [symbol] ++ ['/']).take
      ((directory ++ '/' :: rest ++ [symbol]).length - 1) = directory ++ '/' :: rest := by
    rw [List.length_append, List.length_singleton, Nat.add_sub_cancel, List.append_assoc,
      List.take_left]
  have shape : directory ++ '/' :: rest ++ [symbol] ++ ['/'] =
      directory ++ ['/'] ++ ((rest ++ [symbol]) ++ ['/']) := by simp
  have behind : (directory ++ '/' :: rest ++ [symbol] ++ ['/']).drop (directory.length + 1) =
      (rest ++ [symbol]) ++ ['/'] := by
    rw [shape, List.drop_left' (by simp)]
  have count : (directory ++ '/' :: rest ++ [symbol]).length - (directory.length + 1) =
      (rest ++ [symbol]).length := by
    simp only [List.length_append, List.length_cons, List.length_nil]
    omega
  rw [splitPath, last]
  dsimp only
  rw [if_neg (by simp), if_pos (by simp), front, Strings.findLast_append directory plain]
  dsimp only
  rw [behind, count, List.take_left]
  simp [List.append_assoc]

/-- Without a slash in front of the last two characters these are dropped. -/
theorem splitPath_trailing {front : Text} (nonempty : front ≠ []) (plain : '/' ∉ front.dropLast) :
    splitPath (front ++ ['/']) = ([], front.dropLast) := by
  have before : (front ++ ['/']).take (front.length - 1) = front.dropLast := by
    rw [List.take_append_of_le_length (Nat.sub_le _ _), ← List.dropLast_eq_take]
  rw [splitPath, Strings.findLast_append front (List.not_mem_nil (a := '/'))]
  dsimp only
  rw [if_neg (fun empty => nonempty (List.length_eq_zero_iff.mp empty)), if_pos (by simp), before,
    (Strings.findLast_eq_none_iff _ _).mpr plain]

/-- A path that ends in a slash is opened as its place exactly when a slash stands in
front of its last two characters. -/
theorem opensItsFile_trailing_iff {front : Text} (named : HasName front) :
    OpensItsFile (front ++ ['/']) <-> '/' ∈ front.dropLast := by
  have nonempty := named.ne_nil
  have same : SamePlace front (front ++ ['/']) :=
    ⟨(components_concat_slash front).symm, (absolute_append nonempty _).symm⟩
  constructor
  · intro opens
    by_contra plain
    have split := splitPath_trailing nonempty plain
    rw [OpensItsFile, openedPath, split] at opens
    -- A relative path has become absolute.
    have starts := opens.2.absolute
    rw [← same.absolute] at starts
    cases front with
    | nil => exact nonempty rfl
    | cons first rest =>
        cases rest with
        | nil => exact opens.1 rfl
        | cons second others =>
            have here : first = '/' := by simpa [absolute] using starts
            exact plain (by simp [here])
  · intro inner
    rcases Strings.exists_last_field '/' front.dropLast with ⟨before, rest, split, plain, cut⟩
    have ends : before.getLast? = some '/' := by
      rcases cut with rfl | ends
      · rw [split] at inner
        exact absurd inner plain
      · exact ends
    rcases List.getLast?_eq_some_iff.mp ends with ⟨directory, rfl⟩
    have shape : front = directory ++ '/' :: rest ++ [front.getLast nonempty] := by
      have last := (List.dropLast_concat_getLast nonempty).symm
      rwa [split, List.append_assoc directory, List.singleton_append] at last
    rw [shape] at same ⊢
    rw [OpensItsFile, openedPath, splitPath_trailing_inner directory plain]
    refine ⟨by simp, ?_⟩
    simpa [List.append_assoc] using same

/-- `writeFile` opens its own file exactly when a slash stands where it looks for the
end of the directory. -/
theorem opensItsFile_iff {path : Text} (named : HasName path) :
    OpensItsFile path <-> HasDirectory path := by
  rw [HasDirectory]
  by_cases trailing : path.getLast? = some '/'
  · rw [if_pos trailing]
    rcases List.getLast?_eq_some_iff.mp trailing with ⟨front, rfl⟩
    rw [List.dropLast_concat, opensItsFile_trailing_iff (hasName_of_concat_slash named)]
  · rw [if_neg trailing]
    constructor
    · intro opens
      by_contra plain
      exact not_opensItsFile_of_noSlash plain opens
    · intro inner
      rcases Strings.exists_last_field '/' path with ⟨before, file, rfl, plain, cut⟩
      have ends : before.getLast? = some '/' := by
        rcases cut with rfl | ends
        · exact absurd inner plain
        · exact ends
      rcases List.getLast?_eq_some_iff.mp ends with ⟨directory, rfl⟩
      have nonempty : file ≠ [] := by
        rintro rfl
        exact trailing (by simp)
      rw [List.append_assoc, List.singleton_append]
      exact opensItsFile_of_name directory nonempty plain

/-! ## Whether it can be opened -/

theorem noSlash_of_isFile {path : Text} (isFile : mustBeDirectory path = false) :
    path.getLast? ≠ some '/' := by
  intro trailing
  simp [mustBeDirectory, trailing] at isFile

/-- The file part of a path is a name, or a name behind the slash at the start of the
path, or it ends in a slash. -/
theorem splitPath_file_cases (path : Text) : '/' ∉ (splitPath path).2 ∨
    ((splitPath path).1 = [] ∧
      Exists fun rest : Text => (splitPath path).2 = '/' :: rest ∧ '/' ∉ rest) ∨
    (splitPath path).2.getLast? = some '/' := by
  rcases Strings.exists_last_field '/' path with ⟨before, file, rfl, plain, rfl | ends⟩
  · rw [List.nil_append, splitPath_of_noSlash plain]
    exact Or.inl plain
  rcases List.getLast?_eq_some_iff.mp ends with ⟨directory, rfl⟩
  rw [List.append_assoc, List.singleton_append]
  by_cases top : directory = []
  · have split : splitPath ('/' :: file) = ([], '/' :: file) := by
      rw [splitPath, ← List.nil_append ('/' :: file), Strings.findLast_append [] plain]
      rfl
    rw [top, List.nil_append, split]
    exact Or.inr (Or.inl ⟨rfl, file, rfl, plain⟩)
  by_cases named : file = []
  · subst named
    by_cases inner : '/' ∈ directory.dropLast
    · rcases Strings.exists_last_field '/' directory.dropLast with ⟨front, rest, split, avoids, cut⟩
      rcases cut with rfl | ends
      · rw [split] at inner
        exact absurd inner avoids
      rcases List.getLast?_eq_some_iff.mp ends with ⟨outer, rfl⟩
      have shape := (List.dropLast_concat_getLast top).symm
      rw [split, List.append_assoc outer, List.singleton_append] at shape
      rw [shape, splitPath_trailing_inner outer avoids]
      by_cases slash : directory.getLast top = '/'
      · exact Or.inr (Or.inr (by rw [slash, List.getLast?_concat]))
      · exact Or.inl (by simp [avoids, Ne.symm slash])
    · rw [splitPath_trailing top inner]
      exact Or.inl inner
  · rw [splitPath_inner top named plain]
    exact Or.inl plain

/-- What is opened and need not be a directory is a name in the directory. -/
theorem exists_openedName {path : Text} (named : (splitPath path).2 ≠ [])
    (isFile : mustBeDirectory (openedPath path) = false) : Exists fun name : Name =>
      Plain name ∧ SamePlace (openedPath path) ((splitPath path).1 ++ '/' :: name) := by
  have parts : forall name : Name, name ≠ [] -> '/' ∉ name ->
      SamePlace (openedPath path) ((splitPath path).1 ++ '/' :: name) -> Plain name := by
    intro name nonempty noSlash same
    rw [mustBeDirectory, same.components, components_append_slash,
      components_of_name nonempty noSlash, List.getLast?_concat] at isFile
    simp only [Bool.or_eq_false_iff, beq_eq_false_iff_ne, ne_eq, Option.some.injEq] at isFile
    exact ⟨nonempty, noSlash, isFile.1.2, isFile.2⟩
  rcases splitPath_file_cases path with noSlash | ⟨top, rest, fileIs, noSlash⟩ | trailing
  · exact ⟨_, parts _ named noSlash ⟨rfl, rfl⟩, rfl, rfl⟩
  · have same : SamePlace (openedPath path) ((splitPath path).1 ++ '/' :: rest) := by
      rw [openedPath, top, fileIs]
      exact ⟨components_cons_slash _, rfl⟩
    refine ⟨rest, parts rest ?_ noSlash same, same⟩
    rintro rfl
    rw [openedPath, fileIs] at isFile
    simp [mustBeDirectory] at isFile
  · rw [openedPath] at isFile
    have ends : ((splitPath path).1 ++ '/' :: (splitPath path).2).getLast? = some '/' := by
      rw [List.getLast?_append, List.getLast?_cons, trailing]
      rfl
    exact absurd ends (noSlash_of_isFile isFile)

/-- The file can be opened: the system does not refuse it, it is no directory, the
directory for it is there or can be made, and the way to that directory does not need the
file itself for one. -/
structure CanOpen (environment : Environment) (path : Text) (disk : Disk) : Prop where
  allowed : environment.refusesOpen = false
  isFile : mustBeDirectory (openedPath path) = false
  holds : CanHold environment ((splitPath path).1 ++ ['/']) disk
  free : disk.node (disk.key (openedPath path)) ≠ some .directory
  apart : ¬ disk.Passes ((splitPath path).1 ++ ['/']) (disk.key (openedPath path))

theorem opens_iff {environment : Environment} {path : Text} {disk : Disk}
    (named : (splitPath path).2 ≠ []) :
    Opens environment path disk <-> CanOpen environment path disk := by
  by_cases isFile : mustBeDirectory (openedPath path) = false
  swap
  · refine iff_of_false ?_ (fun possible => isFile possible.isFile)
    rintro ⟨_, opened⟩
    exact isFile (reaches_of_openOutput opened).2.1
  obtain ⟨name, plain, same⟩ := exists_openedName named isFile
  have kept := sameFiles_makeWay environment (splitPath path).1 disk
  have samePasses : (makeWay environment (splitPath path).1 disk).2.Passes ((splitPath path).1 ++ ['/']) =
      disk.Passes ((splitPath path).1 ++ ['/']) := by
    funext key
    rw [Passes, Passes, start_congr kept.cwd]
  have ends : ((splitPath path).1 ++ ['/']).getLast? = some '/' := List.getLast?_concat
  have behind : (splitPath path).1 ++ ['/'] ++ name = (splitPath path).1 ++ '/' :: name := by simp
  have keyIs : forall disk : Disk,
      disk.key (openedPath path) = disk.key ((splitPath path).1 ++ ['/']) ++ [name] := by
    intro disk
    rw [same.key, ← behind, key_append_of_slash disk ends plain]
  have reached : forall disk : Disk, disk.reaches (openedPath path) = true <->
      disk.nodeAt ((splitPath path).1 ++ ['/']) = some .directory := by
    intro disk
    rw [same.reaches, ← behind, reaches_append_of_slash disk ends plain]
  constructor
  · rintro ⟨made, opened⟩
    have parent := (reached _).mp (reaches_of_openOutput opened).2.2
    have noDirectory : (makeWay environment (splitPath path).1 disk).2.node
        (disk.key (openedPath path)) ≠ some .directory := by
      intro directory
      rw [openOutput, key_congr kept.cwd] at opened
      simp [directory] at opened
    refine ⟨?_, isFile, (makeWay_isDirectory_iff _ _ _).mp ⟨made, parent⟩, ?_, ?_⟩
    · rw [← Bool.not_eq_true]
      intro refused
      simp [openOutput, refused] at opened
    · exact fun directory => noDirectory (kept.directories _ directory)
    · intro passed
      rw [← samePasses] at passed
      exact noDirectory (directory_of_passes parent passed)
  · rintro ⟨allowed, _, holds, free, apart⟩
    obtain ⟨made, parent⟩ := (makeWay_isDirectory_iff _ _ _).mpr holds
    refine ⟨made, ?_⟩
    have there := ((nodeAt_eq_directory_iff _ _).mp parent).2.2
    rw [key_congr kept.cwd] at there
    have stillFree : (makeWay environment (splitPath path).1 disk).2.node
        (disk.key (openedPath path)) ≠ some .directory := by
      rcases node_makeWay_cases environment (splitPath path).1 disk (disk.key (openedPath path)) with
        unchanged | ⟨nonempty, made⟩
      · rwa [unchanged]
      · exact absurd ((passes_concat_slash disk nonempty _).mpr made.passed) apart
    have nonempty : openedPath path ≠ [] := by simp [openedPath]
    rw [keyIs] at stillFree
    rw [openOutput, key_congr kept.cwd, keyIs]
    simp [nonempty, allowed, isFile, (reached _).mpr parent, there, stillFree]

/-- A new name can be opened exactly when there can be a directory for it, the way to
this directory does not need the name itself for one, and the system does not refuse
to open the file. -/
theorem opens_name_iff (environment : Environment) {disk : Disk} (front : Text) {name : Name}
    (plain : Plain name) (free : disk.node (disk.key (front ++ ['/']) ++ [name]) = none) :
    Opens environment (front ++ '/' :: name) disk <->
      environment.refusesOpen = false ∧ CanHold environment (front ++ ['/']) disk ∧
        ¬ disk.Passes (front ++ ['/']) (disk.key (front ++ ['/']) ++ [name]) := by
  obtain ⟨named, keyIs, directoryIs, isFile⟩ := @splitPath_name disk front name plain
  have noDirectory : disk.node (disk.key (front ++ ['/']) ++ [name]) ≠ some .directory := by
    rw [free]
    simp
  rw [opens_iff named]
  constructor
  · intro possible
    have holds := possible.holds
    have apart := possible.apart
    rw [directoryIs] at holds apart
    rw [keyIs] at apart
    exact ⟨possible.allowed, holds, apart⟩
  · rintro ⟨allowed, holds, apart⟩
    refine ⟨allowed, isFile, ?_, ?_, ?_⟩
    · rwa [directoryIs]
    · rwa [keyIs]
    · rwa [directoryIs, keyIs]

/-! ## Reading back -/

/-- What a successful write has stored is read under every path to the same place that
does not end in a slash. -/
theorem openInput_writeFile {environment : Environment} {path read data : Text} {disk : Disk}
    (nonempty : read ≠ []) (noSlash : read.getLast? ≠ some '/')
    (same : SamePlace (openedPath path) read)
    (written : (writeFile environment path data disk).1 = .ok true) :
    (writeFile environment path data disk).2.openInput read = some (environment.stored data) := by
  have named : (splitPath path).2 ≠ [] := by
    intro unnamed
    rw [writeFile_of_noName unnamed] at written
    cases written
  have opens : Opens environment path disk := by
    by_contra refused
    exact (writeFile_of_not_opens named refused data).1 written
  have found := nodeAt_writeFile_of_opens named opens data
  rw [nodeAt_eq_file_iff, same.key, same.reaches] at found
  rcases found with ⟨_, reached, isFile, stored⟩
  have plain : mustBeDirectory read = false := by
    rw [mustBeDirectory, same.components] at isFile
    simp only [Bool.or_eq_false_iff] at isFile
    rw [mustBeDirectory, isFile.1.2, isFile.2, Bool.or_false, Bool.or_false]
    simpa using noSlash
  rw [openInput, (nodeAt_eq_file_iff _ _ _).mpr ⟨nonempty, reached, plain, stored⟩]

/-- What is read of a file that is not empty is the file's content. -/
theorem openInput_eq_some_iff {path content : Text} (nonempty : content ≠ []) (disk : Disk) :
    disk.openInput path = some content <-> disk.nodeAt path = some (.file content) := by
  rw [openInput]
  cases disk.nodeAt path with
  | none => simp
  | some node =>
      cases node with
      | directory => simp [Ne.symm nonempty]
      | file stored => simp

/-- A path with a slash in it under which there is a file is opened as it is. -/
theorem opensItsFile_of_file {path : Text} (nonempty : path ≠ [])
    (isFile : mustBeDirectory path = false) (slash : '/' ∈ path) : OpensItsFile path := by
  have ends := noSlash_of_isFile isFile
  have named : HasName path := by
    refine ⟨path.getLast nonempty, List.getLast_mem nonempty, fun last => ends ?_⟩
    rw [List.getLast?_eq_some_getLast nonempty, last]
  rw [opensItsFile_iff named, HasDirectory, if_neg ends]
  exact slash

/-- A file into which its own content is written back keeps it, also where the write is
refused. -/
theorem openInput_writeBack {environment : Environment} (complete : environment.writeLimit = none)
    {path content : Text} (nonempty : content ≠ []) (slash : '/' ∈ path) {disk : Disk}
    (stored : disk.openInput path = some content) :
    (writeFile environment path content disk).2.openInput path = some content := by
  have found := (openInput_eq_some_iff nonempty disk).mp stored
  rcases (nodeAt_eq_file_iff disk path content).mp found with ⟨named, _, isFile, _⟩
  have opensItsFile := opensItsFile_of_file named isFile slash
  by_cases opens : Opens environment path disk
  · have written := (writeFile_of_opens opensItsFile.1 opens content).1
    rw [openInput_writeFile named (noSlash_of_isFile isFile) opensItsFile.2 written,
      Environment.stored_of_complete complete]
  · rw [(writeFile_of_not_opens opensItsFile.1 opens content).2, openInput_eq_some_iff nonempty]
    exact (sameFiles_makeWay environment (splitPath path).1 disk).nodeAt_file found

/-- `writeFile` writes the file that it is given: what it opens leads to the place of its
path, and `readFile` on the path without trailing slashes reads what a successful write
has written.  Reading goes line by line, so it is compared with the lines of the data. -/
structure WritesItsFile (path : Text) : Prop where
  opens : OpensItsFile path
  reads : forall environment data disk, environment.writeLimit = none ->
    (writeFile environment path data disk).1 = .ok true ->
      (writeFile environment path data disk).2.openInput (withoutSlashes path) = some data ∧
      readFile (withoutSlashes path) (writeFile environment path data disk).2 =
        (true, getlines data)

/-- Exactly the paths with a slash in front of their last two characters, or of their last
character if that is no slash, are written where they lead. -/
theorem writesItsFile_iff (path : Text) (named : HasName path) :
    WritesItsFile path <-> HasDirectory path := by
  rw [← opensItsFile_iff named]
  refine ⟨WritesItsFile.opens, fun opens => ⟨opens, ?_⟩⟩
  intro environment data disk complete written
  have nonempty := withoutSlashes_of_hasName named
  have trimmed := samePlace_withoutSlashes named
  have same : SamePlace (openedPath path) (withoutSlashes path) :=
    ⟨opens.2.components.trans trimmed.components.symm,
      opens.2.absolute.trans trimmed.absolute.symm⟩
  have found := openInput_writeFile nonempty (withoutSlashes_getLast path) same written
  rw [Environment.stored_of_complete complete] at found
  refine ⟨found, ?_⟩
  rw [readFile, found]
  dsimp only
  rw [if_neg nonempty]

theorem trailingSlash_isWritten :
    WritesItsFile "/data/1/".toList ∧ ¬ WritesItsFile "ab/".toList :=
  ⟨(writesItsFile_iff "/data/1/".toList ⟨'d', by decide, by decide⟩).mpr (by decide),
    fun writes => absurd ((writesItsFile_iff "ab/".toList ⟨'a', by decide, by decide⟩).mp writes)
      (by decide)⟩

/-- A name without a slash is written into the root directory. -/
theorem relativeName_isNotWritten :
    openedPath "a".toList = "/a".toList ∧ ¬ WritesItsFile "a".toList :=
  ⟨by decide, fun writes => absurd writes.opens (by decide)⟩

end FileSystem
end Storage
end Webserver
