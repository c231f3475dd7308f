import Webserver.Storage.FileSystem

namespace Webserver
namespace Storage

open LexicalPaths

/-!
# What the storage operations change

Every update concerns one regular file.  `SameFilesExcept` says which one; a
write that is refused and a directory that is created change none.  No directory
goes away, so what has been reached once stays within reach.  The path of a file
is given as a directory and a name, in the form in which handlers build it, and
its key is the directory's key followed by the name.
-/

/-- Only the regular file at one key may differ. -/
structure SameFilesExcept (key : Key) (before after : Disk) : Prop where
  cwd : after.cwd = before.cwd
  directories : forall other, before.node other = some .directory ->
    after.node other = some .directory
  files : forall other, key ≠ other -> after.fileAt other = before.fileAt other

/-- All regular files are the same. -/
structure SameFiles (before after : Disk) : Prop where
  cwd : after.cwd = before.cwd
  directories : forall other, before.node other = some .directory ->
    after.node other = some .directory
  files : forall key, after.fileAt key = before.fileAt key

namespace SameFiles

theorem refl (disk : Disk) : SameFiles disk disk := ⟨rfl, fun _ there => there, fun _ => rfl⟩

theorem trans {first second third : Disk} (before : SameFiles first second)
    (after : SameFiles second third) : SameFiles first third :=
  ⟨after.cwd.trans before.cwd,
    fun key there => after.directories key (before.directories key there),
    fun key => (after.files key).trans (before.files key)⟩

theorem except {before after : Disk} (same : SameFiles before after) (key : Key) :
    SameFilesExcept key before after :=
  ⟨same.cwd, same.directories, fun other _ => same.files other⟩

end SameFiles

namespace Disk

variable {disk : Disk}

theorem start_congr {first second : Disk} (same : second.cwd = first.cwd) (path : Text) :
    second.start path = first.start path := by
  rw [start, start, same]

theorem key_congr {first second : Disk} (same : second.cwd = first.cwd) (path : Text) :
    second.key path = first.key path := by
  rw [key, key, start_congr same]

theorem start_append (disk : Disk) {path : Text} (nonempty : path ≠ []) (text : Text) :
    disk.start (path ++ text) = disk.start path := by
  rw [start, start, absolute_append nonempty]

/-! ## Keys of files -/

/-- The key of a name behind a path. -/
theorem key_append_name (disk : Disk) {path : Text} (nonempty : path ≠ []) {name : Name}
    (plain : Plain name) : disk.key (path ++ '/' :: name) = disk.key path ++ [name] := by
  rw [key, key, start_append disk nonempty, components_append_slash,
    components_of_name plain.1 plain.2.1, resolveFrom_append, resolveFrom_plain true _ plain]

theorem key_concat_slash (disk : Disk) {path : Text} (nonempty : path ≠ []) :
    disk.key (path ++ ['/']) = disk.key path := by
  rw [key, key, start_append disk nonempty, components_concat_slash]

/-- The same behind a path that ends in a separator. -/
theorem key_append_of_slash (disk : Disk) {path : Text} (ends : path.getLast? = some '/')
    {name : Name} (plain : Plain name) : disk.key (path ++ name) = disk.key path ++ [name] := by
  have nonempty : path ≠ [] := by
    intro empty
    rw [empty] at ends
    cases ends
  rw [key, key, start_append disk nonempty, components_append_of_separated (Or.inl ends),
    components_of_name plain.1 plain.2.1, resolveFrom_append, resolveFrom_plain true _ plain]

theorem mustBeDirectory_append_name (path : Text) {name : Name} (plain : Plain name) :
    mustBeDirectory (path ++ '/' :: name) = false := by
  rcases List.eq_nil_or_concat name |>.resolve_left plain.1 with ⟨front, last, same⟩
  rw [List.concat_eq_append] at same
  have notSlash : last ≠ '/' := by
    intro slash
    exact plain.2.1 (by simp [same, slash])
  have ends : (path ++ '/' :: name).getLast? = some last := by
    rw [same, ← List.cons_append, ← List.append_assoc, List.getLast?_concat]
  have final : (components (path ++ '/' :: name)).getLast? = some name := by
    rw [components_append_slash, components_of_name plain.1 plain.2.1, List.getLast?_concat]
  rw [mustBeDirectory, ends, final]
  simp [notSlash, plain.2.2.1, plain.2.2.2]

/-! ## Ways -/

theorem walks_append (disk : Disk) (here : Key) (first second : List Name) :
    disk.walks here (first ++ second) =
      (disk.walks here first && disk.walks (resolveFrom true here first) second) := by
  induction first generalizing here with
  | nil => rfl
  | cons name rest inductionHypothesis =>
      rw [List.cons_append, walks, walks, inductionHypothesis, Bool.and_assoc]
      rfl

/-- A way stays open while no directory on it goes away. -/
theorem walks_mono {first second : Disk}
    (directories : forall key, first.node key = some .directory ->
      second.node key = some .directory) {here : Key} {names : List Name}
    (walked : first.walks here names = true) : second.walks here names = true := by
  induction names generalizing here with
  | nil => rfl
  | cons name rest inductionHypothesis =>
      rw [walks, Bool.and_eq_true, decide_eq_true_eq] at walked ⊢
      exact ⟨directories here walked.1, inductionHypothesis walked.2⟩

theorem reaches_mono {first second : Disk} (same : second.cwd = first.cwd)
    (directories : forall key, first.node key = some .directory ->
      second.node key = some .directory) {path : Text} (reached : first.reaches path = true) :
    second.reaches path = true := by
  rw [reaches, start_congr same]
  exact walks_mono directories reached

theorem nodeAt_eq_directory_iff (disk : Disk) (path : Text) :
    disk.nodeAt path = some .directory ↔
      path ≠ [] ∧ disk.reaches path = true ∧ disk.node (disk.key path) = some .directory := by
  by_cases empty : path = []
  · simp [nodeAt, empty]
  · cases reached : disk.reaches path with
    | false => simp [nodeAt, reached]
    | true =>
        by_cases directory : disk.node (disk.key path) = some .directory
        · simp [nodeAt, empty, reached, directory]
        · simp [nodeAt, empty, reached, directory]

theorem nodeAt_eq_file_iff (disk : Disk) (path content : Text) :
    disk.nodeAt path = some (.file content) ↔
      path ≠ [] ∧ disk.reaches path = true ∧ mustBeDirectory path = false ∧
        disk.fileAt (disk.key path) = some content := by
  rw [fileAt_eq_some_iff]
  by_cases empty : path = []
  · simp [nodeAt, empty]
  · cases reached : disk.reaches path with
    | false => simp [nodeAt, reached]
    | true =>
        cases slash : mustBeDirectory path with
        | false => simp [nodeAt, empty, reached, slash]
        | true =>
            by_cases directory : disk.node (disk.key path) = some .directory
            · simp [nodeAt, reached, slash, directory]
            · simp [nodeAt, reached, slash, directory]

/-- A name is reached through the directory in front of it. -/
theorem reaches_append_of_slash (disk : Disk) {path : Text} (ends : path.getLast? = some '/')
    {name : Name} (plain : Plain name) :
    disk.reaches (path ++ name) = true ↔ disk.nodeAt path = some .directory := by
  have nonempty : path ≠ [] := by
    rintro rfl
    cases ends
  rw [nodeAt_eq_directory_iff, reaches, start_append disk nonempty,
    components_append_of_separated (Or.inl ends), components_of_name plain.1 plain.2.1, walks_append]
  simp [nonempty, walks, reaches, key]

/-- What is found under a name is what the directory holds. -/
theorem nodeAt_name (disk : Disk) (front : Text) {name : Name} (plain : Plain name) :
    disk.nodeAt (front ++ '/' :: name) =
      if disk.nodeAt (front ++ ['/']) = some .directory then
        disk.node (disk.key (front ++ ['/']) ++ [name])
      else none := by
  have ends : (front ++ ['/']).getLast? = some '/' := List.getLast?_concat
  have keyIs := key_append_of_slash disk ends plain
  have reached := reaches_append_of_slash disk ends plain
  rw [List.append_assoc, List.singleton_append] at keyIs reached
  rw [nodeAt, keyIs, mustBeDirectory_append_name front plain]
  by_cases directory : disk.nodeAt (front ++ ['/']) = some .directory
  · simp [reached.mpr directory, directory]
  · have away := mt reached.mp directory
    simp [away, directory]

theorem nodeAt_concat_slash (disk : Disk) {path : Text} (nonempty : path ≠ []) :
    disk.nodeAt (path ++ ['/']) = some .directory ↔ disk.nodeAt path = some .directory := by
  rw [nodeAt_eq_directory_iff, nodeAt_eq_directory_iff, key_concat_slash disk nonempty, reaches,
    reaches, start_append disk nonempty, components_concat_slash]
  simp [nonempty]

/-- A node is found under a name in a directory that is found. -/
theorem nodeAt_append_name_iff (disk : Disk) {path : Text} (nonempty : path ≠ []) {name : Name}
    (plain : Plain name) (node : Node) :
    disk.nodeAt (path ++ '/' :: name) = some node ↔
      disk.nodeAt path = some .directory ∧ disk.node (disk.key path ++ [name]) = some node := by
  rw [disk.nodeAt_name path plain, key_concat_slash disk nonempty]
  by_cases directory : disk.nodeAt path = some .directory
  · simp [(nodeAt_concat_slash disk nonempty).mpr directory, directory]
  · simp [mt (nodeAt_concat_slash disk nonempty).mp directory, directory]

end Disk

namespace SameFilesExcept

open Disk

variable {key : Key} {before after : Disk}

theorem reaches (same : SameFilesExcept key before after) {path : Text}
    (reached : before.reaches path = true) : after.reaches path = true :=
  reaches_mono same.cwd same.directories reached

/-- Another file is found where it was found before. -/
theorem nodeAt_file (same : SameFilesExcept key before after) {path content : Text}
    (other : key ≠ before.key path) (found : before.nodeAt path = some (.file content)) :
    after.nodeAt path = some (.file content) := by
  rw [nodeAt_eq_file_iff] at found ⊢
  rw [key_congr same.cwd, same.files _ other]
  exact ⟨found.1, same.reaches found.2.1, found.2.2⟩

end SameFilesExcept

/-- A file is found where it was found before. -/
theorem SameFiles.nodeAt_file {before after : Disk} (same : SameFiles before after)
    {path content : Text} (found : before.nodeAt path = some (.file content)) :
    after.nodeAt path = some (.file content) := by
  rw [Disk.nodeAt_eq_file_iff] at found ⊢
  rw [Disk.key_congr same.cwd, same.files]
  exact ⟨found.1, Disk.reaches_mono same.cwd same.directories found.2.1, found.2.2⟩

namespace Disk

variable {disk : Disk}

/-! ## Single updates -/

/-- A node is placed, or nothing happens. -/
theorem node_place_cases (disk : Disk) (key : Key) (node : Node) :
    disk.place key node = disk ∨ (disk.node key ≠ some .directory ∧
      forall other, (disk.place key node).node other =
        if key = other then some node else disk.node other) := by
  by_cases fits : key ≠ [] ∧ disk.node key.dropLast = some .directory ∧
      disk.node key ≠ some .directory
  · exact Or.inr ⟨fits.2.2, node_place fits.1 fits.2.1 fits.2.2 node⟩
  · left
    rw [place, dif_neg fits]

/-- A directory is never replaced. -/
theorem directory_place {other : Key} (there : disk.node other = some .directory) (key : Key)
    (node : Node) : (disk.place key node).node other = some .directory := by
  rcases node_place_cases disk key node with kept | ⟨free, placed⟩
  · rw [kept, there]
  · rw [placed, if_neg, there]
    rintro rfl
    exact free there

/-- A directory placed where nothing was changes no file. -/
theorem sameFiles_place_directory {key : Key} (free : disk.node key = none) :
    SameFiles disk (disk.place key .directory) := by
  refine ⟨place_cwd _ _ _, fun other there => directory_place there _ _, ?_⟩
  intro other
  rcases node_place_cases disk key .directory with kept | ⟨_, placed⟩
  · rw [kept]
  · by_cases same : key = other
    · subst same
      simp [fileAt, placed, free]
    · exact fileAt_congr (by rw [placed, if_neg same])

/-- What is stored after a file has been truncated and written. -/
theorem node_place_again {key : Key} (nonempty : key ≠ [])
    (parent : disk.node key.dropLast = some .directory)
    (free : disk.node key ≠ some .directory) (first second : Text) (other : Key) :
    ((disk.place key (.file first)).place key (.file second)).node other =
      if key = other then some (.file second) else disk.node other := by
  have stillParent := directory_place parent key (.file first)
  have stillFree : (disk.place key (.file first)).node key ≠ some .directory := by
    rw [node_place nonempty parent free, if_pos rfl]
    simp
  rw [node_place nonempty stillParent stillFree, node_place nonempty parent free]
  split <;> rfl

/-- Creating directories changes no file. -/
theorem sameFiles_makeDirectories (budget : Option Nat) (here : Key) (names : List Name)
    (disk : Disk) : SameFiles disk (makeDirectories budget here names disk).2 := by
  induction names generalizing budget here disk with
  | nil => exact SameFiles.refl disk
  | cons name rest inductionHypothesis =>
      rw [makeDirectories]
      cases found : disk.node (resolveStep true here name) with
      | none =>
          by_cases spent : budget = some 0
          · simp only [if_pos spent]
            exact SameFiles.refl disk
          · simp only [if_neg spent]
            exact (sameFiles_place_directory found).trans (inductionHypothesis _ _ _)
      | some node =>
          cases node with
          | directory => exact inductionHypothesis _ _ _
          | file content => exact SameFiles.refl disk

theorem sameFiles_createDirectories (environment : Environment) (path : Text) (disk : Disk) :
    SameFiles disk (createDirectories environment path disk).2 := by
  rw [createDirectories]
  split
  · exact sameFiles_makeDirectories _ _ _ _
  · exact SameFiles.refl disk

/-- Opening for output succeeds on a file in a directory, which it truncates, or
it changes nothing. -/
theorem openOutput_cases (environment : Environment) (path : Text) (disk : Disk) :
    ((disk.openOutput environment path).1 = true ∧ disk.key path ≠ [] ∧
      disk.node (disk.key path).dropLast = some .directory ∧
      disk.node (disk.key path) ≠ some .directory ∧
      (disk.openOutput environment path).2 = disk.place (disk.key path) (.file [])) ∨
    ((disk.openOutput environment path).1 = false ∧
      (disk.openOutput environment path).2 = disk) := by
  unfold openOutput
  dsimp only
  split
  · exact Or.inr ⟨rfl, rfl⟩
  · rename_i accepted
    simp only [Bool.or_eq_true, decide_eq_true_eq, not_or, Decidable.not_not] at accepted
    exact Or.inl ⟨rfl, accepted.1.1.2, accepted.1.2, accepted.2, rfl⟩

/-- A path that has been opened for output leads to the file. -/
theorem reaches_of_openOutput {environment : Environment} {path : Text}
    (opened : (disk.openOutput environment path).1 = true) :
    path ≠ [] ∧ mustBeDirectory path = false ∧ disk.reaches path = true := by
  refine ⟨?_, ?_, ?_⟩
  · rintro rfl
    simp [openOutput] at opened
  · by_contra refused
    rw [Bool.not_eq_false] at refused
    simp [openOutput, refused] at opened
  · by_contra away
    rw [Bool.not_eq_true] at away
    simp [openOutput, away] at opened

/-- A node is taken away, or nothing happens. -/
theorem node_discard_cases (disk : Disk) (key : Key) :
    disk.discard key = disk ∨ forall other, (disk.discard key).node other =
      if key = other then none else disk.node other := by
  by_cases removable : key ≠ [] ∧ disk.children key = []
  · exact Or.inr (node_discard removable.1 removable.2)
  · left
    rw [discard, dif_neg removable]

theorem remove_cwd (environment : Environment) (path : Text) (disk : Disk) :
    (disk.remove environment path).2.cwd = disk.cwd := by
  rw [remove]
  split
  · rfl
  · exact discard_cwd _ _

/-- Removing concerns the node of the path. -/
theorem node_remove_of_ne (environment : Environment) (path : Text) (disk : Disk) {other : Key}
    (different : disk.key path ≠ other) :
    (disk.remove environment path).2.node other = disk.node other := by
  rw [remove]
  split
  · rfl
  · rcases node_discard_cases disk (disk.key path) with kept | discarded
    · rw [kept]
    · rw [discarded, if_neg different]

end Disk

namespace FileSystem

open Disk

variable {disk : Disk}

/-! ## `readFile`, `writeFile` and `deleteFile` -/

/-- What is read under a path: nothing comes from a directory. -/
theorem readFile_eq (path : Text) (disk : Disk) :
    readFile path disk =
      match disk.nodeAt path with
      | none => (false, [])
      | some .directory => (true, [])
      | some (.file content) => (true, getlines content) := by
  rw [readFile, openInput]
  cases found : disk.nodeAt path with
  | none => rfl
  | some node =>
      have nonempty : path ≠ [] := by
        rintro rfl
        cases found
      cases node with
      | directory => exact if_neg nonempty
      | file content => exact if_neg nonempty

/-- What `readFile` returns for a file with some content. -/
theorem readFile_of_openInput {path content : Text} {disk : Disk}
    (stored : disk.openInput path = some content) :
    readFile path disk = (true, getlines content) := by
  have nonempty : path ≠ [] := by
    rintro rfl
    cases stored
  rw [readFile, stored]
  exact if_neg nonempty

/-- A slash inside a path separates the directory from the file. -/
theorem splitPath_inner {directory file : Text} (below : directory ≠ []) (named : file ≠ [])
    (last : '/' ∉ file) : splitPath (directory ++ '/' :: file) = (directory, file) := by
  have positive := List.length_pos_iff.mpr below
  have longer := List.length_pos_iff.mpr named
  have beyond : (directory ++ '/' :: file).drop (directory.length + 1) = file := by
    rw [← List.drop_drop, List.drop_left]
    rfl
  rw [splitPath, Strings.findLast_append directory last]
  simp only [List.length_append, List.length_cons]
  rw [if_neg (by omega), if_neg (by omega), List.take_left, beyond]

theorem splitPath_append_name {path : Text} (nonempty : path ≠ []) {name : Name}
    (plain : Plain name) : splitPath (path ++ '/' :: name) = (path, name) :=
  splitPath_inner nonempty plain.1 plain.2.1

/-- A deletion changes the node of its path. -/
theorem node_deleteFile_cases (environment : Environment) (path : Text) (disk : Disk) (key : Key) :
    (deleteFile environment path disk).2.node key = disk.node key ∨
      (disk.key path = key ∧ disk.node key ≠ some .directory) := by
  rw [deleteFile]
  rcases openOutput_cases environment path disk with
    ⟨opened, top, parent, free, truncated⟩ | ⟨refused, unchanged⟩
  · by_cases same : disk.key path = key
    · exact Or.inr ⟨same, same ▸ free⟩
    · left
      have placed : (disk.place (disk.key path) (.file [])).node key = disk.node key := by
        rw [node_place top parent free, if_neg same]
      simp only [truncated]
      split
      · exact placed
      · rw [node_remove_of_ne _ _ _ (by rwa [place_key]), placed]
  · rw [if_pos (Or.inl refused), unchanged]
    exact Or.inl rfl

theorem deleteFile_cwd (environment : Environment) (path : Text) (disk : Disk) :
    (deleteFile environment path disk).2.cwd = disk.cwd := by
  rw [deleteFile]
  rcases openOutput_cases environment path disk with ⟨_, _, _, _, truncated⟩ | ⟨refused, unchanged⟩
  · simp only [truncated]
    split
    · exact place_cwd _ _ _
    · exact (remove_cwd _ _ _).trans (place_cwd _ _ _)
  · rw [if_pos (Or.inl refused), unchanged]

/-- Deleting a file changes no other file, whatever the outcome. -/
theorem deleteFile_effect (environment : Environment) (path : Text) (disk : Disk) :
    SameFilesExcept (disk.key path) disk (deleteFile environment path disk).2 := by
  have cases_ := node_deleteFile_cases environment path disk
  refine ⟨deleteFile_cwd environment path disk, fun other there => ?_, fun other different => ?_⟩
  · rcases cases_ other with same | ⟨_, free⟩
    · rw [same, there]
    · exact absurd there free
  · exact fileAt_congr ((cases_ other).resolve_right (fun both => different both.1))

end FileSystem
end Storage
end Webserver
