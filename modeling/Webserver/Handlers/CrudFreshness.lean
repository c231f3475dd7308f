import Webserver.Handlers.CrudRuns
import Webserver.Storage.Listings

namespace Webserver
namespace Handlers

open Http LexicalPaths Programs Storage

/-!
# The id that `create` chooses

Every file of an entity is a field of the comma-joined listing, and the decimal
name of a number is read back by `stoi` as that number.  Hence one more than the
largest field is never the name of an existing file, whatever other names
clients have planted there.

Without a listing there is nothing to compare, and the id is 1.  `opendir` does not
find an entity behind a directory that is missing, even where `..` leads out of
that directory again; `create_directories` then makes it, and the entity's member
1 is found after all.

What else can go wrong is the addition.  The largest field is `INT_MAX` when a field
reads so, and also when `stoi` throws on a field and the uninitialised variable
happens to hold that value; every nonempty listing has such a field, the empty
one after the last comma.
-/

/-- No value that the loop of `create` compares is `INT_MAX`. -/
def BelowMax (junk : Nat -> CInt) (fileList : Text) : Prop :=
  fileList ≠ [] -> forall entry, entry ∈ (fileList.splitOn ',').zipIdx ->
    ((CInt.stoi entry.1).getD (junk entry.2)).value ≠ CInt.max.value

instance (junk : Nat -> CInt) (fileList : Text) : Decidable (BelowMax junk fileList) :=
  inferInstanceAs (Decidable (_ -> _))

/-! ## The largest field -/

theorem foldl_maxStep_ge_entry (junk : Nat -> CInt) {entries : List (Text × Nat)} (start : CInt)
    {entry : Text × Nat} (member : entry ∈ entries) :
    ((CInt.stoi entry.1).getD (junk entry.2)).value ≤
      (entries.foldl (maxStep junk) start).value := by
  induction entries generalizing start with
  | nil => cases member
  | cons first rest inductionHypothesis =>
      rw [List.foldl_cons]
      rcases List.mem_cons.mp member with same | later
      · subst same
        refine Int.le_trans ?_ (foldl_maxStep_ge junk rest _)
        rw [maxStep, CInt.larger_value]
        omega
      · exact inductionHypothesis _ later

theorem foldl_maxStep_cases (junk : Nat -> CInt) (entries : List (Text × Nat)) (start : CInt) :
    entries.foldl (maxStep junk) start = start ∨
      Exists fun entry : Text × Nat => entry ∈ entries ∧
        entries.foldl (maxStep junk) start = (CInt.stoi entry.1).getD (junk entry.2) := by
  induction entries generalizing start with
  | nil => exact Or.inl rfl
  | cons first rest inductionHypothesis =>
      rw [List.foldl_cons]
      rcases inductionHypothesis (maxStep junk start first) with same | ⟨entry, member, same⟩
      · rw [same, maxStep, CInt.larger]
        split
        · exact Or.inr ⟨first, List.mem_cons_self, rfl⟩
        · exact Or.inl rfl
      · exact Or.inr ⟨entry, List.mem_cons_of_mem first member, same⟩

/-- `max_id` is `INT_MAX` exactly when one of the compared values is. -/
theorem maxId_ne_max_iff (junk : Nat -> CInt) (fileList : Text) :
    (maxId junk fileList).value ≠ CInt.max.value ↔ BelowMax junk fileList := by
  unfold maxId BelowMax
  by_cases empty : fileList = []
  · simp [empty, CInt.zero, CInt.max]
  · rw [if_neg empty]
    constructor
    · intro below _ entry member top
      have reached := foldl_maxStep_ge_entry junk CInt.zero member
      have bound := ((fileList.splitOn ',').zipIdx.foldl (maxStep junk) CInt.zero).upper
      rw [top] at reached
      exact below (Int.le_antisymm bound reached)
    · intro below top
      rcases foldl_maxStep_cases junk (fileList.splitOn ',').zipIdx CInt.zero with
        same | ⟨entry, member, same⟩
      · rw [same] at top
        exact absurd top (by decide)
      · rw [same] at top
        exact below empty entry member top

/-- An id is chosen exactly when the addition does not overflow. -/
theorem chooseId_isOk_iff (junk : Nat -> CInt) (fileList : Text) :
    (Exists fun id : CInt => chooseId junk fileList = .ok id) ↔ BelowMax junk fileList := by
  rw [← maxId_ne_max_iff, chooseId]
  cases next : (maxId junk fileList).increment with
  | none =>
      have top := (CInt.increment_eq_none_iff _).mp next
      constructor
      · rintro ⟨id, impossible⟩
        cases impossible
      · intro below
        exact absurd top below
  | some id =>
      constructor
      · rintro _ top
        rw [(CInt.increment_eq_none_iff _).mpr top] at next
        cases next
      · intro _
        exact ⟨id, rfl⟩

/-! ## Freshness -/

theorem mem_splitOn_flatMap {names : List Name} {name : Name} (member : name ∈ names)
    (noComma : ',' ∉ name) : name ∈ (names.flatMap (fun name => name ++ [','])).splitOn ',' := by
  induction names with
  | nil => cases member
  | cons first rest inductionHypothesis =>
      rw [List.flatMap_cons, List.append_assoc, List.singleton_append,
        List.splitOn_append_cons_self]
      rcases List.mem_cons.mp member with same | later
      · subst same
        rw [List.splitOn_eq_singleton noComma]
        simp
      · exact List.mem_append_right _ (inductionHypothesis later)

/-- The chosen id is the name of none of the listed files. -/
theorem chosen_notMem_names {junk : Nat -> CInt} {names : List Name} {id : CInt}
    (chosen : chooseId junk (FileSystem.joinNames names) = .ok id) : id.toText ∉ names := by
  intro member
  have next := (chooseId_eq_ok_iff junk _ id).mp chosen
  have positive : 0 ≤ id.value := by
    have nonneg := maxId_nonneg junk (FileSystem.joinNames names)
    omega
  have digits : forall c, c ∈ id.toText -> c.isDigit = true := by
    intro c inside
    rw [toText_of_chosen chosen] at inside
    exact CInt.isDigit_of_mem_toDigits inside
  have noComma : ',' ∉ id.toText := by
    intro inside
    exact absurd (digits ',' inside) (by decide)
  have visible : id.toText.head? ≠ some '.' := by
    intro first
    exact absurd (digits '.' (List.mem_of_head? first)) (by decide)
  have field : id.toText ∈ (FileSystem.joinNames names).splitOn ',' :=
    mem_splitOn_flatMap (List.mem_filter.mpr ⟨member, by simpa using visible⟩) noComma
  rcases List.mem_iff_getElem?.mp field with ⟨index, found⟩
  have indexed : (id.toText, index) ∈ ((FileSystem.joinNames names).splitOn ',').zipIdx :=
    List.mem_zipIdx_iff_getElem?.mpr found
  have nonempty : FileSystem.joinNames names ≠ [] := by
    intro empty
    rw [empty] at field
    have blank : id.toText = [] := by simpa using field
    exact (CrudRequestHandler.validName_chosen chosen).1.1 blank
  have bound := foldl_maxStep_ge_entry junk CInt.zero indexed
  rw [CInt.stoi_toText positive, Option.getD_some] at bound
  rw [maxId, if_neg nonempty] at next
  omega

/-- The children of a directory are the names that its listing joins. -/
theorem chosen_free {junk : Nat -> CInt} {environment : Environment} {path : Text} {disk : Disk}
    {id : CInt} (directory : disk.nodeAt path = some .directory)
    (chosen : chooseId junk (FileSystem.listFiles environment path disk).2 = .ok id) :
    disk.node (disk.key path ++ [id.toText]) = none := by
  rw [← Option.not_isSome_iff_eq_none, ← Disk.mem_children_iff]
  intro child
  have listed : FileSystem.listFiles environment path disk = (true, FileSystem.joinNames
      (environment.listingOrder (dot :: dotDot :: disk.children (disk.key path)))) := by
    rw [FileSystem.listFiles, Disk.readDir, if_pos directory]
  rw [listed] at chosen
  refine chosen_notMem_names chosen ((environment.listingOrder_perm _).mem_iff.mpr ?_)
  exact List.mem_cons_of_mem _ (List.mem_cons_of_mem _ child)

/-- Without a listing the id is 1. -/
theorem chosen_unlisted {junk : Nat -> CInt} {id : CInt} (chosen : chooseId junk [] = .ok id) :
    id.toText = ['1'] := by
  have one : id.value = 1 := (chooseId_eq_ok_iff junk [] id).mp chosen
  rw [toText_of_chosen chosen, one]
  rfl

namespace CrudRequestHandler

variable (handler : CrudRequestHandler)

/-- A `POST` picks an id that names nothing, and afterwards every file stored
before it is stored unchanged. -/
def CreatesFresh (junk : Nat -> CInt) (environments : Nat -> Environment) (entity : Name)
    (body : Text) (disk : Disk) : Prop :=
  (Exists fun id : CInt => handler.chosenId junk (environments 0) entity disk = .ok id ∧
    disk.node (handler.memberKey disk entity id.toText) = none) ∧
  forall key content, disk.fileAt key = some content ->
    (handler.perform junk environments (.post entity body) disk).2.fileAt key = some content

/-- The handler has a location and a data path. -/
def Mounted : Prop := handler.location ≠ [] ∧ handler.dataPath ≠ []

/-- A member 1 is stored, and the listing does not show it: the way to the entity
leads through a directory that is missing and out of it again. -/
def Overlooks (entity : Name) (disk : Disk) : Prop :=
  disk.nodeAt (handler.entityPath entity) ≠ some .directory ∧
    disk.node (handler.memberKey disk entity ['1']) ≠ none

variable {handler}

theorem chosenId_unmounted (unmounted : ¬ handler.Mounted) (junk : Nat -> CInt)
    (environment : Environment) (entity : Name) (disk : Disk) :
    handler.chosenId junk environment entity disk = .error .undefinedBehavior := by
  by_cases located : handler.location = []
  · simp only [chosenId, mapRequestPathToFilePath, prefixSize, located, List.getLast?_nil, bind,
      Except.bind]
  · have missing : handler.dataPath = [] := by
      by_contra configured
      exact unmounted ⟨located, configured⟩
    rw [chosenId, handler.mapRequestPathToFilePath_of_nil located missing]
    rfl

/-- A chosen id is free unless the listing overlooks a member. -/
theorem free_of_chosen (mounted : handler.Mounted) {entity : Name} (valid : ValidName entity)
    {junk : Nat -> CInt} {environment : Environment} {disk : Disk} {id : CInt}
    (chosen : handler.chosenId junk environment entity disk = .ok id) :
    disk.node (handler.memberKey disk entity id.toText) = none ↔ ¬ handler.Overlooks entity disk := by
  rw [handler.chosenId_eq mounted.1 mounted.2] at chosen
  by_cases directory : disk.nodeAt (handler.entityPath entity) = some .directory
  · have free := chosen_free directory chosen
    rw [handler.key_entityPath_append mounted.2 valid] at free
    exact ⟨fun _ overlooks => overlooks.1 directory, fun _ => free⟩
  · rw [FileSystem.listFiles_of_not_directory directory] at chosen
    rw [chosen_unlisted chosen, Overlooks, not_and, Decidable.not_not]
    exact ⟨fun free _ => free, fun free => free directory⟩

/-- Writing to a free id leaves the other files alone. -/
theorem createsFresh_of_free (mounted : handler.Mounted) (plain : '\x00' ∉ handler.location)
    {entity : Name} (valid : ValidName entity) {junk : Nat -> CInt}
    {environments : Nat -> Environment} {disk : Disk} {id : CInt}
    (chosen : handler.chosenId junk (environments 0) entity disk = .ok id)
    (free : disk.node (handler.memberKey disk entity id.toText) = none) (body : Text) :
    handler.CreatesFresh junk environments entity body disk := by
  rcases mounted with ⟨located, configured⟩
  have named := handler.entityPath_ne_nil entity valid.1.1
  have selected := chosen
  rw [handler.chosenId_eq located configured] at selected
  refine ⟨⟨id, chosen, free⟩, ?_⟩
  intro key content stored
  have other : handler.memberKey disk entity id.toText ≠ key := by
    intro same
    rw [← same, Disk.fileAt_eq_some_iff, free] at stored
    cases stored
  rw [handler.perform_post located configured plain valid, chosen]
  have effect := FileSystem.writeFile_cases (environments 1) named (validName_chosen selected).1
    body disk
  rw [handler.key_entityPath_append configured valid] at effect
  rcases effect with ⟨_, changed, _⟩ | ⟨_, same⟩
  · exact (changed.files key other).trans stored
  · exact (same.files key).trans stored

/-- In every state that requests can lead to, a `POST` picks a fresh id and
overwrites nothing exactly when no value it compares is `INT_MAX` and the listing
overlooks nothing. -/
theorem post_creates_fresh_iff (handler : CrudRequestHandler) (plain : '\x00' ∉ handler.location)
    (turns : List CrudTurn) (disk : Disk) (entity : Name) (valid : ValidName entity)
    (body : Text) (junk : Nat -> CInt) (environments : Nat -> Environment) :
    handler.CreatesFresh junk environments entity body
        (handler.serveTurns turns (Ledger.empty, disk)).2 ↔
      handler.Mounted ∧ BelowMax junk (FileSystem.listFiles (environments 0)
        (handler.entityPath entity) (handler.serveTurns turns (Ledger.empty, disk)).2).2 ∧
      ¬ handler.Overlooks entity (handler.serveTurns turns (Ledger.empty, disk)).2 := by
  generalize (handler.serveTurns turns (Ledger.empty, disk)).2 = reached
  constructor
  · rintro ⟨⟨id, chosen, free⟩, _⟩
    by_cases mounted : handler.Mounted
    · refine ⟨mounted, (chooseId_isOk_iff junk _).mp ⟨id, ?_⟩, (free_of_chosen mounted valid chosen).mp free⟩
      rwa [handler.chosenId_eq mounted.1 mounted.2] at chosen
    · rw [chosenId_unmounted mounted] at chosen
      cases chosen
  · rintro ⟨mounted, below, sees⟩
    rcases (chooseId_isOk_iff junk _).mpr below with ⟨id, chosen⟩
    rw [← handler.chosenId_eq mounted.1 mounted.2] at chosen
    exact createsFresh_of_free mounted plain valid chosen
      ((free_of_chosen mounted valid chosen).mpr sees) body

theorem post_creates_fresh_after_put :
    sampleHandler.CreatesFresh (fun _ => CInt.zero) (fun _ => Environment.willing)
        "shoes".toList "b".toList
        (sampleHandler.serveTurns [putTurn "a".toList] (Ledger.empty, Disk.empty)).2 ↔
      sampleHandler.Mounted ∧ BelowMax (fun _ => CInt.zero)
        (FileSystem.listFiles Environment.willing (sampleHandler.entityPath "shoes".toList)
          (sampleHandler.serveTurns [putTurn "a".toList] (Ledger.empty, Disk.empty)).2).2 ∧
      ¬ sampleHandler.Overlooks "shoes".toList
        (sampleHandler.serveTurns [putTurn "a".toList] (Ledger.empty, Disk.empty)).2 :=
  post_creates_fresh_iff sampleHandler (by decide) [putTurn "a".toList] Disk.empty
    "shoes".toList (by decide) "b".toList _ _

/-- A client that has stored something under `2147483647` makes the next `POST`
add one to `INT_MAX`. -/
theorem post_overflows_after_put :
    let turn : CrudTurn := ⟨.put "shoes".toList "2147483647".toList "a".toList,
      fun _ => CInt.zero, fun _ => Environment.willing⟩
    let reached := (sampleHandler.serveTurns [turn] (Ledger.empty, Disk.empty)).2
    sampleHandler.chosenId (fun _ => CInt.zero) Environment.willing "shoes".toList reached =
        .error .undefinedBehavior ∧
      ¬ sampleHandler.CreatesFresh (fun _ => CInt.zero) (fun _ => Environment.willing)
        "shoes".toList "b".toList reached := by
  intro turn reached
  have overflows : sampleHandler.chosenId (fun _ => CInt.zero) Environment.willing
      "shoes".toList reached = .error .undefinedBehavior := by decide
  refine ⟨overflows, ?_⟩
  rintro ⟨⟨id, chosen, _⟩, _⟩
  rw [overflows] at chosen
  cases chosen

end CrudRequestHandler
end Handlers
end Webserver
