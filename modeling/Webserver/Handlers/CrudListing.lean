import Webserver.Handlers.CrudFreshness
import Webserver.Library.Json
import Webserver.Storage.Listings

namespace Webserver
namespace Handlers

open Http LexicalPaths Programs Storage

/-!
# The list of an entity's ids

`list` puts the joined names between brackets.  Names are not quoted, so an element
of the body stands for its id only where the id is a number in its shortest notation,
and a name with a dot in front is missing from it.  Clients choose the names, but
no choice of names makes up for this.  An element for another id has to be a string,
with a backslash for each quotation mark and each backslash of the id.  The body has
the backslashes of the stored names and no others, which leaves none for a quotation
mark in a name; and without one in a name there is none in the body.

Before that, `serve` has to see that a list is asked for.  It reads the target beyond its
end, and an id that it finds there makes it retrieve the entity instead.
-/

namespace CrudRequestHandler

variable (handler : CrudRequestHandler)

/-- The names below the entities are valid, and no file has the name of an entity. -/
structure WellNamed (disk : Disk) : Prop where
  valid : forall entity id, disk.node (handler.memberKey disk entity id) ≠ none -> ValidName id
  apart : forall entity, disk.fileAt (disk.key handler.dataPath ++ [entity]) = none

/-- Serve a `GET` while these characters stand in memory behind its target. -/
def performGet (junk : Nat -> CInt) (environments : Nat -> Environment) (behind name : Text)
    (disk : Disk) : Except Fault Response × Disk :=
  FileSystem.run environments (handler.serveReading junk (cString (handler.target name ++ behind))
    ⟨.get, handler.target name, []⟩ {}) disk

/-- Up to the next NUL, nothing behind the target stands behind a slash. -/
def NoIdBehind (behind : Text) : Prop := ((cString behind).dropWhile (fun c => c != '/')).tail = []

instance (behind : Text) : Decidable (NoIdBehind behind) := inferInstanceAs (Decidable (_ = _))

/-- The entity's directory is found, and it holds the id. -/
def Holds (entity id : Name) (disk : Disk) : Prop :=
  disk.nodeAt (handler.entityPath entity) = some .directory ∧
    disk.node (handler.memberKey disk entity id) ≠ none

/-- The list is answered with a JSON array that has one element for each stored id,
and these are the ids under which a `GET` finds something. -/
def ListsStore (junk : Nat -> CInt) (environments : Nat -> Environment) (behind : Text)
    (entity : Name) (disk : Disk) : Prop :=
  Exists fun res : Response =>
    (handler.performGet junk environments behind entity disk).1 = .ok res ∧ res.result = .ok ∧
      Exists fun values : List Json => Exists fun ids : List Name =>
        Json.IsText (.array values) res.body ∧
          List.Forall₂ Json.Denotes values ids ∧ ids.Nodup ∧
          forall id, (id ∈ ids <-> handler.Holds entity id disk) ∧
            (id ∈ ids <-> ValidName id ∧ forall behind,
              Answers (handler.performGet junk environments behind (entity ++ '/' :: id) disk) .ok)

/-! ## Names in reachable stores -/

section Naming

variable {handler} {junk : Nat -> CInt} {environments : Nat -> Environment} {disk : Disk}

theorem key_entityPath_slash (configured : handler.dataPath ≠ []) {entity : Name}
    (valid : ValidName entity) (disk : Disk) :
    disk.key (handler.entityPath entity ++ ['/']) = disk.key handler.dataPath ++ [entity] := by
  rw [Disk.key_concat_slash _ (handler.entityPath_ne_nil entity valid.1.1),
    handler.key_entityPath configured valid]

/-- Where `entityPath` has a NUL, the data path has one. -/
theorem clean_entityPath (clean : '\x00' ∉ handler.dataPath) {entity : Name}
    (valid : ValidName entity) : '\x00' ∉ handler.entityPath entity := by
  unfold entityPath
  split <;> simp [clean, valid.2]

/-- The change of a member leaves the names of the entities to directories. -/
theorem apart_of_except {entity id : Name} {after : Disk} (named : handler.WellNamed disk)
    (same : SameFilesExcept (handler.memberKey disk entity id) disk after) (other : Name) :
    after.fileAt (after.key handler.dataPath ++ [other]) = none := by
  rw [Disk.key_congr same.cwd, same.files, named.apart]
  intro here
  have tails := List.append_cancel_left here
  cases tails

/-- Writing a member adds no other name to an entity, unless a directory of that name
is made on the way. -/
theorem wellNamed_writeFile (configured : handler.dataPath ≠ [])
    (clean : '\x00' ∉ handler.dataPath) {entity id : Name}
    (validEntity : ValidName entity) (validId : ValidName id) (named : handler.WellNamed disk)
    (environment : Environment) (body : Text) :
    handler.WellNamed (FileSystem.writeFile environment
      (handler.entityPath entity ++ '/' :: id) body disk).2 := by
  constructor
  · intro otherEntity otherId stored
    rw [handler.memberKey_congr (FileSystem.writeFile_cwd _ _ _ _)] at stored
    rcases FileSystem.node_writeFile_name environment (handler.entityPath entity) body validId.1 disk
      (handler.memberKey disk otherEntity otherId) with same | written | made
    · rw [same] at stored
      exact named.valid otherEntity otherId stored
    · rw [key_entityPath_slash configured validEntity, memberKey, List.append_assoc] at written
      have names := List.append_cancel_left written
      simp only [List.singleton_append, List.cons.injEq, and_true] at names
      exact names.2 ▸ validId
    · rcases made.name with ⟨above, name, whole, member, notDot, notUp⟩
      have last := congrArg List.getLast? whole
      rw [memberKey, List.append_cons, List.getLast?_concat, List.getLast?_concat] at last
      rw [Option.some.inj last]
      rcases mem_components member with ⟨nonempty, plain, inside⟩
      exact ⟨⟨nonempty, plain, notDot, notUp⟩,
        fun zero => clean_entityPath clean validEntity (inside zero)⟩
  · have effect := FileSystem.writeFile_effect environment (handler.entityPath entity ++ '/' :: id)
      body disk
    have keyIs := (@FileSystem.splitPath_name disk (handler.entityPath entity) id validId.1).2.1
    rw [keyIs, key_entityPath_slash configured validEntity, List.append_assoc] at effect
    exact apart_of_except named effect

theorem wellNamed_deleteFile (named : handler.WellNamed disk) {environment : Environment}
    {path : Text} {entity id : Name} (validId : ValidName id)
    (keyIs : disk.key path = handler.memberKey disk entity id) :
    handler.WellNamed (FileSystem.deleteFile environment path disk).2 := by
  have effect := FileSystem.deleteFile_effect environment path disk
  constructor
  · intro otherEntity otherId stored
    rw [handler.memberKey_congr effect.cwd] at stored
    rcases FileSystem.node_deleteFile_cases environment path disk
      (handler.memberKey disk otherEntity otherId) with same | ⟨deleted, _⟩
    · rw [same] at stored
      exact named.valid otherEntity otherId stored
    · rw [keyIs] at deleted
      exact (handler.memberKey_injective deleted).2 ▸ validId
  · rw [keyIs] at effect
    exact apart_of_except named effect

/-- One request keeps the names valid. -/
theorem wellNamed_perform (plain : '\x00' ∉ handler.location)
    (clean : '\x00' ∉ handler.dataPath) {op : CrudOp} (valid : op.ValidNames)
    (named : handler.WellNamed disk) :
    handler.WellNamed (handler.perform junk environments op disk).2 := by
  by_cases unmounted : handler.location = [] ∨ handler.dataPath = []
  · rw [handler.perform_unmounted unmounted plain valid]
    exact named
  rcases not_or.mp unmounted with ⟨located, configured⟩
  cases op with
  | post entity body =>
      rw [handler.perform_post located configured plain valid]
      cases chosen : handler.chosenId junk (environments 0) entity disk with
      | error fault => exact named
      | ok currId =>
          rw [handler.chosenId_eq located configured] at chosen
          exact wellNamed_writeFile configured clean valid (validName_chosen chosen) named _ _
  | put entity id body =>
      rw [handler.perform_put located configured plain valid.1 valid.2]
      exact wellNamed_writeFile configured clean valid.1 valid.2 named _ _
  | get entity id =>
      rw [handler.perform_get located configured plain valid.1 valid.2]
      exact named
  | delete entity id =>
      rw [handler.perform_delete located configured plain valid.1 valid.2]
      refine wellNamed_deleteFile named valid.2 (?_ : _ = handler.memberKey disk entity id)
      rw [Disk.key_append_name disk (handler.entityPath_ne_nil entity valid.1.1.1) valid.2.1,
        handler.key_entityPath_append configured valid.1]

theorem wellNamed_serveTurns (plain : '\x00' ∉ handler.location)
    (clean : '\x00' ∉ handler.dataPath) {turns : List CrudTurn}
    (valid : forall turn, turn ∈ turns -> turn.op.ValidNames) {state : Ledger × Disk}
    (named : handler.WellNamed state.2) :
    handler.WellNamed (handler.serveTurns turns state).2 := by
  induction turns generalizing state with
  | nil => exact named
  | cons turn rest inductionHypothesis =>
      refine inductionHypothesis (fun later member => valid later ?_) ?_
      · exact List.mem_cons_of_mem turn member
      · exact wellNamed_perform plain clean (valid turn List.mem_cons_self) named

end Naming

/-! ## The two requests -/

section Serving

variable {handler} {junk : Nat -> CInt} {environments : Nat -> Environment} {disk : Disk}

/-- The body that `list` makes of a listing. -/
def listBody (listing : Bool × Text) : Text :=
  if listing.1 = true then '[' :: (listing.2.dropLast ++ [']']) else "[]".toList

/-- The response to a list request. -/
def listResponse (environment : Environment) (entity : Name) (disk : Disk) : Response :=
  ({ body := listBody (FileSystem.listFiles environment (handler.entityPath entity) disk)
     contentType := some "application/json".toList
     result := .ok } : Response).preparePayload

/-- The response to a request for what is stored under a path. -/
def retrievedResponse (path : Text) (disk : Disk) : Response :=
  if (FileSystem.readFile path disk).1 = true then
    ({ version := 11
       result := .ok
       contentType := some "application/json".toList
       body := (FileSystem.readFile path disk).2 } : Response).preparePayload
  else ({ version := 11, result := .notFound } : Response).preparePayload

/-- A name without a NUL is listed or retrieved, after what stands behind it. -/
theorem performGet_eq (mounted : handler.Mounted) (plain : '\x00' ∉ handler.location) {name path : Text}
    (named : '\x00' ∉ name) (joined : joinPath handler.dataPath name = .ok path) (behind : Text) :
    handler.performGet junk environments behind name disk =
      (.ok (if ((name ++ cString behind).dropWhile (fun c => c != '/')).tail ≠ [] then
          retrievedResponse path disk
        else ({ body := listBody (FileSystem.listFiles (environments 0) path disk)
                contentType := some "application/json".toList
                result := .ok } : Response).preparePayload), disk) := by
  rcases handler.entityParts_target mounted.1 (name ++ cString behind) with ⟨entity, parts⟩
  rw [performGet, handler.cString_target plain named, serveReading_get rfl parts]
  split
  · rw [retrieve, handler.mapRequestPathToFilePath_target mounted.1, joined]
    simp only [run_ofExcept_bind, run_readFile_bind, retrievedResponse]
    split <;> rfl
  · rw [list, handler.mapRequestPathToFilePath_target mounted.1, joined]
    simp only [run_ofExcept_bind, run_listFiles_bind, listBody, ← List.dropLast_eq_take]
    rfl

/-- What stands behind the target decides whether the entity is listed. -/
theorem performGet_entity (mounted : handler.Mounted) (plain : '\x00' ∉ handler.location)
    {entity : Name} (valid : ValidName entity) (behind : Text) :
    handler.performGet junk environments behind entity disk =
      (.ok (if NoIdBehind behind then handler.listResponse (environments 0) entity disk
        else retrievedResponse (handler.entityPath entity) disk), disk) := by
  have skipped : (entity ++ cString behind).dropWhile (fun c => c != '/') =
      (cString behind).dropWhile (fun c => c != '/') := by
    apply List.dropWhile_append_of_pos
    intro c member
    have different : c ≠ '/' := fun here => valid.1.2.1 (here ▸ member)
    simpa using different
  rw [performGet_eq mounted plain valid.2 (handler.joinPath_entity mounted.2 entity), skipped]
  by_cases nothing : ((cString behind).dropWhile (fun c => c != '/')).tail = []
  · rw [if_neg (not_not_intro nothing), if_pos (show NoIdBehind behind from nothing), listResponse]
  · rw [if_pos nothing, if_neg (show ¬ NoIdBehind behind from nothing)]

/-- A member is retrieved, whatever stands behind its target. -/
theorem performGet_member (mounted : handler.Mounted) (plain : '\x00' ∉ handler.location)
    {entity id : Name} (validEntity : ValidName entity) (validId : ValidName id) (behind : Text) :
    handler.performGet junk environments behind (entity ++ '/' :: id) disk =
      (.ok (retrievedResponse (handler.entityPath entity ++ '/' :: id) disk), disk) := by
  have noNul : '\x00' ∉ entity ++ '/' :: id := by simp [validEntity.2, validId.2]
  have isId : ((entity ++ '/' :: id ++ cString behind).dropWhile (fun c => c != '/')).tail ≠ [] := by
    rw [List.append_assoc, List.dropWhile_append_of_pos, List.cons_append,
      List.dropWhile_cons_of_neg (by simp), List.tail_cons]
    · exact List.append_ne_nil_of_left_ne_nil validId.1.1 _
    · intro c member
      have different : c ≠ '/' := fun here => validEntity.1.2.1 (here ▸ member)
      simpa using different
  rw [performGet_eq mounted plain noNul (joinPath_append (handler.joinPath_entity mounted.2 entity) _),
    if_pos isId]

/-- Without a location or a data path the list is not answered. -/
theorem performGet_unmounted (unmounted : ¬ handler.Mounted) (plain : '\x00' ∉ handler.location)
    {entity : Name} (valid : ValidName entity) (behind : Text) :
    (handler.performGet junk environments behind entity disk).1 = .error .undefinedBehavior := by
  by_cases located : handler.location = []
  · rw [performGet, serveReading, entityParts_of_nil located]
    simp only [run_ofExcept_bind]
  · have missing : handler.dataPath = [] := by
      by_contra configured
      exact unmounted ⟨located, configured⟩
    have unmapped := handler.mapRequestPathToFilePath_of_nil located missing entity
    rcases handler.entityParts_target located (entity ++ cString behind) with ⟨read, parts⟩
    rw [performGet, handler.cString_target plain valid.2, serveReading_get rfl parts]
    split
    · rw [retrieve, unmapped]
      rfl
    · rw [list, unmapped]
      rfl

/-- A `GET` of a member is answered with 200 exactly when something is stored there. -/
theorem get_isOk_iff (mounted : handler.Mounted) (plain : '\x00' ∉ handler.location)
    {entity id : Name} (validEntity : ValidName entity) (validId : ValidName id) (behind : Text) :
    Answers (handler.performGet junk environments behind (entity ++ '/' :: id) disk) .ok <->
      handler.Holds entity id disk := by
  have found : forall node, disk.nodeAt (handler.entityPath entity ++ '/' :: id) = some node <->
      disk.nodeAt (handler.entityPath entity) = some .directory ∧
        disk.node (handler.memberKey disk entity id) = some node := by
    intro node
    rw [disk.nodeAt_append_name_iff (handler.entityPath_ne_nil entity validEntity.1.1) validId.1,
      handler.key_entityPath_append mounted.2 validEntity]
  have holds : handler.Holds entity id disk <->
      disk.nodeAt (handler.entityPath entity ++ '/' :: id) ≠ none := by
    rw [Holds, Option.ne_none_iff_exists', Option.ne_none_iff_exists']
    constructor
    · rintro ⟨directory, node, stored⟩
      exact ⟨node, (found node).mpr ⟨directory, stored⟩⟩
    · rintro ⟨node, stored⟩
      exact ⟨((found node).mp stored).1, node, ((found node).mp stored).2⟩
  rw [performGet_member mounted plain validEntity validId, retrievedResponse,
    FileSystem.readFile_eq, holds]
  cases disk.nodeAt (handler.entityPath entity ++ '/' :: id) with
  | none => simp [Answers, Response.preparePayload]
  | some node => cases node <;> simp [Answers, Response.preparePayload]

/-- Retrieving an entity gives no list of its ids. -/
theorem not_listsStore_of_idBehind (mounted : handler.Mounted) (plain : '\x00' ∉ handler.location)
    (named : handler.WellNamed disk) {entity : Name} (valid : ValidName entity) {behind : Text}
    (idBehind : ¬ NoIdBehind behind) :
    ¬ handler.ListsStore junk environments behind entity disk := by
  rintro ⟨res, answered, isOk, values, ids, text, _⟩
  rw [performGet_entity mounted plain valid, if_neg idBehind, retrievedResponse,
    FileSystem.readFile_eq] at answered
  cases found : disk.nodeAt (handler.entityPath entity) with
  | none =>
      simp only [found, Bool.false_eq_true, if_false] at answered
      rw [← Except.ok.inj answered] at isOk
      cases isOk
  | some node =>
      cases node with
      | directory =>
          simp only [found, if_true] at answered
          rw [← Except.ok.inj answered] at text
          exact text.ne_nil rfl
      | file content =>
          have stored := ((Disk.nodeAt_eq_file_iff _ _ _).mp found).2.2.2
          rw [handler.key_entityPath mounted.2 valid, named.apart] at stored
          cases stored

/-- What is stored below an entity is what its directory holds. -/
theorem mem_children_entity (mounted : handler.Mounted) {entity : Name} (valid : ValidName entity)
    (id : Name) : id ∈ disk.children (disk.key (handler.entityPath entity)) <->
      disk.node (handler.memberKey disk entity id) ≠ none := by
  rw [Disk.mem_children_iff, handler.key_entityPath_append mounted.2 valid, Option.isSome_iff_ne_none]

/-- Only the names have other characters than brackets and commas. -/
theorem count_listBody_le (environment : Environment) (path : Text) (disk : Disk) {c : Char}
    (notOpen : c ≠ '[') (notClose : c ≠ ']') (notComma : c ≠ ',') :
    (listBody (FileSystem.listFiles environment path disk)).count c ≤
      total (List.count c) (disk.children (disk.key path)) := by
  by_cases directory : disk.nodeAt path = some .directory
  · rcases FileSystem.listFiles_of_directory directory with ⟨names, shown, listing⟩
    have joined : forall names : List Name,
        (names.flatMap (fun name => name ++ [','])).count c = total (List.count c) names := by
      intro names
      induction names with
      | nil => rfl
      | cons name rest inductionHypothesis =>
          rw [List.flatMap_cons, List.count_append, List.count_append, inductionHypothesis, total,
            List.count_singleton, if_neg (by simpa using Ne.symm notComma), Nat.add_zero]
    have fewer : total (List.count c) names ≤ total (List.count c) (disk.children (disk.key path)) := by
      rw [total_perm shown]
      exact total_sublist List.filter_sublist
    have cut := (List.dropLast_sublist (names.flatMap (fun name => name ++ [',']))).count_le c
    rw [joined] at cut
    rw [listing, listBody, if_pos rfl, List.count_cons_of_ne (Ne.symm notOpen), List.count_append,
      List.count_singleton, if_neg (by simpa using Ne.symm notClose), Nat.add_zero]
    exact cut.trans fewer
  · rw [FileSystem.listFiles_of_not_directory directory, listBody, if_neg (by simp)]
    have none_ : "[]".toList.count c = 0 := by
      rw [List.count_eq_zero]
      simp [notOpen, notClose]
    omega

/-- If the list is right, then every stored id is a number in its shortest notation. -/
theorem numerals_of_listsStore (mounted : handler.Mounted) (plain : '\x00' ∉ handler.location)
    {entity : Name} (valid : ValidName entity)
    {behind : Text} (noIdBehind : NoIdBehind behind)
    (lists : handler.ListsStore junk environments behind entity disk) {id : Name}
    (stored : handler.Holds entity id disk) : Json.IsNumeral id := by
  rcases lists with ⟨res, answered, _, values, ids, text, denote, nodup, members⟩
  rw [performGet_entity mounted plain valid, if_pos noIdBehind] at answered
  obtain rfl := Except.ok.inj answered
  have here := (members id).1.mpr stored
  have same : ids.Perm (disk.children (disk.key (handler.entityPath entity))) := by
    apply (List.perm_ext_iff_of_nodup nodup (disk.nodup_children _)).mpr
    intro other
    rw [mem_children_entity mounted valid]
    exact (members other).1.trans ⟨fun holds => holds.2, fun present => ⟨stored.1, present⟩⟩
  have few : forall c : Char, c ≠ '[' -> c ≠ ']' -> c ≠ ',' ->
      (listBody (FileSystem.listFiles (environments 0) (handler.entityPath entity) disk)).count c ≤
        total (List.count c) ids := by
    intro c notOpen notClose notComma
    rw [total_perm same]
    exact count_listBody_le _ _ disk notOpen notClose notComma
  refine text.areNumerals denote (few '\\' (by decide) (by decide) (by decide)) ?_ id here
  intro quoted
  have some_ := List.count_pos_iff.mpr quoted
  have enough := few '"' (by decide) (by decide) (by decide)
  rcases exists_of_total_pos (Nat.lt_of_lt_of_le some_ enough) with ⟨other, member, more⟩
  exact ⟨other, member, List.count_pos_iff.mp more⟩

/-- The listing of a directory of numerals is a JSON array that stands for them. -/
theorem isText_listBody (environment : Environment) {path : Text}
    (directory : disk.nodeAt path = some .directory)
    (numerals : forall id, id ∈ disk.children (disk.key path) -> Json.IsNumeral id) :
    Exists fun ids : List Name => ids.Perm (disk.children (disk.key path)) ∧
      Exists fun values : List Json => List.Forall₂ Json.Denotes values ids ∧
        Json.IsText (.array values) (listBody (FileSystem.listFiles environment path disk)) := by
  have blank : Json.Blank [] := fun c member => absurd member List.not_mem_nil
  rcases FileSystem.listFiles_of_directory directory with ⟨names, shown, listing⟩
  have all : (disk.children (disk.key path)).filter visible = disk.children (disk.key path) := by
    rw [List.filter_eq_self]
    intro id member
    rcases numerals id member with ⟨numeral, _, rfl⟩
    have noDot : numeral.toText.head? ≠ some '.' := by
      intro dotted
      rcases Decimal.head?_toText dotted with digit | sign
      · exact absurd digit (by decide)
      · exact absurd sign (by decide)
    simpa [visible] using noDot
  rw [all] at shown
  rw [listing, listBody, if_pos rfl]
  by_cases empty : names = []
  · subst empty
    exact ⟨[], shown, [], .nil, [], _, [], rfl, blank, .noElements blank, blank⟩
  · rcases Json.elements_numerals empty (fun id member => numerals id (shown.mem_iff.mp member)) with
      ⟨values, denote, elements⟩
    exact ⟨names, shown, values, denote, [], _, [], by simp, blank, .array elements, blank⟩

/-- If every stored id is a number in its shortest notation, then the list is right. -/
theorem listsStore_of_numerals (mounted : handler.Mounted) (plain : '\x00' ∉ handler.location)
    (named : handler.WellNamed disk) {entity : Name} (valid : ValidName entity) {behind : Text}
    (noIdBehind : NoIdBehind behind)
    (numerals : forall id, handler.Holds entity id disk -> Json.IsNumeral id) :
    handler.ListsStore junk environments behind entity disk := by
  have answers : forall id, handler.Holds entity id disk <-> ValidName id ∧ forall behind,
      Answers (handler.performGet junk environments behind (entity ++ '/' :: id) disk) .ok := by
    intro id
    constructor
    · intro holds
      have validId := named.valid entity id holds.2
      exact ⟨validId, fun behind => (get_isOk_iff mounted plain valid validId behind).mpr holds⟩
    · rintro ⟨validId, found⟩
      exact (get_isOk_iff mounted plain valid validId behind).mp (found behind)
  refine ⟨_, by rw [performGet_entity mounted plain valid, if_pos noIdBehind], rfl, ?_⟩
  by_cases directory : disk.nodeAt (handler.entityPath entity) = some .directory
  · rcases isText_listBody (environments 0) directory (fun id member =>
        numerals id ⟨directory, (mem_children_entity mounted valid id).mp member⟩) with
      ⟨ids, same, values, denote, text⟩
    refine ⟨values, ids, text, denote, (disk.nodup_children _).perm same.symm, ?_⟩
    intro id
    have stored : id ∈ ids <-> handler.Holds entity id disk := by
      rw [same.mem_iff, mem_children_entity mounted valid, Holds, and_iff_right directory]
    exact ⟨stored, stored.trans (answers id)⟩
  · -- Without the directory nothing is stored, and the array is empty.
    have blank : Json.Blank [] := fun c member => absurd member List.not_mem_nil
    refine ⟨[], [], ?_, .nil, List.nodup_nil, ?_⟩
    · change Json.IsText _ (listBody
        (FileSystem.listFiles (environments 0) (handler.entityPath entity) disk))
      rw [FileSystem.listFiles_of_not_directory directory]
      exact ⟨[], _, [], rfl, blank, .noElements blank, blank⟩
    · intro id
      have nothing : ¬ handler.Holds entity id disk := fun holds => directory holds.1
      rw [← answers]
      simp [nothing]

end Serving

/-- In every store that requests can lead to, the list is right exactly when no id is read
behind the target and every stored id is a number in its shortest notation. -/
theorem listsStore_iff (handler : CrudRequestHandler) (plain : '\x00' ∉ handler.location)
    (clean : '\x00' ∉ handler.dataPath) (turns : List CrudTurn)
    (validTurns : forall turn, turn ∈ turns -> turn.op.ValidNames) (disk : Disk)
    (named : handler.WellNamed disk) (entity : Name) (valid : ValidName entity)
    (junk : Nat -> CInt) (environments : Nat -> Environment) (behind : Text) :
    handler.ListsStore junk environments behind entity
        (handler.serveTurns turns (Ledger.empty, disk)).2 <->
      handler.Mounted ∧ NoIdBehind behind ∧ forall id,
        handler.Holds entity id (handler.serveTurns turns (Ledger.empty, disk)).2 ->
        Json.IsNumeral id := by
  have reached : handler.WellNamed (handler.serveTurns turns (Ledger.empty, disk)).2 :=
    wellNamed_serveTurns plain clean validTurns named
  generalize (handler.serveTurns turns (Ledger.empty, disk)).2 = disk at reached
  constructor
  · intro lists
    have mounted : handler.Mounted := by
      by_contra unmounted
      rcases lists with ⟨res, answered, _⟩
      rw [performGet_unmounted unmounted plain valid] at answered
      cases answered
    have noIdBehind : NoIdBehind behind := by
      by_contra idBehind
      exact not_listsStore_of_idBehind mounted plain reached valid idBehind lists
    exact ⟨mounted, noIdBehind,
      fun id stored => numerals_of_listsStore mounted plain valid noIdBehind lists stored⟩
  · rintro ⟨mounted, noIdBehind, numerals⟩
    exact listsStore_of_numerals mounted plain reached valid noIdBehind numerals

theorem wellNamed_empty (handler : CrudRequestHandler) : handler.WellNamed Disk.empty := by
  have nothing : forall key : Key, key ≠ [] -> Disk.empty.node key = none := by
    intro key nonempty
    rw [Disk.node, if_neg nonempty]
    rfl
  refine ⟨fun entity id stored => absurd (nothing _ (by simp [memberKey])) stored, fun entity => ?_⟩
  rw [Disk.fileAt, nothing _ (by simp)]

/-- What is stored below an entity, read off its directory. -/
theorem mem_sampleChildren {disk : Disk} {id : Name}
    (stored : sampleHandler.Holds "shoes".toList id disk) :
    id ∈ disk.children (disk.key (sampleHandler.entityPath "shoes".toList)) :=
  (mem_children_entity ⟨by decide, by decide⟩ (by decide) id).mpr stored.2

/-- A store with the id 1. -/
theorem number_isListed :
    sampleHandler.ListsStore (fun _ => CInt.zero) (fun _ => Environment.willing) [] "shoes".toList
      (sampleHandler.serveTurns [putTurn "a".toList] (Ledger.empty, Disk.empty)).2 := by
  have valid : forall turn, turn ∈ [putTurn "a".toList] -> turn.op.ValidNames := by
    intro turn member
    rw [List.mem_singleton.mp member]
    decide
  apply (listsStore_iff sampleHandler (by decide) (by decide) _ valid Disk.empty (wellNamed_empty _)
    "shoes".toList (by decide) _ _ _).mpr
  refine ⟨⟨by decide, by decide⟩, by decide, ?_⟩
  intro id stored
  have only : id = "1".toList := List.mem_singleton.mp (mem_sampleChildren stored)
  have digits : AreDigits "1".toList := by
    intro c member
    rw [List.mem_singleton.mp member]
    rfl
  rw [only]
  exact ⟨⟨false, "1".toList, [], ⟨by decide, digits, by decide⟩, by simp [AreDigits]⟩,
    ⟨by simp, by simp⟩, rfl⟩

/-- A `PUT` that stores something under the id `a`. -/
def putLetter : CrudTurn :=
  ⟨.put "shoes".toList "a".toList [], fun _ => CInt.zero, fun _ => Environment.willing⟩

/-- The list then has the letter without quotation marks. -/
theorem letter_isNotListed :
    (sampleHandler.performGet (fun _ => CInt.zero) (fun _ => Environment.willing) [] "shoes".toList
      (sampleHandler.serveTurns [putLetter] (Ledger.empty, Disk.empty)).2).1.map Response.body =
        .ok "[a]".toList ∧
    ¬ sampleHandler.ListsStore (fun _ => CInt.zero) (fun _ => Environment.willing) [] "shoes".toList
      (sampleHandler.serveTurns [putLetter] (Ledger.empty, Disk.empty)).2 := by
  refine ⟨rfl, ?_⟩
  intro lists
  rcases numerals_of_listsStore ⟨by decide, by decide⟩ (by decide) (by decide) (by decide) lists
    (show sampleHandler.Holds "shoes".toList "a".toList _ from ⟨by decide, by decide⟩) with
    ⟨numeral, _, letter⟩
  rcases Decimal.head?_toText (congrArg List.head? letter) with digit | sign
  · exact absurd digit (by decide)
  · exact absurd sign (by decide)

end CrudRequestHandler
end Handlers
end Webserver
