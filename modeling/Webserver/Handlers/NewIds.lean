import Webserver.Handlers.CrudFreshness
import Webserver.Handlers.Markdown

namespace Webserver
namespace Handlers

open Http LexicalPaths Programs Storage

/-!
# New ids and the listing

Both `create` functions take one more than the largest number among the fields of the
listing.  A field that is no number is meant to be skipped, and the exception of `stoi`
is caught for that.  What is compared then is a variable that has not been initialised,
and the empty field behind the last comma always comes to this.
-/

/-- The largest number that `stoi` reads among the names, at least 0. -/
def largestId (names : List Name) : Int :=
  (names.filterMap CInt.stoi).foldl (fun largest id => max largest id.value) 0

/-- Where `stoi` throws on a field of the listing, the uninitialised variable does not
exceed the largest number. -/
def JunkHarmless (junk : Nat -> CInt) (names : List Name) : Prop :=
  FileSystem.joinNames names ≠ [] ->
    forall entry, entry ∈ ((FileSystem.joinNames names).splitOn ',').zipIdx ->
      CInt.stoi entry.1 = none -> (junk entry.2).value ≤ largestId names

instance (junk : Nat -> CInt) (names : List Name) : Decidable (JunkHarmless junk names) :=
  inferInstanceAs (Decidable (_ -> _))

/-- The program lists a directory, and where that has the given names it writes a file
next.  The path of the file is that of the directory, the separator and the number. -/
def WritesUnder (program : Handling Response) (names : List Name) (separator : Text)
    (number : Int) : Prop :=
  Exists fun path : Text => Exists fun listed : Bool × Text -> Handling Response =>
    Exists fun data : Text => Exists fun written : Bool -> Handling Response =>
      Exists fun id : CInt =>
        program = .call (.listFiles path) listed ∧ id.value = number ∧
          listed (true, FileSystem.joinNames names) =
            .call (.writeFile (path ++ separator ++ id.toText) data) written

/-! ## Upper bounds -/

theorem foldl_max_le_iff (ids : List CInt) (start bound : Int) :
    ids.foldl (fun largest id => max largest id.value) start ≤ bound <->
      start ≤ bound ∧ forall id, id ∈ ids -> id.value ≤ bound := by
  induction ids generalizing start with
  | nil => simp
  | cons id rest inductionHypothesis =>
      rw [List.foldl_cons, inductionHypothesis, Int.max_le, List.forall_mem_cons, and_assoc]

theorem largestId_le_iff (names : List Name) (bound : Int) :
    largestId names ≤ bound <->
      0 ≤ bound ∧ forall name id, name ∈ names -> CInt.stoi name = some id -> id.value ≤ bound := by
  rw [largestId, foldl_max_le_iff]
  simp only [List.mem_filterMap]
  constructor
  · rintro ⟨nonneg, below⟩
    exact ⟨nonneg, fun name id member isRead => below id ⟨name, member, isRead⟩⟩
  · rintro ⟨nonneg, below⟩
    refine ⟨nonneg, ?_⟩
    rintro id ⟨name, member, isRead⟩
    exact below name id member isRead

theorem maxId_le_iff (junk : Nat -> CInt) (fileList : Text) (bound : Int) :
    (maxId junk fileList).value ≤ bound <->
      0 ≤ bound ∧ (fileList ≠ [] -> forall entry, entry ∈ (fileList.splitOn ',').zipIdx ->
        ((CInt.stoi entry.1).getD (junk entry.2)).value ≤ bound) := by
  have nonneg := maxId_nonneg junk fileList
  rw [maxId] at nonneg ⊢
  by_cases empty : fileList = []
  · simp [empty, CInt.zero]
  rw [if_neg empty] at nonneg ⊢
  constructor
  · intro below
    exact ⟨Int.le_trans nonneg below, fun _ entry member =>
      Int.le_trans (foldl_maxStep_ge_entry junk CInt.zero member) below⟩
  · rintro ⟨atLeast, each⟩
    rcases foldl_maxStep_cases junk (fileList.splitOn ',').zipIdx CInt.zero with
      same | ⟨entry, member, same⟩
    · rw [same]
      exact atLeast
    · rw [same]
      exact each empty entry member

/-! ## The fields of a listing -/

/-- The names and, behind the last comma, an empty field. -/
theorem splitOn_flatMap {names : List Name} (noComma : forall name, name ∈ names -> ',' ∉ name) :
    (names.flatMap (fun name => name ++ [','])).splitOn ',' = names ++ [[]] := by
  induction names with
  | nil => rfl
  | cons name rest inductionHypothesis =>
      rcases List.forall_mem_cons.mp noComma with ⟨first, others⟩
      rw [List.flatMap_cons, List.append_assoc, List.singleton_append,
        List.splitOn_append_cons_self, List.splitOn_eq_singleton first, inductionHypothesis others]
      rfl

theorem stoi_nil : CInt.stoi [] = none := rfl

/-- A name with a leading dot is no number. -/
theorem stoi_of_hidden {name : Name} (hidden : name.head? = some '.') : CInt.stoi name = none := by
  rcases List.head?_eq_some_iff.mp hidden with ⟨rest, rfl⟩
  rfl

/-- `max_id` is the largest number exactly when the uninitialised variable does not
matter. -/
theorem maxId_eq_largestId_iff {names : List Name}
    (noComma : forall name, name ∈ names -> ',' ∉ name) (junk : Nat -> CInt) :
    (maxId junk (FileSystem.joinNames names)).value = largestId names <->
      JunkHarmless junk names := by
  have fields : (FileSystem.joinNames names).splitOn ',' =
      names.filter (fun name => name.head? != some '.') ++ [[]] :=
    splitOn_flatMap (fun name shown => noComma name (List.mem_of_mem_filter shown))
  have nonneg := ((largestId_le_iff names _).mp (Int.le_refl _)).1
  constructor
  · intro same nonempty entry member thrown
    have below := ((maxId_le_iff junk _ _).mp (Int.le_of_eq same)).2 nonempty entry member
    rwa [thrown, Option.getD_none] at below
  · intro harmless
    apply Int.le_antisymm
    · refine (maxId_le_iff junk _ _).mpr ⟨nonneg, fun nonempty entry member => ?_⟩
      cases isRead : CInt.stoi entry.1 with
      | none => exact harmless nonempty entry member isRead
      | some id =>
          have field := List.fst_mem_of_mem_zipIdx member
          rw [fields, List.mem_append, List.mem_singleton] at field
          rcases field with shown | isLast
          · exact ((largestId_le_iff names _).mp (Int.le_refl _)).2 _ id
              (List.mem_of_mem_filter shown) isRead
          · rw [isLast, stoi_nil] at isRead
            cases isRead
    · refine (largestId_le_iff names _).mpr ⟨maxId_nonneg junk _, fun name id member isRead => ?_⟩
      have shown : name ∈ names.filter (fun name => name.head? != some '.') := by
        refine List.mem_filter.mpr ⟨member, ?_⟩
        rw [bne_iff_ne]
        intro hidden
        rw [stoi_of_hidden hidden] at isRead
        cases isRead
      have field : name ∈ (FileSystem.joinNames names).splitOn ',' := by
        rw [fields]
        exact List.mem_append_left _ shown
      have nonempty : FileSystem.joinNames names ≠ [] := by
        intro empty
        rw [empty, List.splitOn_nil, List.mem_singleton] at field
        rw [field, stoi_nil] at isRead
        cases isRead
      rcases List.mem_iff_getElem?.mp field with ⟨index, found⟩
      have below := ((maxId_le_iff junk _ _).mp (Int.le_refl _)).2 nonempty (name, index)
        (List.mem_zipIdx_iff_getElem?.mpr found)
      rwa [isRead, Option.getD_some] at below

/-! ## The two handlers -/

/-- Both `create` functions list a directory, choose an id and write a file under it. -/
theorem writesUnder_iff {path separator data : Text} {names : List Name} {number : Int}
    (fits : number ≤ CInt.max.value) {file : CInt -> Text}
    (named : forall id, file id = path ++ separator ++ id.toText) {junk : Nat -> CInt}
    {rest : CInt -> Bool -> Handling Response} :
    WritesUnder (do
        let listing <- listFiles path
        let id <- Program.ofExcept (chooseId junk listing.2)
        let written <- writeFile (file id) data
        rest id written) names separator number <->
      (maxId junk (FileSystem.joinNames names)).value + 1 = number := by
  constructor
  · rintro ⟨path', listed, data', written, id, listsFirst, rfl, writes⟩
    injection listsFirst with sameCall sameRest
    injection sameCall with samePath
    subst samePath
    have asked : listed (true, FileSystem.joinNames names) =
        (Program.ofExcept (chooseId junk (FileSystem.joinNames names)) >>= fun id =>
          writeFile (file id) data >>= rest id) := by
      rw [← sameRest]
      rfl
    rw [asked] at writes
    cases chosen : chooseId junk (FileSystem.joinNames names) with
    | error fault =>
        rw [chosen] at writes
        cases writes
    | ok own =>
        rw [chosen, Program.ofExcept_ok, Program.done_bind] at writes
        injection writes with sameWrite
        injection sameWrite with sameFile
        rw [named] at sameFile
        rw [← CInt.toText_injective (List.append_cancel_left sameFile)]
        exact ((chooseId_eq_ok_iff junk _ own).mp chosen).symm
  · rintro rfl
    have nonneg := maxId_nonneg junk (FileSystem.joinNames names)
    have exact : CInt.max.value = 2147483647 := rfl
    let id : CInt := ⟨(maxId junk (FileSystem.joinNames names)).value + 1, by omega, by omega⟩
    have chosen : chooseId junk (FileSystem.joinNames names) = .ok id :=
      (chooseId_eq_ok_iff junk _ id).mpr rfl
    refine ⟨path, _, data, rest id, id, rfl, rfl, ?_⟩
    change (Program.ofExcept (chooseId junk (FileSystem.joinNames names)) >>= fun id =>
      writeFile (file id) data >>= rest id) = _
    rw [chosen, ← named]
    rfl

section Choosing

variable {names : List Name} (noComma : forall name, name ∈ names -> ',' ∉ name)
  (below : largestId names < CInt.max.value) (junk : Nat -> CInt) (req : Request) (res : Response)

include noComma below

theorem CrudRequestHandler.create_writesUnder_iff (handler : CrudRequestHandler) (entity : Text)
    {path : Text} (mapped : handler.mapRequestPathToFilePath req.target = .ok path) :
    WritesUnder (handler.create junk entity req res) names ['/'] (largestId names + 1) <->
      JunkHarmless junk names := by
  rw [create, mapped, Program.ofExcept_ok, Program.done_bind, ← maxId_eq_largestId_iff noComma junk,
    ← Int.add_left_inj 1]
  exact writesUnder_iff below (fun id => by simp)

theorem MarkdownRequestHandler.create_writesUnder_iff (handler : MarkdownRequestHandler)
    {path : Text} (mapped : handler.mapRequestPathToFilePath req.target = .ok path) :
    WritesUnder (handler.create junk req res) names [] (largestId names + 1) <->
      JunkHarmless junk names := by
  rw [create, mapped, Program.ofExcept_ok, Program.done_bind, ← maxId_eq_largestId_iff noComma junk,
    ← Int.add_left_inj 1]
  exact writesUnder_iff below (fun id => by simp)

/-- `create` of either handler chooses one more than the largest number in the directory
exactly when the uninitialised variable, where it is read, does not exceed that number. -/
theorem create_newId_iff :
    (forall (handler : CrudRequestHandler) (entity path : Text),
      handler.mapRequestPathToFilePath req.target = .ok path ->
      (WritesUnder (handler.create junk entity req res) names ['/'] (largestId names + 1) <->
        JunkHarmless junk names)) ∧
    forall (handler : MarkdownRequestHandler) (path : Text),
      handler.mapRequestPathToFilePath req.target = .ok path ->
      (WritesUnder (handler.create junk req res) names [] (largestId names + 1) <->
        JunkHarmless junk names) :=
  ⟨fun handler entity _ mapped =>
      handler.create_writesUnder_iff noComma below junk req res entity mapped,
    fun handler _ mapped => handler.create_writesUnder_iff noComma below junk req res mapped⟩

end Choosing

/-- A `POST` for shoes. -/
def postShoes : Request := ⟨.post, "/api/shoes".toList, []⟩

/-- A name that is no number is skipped while the variable holds 0. -/
theorem letters_areSkipped :
    WritesUnder (CrudRequestHandler.sampleHandler.create (fun _ => CInt.zero) "shoes".toList
      postShoes {}) ["1".toList, "x".toList, "3".toList] ['/'] 4 :=
  ((create_newId_iff (by decide) (by decide)
    (fun _ => CInt.zero) postShoes {}).1 CrudRequestHandler.sampleHandler "shoes".toList
      "data/shoes".toList rfl).mpr (by decide)

/-- Behind the only entry `1` the empty field is read as the 7 that the variable holds. -/
theorem emptyField_isCounted :
    let junk : Nat -> CInt := fun _ => ⟨7, by decide, by decide⟩
    largestId ["1".toList] = 1 ∧
      chooseId junk (FileSystem.joinNames ["1".toList]) = .ok ⟨8, by decide, by decide⟩ ∧
      ¬ WritesUnder (CrudRequestHandler.sampleHandler.create junk "shoes".toList postShoes {})
        ["1".toList] ['/'] (largestId ["1".toList] + 1) := by
  refine ⟨by decide, by decide, ?_⟩
  intro writes
  exact absurd ((CrudRequestHandler.create_writesUnder_iff (by decide) (by decide) _ postShoes {}
    CrudRequestHandler.sampleHandler _ rfl).mp writes) (by decide)

end Handlers
end Webserver
