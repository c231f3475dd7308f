import Webserver.Handlers.Markdown

namespace Webserver
namespace Handlers

open Http Programs Storage

/-!
# The strings that a handler indexes at their last character

`CRUDRequestHandler` looks at the last character of its location and of its data path,
`MarkdownRequestHandler` at that of its data path, and neither asks whether there is one.
`indexes` lists the strings that are looked at while a request is served.  Where one of
them is empty, serving the request has no meaning from its beginning; a string that is not
in the list does not matter.
-/

namespace CrudRequestHandler

/-- The methods whose operation begins with `map_request_path_to_file_path`. -/
def mapsTarget (req : Request) : Prop :=
  cString req.method.methodString ∈
    ["POST".toList, "GET".toList, "PUT".toList, "DELETE".toList]

instance (req : Request) : Decidable (mapsTarget req) := inferInstanceAs (Decidable (_ ∈ _))

/-- The length of a location with the separator behind it. -/
def prefixLength (location : Text) : Nat :=
  if location.getLast? = some '/' then location.length else location.length + 1

/-- The target is long enough for the `substr` behind the location. -/
def ReachesDataPath (location target : Text) : Prop := prefixLength location ≤ target.length

instance (location target : Text) : Decidable (ReachesDataPath location target) :=
  inferInstanceAs (Decidable (_ ≤ _))

/-- `serve` indexes the location, and so does `map_request_path_to_file_path`, which goes
on to the data path unless `substr` throws. -/
def indexes (handler : CrudRequestHandler) (req : Request) : List Text :=
  handler.location ::
    (if mapsTarget req ∧ ReachesDataPath handler.location req.target then [handler.dataPath] else [])

variable {handler : CrudRequestHandler} {junk : Nat -> CInt} {req : Request}

theorem prefixSize_eq {location : Text} (nonempty : location ≠ []) :
    prefixSize location = .ok (prefixLength location) := by
  rw [prefixSize, prefixLength]
  cases final : location.getLast? with
  | none => exact absurd (List.getLast?_eq_none_iff.mp final) nonempty
  | some last => simp

/-- With an empty location nothing is served. -/
theorem serve_of_emptyLocation (empty : handler.location = []) (res : Response) :
    handler.serve junk req res = .fail .undefinedBehavior := by
  rw [serve, serveReading, entityParts, prefixSize, empty]
  rfl

theorem entityParts_isOk (nonempty : handler.location ≠ []) (target : Text) :
    Exists fun parts : Text × Text × Text => handler.entityParts target = .ok parts := by
  rw [entityParts, prefixSize_eq nonempty]
  simp only [bind, Except.bind]
  split
  · exact ⟨_, rfl⟩
  · split
    · exact ⟨_, rfl⟩
    · exact ⟨_, rfl⟩

/-- The operations begin with the path of the target, whose fault is theirs. -/
theorem serve_of_mapError (nonempty : handler.location ≠ []) (maps : mapsTarget req) {fault : Fault}
    (mapped : handler.mapRequestPathToFilePath req.target = .error fault) (res : Response) :
    handler.serve junk req res = .fail fault := by
  rcases entityParts_isOk nonempty (cString req.target) with ⟨⟨entityId, entity, id⟩, parts⟩
  rw [mapsTarget] at maps
  simp only [List.mem_cons, List.not_mem_nil, or_false] at maps
  rw [serve, serveReading, parts, Program.ofExcept_ok, Program.done_bind]
  dsimp only
  generalize cString req.method.methodString = method at maps ⊢
  rcases maps with rfl | rfl | rfl | rfl
  · rw [if_pos rfl, create, mapped]
    rfl
  · rw [if_neg (by decide), if_pos rfl]
    split
    · rw [retrieve, mapped]
      rfl
    · rw [list, mapped]
      rfl
  · rw [if_neg (by decide), if_neg (by decide), if_pos rfl, update, mapped]
    rfl
  · rw [if_neg (by decide), if_neg (by decide), if_neg (by decide), if_pos rfl, crudDelete, mapped]
    rfl

theorem map_eq (nonempty : handler.location ≠ []) (target : Text) :
    handler.mapRequestPathToFilePath target =
      match Strings.substr target (prefixLength handler.location) with
      | none => .error .outOfRange
      | some temp0 => joinPath handler.dataPath temp0 := by
  rw [mapRequestPathToFilePath, prefixSize_eq nonempty]
  rfl

theorem map_of_reaches (nonempty : handler.location ≠ []) {target : Text}
    (reaches : ReachesDataPath handler.location target) :
    Exists fun name : Text =>
      handler.mapRequestPathToFilePath target = joinPath handler.dataPath name := by
  rw [map_eq nonempty, (Strings.substr_eq_some_iff _ _ _).mpr ⟨reaches, rfl⟩]
  exact ⟨_, rfl⟩

theorem map_of_notReaches (nonempty : handler.location ≠ []) {target : Text}
    (short : ¬ ReachesDataPath handler.location target) :
    handler.mapRequestPathToFilePath target = .error .outOfRange := by
  rw [map_eq nonempty, (Strings.substr_eq_none_iff _ _).mpr (Nat.lt_of_not_le short)]

/-- Where a string that is indexed is empty, nothing is served. -/
theorem serve_of_indexesEmpty (empty : [] ∈ handler.indexes req) (res : Response) :
    handler.serve junk req res = .fail .undefinedBehavior := by
  by_cases nothing : handler.location = []
  · exact serve_of_emptyLocation nothing res
  rw [indexes, List.mem_cons] at empty
  rcases empty with same | later
  · exact absurd same.symm nothing
  split at later
  · rename_i both
    rcases map_of_reaches nothing both.2 with ⟨name, mapped⟩
    rw [← List.mem_singleton.mp later] at mapped
    exact serve_of_mapError nothing both.1 mapped res
  · cases later

/-- Other methods need no path. -/
theorem serve_of_otherMethod (nonempty : handler.location ≠ []) (other : ¬ mapsTarget req) :
    handler.serve junk req res = pure { res with result := .notImplemented } := by
  rcases entityParts_isOk nonempty (cString req.target) with ⟨⟨entityId, entity, id⟩, parts⟩
  rw [mapsTarget] at other
  simp only [List.mem_cons, List.not_mem_nil, or_false, not_or] at other
  rw [serve, serveReading, parts]
  simp only [Program.ofExcept_ok, Program.done_bind, if_neg other.1, if_neg other.2.1,
    if_neg other.2.2.1, if_neg other.2.2.2]

/-- A data path that is not indexed does not matter. -/
theorem serve_congr_dataPath {location : Text}
    (unread : ¬(mapsTarget req ∧ ReachesDataPath location req.target)) (first second : Text)
    (res : Response) :
    CrudRequestHandler.serve ⟨location, first⟩ junk req res =
      CrudRequestHandler.serve ⟨location, second⟩ junk req res := by
  by_cases nothing : location = []
  · have fails : forall dataPath : Text,
        CrudRequestHandler.serve ⟨location, dataPath⟩ junk req res = .fail .undefinedBehavior :=
      fun _ => serve_of_emptyLocation nothing res
    rw [fails, fails]
  by_cases maps : mapsTarget req
  · have short : ¬ ReachesDataPath location req.target := fun reaches => unread ⟨maps, reaches⟩
    have fails : forall dataPath : Text,
        CrudRequestHandler.serve ⟨location, dataPath⟩ junk req res = .fail .outOfRange :=
      fun _ => serve_of_mapError nothing maps (map_of_notReaches nothing short) res
    rw [fails, fails]
  · have idle : forall dataPath : Text,
        CrudRequestHandler.serve ⟨location, dataPath⟩ junk req res =
          pure { res with result := .notImplemented } :=
      fun _ => serve_of_otherMethod nothing maps
    rw [idle, idle]

end CrudRequestHandler

namespace MarkdownRequestHandler

/-- The actions that come to `construct_file_path`. -/
def constructsPath (req : Request) : Bool :=
  match action req.target with
  | .error _ => false
  | .ok action =>
      if req.method.methodString = "GET".toList then
        action = "list".toList || action = "create".toList ||
          (action = "view".toList && extractFileName req.target ≠ [])
      else if req.method.methodString = "POST".toList then
        action = "edit".toList || action = "delete".toList ||
          (action = "save".toList && extractFileName req.body ≠ [])
      else false

/-- `construct_file_path` indexes the data path. -/
def indexes (handler : MarkdownRequestHandler) (req : Request) : List Text :=
  if constructsPath req = true then [handler.dataPath] else []

variable {convert : Text -> Except Fault Text} {junk : Nat -> CInt} {req : Request}

theorem serve_of_actionError {fault : Fault} (unknown : action req.target = .error fault)
    (handler : MarkdownRequestHandler) (res : Response) :
    handler.serve convert junk req res = .fail fault := by
  rw [serve, unknown]
  rfl

/-- Where the data path is indexed and empty, nothing is served. -/
theorem serve_of_indexesEmpty {handler : MarkdownRequestHandler} (empty : [] ∈ handler.indexes req)
    (res : Response) : handler.serve convert junk req res = .fail .undefinedBehavior := by
  rw [indexes] at empty
  split at empty
  · rename_i constructs
    rcases handler with ⟨location, dataPath⟩
    obtain rfl : dataPath = [] := (List.mem_singleton.mp empty).symm
    rw [constructsPath] at constructs
    cases named : action req.target with
    | error fault =>
        rw [named] at constructs
        cases constructs
    | ok action =>
        rw [named] at constructs
        rw [serve, named, Program.ofExcept_ok, Program.done_bind]
        dsimp only at constructs ⊢
        generalize req.method.methodString = method at constructs ⊢
        by_cases isGet : method = "GET".toList
        · rw [if_pos isGet] at constructs ⊢
          simp only [Bool.or_eq_true, Bool.and_eq_true, decide_eq_true_eq] at constructs
          rcases constructs with (rfl | rfl) | ⟨rfl, isPost⟩
          · rfl
          · rfl
          · rw [if_neg (by decide), if_pos rfl, view, if_neg isPost]
            rfl
        · rw [if_neg isGet] at constructs ⊢
          by_cases isPost : method = "POST".toList
          · rw [if_pos isPost] at constructs ⊢
            simp only [Bool.or_eq_true, Bool.and_eq_true, decide_eq_true_eq] at constructs
            rcases constructs with (rfl | rfl) | ⟨rfl, isPost⟩
            · rfl
            · rfl
            · rw [if_neg (by decide), if_pos rfl, save, if_neg isPost]
              rfl
          · rw [if_neg isPost] at constructs
            cases constructs
  · cases empty

/-- A data path that is not indexed does not matter. -/
theorem serve_congr_dataPath (unread : constructsPath req = false) (location first second : Text)
    (res : Response) :
    MarkdownRequestHandler.serve ⟨location, first⟩ convert junk req res =
      MarkdownRequestHandler.serve ⟨location, second⟩ convert junk req res := by
  rw [constructsPath] at unread
  cases named : action req.target with
  | error fault => rw [serve_of_actionError named, serve_of_actionError named]
  | ok action =>
      rw [named] at unread
      simp only [serve, named, Program.ofExcept_ok, Program.done_bind]
      dsimp only at unread
      generalize req.method.methodString = method at unread ⊢
      by_cases isGet : method = "GET".toList
      · rw [if_pos isGet] at unread
        simp only [Bool.or_eq_false_iff, Bool.and_eq_false_iff, decide_eq_false_iff_not] at unread
        rcases unread with ⟨⟨notList, notCreate⟩, notView⟩
        simp only [if_pos isGet, if_neg notList, if_neg notCreate]
        by_cases isView : action = "view".toList
        · have noPost : extractFileName req.target = [] := by simpa [isView] using notView
          simp only [if_pos isView, view, if_pos noPost]
        · simp only [if_neg isView]
      · rw [if_neg isGet] at unread
        by_cases isPost : method = "POST".toList
        · rw [if_pos isPost] at unread
          simp only [Bool.or_eq_false_iff, Bool.and_eq_false_iff, decide_eq_false_iff_not] at unread
          rcases unread with ⟨⟨notEdit, notDelete⟩, notSave⟩
          simp only [if_neg isGet, if_pos isPost, if_neg notEdit, if_neg notDelete]
          by_cases isSave : action = "save".toList
          · have noPost : extractFileName req.body = [] := by simpa [isSave] using notSave
            simp only [if_pos isSave, save, if_pos noPost]
          · simp only [if_neg isSave]
        · simp only [if_neg isGet, if_neg isPost]

end MarkdownRequestHandler

end Handlers
end Webserver
