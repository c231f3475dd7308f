import Webserver.Routing.Dispatcher

namespace Webserver
namespace Routing

open Config Handlers

/-!
# The route table that `initialize_handlers` builds

`dispatch` is called for the configured paths in key order and stores at most
one factory under each trimmed path: the one for the first path with a known
handler that trims to it.  The root of that factory is looked up under the
trimmed path, while the roots are kept under the paths as they are written.
`lookup_initializeHandlers` states both facts for the whole table.
-/

/-- The handler names that `dispatch` knows. -/
def handlerNames : List (Text × HandlerKind) :=
  [("EchoHandler".toList, .echo), ("StaticHandler".toList, .static),
    ("ErrorHandler".toList, .error), ("CRUDHandler".toList, .crud),
    ("HealthHandler".toList, .health), ("SleepHandler".toList, .sleep),
    ("MarkdownHandler".toList, .markdown)]

/-- The kind of a handler name. -/
def kindOf (handler : Text) : Option HandlerKind :=
  (handlerNames.find? (fun entry => entry.1 == handler)).map Prod.snd

/-- The kinds whose factory is given a root. -/
def HandlerKind.takesRoot : HandlerKind -> Bool
  | .static | .crud | .health | .markdown => true
  | _ => false

/-- The kinds of handlers that use files below a root. -/
def HandlerKind.usesFiles : HandlerKind -> Bool
  | .static | .crud | .markdown => true
  | _ => false

theorem takesRoot_of_usesFiles {kind : HandlerKind} (uses : kind.usesFiles = true) :
    kind.takesRoot = true := by
  cases kind <;> first | rfl | cases uses

/-- The root configured for a path, empty when there is none. -/
def rootAt (info : LocationInfo) (path : Text) : Text := (info.pathToRoot.lookup path).getD []

/-- The factory that is stored for a kind under a key. -/
def factoryFor (info : LocationInfo) (key : Text) (kind : HandlerKind) : RequestHandlerFactory :=
  ⟨kind, if kind.takesRoot = true then rootAt info key else []⟩

namespace Dispatcher

/-- Looking a root up may store an empty one, which reads the same. -/
theorem rootAt_dispatch (dispatcher : Dispatcher) (path handler key : Text) :
    rootAt (dispatcher.dispatch path handler).2.handlerInfo key =
      rootAt dispatcher.handlerInfo key := by
  have withRoot : forall path kind,
      rootAt (dispatcher.installWithRoot path kind).handlerInfo key =
        rootAt dispatcher.handlerInfo key := by
    intro path kind
    exact SortedMap.getD_lookup_subscript _ _ _ _
  unfold dispatch
  dsimp only
  repeat' split
  all_goals first | rfl | exact withRoot _ _

theorem install_routes (dispatcher : Dispatcher) (path : Text) {kind : HandlerKind}
    (rootless : kind.takesRoot = false) :
    (dispatcher.install path kind).routes =
      dispatcher.routes.assign path (some (factoryFor dispatcher.handlerInfo path kind)) := by
  rw [install, factoryFor, rootless]
  rfl

theorem installWithRoot_routes (dispatcher : Dispatcher) (path : Text) {kind : HandlerKind}
    (rooted : kind.takesRoot = true) :
    (dispatcher.installWithRoot path kind).routes =
      dispatcher.routes.assign path (some (factoryFor dispatcher.handlerInfo path kind)) := by
  rw [factoryFor, if_pos rooted, rootAt, ← SortedMap.subscript_fst]
  rfl

/-- A known handler is stored under the trimmed path unless that is taken. -/
theorem routes_dispatch (dispatcher : Dispatcher) (path handler : Text) :
    (dispatcher.dispatch path handler).2.routes =
      match dispatcher.routes.lookup (trimSlashes path), kindOf handler with
      | none, some kind => dispatcher.routes.assign (trimSlashes path)
          (some (factoryFor dispatcher.handlerInfo (trimSlashes path) kind))
      | _, _ => dispatcher.routes := by
  unfold dispatch
  dsimp only
  cases dispatcher.routes.lookup (trimSlashes path) with
  | some factory => rfl
  | none =>
      rw [if_neg (by simp)]
      by_cases echo : handler = "EchoHandler".toList
      · rw [if_pos echo, echo]
        exact install_routes _ _ rfl
      rw [if_neg echo]
      by_cases static : handler = "StaticHandler".toList
      · rw [if_pos static, static]
        exact installWithRoot_routes _ _ rfl
      rw [if_neg static]
      by_cases error : handler = "ErrorHandler".toList
      · rw [if_pos error, error]
        exact install_routes _ _ rfl
      rw [if_neg error]
      by_cases crud : handler = "CRUDHandler".toList
      · rw [if_pos crud, crud]
        exact installWithRoot_routes _ _ rfl
      rw [if_neg crud]
      by_cases health : handler = "HealthHandler".toList
      · rw [if_pos health, health]
        exact installWithRoot_routes _ _ rfl
      rw [if_neg health]
      by_cases sleep : handler = "SleepHandler".toList
      · rw [if_pos sleep, sleep]
        exact install_routes _ _ rfl
      rw [if_neg sleep]
      by_cases markdown : handler = "MarkdownHandler".toList
      · rw [if_pos markdown, markdown]
        exact installWithRoot_routes _ _ rfl
      rw [if_neg markdown]
      have unknown : kindOf handler = none := by
        rw [kindOf, Option.map_eq_none_iff, List.find?_eq_none]
        intro entry member
        simp only [handlerNames, List.mem_cons, List.not_mem_nil, or_false] at member
        rcases member with rfl | rfl | rfl | rfl | rfl | rfl | rfl
        all_goals
          rw [beq_iff_eq]
          apply Ne.symm
          assumption
      rw [unknown]

/-- The entry under a key is the first one to be stored there. -/
theorem lookup_dispatch (dispatcher : Dispatcher) (path handler key : Text) :
    (dispatcher.dispatch path handler).2.routes.lookup key =
      (dispatcher.routes.lookup key).or (if trimSlashes path = key then
        (kindOf handler).map (fun kind => some (factoryFor dispatcher.handlerInfo key kind))
        else none) := by
  rw [routes_dispatch]
  by_cases same : trimSlashes path = key
  · subst same
    rw [if_pos rfl]
    cases taken : dispatcher.routes.lookup (trimSlashes path) with
    | some factory => simp [taken]
    | none =>
        cases kindOf handler with
        | none => simp [taken]
        | some kind => simp [SortedMap.lookup_assign_self]
  · rw [if_neg same, Option.or_none]
    split
    · exact SortedMap.lookup_assign_of_ne _ same _
    · rfl

/-- The kind of the first listed path that has a known handler and trims to the
key. -/
def firstKind (entries : List (Text × Text)) (key : Text) : Option HandlerKind :=
  entries.findSome? (fun entry => if trimSlashes entry.1 = key then kindOf entry.2 else none)

/-- Dispatching a list of paths fills every free key with its first handler. -/
theorem lookup_foldl_dispatch (entries : List (Text × Text)) (dispatcher : Dispatcher)
    (key : Text) :
    (entries.foldl (fun dispatcher entry => (dispatcher.dispatch entry.1 entry.2).2)
      dispatcher).routes.lookup key =
      (dispatcher.routes.lookup key).or ((firstKind entries key).map
        (fun kind => some (factoryFor dispatcher.handlerInfo key kind))) := by
  induction entries generalizing dispatcher with
  | nil => simp [firstKind]
  | cons entry rest inductionHypothesis =>
      have factories : factoryFor (dispatcher.dispatch entry.1 entry.2).2.handlerInfo key =
          factoryFor dispatcher.handlerInfo key := by
        funext kind
        rw [factoryFor, factoryFor, rootAt_dispatch]
      rw [List.foldl_cons, inductionHypothesis, lookup_dispatch, factories, firstKind, firstKind,
        List.findSome?_cons, Option.or_assoc]
      by_cases same : trimSlashes entry.1 = key
      · rw [if_pos same, if_pos same]
        cases kindOf entry.2 <;> simp
      · rw [if_neg same, if_neg same]
        simp

/-- The whole route table. -/
theorem lookup_initializeHandlers (info : LocationInfo) (key : Text) :
    (initializeHandlers info).routes.lookup key =
      (firstKind info.pathToHandler.entries key).map
        (fun kind => some (factoryFor info key kind)) := by
  rw [initializeHandlers, lookup_foldl_dispatch]
  rfl

/-! ## The root of each route -/

/-- The path is the one for which a route has been registered: its handler is
known, and no path before it that trims to the same key has a known handler. -/
def Registered (info : LocationInfo) (path : Text) (kind : HandlerKind) : Prop :=
  (Exists fun handler : Text =>
    info.pathToHandler.lookup path = some handler ∧ kindOf handler = some kind) ∧
  forall other handler, info.pathToHandler.lookup other = some handler -> other < path ->
    trimSlashes other = trimSlashes path -> kindOf handler = none

theorem firstKind_of_registered {info : LocationInfo} {path : Text} {kind : HandlerKind}
    (registered : Registered info path kind) :
    firstKind info.pathToHandler.entries (trimSlashes path) = some kind := by
  rcases registered with ⟨⟨handler, configured, known⟩, first⟩
  refine SortedMap.findSome_of_sorted info.pathToHandler.sorted
    ((info.pathToHandler.mem_entries_iff path handler).mpr configured) ?_ ?_
  · simpa using known
  · intro other member before
    by_cases same : trimSlashes other.1 = trimSlashes path
    · rw [if_pos same]
      exact first other.1 other.2 ((info.pathToHandler.mem_entries_iff _ _).mp member) before same
    · rw [if_neg same]

/-- The factory of a registered path has the root that is configured for the
trimmed path. -/
theorem lookup_of_registered {info : LocationInfo} {path : Text} {kind : HandlerKind}
    (registered : Registered info path kind) (uses : kind.usesFiles = true) :
    (initializeHandlers info).routes.lookup (trimSlashes path) =
      some (some ⟨kind, rootAt info (trimSlashes path)⟩) := by
  rw [lookup_initializeHandlers, firstKind_of_registered registered, Option.map_some, factoryFor,
    if_pos (takesRoot_of_usesFiles uses)]

/-- Every static, CRUD and Markdown route has the root configured for its path
exactly when the roots are the same for the path as written and as trimmed. -/
theorem routes_have_their_roots_iff (info : LocationInfo) :
    (forall path kind, Registered info path kind -> kind.usesFiles = true ->
      (initializeHandlers info).routes.lookup (trimSlashes path) =
        some (some ⟨kind, rootAt info path⟩)) ↔
    (forall path kind, Registered info path kind -> kind.usesFiles = true ->
      rootAt info (trimSlashes path) = rootAt info path) := by
  constructor
  · intro served path kind registered uses
    have stored := served path kind registered uses
    rw [lookup_of_registered registered uses] at stored
    simpa using stored
  · intro same path kind registered uses
    rw [lookup_of_registered registered uses, same path kind registered uses]

/-- A static location that is written with a trailing slash. -/
def slashedInfo : LocationInfo :=
  { pathToHandler := SortedMap.empty.assign "/static/".toList "StaticHandler".toList
    pathToRoot := SortedMap.empty.assign "/static/".toList "../static_files".toList
    pathToIndex := SortedMap.empty }

/-- Its root is lost: the factory gets the empty one. -/
theorem slashedInfo_root_lost :
    Registered slashedInfo "/static/".toList .static ∧
    rootAt slashedInfo "/static/".toList = "../static_files".toList ∧
    (initializeHandlers slashedInfo).routes.lookup (trimSlashes "/static/".toList) =
      some (some ⟨.static, []⟩) := by
  refine ⟨⟨⟨"StaticHandler".toList, rfl, rfl⟩, ?_⟩, rfl, rfl⟩
  intro other handler configured before same
  rw [slashedInfo, SortedMap.lookup_assign] at configured
  split at configured
  · rename_i equal
    exact absurd before (equal ▸ lt_irrefl _)
  · cases configured

end Dispatcher
end Routing
end Webserver
