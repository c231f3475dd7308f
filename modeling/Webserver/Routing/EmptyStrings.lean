import Webserver.Handlers.Indexing
import Webserver.Routing.Lookup

namespace Webserver
namespace Routing

open Config Handlers Http

/-!
# Empty locations and data paths

Which strings a handler is built with is decided by the table of routes.  The location is
the route that matches the target, or empty when the handler of `/` stands in for a route;
the data path is the root that is configured for the route, or empty when there is none.
-/

/-- The strings that a handler looks at the last character of. -/
def RequestHandler.indexes (handler : RequestHandler) (req : Request) : List Text :=
  match handler with
  | .crud handler => handler.indexes req
  | .markdown handler => handler.indexes req
  | _ => []

namespace Dispatcher

/-- The dispatcher after some requests. -/
def after (dispatcher : Dispatcher) (earlier : List Request) : Dispatcher :=
  earlier.foldl (fun dispatcher req => (dispatcher.getHandler req).2) dispatcher

/-- Nothing but a null pointer for `/` has been added to the configured routes, and that
only where a target can match none of them. -/
def Keeps (info : LocationInfo) (routes : Routes) : Prop :=
  forall key, routes.lookup key = (initializeHandlers info).routes.lookup key ∨
    key = "/".toList ∧ routes.lookup key = some none ∧
      (initializeHandlers info).routes.lookup key = none ∧
      (initializeHandlers info).routes.lookup [] = none

/-- A call leaves the routes alone, or stores the null pointer. -/
theorem getHandler_routes (dispatcher : Dispatcher) (req : Request) :
    (dispatcher.getHandler req).2.routes = dispatcher.routes ∨
      (dispatcher.getHandler req).2.routes = dispatcher.routes.assign "/".toList none ∧
        dispatcher.routes.lookup "/".toList = none ∧ dispatcher.routes.lookup [] = none := by
  rw [getHandler]
  cases matched : dispatcher.routes.lookup (splitUri dispatcher.routes req.target).1 with
  | some factory =>
      left
      cases factory <;> simp only [matched]
  | none =>
      cases fallback : dispatcher.routes.lookup "/".toList with
      | some factory =>
          left
          cases factory <;> simp only [matched, SortedMap.subscript, fallback]
      | none =>
          refine Or.inr ⟨by simp only [matched, SortedMap.subscript, fallback], rfl, ?_⟩
          cases anywhere : dispatcher.routes.lookup [] with
          | none => rfl
          | some factory =>
              have route : (dispatcher.routes.lookup []).isSome := by
                rw [anywhere]
                rfl
              have found := (splitUri_isRoute route (List.nil_prefix : [] <+: req.target)).route
              rw [matched] at found
              cases found

theorem keeps_getHandler {info : LocationInfo} {dispatcher : Dispatcher}
    (keeps : Keeps info dispatcher.routes) (req : Request) :
    Keeps info (dispatcher.getHandler req).2.routes := by
  intro key
  rcases getHandler_routes dispatcher req with same | ⟨stored, absent, nowhere⟩
  · rw [same]
    exact keeps key
  · rw [stored, SortedMap.lookup_assign]
    by_cases slash : "/".toList = key
    · subst slash
      rw [if_pos rfl]
      have initially : forall other, dispatcher.routes.lookup other = none ->
          (initializeHandlers info).routes.lookup other = none := by
        intro other missing
        rcases keeps other with same | ⟨_, null, _⟩
        · exact same ▸ missing
        · rw [missing] at null
          cases null
      exact Or.inr ⟨rfl, rfl, initially _ absent, initially _ nowhere⟩
    · rw [if_neg slash]
      exact keeps key

theorem keeps_after {info : LocationInfo} {dispatcher : Dispatcher}
    (keeps : Keeps info dispatcher.routes) (earlier : List Request) :
    Keeps info (dispatcher.after earlier).routes := by
  induction earlier generalizing dispatcher with
  | nil => exact keeps
  | cons req rest inductionHypothesis => exact inductionHypothesis (keeps_getHandler keeps req)

theorem Keeps.isSome {info : LocationInfo} {routes : Routes} (keeps : Keeps info routes) {key : Text}
    (route : ((initializeHandlers info).routes.lookup key).isSome) :
    routes.lookup key = (initializeHandlers info).routes.lookup key := by
  rcases keeps key with same | ⟨_, _, absent, _⟩
  · exact same
  · rw [absent] at route
    cases route

/-- The route that matches the target, or `/` in place of one; the handler gets that route
or the empty location. -/
inductive Handles (info : LocationInfo) (target : Text) : Text -> Text -> HandlerKind -> Prop
  | route {key : Text} {kind : HandlerKind}
      (longest : LongestPrefix (initializeHandlers info).routes target key)
      (known : firstKind info.pathToHandler.entries key = some kind) : Handles info target key key kind
  | fallback {kind : HandlerKind}
      (unmatched : forall key, ((initializeHandlers info).routes.lookup key).isSome ->
        ¬ key <+: target)
      (known : firstKind info.pathToHandler.entries "/".toList = some kind) :
      Handles info target [] "/".toList kind

variable {info : LocationInfo} {dispatcher : Dispatcher} {target : Text}

/-- A factory in the table is that of its key. -/
theorem Keeps.factory {routes : Routes} (keeps : Keeps info routes) {key : Text}
    {factory : RequestHandlerFactory} (stored : routes.lookup key = some (some factory)) :
    Exists fun kind : HandlerKind =>
      firstKind info.pathToHandler.entries key = some kind ∧ factory = factoryFor info key kind := by
  rcases keeps key with same | ⟨_, null, _⟩
  · rw [same, lookup_initializeHandlers, Option.map_eq_some_iff] at stored
    rcases stored with ⟨kind, known, equal⟩
    exact ⟨kind, known, (Option.some.inj equal).symm⟩
  · rw [null] at stored
    cases stored

theorem Keeps.lookup_of_known {routes : Routes} (keeps : Keeps info routes) {key : Text}
    {kind : HandlerKind} (known : firstKind info.pathToHandler.entries key = some kind) :
    routes.lookup key = some (some (factoryFor info key kind)) := by
  have initially : (initializeHandlers info).routes.lookup key =
      some (some (factoryFor info key kind)) := by
    rw [lookup_initializeHandlers, known]
    rfl
  rw [keeps.isSome (by rw [initially]; rfl), initially]

/-- The null pointer does not take a target from a configured route. -/
theorem Keeps.longestPrefix {routes : Routes} (keeps : Keeps info routes) {key : Text}
    (longest : LongestPrefix (initializeHandlers info).routes target key) :
    LongestPrefix routes target key := by
  refine ⟨keeps.isSome longest.route ▸ longest.route, longest.isPrefix, ?_⟩
  intro other route below
  rcases keeps other with same | ⟨rfl, _, _, nowhere⟩
  · exact longest.longest other (same ▸ route) below
  · have nonempty : key ≠ [] := by
      rintro rfl
      have configured := longest.route
      rw [nowhere] at configured
      cases configured
    exact List.length_pos_iff.mpr nonempty

theorem getHandler_of_nullRoute {req : Request} {key : Text}
    (longest : LongestPrefix dispatcher.routes req.target key)
    (null : dispatcher.routes.lookup key = some none) :
    (dispatcher.getHandler req).1 = .error .undefinedBehavior := by
  rcases (splitUri_eq_iff _ _ _).mpr longest with ⟨matched, _⟩
  rw [getHandler]
  simp only [matched, null]

/-- The handlers that are built. -/
theorem getHandler_ok_iff (keeps : Keeps info dispatcher.routes) (req : Request)
    (handler : RequestHandler) :
    (dispatcher.getHandler req).1 = .ok handler <->
      Exists fun location : Text => Exists fun key : Text => Exists fun kind : HandlerKind =>
        Handles info req.target location key kind ∧
          handler = (factoryFor info key kind).create location req.target
            (req.target.drop location.length) := by
  constructor
  · intro built
    by_cases below : Exists fun key : Text =>
        (dispatcher.routes.lookup key).isSome ∧ key <+: req.target
    · rcases below with ⟨key, route, isPrefix⟩
      have longest := splitUri_isRoute route isPrefix
      generalize (splitUri dispatcher.routes req.target).1 = location at longest
      rcases Option.isSome_iff_exists.mp longest.route with ⟨pointer, stored⟩
      cases pointer with
      | none =>
          rw [getHandler_of_nullRoute longest stored] at built
          cases built
      | some factory =>
          rw [getHandler_of_longestPrefix longest stored] at built
          rcases keeps.factory stored with ⟨kind, known, rfl⟩
          refine ⟨location, location, kind, Handles.route ⟨?_, longest.isPrefix, ?_⟩ known,
            (Except.ok.inj built).symm⟩
          · rw [lookup_initializeHandlers, known]
            rfl
          · intro other configured
            exact longest.longest other (keeps.isSome configured ▸ configured)
    · have unmatched : forall key, (dispatcher.routes.lookup key).isSome -> ¬ key <+: req.target :=
        fun key route isPrefix => below ⟨key, route, isPrefix⟩
      cases fallback : (dispatcher.routes.lookup "/".toList).join with
      | none =>
          rw [getHandler_of_null unmatched fallback] at built
          cases built
      | some factory =>
          have stored := Option.join_eq_some_iff.mp fallback
          rw [getHandler_of_noPrefix unmatched stored] at built
          rcases keeps.factory stored with ⟨kind, known, rfl⟩
          refine ⟨[], "/".toList, kind, Handles.fallback ?_ known, (Except.ok.inj built).symm⟩
          intro key configured
          exact unmatched key (keeps.isSome configured ▸ configured)
  · rintro ⟨location, key, kind, handles, rfl⟩
    cases handles with
    | route longest known =>
        rw [getHandler_of_longestPrefix (keeps.longestPrefix longest) (keeps.lookup_of_known known)]
    | fallback unmatched known =>
        have stored := keeps.lookup_of_known known
        rw [getHandler_of_noPrefix _ stored]
        · rfl
        · intro key route
          rcases keeps key with same | ⟨rfl, null, _⟩
          · exact unmatched key (same ▸ route)
          · rw [null] at stored
            cases stored

/-! ## Which requests are served without indexing an empty string -/

/-- The configuration has the strings that the handler of the target indexes: a location for
the CRUD handler, which `/` in place of a route does not give, and a root for the CRUD and the
Markdown handler, where they come to the data path. -/
def HasStrings (info : LocationInfo) (req : Request) : Prop :=
  forall location key kind, Handles info req.target location key kind ->
    (kind = .crud -> location ≠ [] ∧ (CrudRequestHandler.mapsTarget req ->
      CrudRequestHandler.ReachesDataPath location req.target -> rootAt info key ≠ [])) ∧
    (kind = .markdown -> MarkdownRequestHandler.constructsPath req = true ->
      rootAt info key ≠ [])

theorem crud_indexes_iff (handler : CrudRequestHandler) (req : Request) :
    [] ∉ handler.indexes req <-> handler.location ≠ [] ∧ (CrudRequestHandler.mapsTarget req ->
      CrudRequestHandler.ReachesDataPath handler.location req.target -> handler.dataPath ≠ []) := by
  rw [CrudRequestHandler.indexes, List.mem_cons, not_or]
  refine and_congr ⟨fun other empty => other empty.symm, fun other empty => other empty.symm⟩ ?_
  by_cases both : CrudRequestHandler.mapsTarget req ∧
      CrudRequestHandler.ReachesDataPath handler.location req.target
  · rw [if_pos both, List.mem_singleton]
    exact ⟨fun other _ _ empty => other empty.symm,
      fun nonempty empty => nonempty both.1 both.2 empty.symm⟩
  · rw [if_neg both]
    exact ⟨fun _ maps reaches => absurd ⟨maps, reaches⟩ both, fun _ => List.not_mem_nil⟩

theorem markdown_indexes_iff (handler : MarkdownRequestHandler) (req : Request) :
    [] ∉ handler.indexes req <->
      (MarkdownRequestHandler.constructsPath req = true -> handler.dataPath ≠ []) := by
  rw [MarkdownRequestHandler.indexes]
  by_cases constructs : MarkdownRequestHandler.constructsPath req = true
  · rw [if_pos constructs, List.mem_singleton]
    exact ⟨fun other _ empty => other empty.symm, fun nonempty empty => nonempty constructs empty.symm⟩
  · rw [if_neg constructs]
    exact ⟨fun _ yes => absurd yes constructs, fun _ => List.not_mem_nil⟩

/-- What one factory needs. -/
theorem create_indexes_iff (info : LocationInfo) (location key fileName : Text) (kind : HandlerKind)
    (req : Request) :
    [] ∉ ((factoryFor info key kind).create location req.target fileName).indexes req <->
      (kind = .crud -> location ≠ [] ∧ (CrudRequestHandler.mapsTarget req ->
        CrudRequestHandler.ReachesDataPath location req.target -> rootAt info key ≠ [])) ∧
      (kind = .markdown -> MarkdownRequestHandler.constructsPath req = true ->
        rootAt info key ≠ []) := by
  cases kind with
  | crud =>
      refine (crud_indexes_iff ⟨location, rootAt info key⟩ req).trans ?_
      exact ⟨fun needs => ⟨fun _ => needs, fun other => (by cases other)⟩, fun needs => needs.1 rfl⟩
  | markdown =>
      refine (markdown_indexes_iff ⟨location, rootAt info key⟩ req).trans ?_
      exact ⟨fun needs => ⟨fun other => (by cases other), fun _ => needs⟩, fun needs => needs.2 rfl⟩
  | echo | static | error | health | sleep =>
      exact ⟨fun _ => ⟨fun other => (by cases other), fun other => (by cases other)⟩,
        fun _ => List.not_mem_nil⟩

/-- A handler that indexes an empty string has no meaning from there on. -/
theorem handleRequest_of_indexesEmpty {handler : RequestHandler} {req : Request}
    (empty : [] ∈ handler.indexes req) (convert : Text -> Except Fault Text) (junk : Nat -> CInt)
    (res : Response) :
    handler.handleRequest convert junk req res = .fail .undefinedBehavior := by
  cases handler with
  | crud handler => exact CrudRequestHandler.serve_of_indexesEmpty empty res
  | markdown handler => exact MarkdownRequestHandler.serve_of_indexesEmpty empty res
  | echo | static | error | health | sleep => cases empty

/-- After any requests, the handler that is built for a request finds a last character in
each string that it indexes exactly when the configuration has these strings. -/
theorem handlers_indexInRange_iff {limit : Nat} {text : Text} {info : LocationInfo}
    (extracted : extractLocation limit text = some info) (req : Request) :
    (forall dispatcher earlier handler, ofText limit text = some dispatcher ->
      ((dispatcher.after earlier).getHandler req).1 = .ok handler -> [] ∉ handler.indexes req) <->
    HasStrings info req := by
  have keeps : forall earlier, Keeps info ((initializeHandlers info).after earlier).routes :=
    fun earlier => keeps_after (fun _ => Or.inl rfl) earlier
  have built : ofText limit text = some (initializeHandlers info) := by
    rw [ofText, extracted, Option.map_some]
  constructor
  · intro inRange location key kind handles
    apply (create_indexes_iff info location key (req.target.drop location.length) kind req).mp
    exact inRange _ [] _ built
      ((getHandler_ok_iff (keeps []) req _).mpr ⟨location, key, kind, handles, rfl⟩)
  · rintro hasStrings dispatcher earlier handler same created
    obtain rfl : initializeHandlers info = dispatcher := Option.some.inj (built.symm.trans same)
    rcases (getHandler_ok_iff (keeps earlier) req handler).mp created with
      ⟨location, key, kind, handles, rfl⟩
    exact (create_indexes_iff info location key _ kind req).mpr
      (hasStrings location key kind handles)

/-- One CRUD location with its root. -/
def shoesText : Text := "location /api CRUDHandler \x7b\n  root /data;\n\x7d\n".toList

def shoesInfo : LocationInfo :=
  { LocationInfo.empty with
    pathToHandler := SortedMap.empty.assign "/api".toList "CRUDHandler".toList
    pathToRoot := SortedMap.empty.assign "/api".toList "/data".toList }

theorem extractLocation_shoesText : extractLocation 64 shoesText = some shoesInfo := by
  decide

theorem shoesText_indexInRange :
    HasStrings shoesInfo ⟨.get, "/api/shoes".toList, []⟩ ∧
      forall dispatcher earlier handler, ofText 64 shoesText = some dispatcher ->
        ((dispatcher.after earlier).getHandler ⟨.get, "/api/shoes".toList, []⟩).1 = .ok handler ->
        [] ∉ handler.indexes ⟨.get, "/api/shoes".toList, []⟩ := by
  suffices hasStrings : HasStrings shoesInfo ⟨.get, "/api/shoes".toList, []⟩ from
    ⟨hasStrings, (handlers_indexInRange_iff extractLocation_shoesText _).mpr hasStrings⟩
  intro location key kind handles
  have onlyCrud : forall key, firstKind shoesInfo.pathToHandler.entries key = some kind ->
      key = "/api".toList ∧ kind = .crud := by
    intro key known
    rcases List.exists_of_findSome?_eq_some known with ⟨entry, member, hit⟩
    obtain rfl : entry = ("/api".toList, "CRUDHandler".toList) := List.mem_singleton.mp member
    split at hit
    · rename_i trimmed
      exact ⟨trimmed.symm, (Option.some.inj hit).symm⟩
    · cases hit
  cases handles with
  | route longest known =>
      rcases onlyCrud _ known with ⟨rfl, rfl⟩
      exact ⟨fun _ => ⟨by decide, fun _ _ => by decide⟩, fun other => (by cases other)⟩
  | fallback unmatched known => exact absurd (onlyCrud _ known).1 (by decide)

/-- The location without its root. -/
def rootlessText : Text := "location /api CRUDHandler \x7b\n\x7d\n".toList

/-- The parser accepts it, and the handler of a target below the location indexes the root
that it does not have. -/
theorem rootlessText_indexesEmpty :
    (parse rootlessText).toOption.map Prod.fst = some true ∧
      Exists fun dispatcher : Dispatcher => Exists fun handler : RequestHandler =>
        ofText 64 rootlessText = some dispatcher ∧
        (dispatcher.getHandler ⟨.get, "/api/shoes".toList, []⟩).1 = .ok handler ∧
        [] ∈ handler.indexes ⟨.get, "/api/shoes".toList, []⟩ ∧
        forall convert junk res, handler.handleRequest convert junk
          ⟨.get, "/api/shoes".toList, []⟩ res = .fail .undefinedBehavior := by
  refine ⟨by decide, initializeHandlers { LocationInfo.empty with
    pathToHandler := SortedMap.empty.assign "/api".toList "CRUDHandler".toList },
    .crud ⟨"/api".toList, []⟩, ?_, by decide, by decide, ?_⟩
  · have extracted : extractLocation 64 rootlessText = some { LocationInfo.empty with
        pathToHandler := SortedMap.empty.assign "/api".toList "CRUDHandler".toList } := by
      decide
    rw [ofText, extracted, Option.map_some]
  · intro convert junk res
    exact handleRequest_of_indexesEmpty (by decide) convert junk res

end Dispatcher
end Routing
end Webserver
