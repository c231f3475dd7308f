import Webserver.Config.Parser
import Webserver.Config.ExtractLocation
import Webserver.Routing.Roots

namespace Webserver
namespace Routing

open Config Http

/-!
# What `get_handler` finds

The search over the routes ends with the longest route that is a prefix of the
target, character by character.  Nothing asks where a segment ends, so a route
also serves targets in which it is followed by more of a name.

When no route is a prefix of the target, the factory is taken from
`routes["/"]`.  Without such a route this stores a null pointer and calls
`create` through it.
-/

namespace Dispatcher

/-! ## The longest prefix -/

/-- The longest route that is a prefix of the target. -/
structure LongestPrefix (routes : Routes) (target key : Text) : Prop where
  route : (routes.lookup key).isSome
  isPrefix : key <+: target
  longest : forall other, (routes.lookup other).isSome -> other <+: target ->
    other.length ≤ key.length

theorem matchStep_cases (uri matchedPath key : Text) :
    (matchStep uri matchedPath key = key ∧ key <+: uri ∧ matchedPath.length < key.length) ∨
      (matchStep uri matchedPath key = matchedPath ∧
        (key <+: uri -> key.length ≤ matchedPath.length)) := by
  rw [matchStep]
  split
  · rename_i taken
    exact Or.inl ⟨taken.1, List.prefix_iff_eq_take.mpr taken.1.symm, taken.2⟩
  · rename_i kept
    refine Or.inr ⟨rfl, ?_⟩
    intro isPrefix
    by_contra longer
    exact kept ⟨(List.prefix_iff_eq_take.mp isPrefix).symm, Nat.lt_of_not_le longer⟩

/-- The search keeps a prefix of the target that is as long as every key among
the prefixes. -/
theorem foldl_matchStep (uri : Text) (keys : List Text) (start : Text) :
    (keys.foldl (matchStep uri) start = start ∨
      keys.foldl (matchStep uri) start ∈ keys ∧ keys.foldl (matchStep uri) start <+: uri) ∧
    start.length ≤ (keys.foldl (matchStep uri) start).length ∧
    forall key, key ∈ keys -> key <+: uri ->
      key.length ≤ (keys.foldl (matchStep uri) start).length := by
  induction keys generalizing start with
  | nil => exact ⟨Or.inl rfl, Nat.le_refl _, fun _ absent => absurd absent List.not_mem_nil⟩
  | cons key rest inductionHypothesis =>
      rw [List.foldl_cons]
      rcases inductionHypothesis (matchStep uri start key) with ⟨origin, grows, covers⟩
      rcases matchStep_cases uri start key with ⟨taken, isPrefix, longer⟩ | ⟨kept, shorter⟩
      · rw [taken] at origin grows covers ⊢
        refine ⟨Or.inr ?_, Nat.le_trans (Nat.le_of_lt longer) grows, ?_⟩
        · rcases origin with same | ⟨member, below⟩
          · rw [same]
            exact ⟨List.mem_cons_self, isPrefix⟩
          · exact ⟨List.mem_cons_of_mem key member, below⟩
        · intro other member below
          rcases List.mem_cons.mp member with same | later
          · rw [same]
            exact grows
          · exact covers other later below
      · rw [kept] at origin grows covers ⊢
        refine ⟨?_, grows, ?_⟩
        · rcases origin with same | ⟨member, below⟩
          · exact Or.inl same
          · exact Or.inr ⟨List.mem_cons_of_mem key member, below⟩
        · intro other member below
          rcases List.mem_cons.mp member with same | later
          · rw [same] at below ⊢
            exact Nat.le_trans (shorter below) grows
          · exact covers other later below

theorem mem_keys_iff (routes : Routes) (key : Text) :
    key ∈ routes.entries.map Prod.fst <-> (routes.lookup key).isSome := by
  rw [Option.isSome_iff_exists, List.mem_map]
  constructor
  · rintro ⟨⟨_, factory⟩, member, rfl⟩
    exact ⟨factory, (routes.mem_entries_iff _ factory).mp member⟩
  · rintro ⟨factory, stored⟩
    exact ⟨(key, factory), (routes.mem_entries_iff key factory).mpr stored, rfl⟩

/-- The matched path is empty or a route that is a prefix, and no route that is a
prefix is longer. -/
theorem splitUri_matched (routes : Routes) (target : Text) :
    ((splitUri routes target).1 = [] ∨
      (routes.lookup (splitUri routes target).1).isSome ∧ (splitUri routes target).1 <+: target) ∧
    forall other, (routes.lookup other).isSome -> other <+: target ->
      other.length ≤ (splitUri routes target).1.length := by
  rcases foldl_matchStep target (routes.entries.map Prod.fst) [] with ⟨origin, _, covers⟩
  constructor
  · rcases origin with nothing | ⟨member, below⟩
    · exact Or.inl nothing
    · exact Or.inr ⟨(mem_keys_iff routes _).mp member, below⟩
  · intro other route below
    exact covers other ((mem_keys_iff routes other).mpr route) below

/-- `split_uri` finds a route exactly when it is the longest prefix. -/
theorem splitUri_eq_iff (routes : Routes) (target key : Text) :
    (splitUri routes target).1 = key ∧ (routes.lookup key).isSome <->
      LongestPrefix routes target key := by
  rcases splitUri_matched routes target with ⟨origin, covers⟩
  constructor
  · rintro ⟨rfl, stored⟩
    refine ⟨stored, ?_, covers⟩
    rcases origin with nothing | ⟨_, below⟩
    · rw [nothing]
      exact List.nil_prefix
    · exact below
  · intro longest
    have long := covers key longest.route longest.isPrefix
    refine ⟨?_, longest.route⟩
    rcases origin with nothing | ⟨route, below⟩
    · rw [nothing] at long ⊢
      exact (List.eq_nil_of_length_eq_zero (Nat.le_zero.mp long)).symm
    · have short := longest.longest _ route below
      exact (List.prefix_of_prefix_length_le below longest.isPrefix short).eq_of_length
        (Nat.le_antisymm short long)

/-- The matched path is a route as soon as some route is a prefix. -/
theorem splitUri_isRoute {routes : Routes} {target key : Text} (route : (routes.lookup key).isSome)
    (below : key <+: target) : LongestPrefix routes target (splitUri routes target).1 := by
  rcases splitUri_matched routes target with ⟨nothing | matched, covers⟩
  · have short := covers key route below
    have empty : key = [] := by
      rw [nothing] at short
      exact List.eq_nil_of_length_eq_zero (Nat.le_zero.mp short)
    rw [nothing]
    exact ⟨empty ▸ route, List.nil_prefix, nothing ▸ covers⟩
  · exact ⟨matched.1, matched.2, covers⟩

/-- The matched path and the rest give the target. -/
theorem splitUri_append (routes : Routes) (target : Text) :
    (splitUri routes target).1 ++ (splitUri routes target).2 = target := by
  have below : (splitUri routes target).1 <+: target := by
    rcases (splitUri_matched routes target).1 with nothing | ⟨_, below⟩
    · rw [nothing]
      exact List.nil_prefix
    · exact below
  exact (List.prefix_append_drop below).symm

/-- Without a route that is a prefix nothing is matched. -/
theorem splitUri_of_noPrefix {routes : Routes} {target : Text}
    (unmatched : forall key, (routes.lookup key).isSome -> ¬ key <+: target) :
    splitUri routes target = ([], target) := by
  have nothing : (splitUri routes target).1 = [] := by
    rcases (splitUri_matched routes target).1 with nothing | ⟨route, below⟩
    · exact nothing
    · exact absurd below (unmatched _ route)
  have whole := splitUri_append routes target
  rw [nothing, List.nil_append] at whole
  exact Prod.ext nothing whole

/-! ## The handler of a request -/

/-- `get_handler` finds a route for the request and takes its factory. -/
def Selects (dispatcher : Dispatcher) (req : Request) (key : Text) : Prop :=
  (splitUri dispatcher.routes req.target).1 = key ∧ (dispatcher.routes.lookup key).isSome

instance (dispatcher : Dispatcher) (req : Request) (key : Text) :
    Decidable (dispatcher.Selects req key) := inferInstanceAs (Decidable (_ ∧ _))

theorem getHandler_of_longestPrefix {dispatcher : Dispatcher} {req : Request} {key : Text}
    {factory : RequestHandlerFactory} (longest : LongestPrefix dispatcher.routes req.target key)
    (stored : dispatcher.routes.lookup key = some (some factory)) :
    dispatcher.getHandler req =
      (.ok (factory.create key req.target (req.target.drop key.length)), dispatcher) := by
  rcases (splitUri_eq_iff _ _ _).mpr longest with ⟨matched, _⟩
  have rest : (splitUri dispatcher.routes req.target).2 = req.target.drop key.length := by
    rw [← matched]
    rfl
  rw [getHandler]
  simp only [matched, rest, stored]

theorem getHandler_of_noPrefix {dispatcher : Dispatcher} {req : Request}
    {factory : RequestHandlerFactory}
    (unmatched : forall key, (dispatcher.routes.lookup key).isSome -> ¬ key <+: req.target)
    (stored : dispatcher.routes.lookup "/".toList = some (some factory)) :
    dispatcher.getHandler req = (.ok (factory.create [] req.target req.target), dispatcher) := by
  have absent : dispatcher.routes.lookup [] = none := by
    rw [← Option.not_isSome_iff_eq_none]
    intro route
    exact unmatched [] route List.nil_prefix
  rw [getHandler, splitUri_of_noPrefix unmatched]
  simp only [absent, SortedMap.subscript, stored]

/-- Without a factory for `/` a null pointer is called. -/
theorem getHandler_of_null {dispatcher : Dispatcher} {req : Request}
    (unmatched : forall key, (dispatcher.routes.lookup key).isSome -> ¬ key <+: req.target)
    (null : (dispatcher.routes.lookup "/".toList).join = none) :
    (dispatcher.getHandler req).1 = .error .undefinedBehavior := by
  have absent : dispatcher.routes.lookup (splitUri dispatcher.routes req.target).1 = none := by
    rw [← Option.not_isSome_iff_eq_none]
    intro route
    exact unmatched _ route ((splitUri_eq_iff _ _ _).mp ⟨rfl, route⟩).isPrefix
  rw [getHandler]
  cases stored : dispatcher.routes.lookup "/".toList with
  | none => simp only [absent, SortedMap.subscript, stored]
  | some pointer =>
      rw [stored] at null
      obtain rfl : pointer = none := null
      simp only [absent, SortedMap.subscript, stored]

/-- The route that `get_handler` selects is the longest prefix of the target; its
factory gets that route and the rest of the target.  A target without such a
route goes to the factory of `/`, with an empty location. -/
theorem getHandler_longestPrefix (dispatcher : Dispatcher) (req : Request) :
    (forall key, dispatcher.Selects req key <-> LongestPrefix dispatcher.routes req.target key) ∧
    (forall key factory, dispatcher.Selects req key ->
      dispatcher.routes.lookup key = some (some factory) -> dispatcher.getHandler req =
        (.ok (factory.create key req.target (req.target.drop key.length)), dispatcher)) ∧
    (forall factory, (forall key, ¬ dispatcher.Selects req key) ->
      dispatcher.routes.lookup "/".toList = some (some factory) -> dispatcher.getHandler req =
        (.ok (factory.create [] req.target req.target), dispatcher)) := by
  refine ⟨fun key => splitUri_eq_iff _ _ key, ?_, ?_⟩
  · intro key factory selected stored
    exact getHandler_of_longestPrefix ((splitUri_eq_iff _ _ key).mp selected) stored
  · intro factory unselected stored
    apply getHandler_of_noPrefix _ stored
    intro key route below
    exact unselected _ ((splitUri_eq_iff _ _ _).mpr (splitUri_isRoute route below))

/-- `pointer->create(location, url, file_name)`. -/
def createThrough (pointer : Option RequestHandlerFactory) (location url fileName : Text) :
    Except Fault RequestHandler :=
  match pointer with
  | none => .error .undefinedBehavior
  | some factory => .ok (factory.create location url fileName)

/-- `split_uri` finds the longest route that is a prefix of the target and leaves
the rest, and `get_handler` takes the factory of exactly that route.  The factory of
`/` is taken only where no route is a prefix. -/
theorem getHandler_longestKey (dispatcher : Dispatcher) (req : Request) :
    (splitUri dispatcher.routes req.target).1 ++ (splitUri dispatcher.routes req.target).2 =
        req.target ∧
      ((Exists fun key : Text => Exists fun pointer : Option RequestHandlerFactory =>
          LongestPrefix dispatcher.routes req.target key ∧
            dispatcher.routes.lookup key = some pointer ∧
            (splitUri dispatcher.routes req.target).1 = key ∧
            dispatcher.getHandler req =
              (createThrough pointer key req.target (splitUri dispatcher.routes req.target).2,
                dispatcher)) ∨
        (forall key, (dispatcher.routes.lookup key).isSome -> ¬ key <+: req.target) ∧
          (splitUri dispatcher.routes req.target).1 = [] ∧
          (dispatcher.getHandler req).1 =
            createThrough (dispatcher.routes.lookup "/".toList).join [] req.target req.target) := by
  refine ⟨splitUri_append _ _, ?_⟩
  by_cases below : Exists fun key : Text =>
      (dispatcher.routes.lookup key).isSome ∧ key <+: req.target
  · left
    rcases below with ⟨key, route, isPrefix⟩
    have longest := splitUri_isRoute route isPrefix
    rcases Option.isSome_iff_exists.mp longest.route with ⟨pointer, stored⟩
    refine ⟨_, pointer, longest, stored, rfl, ?_⟩
    rw [getHandler]
    simp only [stored]
    cases pointer <;> rfl
  · right
    have unmatched : forall key, (dispatcher.routes.lookup key).isSome -> ¬ key <+: req.target :=
      fun key route isPrefix => below ⟨key, route, isPrefix⟩
    have nothing := splitUri_of_noPrefix unmatched
    refine ⟨unmatched, by rw [nothing], ?_⟩
    cases pointer : (dispatcher.routes.lookup "/".toList).join with
    | none => exact getHandler_of_null unmatched pointer
    | some factory =>
        rw [getHandler_of_noPrefix unmatched (Option.join_eq_some_iff.mp pointer)]
        rfl
/-- The target ends with the route or goes on with a new segment or a query. -/
def WholeSegments (key target : Text) : Prop :=
  target = key ∨ key ++ ['/'] <+: target ∨ key ++ ['?'] <+: target

instance (key target : Text) : Decidable (WholeSegments key target) :=
  inferInstanceAs (Decidable (_ ∨ _ ∨ _))

/-- One static location. -/
def oneStatic : LocationInfo :=
  { LocationInfo.empty with
    pathToHandler := SortedMap.empty.assign "/static1".toList "StaticHandler".toList }

/-- The route `/static1` serves `/static12/x`, which is below another name. -/
theorem oneStatic_insideSegment :
    (initializeHandlers oneStatic).Selects ⟨.get, "/static12/x".toList, []⟩ "/static1".toList ∧
      "/static1".toList ≠ "/".toList ∧
      ¬ WholeSegments "/static1".toList "/static12/x".toList := by
  decide

/-! ## Requests one after another -/

/-- The dispatcher that is initialised from a configuration text. -/
def ofText (limit : Nat) (text : Text) : Option Dispatcher :=
  (extractLocation limit text).map initializeHandlers

/-- `get_handler` for one request after another, with the dispatcher after each
call. -/
def getHandlers (dispatcher : Dispatcher) :
    List Request -> List (Except Fault RequestHandler × Dispatcher)
  | [] => []
  | req :: rest => dispatcher.getHandler req :: getHandlers (dispatcher.getHandler req).2 rest

/-- Each call creates a handler and leaves the routes as they are. -/
def AlwaysYields (dispatcher : Dispatcher) (reqs : List Request) : Prop :=
  forall called, called ∈ dispatcher.getHandlers reqs ->
    called.1.isOk = true ∧ called.2.routes = dispatcher.routes

/-- A location with a known handler is for `/` or, without its trailing slashes, a
prefix of the target. -/
def Routed (info : LocationInfo) (target : Text) : Prop :=
  Exists fun path : Text => Exists fun handler : Text =>
    info.pathToHandler.lookup path = some handler ∧ (kindOf handler).isSome ∧
      (trimSlashes path = "/".toList ∨ trimSlashes path <+: target)

theorem isSome_lookup_initializeHandlers (info : LocationInfo) (key : Text) :
    ((initializeHandlers info).routes.lookup key).isSome <->
      Exists fun path : Text => Exists fun handler : Text =>
        info.pathToHandler.lookup path = some handler ∧ (kindOf handler).isSome ∧
          trimSlashes path = key := by
  rw [lookup_initializeHandlers, Option.isSome_map, firstKind, List.findSome?_isSome_iff]
  constructor
  · rintro ⟨⟨path, handler⟩, member, known⟩
    by_cases same : trimSlashes path = key
    · rw [if_pos same] at known
      exact ⟨path, handler, (info.pathToHandler.mem_entries_iff path handler).mp member, known, same⟩
    · rw [if_neg same] at known
      cases known
  · rintro ⟨path, handler, configured, known, same⟩
    refine ⟨(path, handler), (info.pathToHandler.mem_entries_iff path handler).mpr configured, ?_⟩
    rw [if_pos same]
    exact known

/-- No route of the table is null. -/
theorem exists_factory {info : LocationInfo} {key : Text}
    (route : ((initializeHandlers info).routes.lookup key).isSome) :
    Exists fun factory : RequestHandlerFactory =>
      (initializeHandlers info).routes.lookup key = some (some factory) := by
  rw [lookup_initializeHandlers] at route ⊢
  rw [Option.isSome_map] at route
  rcases Option.isSome_iff_exists.mp route with ⟨kind, known⟩
  exact ⟨factoryFor info key kind, by rw [known, Option.map_some]⟩

/-- A call on a dispatcher with the configured routes succeeds exactly on a routed
target, and then changes nothing. -/
theorem getHandler_yields_iff {info : LocationInfo} {dispatcher : Dispatcher}
    (same : dispatcher.routes = (initializeHandlers info).routes) (req : Request) :
    ((dispatcher.getHandler req).1.isOk = true <-> Routed info req.target) ∧
      (Routed info req.target -> (dispatcher.getHandler req).2 = dispatcher) := by
  by_cases below : Exists fun key : Text =>
      (dispatcher.routes.lookup key).isSome ∧ key <+: req.target
  · rcases below with ⟨key, route, isPrefix⟩
    have longest := splitUri_isRoute route isPrefix
    have stored := exists_factory (same ▸ longest.route)
    rw [← same] at stored
    rcases stored with ⟨factory, stored⟩
    rw [getHandler_of_longestPrefix longest stored]
    rw [same, isSome_lookup_initializeHandlers] at route
    rcases route with ⟨path, handler, configured, known, rfl⟩
    exact ⟨⟨fun _ => ⟨path, handler, configured, known, Or.inr isPrefix⟩, fun _ => rfl⟩,
      fun _ => rfl⟩
  · have unmatched : forall key, (dispatcher.routes.lookup key).isSome -> ¬ key <+: req.target :=
      fun key route isPrefix => below ⟨key, route, isPrefix⟩
    by_cases fallback : (dispatcher.routes.lookup "/".toList).isSome
    · have stored := exists_factory (same ▸ fallback)
      rw [← same] at stored
      rcases stored with ⟨factory, stored⟩
      rw [getHandler_of_noPrefix unmatched stored]
      rw [same, isSome_lookup_initializeHandlers] at fallback
      rcases fallback with ⟨path, handler, configured, known, trimmed⟩
      exact ⟨⟨fun _ => ⟨path, handler, configured, known, Or.inl trimmed⟩, fun _ => rfl⟩,
        fun _ => rfl⟩
    · have notRouted : ¬ Routed info req.target := by
        rintro ⟨path, handler, configured, known, trimmed | isPrefix⟩
        · apply fallback
          rw [same, isSome_lookup_initializeHandlers]
          exact ⟨path, handler, configured, known, trimmed⟩
        · apply unmatched _ _ isPrefix
          rw [same, isSome_lookup_initializeHandlers]
          exact ⟨path, handler, configured, known, rfl⟩
      have null : (dispatcher.routes.lookup "/".toList).join = none := by
        rw [Option.not_isSome_iff_eq_none.mp fallback]
        rfl
      rw [getHandler_of_null unmatched null]
      exact ⟨⟨fun impossible => (by cases impossible), fun routed => absurd routed notRouted⟩,
        fun routed => absurd routed notRouted⟩

theorem alwaysYields_iff {info : LocationInfo} {dispatcher : Dispatcher}
    (same : dispatcher.routes = (initializeHandlers info).routes) (reqs : List Request) :
    dispatcher.AlwaysYields reqs <-> forall req, req ∈ reqs -> Routed info req.target := by
  induction reqs with
  | nil => simp [AlwaysYields, getHandlers]
  | cons req rest inductionHypothesis =>
      rcases getHandler_yields_iff same req with ⟨succeeds, unchanged⟩
      rw [AlwaysYields, getHandlers]
      simp only [List.forall_mem_cons]
      constructor
      · rintro ⟨⟨created, _⟩, later⟩
        have routed := succeeds.mp created
        rw [unchanged routed] at later
        exact ⟨routed, inductionHypothesis.mp later⟩
      · rintro ⟨routed, others⟩
        rw [unchanged routed]
        exact ⟨⟨succeeds.mpr routed, rfl⟩, inductionHypothesis.mpr others⟩

/-- A dispatcher yields a handler for every request of a sequence, and keeps its
routes, exactly when each of them is routed by its configuration. -/
theorem getHandlers_yield_iff {limit : Nat} {text : Text} {info : LocationInfo}
    (extracted : extractLocation limit text = some info) (reqs : List Request) :
    (Exists fun dispatcher : Dispatcher =>
      ofText limit text = some dispatcher ∧ dispatcher.AlwaysYields reqs) <->
    forall req, req ∈ reqs -> Routed info req.target := by
  rw [← alwaysYields_iff rfl reqs, ofText, extracted, Option.map_some]
  constructor
  · rintro ⟨dispatcher, built, yields⟩
    rw [Option.some.inj built]
    exact yields
  · intro yields
    exact ⟨initializeHandlers info, rfl, yields⟩

/-- A configuration with one location, which is not `/`. -/
def echoText : Text := "location /echo/ EchoHandler \x7b\n\x7d\n".toList

def echoInfo : LocationInfo :=
  { LocationInfo.empty with
    pathToHandler := SortedMap.empty.assign "/echo/".toList "EchoHandler".toList }

theorem extractLocation_echoText : extractLocation 64 echoText = some echoInfo := by
  decide

theorem echoText_yields :
    (Exists fun dispatcher : Dispatcher => ofText 64 echoText = some dispatcher ∧
      dispatcher.AlwaysYields [⟨.get, "/echo".toList, []⟩, ⟨.post, "/echo/x".toList, []⟩]) := by
  apply (getHandlers_yield_iff extractLocation_echoText _).mpr
  intro req member
  refine ⟨"/echo/".toList, "EchoHandler".toList, by decide, by decide, Or.inr ?_⟩
  rcases List.mem_cons.mp member with rfl | last
  · decide
  · rw [List.mem_singleton.mp last]
    decide

/-- The parser accepts it, and a target outside the location finds a null
factory. -/
theorem echoText_null :
    (parse echoText).toOption.map Prod.fst = some true ∧
    (Exists fun dispatcher : Dispatcher => ofText 64 echoText = some dispatcher ∧
      ¬ dispatcher.AlwaysYields [⟨.get, "/other".toList, []⟩]) := by
  refine ⟨by decide, initializeHandlers echoInfo, ?_, ?_⟩
  · rw [ofText, extractLocation_echoText, Option.map_some]
  · intro yields
    exact absurd (yields _ List.mem_cons_self).1 (by decide)

end Dispatcher
end Routing
end Webserver
