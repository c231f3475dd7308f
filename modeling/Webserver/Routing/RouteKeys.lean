import Webserver.Routing.Lookup

namespace Webserver
namespace Routing

open Config Handlers

/-!
# The keys of the route table

Several configured paths may come to the same route, since their trailing slashes are
taken off.  The route then has the handler of the least of them, in the order of the
map, among those with a known handler.  A path with an unknown handler neither gets a
route nor keeps a later path from getting one.
-/

/-- The path without its trailing slashes, of which `/` keeps one. -/
structure SlashTrimmed (path key : Text) : Prop where
  slashes : Exists fun count : Nat => path = key ++ List.replicate count '/'
  nonempty : key ≠ []
  trimmed : key = "/".toList ∨ key.getLast? ≠ some '/'

namespace Dispatcher

/-! ## `trim_slashes` -/

/-- Slashes are taken off the front, and what is left is a single character or begins with
another one. -/
theorem trimReversed_spec (reversed : Text) :
    (Exists fun count : Nat =>
      reversed = List.replicate count '/' ++ trimReversed reversed) ∧
    ((trimReversed reversed).length ≤ 1 ∨ (trimReversed reversed).head? ≠ some '/') ∧
    (reversed ≠ [] -> trimReversed reversed ≠ []) := by
  fun_induction trimReversed reversed with
  | case1 => exact ⟨⟨0, rfl⟩, Or.inl (Nat.zero_le _), id⟩
  | case2 c => exact ⟨⟨0, rfl⟩, Or.inl (Nat.le_refl _), id⟩
  | case3 next rest inductionHypothesis =>
      rcases inductionHypothesis with ⟨⟨count, shorter⟩, stops, nonempty⟩
      refine ⟨⟨count + 1, ?_⟩, stops, fun _ => nonempty (List.cons_ne_nil _ _)⟩
      rw [List.replicate_succ, List.cons_append, ← shorter]
  | case4 last next rest notSlash =>
      exact ⟨⟨0, rfl⟩, Or.inr (fun same => notSlash (Option.some.inj same)), id⟩

theorem trimReversed_replicate (count : Nat) {kept : Text} (nonempty : kept ≠ [])
    (stops : kept = "/".toList ∨ kept.head? ≠ some '/') :
    trimReversed (List.replicate count '/' ++ kept) = kept := by
  induction count with
  | zero =>
      rcases stops with rfl | notSlash
      · rfl
      · match kept with
        | [c] => rfl
        | last :: next :: rest =>
            rw [List.replicate_zero, List.nil_append, trimReversed,
              if_neg (fun same => notSlash (congrArg some same))]
  | succ count inductionHypothesis =>
      rcases List.exists_cons_of_ne_nil (List.append_ne_nil_of_right_ne_nil
          (List.replicate count '/') nonempty) with ⟨next, rest, behind⟩
      rw [List.replicate_succ, List.cons_append, behind, trimReversed, if_pos rfl, ← behind]
      exact inductionHypothesis

/-- On a path that begins with a slash, `trim_slashes` gives the trimmed path. -/
theorem trimSlashes_eq_iff {path : Text} (rooted : path.head? = some '/') (key : Text) :
    trimSlashes path = key <-> SlashTrimmed path key := by
  constructor
  · rintro rfl
    rcases trimReversed_spec path.reverse with ⟨⟨count, split⟩, stops, nonempty⟩
    have pathIs : path = trimSlashes path ++ List.replicate count '/' := by
      rw [trimSlashes, ← List.reverse_replicate, ← List.reverse_append, ← split,
        List.reverse_reverse]
    have filled : trimSlashes path ≠ [] := by
      rw [trimSlashes, Ne, List.reverse_eq_nil_iff]
      apply nonempty
      rw [Ne, List.reverse_eq_nil_iff]
      rintro rfl
      cases rooted
    refine ⟨⟨count, pathIs⟩, filled, ?_⟩
    rcases stops with short | notSlash
    · left
      rcases List.exists_cons_of_ne_nil filled with ⟨first, rest, trimmedIs⟩
      have single : rest = [] := by
        rw [← List.length_reverse] at short
        change (trimSlashes path).length ≤ 1 at short
        rw [trimmedIs, List.length_cons] at short
        exact List.eq_nil_of_length_eq_zero (by omega)
      rw [pathIs, trimmedIs, List.cons_append, List.head?_cons] at rooted
      rw [trimmedIs, single, Option.some.inj rooted]
      rfl
    · right
      rw [trimSlashes, List.getLast?_reverse]
      exact notSlash
  · rintro ⟨⟨count, rfl⟩, nonempty, trimmed⟩
    rw [trimSlashes, List.reverse_append, List.reverse_replicate, trimReversed_replicate,
      List.reverse_reverse]
    · rwa [Ne, List.reverse_eq_nil_iff]
    · rcases trimmed with rfl | notSlash
      · exact Or.inl rfl
      · right
        rwa [List.head?_reverse]

/-! ## The least path of a key -/

/-- The least path with a known handler that trims to the key, and its kind. -/
structure LeastPath (info : LocationInfo) (path key : Text) (kind : HandlerKind) : Prop where
  handler : Exists fun handler : Text =>
    info.pathToHandler.lookup path = some handler ∧ kindOf handler = some kind
  trims : SlashTrimmed path key
  least : forall other handler, info.pathToHandler.lookup other = some handler ->
    (kindOf handler).isSome -> SlashTrimmed other key -> path ≤ other

section Rooted

variable {info : LocationInfo}
  (rooted : forall path handler, info.pathToHandler.lookup path = some handler ->
    path.head? = some '/')

include rooted

theorem isSome_lookup_iff (key : Text) :
    ((initializeHandlers info).routes.lookup key).isSome <->
      Exists fun path : Text => Exists fun handler : Text =>
        info.pathToHandler.lookup path = some handler ∧ (kindOf handler).isSome ∧
          SlashTrimmed path key := by
  rw [isSome_lookup_initializeHandlers]
  constructor
  · rintro ⟨path, handler, configured, known, trims⟩
    exact ⟨path, handler, configured, known,
      (trimSlashes_eq_iff (rooted path handler configured) key).mp trims⟩
  · rintro ⟨path, handler, configured, known, trims⟩
    exact ⟨path, handler, configured, known,
      (trimSlashes_eq_iff (rooted path handler configured) key).mpr trims⟩

/-- The factory of a key is of the kind that the least path names. -/
theorem kind_of_leastPath {path key : Text} {kind : HandlerKind}
    (isLeast : LeastPath info path key kind) :
    Exists fun factory : RequestHandlerFactory =>
      (initializeHandlers info).routes.lookup key = some (some factory) ∧ factory.kind = kind := by
  rcases isLeast with ⟨⟨handler, configured, known⟩, trims, least⟩
  obtain rfl := (trimSlashes_eq_iff (rooted path handler configured) key).mpr trims
  have registered : Registered info path kind := by
    refine ⟨⟨handler, configured, known⟩, fun other name isOther before same => ?_⟩
    rw [← Option.not_isSome_iff_eq_none]
    intro isKnown
    have otherTrims := (trimSlashes_eq_iff (rooted other name isOther) _).mp same
    exact absurd before (not_lt_of_ge (least other name isOther isKnown otherTrims))
  refine ⟨factoryFor info (trimSlashes path) kind, ?_, rfl⟩
  rw [lookup_initializeHandlers, firstKind_of_registered registered, Option.map_some]

/-- Every key has a least path. -/
theorem exists_leastPath {key : Text}
    (route : ((initializeHandlers info).routes.lookup key).isSome) :
    Exists fun path : Text => Exists fun kind : HandlerKind => LeastPath info path key kind := by
  rw [lookup_initializeHandlers, Option.isSome_map] at route
  rcases Option.isSome_iff_exists.mp route with ⟨kind, hit⟩
  rcases SortedMap.least_of_findSome info.pathToHandler.sorted hit with
    ⟨⟨path, handler⟩, member, named, least⟩
  have configured := (info.pathToHandler.mem_entries_iff path handler).mp member
  simp only at named
  split at named
  · rename_i trims
    refine ⟨path, kind, ⟨handler, configured, named⟩,
      (trimSlashes_eq_iff (rooted path handler configured) key).mp trims, ?_⟩
    intro other name isOther isKnown otherTrims
    apply least (other, name) ((info.pathToHandler.mem_entries_iff other name).mpr isOther)
    rw [if_pos ((trimSlashes_eq_iff (rooted other name isOther) key).mpr otherTrims)]
    exact isKnown
  · cases named

/-- The keys of the table are the trimmed forms of the paths with a known handler.
None but `/` ends in a slash, and each has a factory of the kind that the least path
with a known handler names, whatever else is configured. -/
theorem routeTable_exact :
    (forall key, ((initializeHandlers info).routes.lookup key).isSome <->
      Exists fun path : Text => Exists fun handler : Text =>
        info.pathToHandler.lookup path = some handler ∧ (kindOf handler).isSome ∧
          SlashTrimmed path key) ∧
    (forall key, ((initializeHandlers info).routes.lookup key).isSome -> 1 < key.length ->
      key.getLast? ≠ some '/') ∧
    forall key, ((initializeHandlers info).routes.lookup key).isSome ->
      Exists fun path : Text => Exists fun kind : HandlerKind =>
        Exists fun factory : RequestHandlerFactory =>
          LeastPath info path key kind ∧
            (initializeHandlers info).routes.lookup key = some (some factory) ∧
            factory.kind = kind := by
  refine ⟨isSome_lookup_iff rooted, fun key route long => ?_, fun key route => ?_⟩
  · rcases (isSome_lookup_iff rooted key).mp route with ⟨_, _, _, _, trims⟩
    rcases trims.trimmed with rfl | notSlash
    · exact absurd long (by decide)
    · exact notSlash
  · rcases exists_leastPath rooted route with ⟨path, kind, isLeast⟩
    rcases kind_of_leastPath rooted isLeast with ⟨factory, stored, named⟩
    exact ⟨path, kind, factory, isLeast, stored, named⟩

end Rooted

/-- Three spellings of one path, the first of them with an unknown handler. -/
def spellings : LocationInfo :=
  { LocationInfo.empty with
    pathToHandler := ((SortedMap.empty.assign "/a".toList "NoHandler".toList).assign
      "/a/".toList "EchoHandler".toList).assign "/a//".toList "ErrorHandler".toList }

theorem spellings_rooted : forall path handler,
    spellings.pathToHandler.lookup path = some handler -> path.head? = some '/' := by
  intro path handler configured
  have member := (spellings.pathToHandler.mem_entries_iff path handler).mpr configured
  have all : forall entry, entry ∈ spellings.pathToHandler.entries ->
      entry.1.head? = some '/' := by decide
  exact all _ member

/-- They come to one route, which has the handler of the second spelling. -/
example : (initializeHandlers spellings).routes.lookup "/a".toList =
    some (some ⟨.echo, []⟩) := by decide

theorem spellings_exact :
    Exists fun path : Text => Exists fun kind : HandlerKind =>
      Exists fun factory : RequestHandlerFactory =>
        LeastPath spellings path "/a".toList kind ∧
          (initializeHandlers spellings).routes.lookup "/a".toList = some (some factory) ∧
          factory.kind = kind :=
  (routeTable_exact spellings_rooted).2.2 "/a".toList (by decide)

end Dispatcher
end Routing
end Webserver
