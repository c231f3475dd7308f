import Mathlib.Order.Defs.LinearOrder
import Mathlib.Data.List.Sort

namespace Webserver

/-!
# Finite maps in key order

The model of `std::map`.  A map is the list of its entries in strictly
increasing key order, with that order as a field: iteration visits `entries`
from left to right, and two maps with the same lookups are equal.

`assign` is `map[key] = value`, and `subscript` is a bare `map[key]`, which
stores a default value under an absent key before returning it.
-/

/-- Entries in strictly increasing key order. -/
structure SortedMap (K V : Type) [LinearOrder K] where
  entries : List (K × V)
  sorted : entries.Pairwise (fun first second => first.1 < second.1)

namespace SortedMap

variable {K V : Type} [LinearOrder K]

instance [DecidableEq V] : DecidableEq (SortedMap K V) := fun first second =>
  decidable_of_iff (first.entries = second.entries)
    ⟨fun same => by cases first; cases second; cases same; rfl, fun same => same ▸ rfl⟩

def empty : SortedMap K V := ⟨[], List.Pairwise.nil⟩

/-- The value stored for a key in a list of entries. -/
def lookupIn (key : K) : List (K × V) -> Option V
  | [] => none
  | entry :: rest => if entry.1 = key then some entry.2 else lookupIn key rest

/-- `map.find(key)`. -/
def lookup (map : SortedMap K V) (key : K) : Option V := lookupIn key map.entries

/-- Replace the entry of a key, or place a new one in key order. -/
def assignIn (key : K) (value : V) : List (K × V) -> List (K × V)
  | [] => [(key, value)]
  | entry :: rest =>
      if entry.1 = key then (key, value) :: rest
      else if key < entry.1 then (key, value) :: entry :: rest
      else entry :: assignIn key value rest

theorem mem_assignIn {key : K} {value : V} {entries : List (K × V)} {entry : K × V}
    (member : entry ∈ assignIn key value entries) : entry = (key, value) ∨ entry ∈ entries := by
  induction entries with
  | nil => exact Or.inl (List.mem_singleton.mp member)
  | cons head tail inductionHypothesis =>
      rw [assignIn] at member
      split at member
      · rcases List.mem_cons.mp member with same | later
        · exact Or.inl same
        · exact Or.inr (List.mem_cons_of_mem _ later)
      · split at member
        · rcases List.mem_cons.mp member with same | later
          · exact Or.inl same
          · exact Or.inr later
        · rcases List.mem_cons.mp member with same | later
          · exact Or.inr (List.mem_cons.mpr (Or.inl same))
          · rcases inductionHypothesis later with same | earlier
            · exact Or.inl same
            · exact Or.inr (List.mem_cons_of_mem _ earlier)

theorem assignIn_sorted (key : K) (value : V) {entries : List (K × V)}
    (sorted : entries.Pairwise (fun first second => first.1 < second.1)) :
    (assignIn key value entries).Pairwise (fun first second => first.1 < second.1) := by
  induction entries with
  | nil => exact List.pairwise_singleton _ _
  | cons head tail inductionHypothesis =>
      have parts := List.pairwise_cons.mp sorted
      rw [assignIn]
      split
      · rename_i same
        exact List.pairwise_cons.mpr ⟨fun entry member => same ▸ parts.1 entry member, parts.2⟩
      · rename_i different
        split
        · rename_i before
          refine List.pairwise_cons.mpr ⟨?_, sorted⟩
          intro entry member
          rcases List.mem_cons.mp member with same | later
          · rw [same]
            exact before
          · exact lt_trans before (parts.1 entry later)
        · rename_i notBefore
          refine List.pairwise_cons.mpr ⟨?_, inductionHypothesis parts.2⟩
          intro entry member
          rcases mem_assignIn member with same | later
          · rw [same]
            exact lt_of_le_of_ne (not_lt.mp notBefore) different
          · exact parts.1 entry later

/-- `map[key] = value`. -/
def assign (map : SortedMap K V) (key : K) (value : V) : SortedMap K V :=
  ⟨assignIn key value map.entries, assignIn_sorted key value map.sorted⟩

/-- `map[key]` used as a value: an absent key is stored with the default. -/
def subscript (map : SortedMap K V) (key : K) (default : V) : V × SortedMap K V :=
  match map.lookup key with
  | some value => (value, map)
  | none => (default, map.assign key default)

/-- `map.erase(key)`. -/
def erase (map : SortedMap K V) (key : K) : SortedMap K V :=
  ⟨map.entries.filter (fun entry => decide (entry.1 ≠ key)), map.sorted.filter _⟩

theorem lookup_assign (map : SortedMap K V) (key other : K) (value : V) :
    (map.assign key value).lookup other = if key = other then some value else map.lookup other := by
  rcases map with ⟨entries, sorted⟩
  simp only [assign, lookup]
  clear sorted
  induction entries with
  | nil => rfl
  | cons head tail inductionHypothesis =>
      rw [assignIn]
      split
      · rename_i same
        by_cases found : key = other
        · simp [lookupIn, found]
        · simp [lookupIn, found, same]
      · rename_i different
        split
        · by_cases found : key = other
          · simp [lookupIn, found]
          · simp [lookupIn, found]
        · by_cases first : head.1 = other
          · have notKey : ¬ key = other := fun equal => different (first.trans equal.symm)
            simp [lookupIn, first, notKey]
          · simp only [lookupIn, if_neg first, inductionHypothesis]

@[simp] theorem lookup_assign_self (map : SortedMap K V) (key : K) (value : V) :
    (map.assign key value).lookup key = some value := by
  rw [lookup_assign, if_pos rfl]

theorem lookup_assign_of_ne (map : SortedMap K V) {key other : K} (different : key ≠ other)
    (value : V) : (map.assign key value).lookup other = map.lookup other := by
  rw [lookup_assign, if_neg different]

/-- The value of a bare subscript is the stored value or the default. -/
theorem subscript_fst (map : SortedMap K V) (key : K) (default : V) :
    (map.subscript key default).1 = (map.lookup key).getD default := by
  unfold subscript
  cases map.lookup key <;> rfl

/-- Storing the default under one key does not show in lookups that read an
absent key as the default. -/
theorem getD_lookup_subscript (map : SortedMap K V) (key other : K) (default : V) :
    ((map.subscript key default).2.lookup other).getD default =
      (map.lookup other).getD default := by
  unfold subscript
  cases stored : map.lookup key with
  | some value => rfl
  | none =>
      by_cases same : key = other
      · subst same
        simp [stored]
      · simp [lookup_assign_of_ne map same]

theorem mem_entries_iff (map : SortedMap K V) (key : K) (value : V) :
    (key, value) ∈ map.entries ↔ map.lookup key = some value := by
  rcases map with ⟨entries, sorted⟩
  simp only [lookup]
  induction entries with
  | nil => simp [lookupIn]
  | cons head tail inductionHypothesis =>
      have parts := List.pairwise_cons.mp sorted
      by_cases first : head.1 = key
      · simp only [lookupIn, if_pos first, List.mem_cons, Option.some.injEq]
        constructor
        · rintro (same | later)
          · rw [← same]
          · exact absurd first (ne_of_lt (parts.1 _ later))
        · intro same
          exact Or.inl (by rw [← first, ← same])
      · simp only [lookupIn, if_neg first, List.mem_cons, ← inductionHypothesis parts.2]
        constructor
        · rintro (same | later)
          · exact absurd (by rw [← same]) first
          · exact later
        · exact Or.inr

theorem lookup_erase (map : SortedMap K V) (key other : K) :
    (map.erase key).lookup other = if key = other then none else map.lookup other := by
  rcases map with ⟨entries, sorted⟩
  simp only [erase, lookup]
  clear sorted
  induction entries with
  | nil => simp [lookupIn]
  | cons head tail inductionHypothesis =>
      by_cases dropped : head.1 = key
      · rw [List.filter_cons_of_neg (by simp [dropped]), inductionHypothesis]
        by_cases found : key = other
        · rw [if_pos found, if_pos found]
        · rw [if_neg found, if_neg found, lookupIn, if_neg (dropped ▸ found)]
      · rw [List.filter_cons_of_pos (by simp [dropped])]
        by_cases first : head.1 = other
        · have notKey : ¬ key = other := fun equal => dropped (first.trans equal.symm)
          simp [lookupIn, first, notKey]
        · simp only [lookupIn, if_neg first, inductionHypothesis]

/-- In a list sorted by its keys, the first hit is the one before which no
smaller key hits. -/
theorem findSome_of_sorted {W : Type} {entries : List (K × V)}
    (sorted : entries.Pairwise (fun first second => first.1 < second.1)) {search : K × V -> Option W}
    {entry : K × V} {found : W} (member : entry ∈ entries) (hit : search entry = some found)
    (first : forall other, other ∈ entries -> other.1 < entry.1 -> search other = none) :
    entries.findSome? search = some found := by
  induction entries with
  | nil => cases member
  | cons head tail inductionHypothesis =>
      have parts := List.pairwise_cons.mp sorted
      rw [List.findSome?_cons]
      rcases List.mem_cons.mp member with same | later
      · rw [← same, hit]
      · rw [first head List.mem_cons_self (parts.1 entry later)]
        exact inductionHypothesis parts.2 later
          (fun other inside => first other (List.mem_cons_of_mem head inside))

/-- The first hit in a sorted list has the least key of all hits. -/
theorem least_of_findSome {W : Type} {entries : List (K × V)}
    (sorted : entries.Pairwise (fun first second => first.1 < second.1)) {search : K × V -> Option W}
    {found : W} (hit : entries.findSome? search = some found) :
    Exists fun entry : K × V => entry ∈ entries ∧ search entry = some found ∧
      forall other, other ∈ entries -> (search other).isSome -> entry.1 ≤ other.1 := by
  rcases List.findSome?_eq_some_iff.mp hit with ⟨before, entry, after, rfl, isHit, missed⟩
  refine ⟨entry, List.mem_append_right _ List.mem_cons_self, isHit, ?_⟩
  intro other member isOther
  rcases List.mem_append.mp member with earlier | later
  · rw [missed other earlier] at isOther
    cases isOther
  · rcases List.mem_cons.mp later with rfl | behind
    · exact le_refl _
    · have ordered := (List.pairwise_append.mp sorted).2.1
      exact le_of_lt ((List.pairwise_cons.mp ordered).1 other behind)

/-- Two maps have the same entries of a kind, in the same order, when they have the same
members of that kind. -/
theorem filter_entries_congr {first second : SortedMap K V} {kind : K × V -> Bool}
    (same : forall entry, kind entry = true -> (entry ∈ first.entries ↔ entry ∈ second.entries)) :
    first.entries.filter kind = second.entries.filter kind := by
  have irreflexive : Std.Irrefl (fun first second : K × V => first.1 < second.1) :=
    ⟨fun entry => lt_irrefl entry.1⟩
  have antisymmetric : Std.Antisymm (fun first second : K × V => first.1 < second.1) :=
    ⟨fun first second less greater => absurd greater (not_lt_of_gt less)⟩
  apply List.Pairwise.eq_of_mem_iff (first.sorted.filter kind) (second.sorted.filter kind)
  intro entry
  rw [List.mem_filter, List.mem_filter]
  exact and_congr_left (same entry)

end SortedMap
end Webserver
