import Webserver.Library.Strings
import Mathlib.Data.List.Induction

namespace Webserver
namespace LexicalPaths

/-!
# Path strings and their lexical resolution

A path string is split at `/`; empty components are repeated or trailing
separators and carry no meaning.  Resolution eliminates `.` and `..` from left
to right without consulting a file system.  At the root `..` has no effect; at
the front of a relative path it is kept, since only the current directory could
tell what it means.

`Inside root path` is the confinement relation: both strings start from the
same place, and the resolved path continues the resolved root.  The sufficient
condition proved here looks at the appended text alone.  It may contain `..`,
but must never climb above its own start (`staysBelow`), and it must be separated
from the root's last component.
-/

abbrev Name := List Char

def dot : Name := ['.']

def dotDot : Name := ['.', '.']

/-- The nonempty components of a path string. -/
def components (path : List Char) : List Name :=
  (path.splitOn '/').filter (fun name => !name.isEmpty)

/-- Whether resolution starts at the root directory. -/
def absolute (path : List Char) : Bool :=
  path.head? == some '/'

/-- One component of a path, applied to the components resolved so far. -/
def resolveStep (absolute : Bool) (resolved : List Name) (name : Name) : List Name :=
  if name = dot then resolved
  else if name = dotDot then
    if absolute = false ∧ (resolved = [] ∨ resolved.getLast? = some dotDot) then
      resolved ++ [dotDot]
    else resolved.dropLast
  else resolved ++ [name]

/-- Resolve components from a given starting point. -/
def resolveFrom (absolute : Bool) (start : List Name) (names : List Name) : List Name :=
  names.foldl (resolveStep absolute) start

/-- The resolved component sequence of a path string. -/
def resolve (path : List Char) : List Name :=
  resolveFrom (absolute path) [] (components path)

/-- A name that resolution keeps as it is. -/
def Plain (name : Name) : Prop :=
  name ≠ [] ∧ '/' ∉ name ∧ name ≠ dot ∧ name ≠ dotDot

instance (name : Name) : Decidable (Plain name) := inferInstanceAs (Decidable (_ ∧ _))

/-- The path string denotes `root` or something below it. -/
def Inside (root path : List Char) : Prop :=
  absolute path = absolute root ∧ resolve root <+: resolve path

instance (root path : List Char) : Decidable (Inside root path) :=
  inferInstanceAs (Decidable (_ ∧ _))

/-- Reading the components never climbs above the given depth. -/
def staysBelow : Nat -> List Name -> Bool
  | _, [] => true
  | depth, name :: rest =>
      if name = dot then staysBelow depth rest
      else if name = dotDot then decide (0 < depth) && staysBelow (depth - 1) rest
      else staysBelow (depth + 1) rest

/-- The text names something below wherever it is appended. -/
def Descends (text : List Char) : Prop :=
  staysBelow 0 (components text) = true

instance (text : List Char) : Decidable (Descends text) :=
  inferInstanceAs (Decidable (_ = true))

/-- Appending the text does not lengthen the root's last component. -/
def Separated (root text : List Char) : Prop :=
  root.getLast? = some '/' ∨ text.head? = some '/' ∨ text = []

instance (root text : List Char) : Decidable (Separated root text) :=
  inferInstanceAs (Decidable (_ ∨ _ ∨ _))

/-! ## Components of appended strings -/

@[simp] theorem components_nil : components [] = [] := rfl

theorem components_append_slash (before after : List Char) :
    components (before ++ '/' :: after) = components before ++ components after := by
  simp only [components, List.splitOn_append_cons_self, List.filter_append]

theorem components_cons_slash (after : List Char) :
    components ('/' :: after) = components after :=
  components_append_slash [] after

theorem components_concat_slash (before : List Char) :
    components (before ++ ['/']) = components before := by
  rw [components_append_slash, components_nil, List.append_nil]

theorem components_of_name {name : Name} (nonempty : name ≠ []) (plain : '/' ∉ name) :
    components name = [name] := by
  have kept : name.isEmpty = false := by
    cases name with
    | nil => exact absurd rfl nonempty
    | cons head tail => rfl
  simp [components, List.splitOn_eq_singleton plain, kept]

theorem mem_components {path : List Char} {name : Name} (member : name ∈ components path) :
    name ≠ [] ∧ '/' ∉ name ∧ name ⊆ path := by
  rw [components, List.mem_filter] at member
  have field := Strings.mem_splitOn member.1
  exact ⟨by simpa using member.2, field⟩

theorem components_append_of_separated {root text : List Char} (apart : Separated root text) :
    components (root ++ text) = components root ++ components text := by
  rcases apart with ends | starts | empty
  · rcases List.getLast?_eq_some_iff.mp ends with ⟨front, rfl⟩
    rw [List.append_assoc, List.singleton_append, components_append_slash,
      components_concat_slash]
  · rcases List.head?_eq_some_iff.mp starts with ⟨rest, rfl⟩
    rw [components_append_slash, components_cons_slash]
  · rw [empty, List.append_nil, components_nil, List.append_nil]

/-! ## Resolution -/

theorem resolveFrom_append (absolute : Bool) (start first second : List Name) :
    resolveFrom absolute start (first ++ second) =
      resolveFrom absolute (resolveFrom absolute start first) second :=
  List.foldl_append

theorem resolveFrom_plain (absolute : Bool) (start : List Name) {name : Name}
    (plain : Plain name) : resolveFrom absolute start [name] = start ++ [name] := by
  rw [resolveFrom, List.foldl_cons, List.foldl_nil, resolveStep, if_neg plain.2.2.1,
    if_neg plain.2.2.2]

/-- Resolution from the root keeps a first part of the start and puts names behind it
that it has read. -/
theorem resolveFrom_eq_take_append (start names : List Name) :
    Exists fun count : Nat => Exists fun news : List Name =>
      resolveFrom true start names = start.take count ++ news ∧
        forall name, name ∈ news -> name ∈ names ∧ name ≠ dot ∧ name ≠ dotDot := by
  induction names using List.reverseRecOn with
  | nil => exact ⟨start.length, [], by simp [resolveFrom], by simp⟩
  | append_singleton names name inductionHypothesis =>
      rcases inductionHypothesis with ⟨count, news, same, read⟩
      have earlier : forall other, other ∈ news ->
          other ∈ names ++ [name] ∧ other ≠ dot ∧ other ≠ dotDot :=
        fun other member => ⟨List.mem_append_left _ (read other member).1, (read other member).2⟩
      rw [resolveFrom_append, resolveFrom, List.foldl_cons, List.foldl_nil, resolveStep]
      by_cases isDot : name = dot
      · rw [if_pos isDot]
        exact ⟨count, news, same, earlier⟩
      rw [if_neg isDot]
      by_cases isUp : name = dotDot
      · rw [if_pos isUp, if_neg (by simp), same]
        rcases List.eq_nil_or_concat news with rfl | ⟨front, final, rfl⟩
        · rw [List.append_nil, List.dropLast_eq_take, List.take_take]
          exact ⟨_, [], (List.append_nil _).symm, by simp⟩
        · rw [List.concat_eq_append, ← List.append_assoc, List.dropLast_concat]
          refine ⟨count, front, rfl, fun other member => earlier other ?_⟩
          rw [List.concat_eq_append]
          exact List.mem_append_left _ member
      · rw [if_neg isUp, same, List.append_assoc]
        refine ⟨count, news ++ [name], rfl, ?_⟩
        intro other member
        rcases List.mem_append.mp member with before | here
        · exact earlier other before
        · rw [List.mem_singleton.mp here]
          exact ⟨by simp, isDot, isUp⟩

/-- What resolution puts directly behind the whole start is a name that it has
read. -/
theorem mem_of_prefix_resolveFrom {start names : List Name} {name : Name}
    (inside : start ++ [name] <+: resolveFrom true start names) :
    name ∈ names ∧ name ≠ dot ∧ name ≠ dotDot := by
  rcases resolveFrom_eq_take_append start names with ⟨count, news, same, read⟩
  apply read
  rcases inside with ⟨rest, whole⟩
  have behind : (start ++ [name] ++ rest)[start.length]? = some name := by simp
  have short : (start.take count).length ≤ start.length := List.length_take_le' _ _
  rw [whole, same, List.getElem?_append_right short] at behind
  exact List.mem_of_getElem? behind

/-- Components that never climb above their start only extend what was
resolved before.  The induction carries the part `below` resolved since; its
length bounds the depth, and it holds no `..`, so that every `..` removes one of
its own names. -/
theorem resolveFrom_of_staysBelow (absolute : Bool) (start below : List Name)
    (plain : dotDot ∉ below) (names : List Name)
    (stays : staysBelow below.length names = true) :
    start <+: resolveFrom absolute (start ++ below) names := by
  induction names generalizing below with
  | nil => exact List.prefix_append start below
  | cons name rest inductionHypothesis =>
      rw [resolveFrom, List.foldl_cons, ← resolveFrom]
      by_cases same : name = dot
      · rw [staysBelow, if_pos same] at stays
        rw [resolveStep, if_pos same]
        exact inductionHypothesis below plain stays
      · by_cases up : name = dotDot
        · rw [staysBelow, if_neg same, if_pos up] at stays
          rw [resolveStep, if_neg same, if_pos up]
          rcases List.eq_nil_or_concat below with empty | ⟨front, last, rfl⟩
          · simp [empty] at stays
          · rw [List.concat_eq_append] at plain stays ⊢
            have notUp : last ≠ dotDot := by
              intro equal
              exact plain (by simp [equal])
            rw [List.length_append, List.length_singleton, Bool.and_eq_true] at stays
            have down : ¬ (absolute = false ∧ (start ++ (front ++ [last]) = [] ∨
                (start ++ (front ++ [last])).getLast? = some dotDot)) := by
              rw [← List.append_assoc, List.getLast?_concat]
              simp [notUp]
            rw [if_neg down, ← List.append_assoc, List.dropLast_concat]
            exact inductionHypothesis front (fun member => plain (by simp [member])) stays.2
        · rw [staysBelow, if_neg same, if_neg up] at stays
          rw [resolveStep, if_neg same, if_neg up, List.append_assoc]
          refine inductionHypothesis (below ++ [name]) ?_ (by simpa using stays)
          simp [plain, Ne.symm up]

theorem absolute_append {root : List Char} (nonempty : root ≠ []) (text : List Char) :
    absolute (root ++ text) = absolute root := by
  rw [absolute, absolute, List.head?_append_of_ne_nil root nonempty]

/-- Separated text that never climbs above its start stays inside any root. -/
theorem inside_append {root text : List Char} (nonempty : root ≠ [])
    (apart : Separated root text) (descends : Descends text) : Inside root (root ++ text) := by
  refine ⟨absolute_append nonempty text, ?_⟩
  rw [resolve, resolve, absolute_append nonempty text, components_append_of_separated apart,
    resolveFrom_append]
  have kept := resolveFrom_of_staysBelow (absolute root)
    (resolveFrom (absolute root) [] (components root)) [] (by simp) (components text) descends
  rwa [List.append_nil] at kept

/-- The path string is the root's with separated text behind it that never climbs above
its start. -/
def Extends (root path : List Char) : Prop :=
  Exists fun text : List Char => path = root ++ text ∧ Separated root text ∧ Descends text

theorem Extends.inside {root path : List Char} (longer : Extends root path) (nonempty : root ≠ []) :
    Inside root path := by
  rcases longer with ⟨text, rfl, apart, descends⟩
  exact inside_append nonempty apart descends

/-- The first components of text that descends descend. -/
theorem staysBelow_of_append {depth : Nat} {first second : List Name}
    (stays : staysBelow depth (first ++ second) = true) : staysBelow depth first = true := by
  induction first generalizing depth with
  | nil => rfl
  | cons name rest inductionHypothesis =>
      rw [List.cons_append, staysBelow] at stays
      rw [staysBelow]
      by_cases same : name = dot
      · rw [if_pos same] at stays ⊢
        exact inductionHypothesis stays
      · by_cases up : name = dotDot
        · rw [if_neg same, if_pos up, Bool.and_eq_true] at stays ⊢
          exact ⟨stays.1, inductionHypothesis stays.2⟩
        · rw [if_neg same, if_neg up] at stays ⊢
          exact inductionHypothesis stays

/-- A final part without separators may be added to text that descends, as long
as it does not turn the last component into `..`. -/
theorem staysBelow_append_name (names : List Name) {depth : Nat} {name : Name}
    (stays : staysBelow depth names = true) (notUp : name ≠ dotDot) :
    staysBelow depth (names ++ [name]) = true := by
  induction names generalizing depth with
  | nil =>
      by_cases same : name = dot
      · simp [staysBelow, same]
      · simp [staysBelow, same, notUp]
  | cons first rest inductionHypothesis =>
      rw [List.cons_append, staysBelow]
      rw [staysBelow] at stays
      by_cases same : first = dot
      · rw [if_pos same] at stays ⊢
        exact inductionHypothesis stays
      · by_cases up : first = dotDot
        · rw [if_neg same, if_pos up, Bool.and_eq_true] at stays ⊢
          exact ⟨stays.1, inductionHypothesis stays.2⟩
        · rw [if_neg same, if_neg up] at stays ⊢
          exact inductionHypothesis stays

end LexicalPaths
end Webserver
