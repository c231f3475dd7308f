import Mathlib.Data.List.Infix

namespace Webserver
namespace Strings

/-!
# Finite strings with the operations of `std::string` and `std::getline`

A string is a list over an arbitrary alphabet with decidable equality.  A
search returns `none` where the C++ function returns `npos`, so that a caller
which goes on computing with `npos` has to say what its arithmetic yields.
`substr` returns `none` where the C++ function throws `std::out_of_range`.

`lines` models the loop `while (getline(in, line))`: the terminator is removed
from every line, and a last line without a terminator is still delivered.
Gluing a terminator back onto every line therefore reproduces exactly the
strings which are empty or end in the terminator; `flatMap_lines` states what
happens to the others.
-/

universe u

variable {A : Type u}

/-! ## Substrings -/

/-- The rest of the string from a position, unless that lies beyond the end. -/
def substr (text : List A) (position : Nat) : Option (List A) :=
  if position ≤ text.length then some (text.drop position) else none

/-- At most `count` symbols from a position. -/
def substrN (text : List A) (position count : Nat) : Option (List A) :=
  if position ≤ text.length then some ((text.drop position).take count) else none

theorem substr_append (before after : List A) :
    substr (before ++ after) before.length = some after := by
  simp [substr]

theorem substr_eq_some_iff (text rest : List A) (position : Nat) :
    substr text position = some rest ↔ position ≤ text.length ∧ text.drop position = rest := by
  unfold substr
  split
  · rename_i fits
    rw [Option.some.injEq]
    exact ⟨fun same => ⟨fits, same⟩, fun both => both.2⟩
  · rename_i beyond
    constructor
    · intro impossible
      cases impossible
    · intro both
      exact absurd both.1 beyond

theorem substr_eq_none_iff (text : List A) (position : Nat) :
    substr text position = none ↔ text.length < position := by
  unfold substr
  split
  · rename_i fits
    constructor
    · intro impossible
      cases impossible
    · intro short
      omega
  · rename_i beyond
    exact ⟨fun _ => by omega, fun _ => rfl⟩

/-! ## Searching -/

variable [DecidableEq A]

/-- The position of the first occurrence of `pattern`. -/
def find (pattern : List A) : List A -> Option Nat
  | [] => if pattern = [] then some 0 else none
  | head :: tail =>
      if pattern <+: head :: tail then some 0 else (find pattern tail).map Nat.succ

/-- The first occurrence at or after a position. -/
def findFrom (pattern text : List A) (position : Nat) : Option Nat :=
  (find pattern (text.drop position)).map (fun offset => position + offset)

/-- `position + offset` on an unsigned integer type, whose greatest value
`npos` stands for a failed search; adding to it wraps around. -/
def afterFind (position : Option Nat) (offset : Nat) : Nat :=
  match position with
  | some position => position + offset
  | none => offset - 1

/-- The position of the last occurrence of one symbol. -/
def findLast (symbol : A) : List A -> Option Nat
  | [] => none
  | head :: tail =>
      match findLast symbol tail with
      | some position => some (position + 1)
      | none => if head = symbol then some 0 else none

theorem find_eq_none_iff (pattern text : List A) :
    find pattern text = none ↔ ¬ pattern <:+: text := by
  induction text with
  | nil =>
      by_cases empty : pattern = []
      · simp [find, empty]
      · simp [find, empty]
  | cons head tail inductionHypothesis =>
      by_cases here : pattern <+: head :: tail
      · simp only [find, if_pos here]
        constructor
        · intro impossible
          cases impossible
        · intro absent
          exact False.elim (absent here.isInfix)
      · simp only [find, if_neg here, Option.map_eq_none_iff, inductionHypothesis,
          List.infix_cons_iff]
        constructor
        · rintro absent (first | later)
          · exact here first
          · exact absent later
        · intro absent later
          exact absent (Or.inr later)

theorem find_isSome_iff (pattern text : List A) :
    (find pattern text).isSome ↔ pattern <:+: text := by
  rw [← not_iff_not, ← find_eq_none_iff, Option.not_isSome_iff_eq_none]

/-- A found position is an occurrence, and no earlier position is one. -/
theorem find_eq_some_iff (pattern text : List A) (position : Nat) :
    find pattern text = some position ↔
      position ≤ text.length ∧ pattern <+: text.drop position ∧
        forall earlier, earlier < position -> ¬ pattern <+: text.drop earlier := by
  induction text generalizing position with
  | nil =>
      by_cases empty : pattern = []
      · subst empty
        simp only [find, if_true, Option.some.injEq, List.length_nil, Nat.le_zero_eq]
        constructor
        · rintro rfl
          exact ⟨rfl, List.nil_prefix, fun earlier before => absurd before (Nat.not_lt_zero _)⟩
        · rintro ⟨rfl, _, _⟩
          rfl
      · simp [find, empty]
  | cons head tail inductionHypothesis =>
      by_cases here : pattern <+: head :: tail
      · simp only [find, if_pos here, Option.some.injEq]
        constructor
        · rintro rfl
          exact ⟨Nat.zero_le _, here, fun earlier before => absurd before (Nat.not_lt_zero _)⟩
        · rintro ⟨_, _, first⟩
          by_contra different
          exact first 0 (Nat.pos_of_ne_zero (Ne.symm different)) here
      · simp only [find, if_neg here, Option.map_eq_some_iff]
        constructor
        · rintro ⟨offset, found, rfl⟩
          have spec := (inductionHypothesis offset).mp found
          refine ⟨Nat.succ_le_succ spec.1, spec.2.1, ?_⟩
          intro earlier before
          cases earlier with
          | zero => exact here
          | succ earlier => exact spec.2.2 earlier (Nat.lt_of_succ_lt_succ before)
        · rintro ⟨bound, occurs, first⟩
          cases position with
          | zero => exact False.elim (here occurs)
          | succ offset =>
              refine ⟨offset, (inductionHypothesis offset).mpr ⟨?_, occurs, ?_⟩, rfl⟩
              · exact Nat.le_of_succ_le_succ bound
              · intro earlier before
                exact first (earlier + 1) (Nat.succ_lt_succ before)

/-- Text added at the end does not move a first occurrence. -/
theorem find_append_of_some {pattern text : List A} {position : Nat}
    (found : find pattern text = some position) (more : List A) :
    find pattern (text ++ more) = some position := by
  have spec := (find_eq_some_iff pattern text position).mp found
  refine (find_eq_some_iff pattern (text ++ more) position).mpr ⟨?_, ?_, ?_⟩
  · rw [List.length_append]
    exact Nat.le_add_right_of_le spec.1
  · rw [List.drop_append_of_le_length spec.1]
    exact spec.2.1.trans (List.prefix_append _ _)
  · intro earlier before occurs
    rw [List.drop_append_of_le_length (by omega)] at occurs
    have fits : pattern.length ≤ (text.drop earlier).length := by
      have later := spec.2.1.length_le
      simp only [List.length_drop] at later ⊢
      omega
    exact spec.2.2 earlier before
      (List.prefix_of_prefix_length_le occurs (List.prefix_append _ _) fits)

/-- Behind a text, symbols other than the last one of a pattern complete no occurrence. -/
theorem find_append_of_notMem {last : A} {tail : List A} (absent : last ∉ tail)
    (front text : List A) :
    find (front ++ [last]) (text ++ tail) = find (front ++ [last]) text := by
  cases found : find (front ++ [last]) text with
  | some position => exact find_append_of_some found tail
  | none =>
      rw [find_eq_none_iff] at found ⊢
      induction tail using List.reverseRecOn with
      | nil =>
          rw [List.append_nil]
          exact found
      | append_singleton tail symbol inductionHypothesis =>
          rw [List.mem_append, List.mem_singleton, not_or] at absent
          rw [← List.append_assoc, List.infix_concat_iff, not_or]
          refine ⟨?_, inductionHypothesis absent.1⟩
          rintro ⟨before, same⟩
          rw [← List.append_assoc] at same
          exact absent.2 (List.append_singleton_inj.mp same).2

/-- A text with the pattern, cut at its first occurrence. -/
theorem exists_first_occurrence {pattern text : List A} (occurs : pattern <:+: text) :
    Exists fun before : List A => Exists fun after : List A =>
      text = before ++ pattern ++ after ∧
        find pattern (before ++ pattern) = some before.length := by
  rcases Option.isSome_iff_exists.mp ((find_isSome_iff pattern text).mpr occurs) with
    ⟨position, found⟩
  have spec := (find_eq_some_iff pattern text position).mp found
  rcases spec.2.1 with ⟨after, behind⟩
  have size : (text.take position).length = position := List.length_take_of_le spec.1
  have cut : text = text.take position ++ pattern ++ after := by
    rw [List.append_assoc, behind, List.take_append_drop]
  refine ⟨text.take position, after, cut, (find_eq_some_iff _ _ _).mpr ⟨?_, ?_, ?_⟩⟩
  · rw [List.length_append]
    exact Nat.le_add_right _ _
  · rw [List.drop_left]
  · intro earlier before there
    rw [size] at before
    apply spec.2.2 earlier before
    rw [cut, List.drop_append_of_le_length (by rw [List.length_append, size]; omega)]
    exact there.trans (List.prefix_append _ _)

/-- A stretch without the pattern's first symbol holds no start of it. -/
theorem find_skip {symbol : A} (pattern : List A) {before : List A} (avoids : symbol ∉ before)
    (after : List A) :
    find (symbol :: pattern) (before ++ after) =
      (find (symbol :: pattern) after).map (fun offset => before.length + offset) := by
  induction before with
  | nil =>
      rw [List.nil_append]
      cases find (symbol :: pattern) after <;> simp
  | cons head tail inductionHypothesis =>
      have parts : symbol ≠ head ∧ symbol ∉ tail := by
        simpa [List.mem_cons, not_or] using avoids
      have different : ¬ (symbol :: pattern) <+: (head :: (tail ++ after)) := by
        intro occurs
        exact parts.1 (List.cons_prefix_cons.mp occurs).1
      rw [List.cons_append, find, if_neg different, inductionHypothesis parts.2, Option.map_map]
      congr 1
      funext offset
      simp only [Function.comp_apply, List.length_cons, Nat.succ_eq_add_one]
      omega

theorem find_singleton_eq_none_iff (symbol : A) (text : List A) :
    find [symbol] text = none ↔ symbol ∉ text := by
  rw [find_eq_none_iff, List.singleton_infix_iff]

/-- The first occurrence of a symbol after a stretch that avoids it. -/
theorem find_singleton_append {symbol : A} {before : List A} (avoids : symbol ∉ before)
    (after : List A) : find [symbol] (before ++ symbol :: after) = some before.length := by
  rw [find_skip [] avoids]
  simp [find]

omit [DecidableEq A] in
/-- No occurrence goes across a symbol that the pattern does not have. -/
theorem prefix_append_cons_iff {pattern : List A} {separator : A} (apart : separator ∉ pattern)
    (before after : List A) : pattern <+: before ++ separator :: after ↔ pattern <+: before := by
  constructor
  · rintro ⟨rest, same⟩
    rcases List.append_eq_append_iff.mp same with ⟨more, fits, _⟩ | ⟨more, longer, tail⟩
    · exact ⟨more, fits.symm⟩
    · cases more with
      | nil => rw [longer, List.append_nil]
      | cons first others =>
          have here : separator ∈ pattern := by
            rw [longer, (List.cons.inj tail).1]
            simp
          exact absurd here apart
  · intro fits
    exact fits.trans (List.prefix_append _ _)

/-- A search goes through the text before such a symbol first. -/
theorem find_append_cons {pattern : List A} {separator : A} (apart : separator ∉ pattern)
    (nonempty : pattern ≠ []) (before after : List A) :
    find pattern (before ++ separator :: after) = (find pattern before).or
      ((find pattern after).map (fun offset => before.length + 1 + offset)) := by
  induction before with
  | nil =>
      have notHere : ¬ pattern <+: separator :: after := by
        rw [← List.nil_append (separator :: after), prefix_append_cons_iff apart]
        exact fun empty => nonempty (List.prefix_nil.mp empty)
      have noneBefore : find pattern ([] : List A) = none := by
        rw [find, if_neg nonempty]
      rw [noneBefore, List.nil_append, find, if_neg notHere, Option.none_or]
      congr 1
      funext offset
      simp only [List.length_nil, Nat.succ_eq_add_one]
      omega
  | cons head tail inductionHypothesis =>
      have same := prefix_append_cons_iff apart (head :: tail) after
      rw [List.cons_append] at same ⊢
      by_cases here : pattern <+: head :: tail
      · simp only [find, if_pos here, if_pos (same.mpr here), Option.some_or]
      · simp only [find, if_neg here, if_neg (fun there => here (same.mp there))]
        rw [inductionHypothesis, Option.map_or, Option.map_map]
        congr 2
        funext offset
        simp only [Function.comp_apply, List.length_cons, Nat.succ_eq_add_one]
        omega

theorem infix_append_cons_iff {pattern : List A} {separator : A} (apart : separator ∉ pattern)
    (nonempty : pattern ≠ []) (before after : List A) :
    pattern <:+: before ++ separator :: after ↔ pattern <:+: before ∨ pattern <:+: after := by
  rw [← find_isSome_iff, find_append_cons apart nonempty, Option.isSome_or, Option.isSome_map,
    Bool.or_eq_true, find_isSome_iff, find_isSome_iff]

/-- Nothing before the first occurrence of a symbol is that symbol. -/
theorem notMem_take_of_find {symbol : A} {text : List A} {position : Nat}
    (found : find [symbol] text = some position) : symbol ∉ text.take position := by
  intro member
  rcases List.mem_take_iff_getElem.mp member with ⟨index, bound, same⟩
  have spec := (find_eq_some_iff [symbol] text position).mp found
  refine spec.2.2 index (by omega) ?_
  rw [List.drop_eq_getElem_cons (by omega), same]
  exact List.prefix_append [symbol] _

/-- The text before the first occurrence of a symbol. -/
theorem take_of_find {symbol : A} {text : List A} {position : Nat}
    (found : find [symbol] text = some position) :
    text.take position = text.takeWhile (fun other => other != symbol) := by
  have member : symbol ∈ text := by
    by_contra absent
    rw [(find_singleton_eq_none_iff symbol text).mpr absent] at found
    cases found
  rcases List.eq_append_cons_of_mem member with ⟨before, after, rfl, avoids⟩
  rw [find_singleton_append avoids] at found
  cases found
  have kept : forall other, other ∈ before -> (other != symbol) = true := by
    intro other inside
    have different : other ≠ symbol := fun same => avoids (same ▸ inside)
    simpa using different
  rw [List.take_left, List.takeWhile_append_of_pos kept]
  simp

theorem findLast_eq_none_iff (symbol : A) (text : List A) :
    findLast symbol text = none ↔ symbol ∉ text := by
  induction text with
  | nil => simp [findLast]
  | cons head tail inductionHypothesis =>
      cases later : findLast symbol tail with
      | some position =>
          have member : symbol ∈ tail := by
            by_contra absent
            rw [inductionHypothesis.mpr absent] at later
            cases later
          simp [findLast, later, member]
      | none =>
          have absent := inductionHypothesis.mp later
          by_cases same : head = symbol
          · simp [findLast, later, same]
          · simp [findLast, later, same, absent, Ne.symm same]

/-- The last occurrence of a symbol before a stretch that avoids it. -/
theorem findLast_append {symbol : A} (before : List A) {after : List A}
    (avoids : symbol ∉ after) :
    findLast symbol (before ++ symbol :: after) = some before.length := by
  induction before with
  | nil => simp [findLast, (findLast_eq_none_iff symbol after).mpr avoids]
  | cons head tail inductionHypothesis =>
      simp [findLast, inductionHypothesis]

omit [DecidableEq A] in
/-- Every text is a part that ends in a symbol, if it is not empty, and a rest
without the symbol. -/
theorem exists_last_field (symbol : A) (text : List A) :
    Exists fun front : List A => Exists fun last : List A =>
      text = front ++ last ∧ symbol ∉ last ∧ (front = [] ∨ front.getLast? = some symbol) := by
  induction text with
  | nil => exact ⟨[], [], rfl, List.not_mem_nil, Or.inl rfl⟩
  | cons head tail inductionHypothesis =>
      rcases inductionHypothesis with ⟨front, last, rfl, avoids, empty | ends⟩
      · subst empty
        by_cases here : symbol = head
        · exact ⟨[head], last, rfl, avoids, Or.inr (by rw [here]; rfl)⟩
        · exact ⟨[], head :: last, rfl, by simp [here, avoids], Or.inl rfl⟩
      · exact ⟨head :: front, last, rfl, avoids, Or.inr (by rw [List.getLast?_cons, ends]; rfl)⟩

omit [DecidableEq A] in
/-- Induction along the separators of a text. -/
theorem separator_induction {motive : List A -> Prop} (separator : A)
    (last : forall text, separator ∉ text -> motive text)
    (more : forall before after, separator ∉ before -> motive after ->
      motive (before ++ separator :: after))
    (text : List A) : motive text := by
  induction size : text.length using Nat.strong_induction_on generalizing text with
  | _ size inductionHypothesis =>
      by_cases member : separator ∈ text
      · rcases List.eq_append_cons_of_mem member with ⟨before, after, rfl, avoids⟩
        apply more before after avoids
        apply inductionHypothesis after.length _ after rfl
        simp only [List.length_append, List.length_cons] at size
        omega
      · exact last text member

/-- A field between separators has none, and is a part of the text. -/
theorem mem_splitOn {separator : A} {text field : List A}
    (member : field ∈ text.splitOn separator) : separator ∉ field ∧ field ⊆ text := by
  induction text using separator_induction separator with
  | last text avoids =>
      rw [List.splitOn_eq_singleton avoids, List.mem_singleton] at member
      rw [member]
      exact ⟨avoids, List.Subset.refl _⟩
  | more before after avoids inductionHypothesis =>
      rw [List.splitOn_append_cons_self, List.splitOn_eq_singleton avoids, List.singleton_append,
        List.mem_cons] at member
      rcases member with rfl | later
      · exact ⟨avoids, List.subset_append_left _ _⟩
      · rcases inductionHypothesis later with ⟨absent, part⟩
        refine ⟨absent, fun c inside => ?_⟩
        exact List.mem_append_right _ (List.mem_cons_of_mem _ (part inside))

/-- Every text has a part at least. -/
theorem length_le_flatMap_splitOn (separator : Char) (texts : List (List Char)) :
    texts.length ≤ (texts.flatMap (fun text => text.splitOn separator)).length := by
  induction texts with
  | nil => exact Nat.le_refl 0
  | cons text rest inductionHypothesis =>
      have some_ := List.length_pos_iff.mpr (List.splitOn_ne_nil separator text)
      rw [List.flatMap_cons, List.length_append, List.length_cons]
      omega

/-- Texts without a separator are their own fields. -/
theorem flatMap_splitOn {separator : A} {texts : List (List A)}
    (avoid : forall text, text ∈ texts -> separator ∉ text) :
    texts.flatMap (fun text => text.splitOn separator) = texts := by
  rw [List.flatMap_congr fun text member => List.splitOn_eq_singleton (avoid text member)]
  exact List.flatMap_singleton' texts

/-! ## Lines -/

/-- The lines delivered by repeated `getline` up to the end of the stream. -/
def lines (terminator : A) : List A -> List (List A)
  | [] => []
  | head :: tail =>
      if head = terminator then [] :: lines terminator tail
      else match lines terminator tail with
        | [] => [[head]]
        | line :: rest => (head :: line) :: rest

/-- A string whose last line carries its terminator, or which has no lines. -/
def Terminated (terminator : A) (text : List A) : Prop :=
  text = [] ∨ text.getLast? = some terminator

instance (terminator : A) (text : List A) : Decidable (Terminated terminator text) :=
  inferInstanceAs (Decidable (text = [] ∨ text.getLast? = some terminator))

omit [DecidableEq A] in
theorem terminated_cons_cons (terminator first second : A) (rest : List A) :
    Terminated terminator (first :: second :: rest) ↔ Terminated terminator (second :: rest) := by
  simp [Terminated, List.getLast?_cons_cons]

theorem lines_eq_nil_iff (terminator : A) (text : List A) :
    lines terminator text = [] ↔ text = [] := by
  cases text with
  | nil => simp [lines]
  | cons head tail =>
      by_cases same : head = terminator
      · simp [lines, same]
      · cases rest : lines terminator tail <;> simp [lines, same, rest]

/-- Writing every line back with its terminator adds one exactly when the last
line of the text had none. -/
theorem flatMap_lines (terminator : A) (text : List A) :
    (lines terminator text).flatMap (fun line => line ++ [terminator]) =
      if Terminated terminator text then text else text ++ [terminator] := by
  induction text with
  | nil => simp [lines, Terminated]
  | cons head tail inductionHypothesis =>
      by_cases same : head = terminator
      · subst same
        simp only [lines, if_true, List.flatMap_cons, inductionHypothesis]
        cases tail with
        | nil => simp [Terminated]
        | cons next rest =>
            by_cases closed : Terminated head (next :: rest)
            · simp [terminated_cons_cons, closed]
            · simp [terminated_cons_cons, closed]
      · cases tail with
        | nil => simp [lines, same, Terminated]
        | cons next rest =>
            cases delivered : lines terminator (next :: rest) with
            | nil => exact absurd ((lines_eq_nil_iff _ _).mp delivered) (by simp)
            | cons line others =>
                have step : (lines terminator (head :: next :: rest)).flatMap
                    (fun line => line ++ [terminator]) =
                    head :: (lines terminator (next :: rest)).flatMap
                      (fun line => line ++ [terminator]) := by
                  rw [lines, if_neg same, delivered]
                  simp
                rw [step, inductionHypothesis]
                by_cases closed : Terminated terminator (next :: rest)
                · simp [terminated_cons_cons, closed]
                · simp [terminated_cons_cons, closed]

/-! ## Words put into each other's place -/

/-- A word that can be moved over a text with a symbol of its own is empty. -/
theorem eq_nil_of_append_comm {symbol : A} {word text : List A} (inside : symbol ∈ text)
    (avoids : symbol ∉ word) (same : word ++ text = text ++ word) : word = [] := by
  have places := congrArg (List.idxOf symbol) same
  rw [List.idxOf_append_of_notMem avoids, List.idxOf_append_of_mem inside] at places
  exact List.length_eq_zero_iff.mp (by omega)

/-- No part stands at both ends of the word, apart from the empty one and itself. -/
def Unbordered (word : List A) : Prop :=
  forall part, part <+: word -> part <:+ word -> part = [] ∨ part = word

/-- A word is in the place of another on both sides of a text only if it is that word. -/
theorem eq_of_swapped {symbol : A} {word hole between : List A} (unbordered : Unbordered hole)
    (inside : symbol ∈ between) (avoids : symbol ∉ word)
    (apart : between.getLast? ≠ hole.getLast?)
    (same : word ++ between ++ hole = hole ++ between ++ word) : word = hole := by
  have ends : word <:+ hole ++ between ++ word := List.suffix_append _ _
  rw [List.append_assoc, List.append_assoc] at same
  rcases List.append_eq_append_iff.mp same with ⟨more, holeIs, _⟩ | ⟨more, rfl, moved⟩
  · have starts : word <+: hole := ⟨more, holeIs.symm⟩
    have closes : word <:+ hole := by
      refine List.suffix_of_suffix_length_le ?_ (List.suffix_append (word ++ between) hole)
        starts.length_le
      rwa [List.append_assoc, same, ← List.append_assoc]
    rcases unbordered word starts closes with rfl | rfl
    · have moved : between ++ hole = hole ++ between := by simpa using same
      by_contra nonempty
      have last := congrArg List.getLast? moved
      rw [List.getLast?_append_of_ne_nil _ (Ne.symm nonempty),
        List.getLast?_append_of_ne_nil _ (List.ne_nil_of_mem inside)] at last
      exact apart last.symm
    · rfl
  · rw [← List.append_assoc] at moved
    have empty := eq_nil_of_append_comm (List.mem_append_left hole inside)
      (fun member => avoids (List.mem_append_right _ member)) moved.symm
    rw [empty, List.append_nil]

end Strings
end Webserver
