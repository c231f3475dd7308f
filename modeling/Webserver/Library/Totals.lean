import Mathlib.Data.List.Perm.Basic

namespace Webserver

/-!
# Totals

The sum of a measure over a list.  It does not depend on the order, and leaving
out something of positive measure makes it smaller.
-/

universe u

variable {A : Type u} {measure : A -> Nat}

/-- The sum of a measure over a list. -/
def total (measure : A -> Nat) : List A -> Nat
  | [] => 0
  | first :: rest => measure first + total measure rest

theorem total_append (first second : List A) :
    total measure (first ++ second) = total measure first + total measure second := by
  induction first with
  | nil => exact (Nat.zero_add _).symm
  | cons head tail inductionHypothesis =>
      rw [List.cons_append, total, total, inductionHypothesis, Nat.add_assoc]

theorem total_perm {first second : List A} (same : first.Perm second) :
    total measure first = total measure second := by
  induction same with
  | nil => rfl
  | cons head _ inductionHypothesis => rw [total, total, inductionHypothesis]
  | swap head next tail =>
      simp only [total]
      omega
  | trans _ _ before after => exact before.trans after

theorem total_sublist {first second : List A} (part : first.Sublist second) :
    total measure first ≤ total measure second := by
  induction part with
  | slnil => exact Nat.le_refl _
  | cons head _ inductionHypothesis => exact Nat.le_add_left_of_le inductionHypothesis
  | cons_cons head _ inductionHypothesis => exact Nat.add_le_add_left inductionHypothesis _

theorem exists_of_total_pos {list : List A} (positive : 0 < total measure list) :
    Exists fun element : A => element ∈ list ∧ 0 < measure element := by
  induction list with
  | nil => exact absurd positive (Nat.lt_irrefl 0)
  | cons head tail inductionHypothesis =>
      by_cases here : 0 < measure head
      · exact ⟨head, List.mem_cons_self, here⟩
      · rw [total, Nat.eq_zero_of_not_pos here, Nat.zero_add] at positive
        rcases inductionHypothesis positive with ⟨element, member, more⟩
        exact ⟨element, List.mem_cons_of_mem head member, more⟩

/-- A measure that is larger somewhere and smaller nowhere has a larger total. -/
theorem total_lt {smaller : A -> Nat} {list : List A} {element : A}
    (less : forall element, smaller element ≤ measure element) (member : element ∈ list)
    (strict : smaller element < measure element) : total smaller list < total measure list := by
  have atMost : forall list : List A, total smaller list ≤ total measure list := by
    intro list
    induction list with
    | nil => exact Nat.le_refl _
    | cons head tail inductionHypothesis => exact Nat.add_le_add (less head) inductionHypothesis
  rcases List.mem_iff_append.mp member with ⟨before, after, rfl⟩
  rw [total_append, total_append, total, total]
  have first := atMost before
  have second := atMost after
  omega

/-- If leaving elements out takes nothing away, then none was left out. -/
theorem forall_of_total_filter {list : List A} {kept : A -> Bool}
    (positive : forall element, 0 < measure element)
    (same : total measure list ≤ total measure (list.filter kept)) :
    forall element, element ∈ list -> kept element = true := by
  induction list with
  | nil => simp
  | cons head tail inductionHypothesis =>
      have fewer : total measure (tail.filter kept) ≤ total measure tail :=
        total_sublist List.filter_sublist
      have here := positive head
      rw [total] at same
      by_cases stays : kept head = true
      · rw [List.filter_cons_of_pos stays, total] at same
        intro element member
        rcases List.mem_cons.mp member with rfl | later
        · exact stays
        · exact inductionHypothesis (by omega) element later
      · rw [List.filter_cons_of_neg stays] at same
        omega

end Webserver
