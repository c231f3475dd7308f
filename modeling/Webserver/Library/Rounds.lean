import Mathlib.Data.Nat.Init

namespace Webserver
namespace Rounds

/-!
# Computations with a limit on their rounds

A recursion that is not bounded by its argument takes a number of rounds and ends with
the fault `unfinished` when they are used up.  `Ends` says that the recursion behind
such a computation comes to an end: from some number of rounds on the result is the same
and not that fault.  The rules follow the computation step by step, so that no number
has to be found.
-/

theorem bind_eq_ok {E A B : Type} {result : Except E A} {rest : A -> Except E B} {value : B}
    (ended : (result >>= rest) = .ok value) :
    Exists fun first : A => result = .ok first ∧ rest first = .ok value := by
  cases result with
  | error fault => cases ended
  | ok first => exact ⟨first, rfl, ended⟩

theorem ok_finished {E A : Type} {unfinished : E} (value : A) :
    (.ok value : Except E A) ≠ .error unfinished := by
  intro same
  cases same

theorem error_finished {E A : Type} {fault unfinished : E} (other : fault ≠ unfinished) :
    (.error fault : Except E A) ≠ .error unfinished :=
  fun same => other (Except.error.inj same)

/-- Where neither part ends with a fault, the whole does not. -/
theorem bind_finished {E A B : Type} {unfinished : E} {result : Except E A} {rest : A -> Except E B}
    (finished : result ≠ .error unfinished) (onward : forall value, rest value ≠ .error unfinished) :
    result >>= rest ≠ .error unfinished := by
  cases result with
  | error fault => exact fun same => finished (congrArg Except.error (Except.error.inj same))
  | ok value => exact onward value

theorem foldlM_finished {E A B : Type} {unfinished : E} {step : A -> B -> Except E A}
    (each : forall a b, step a b ≠ .error unfinished) (list : List B) (start : A) :
    list.foldlM step start ≠ .error unfinished := by
  induction list generalizing start with
  | nil => exact ok_finished start
  | cons b rest inductionHypothesis =>
      rw [List.foldlM_cons]
      exact bind_finished (each start b) inductionHypothesis

theorem flatMapM_finished {E A B : Type} {unfinished : E} {parts : A -> Except E (List B)}
    (list : List A) (each : forall a, a ∈ list -> parts a ≠ .error unfinished) :
    list.flatMapM parts ≠ .error unfinished := by
  induction list with
  | nil => exact ok_finished []
  | cons a rest inductionHypothesis =>
      rw [List.flatMapM_cons]
      apply bind_finished (each a List.mem_cons_self)
      intro part
      apply bind_finished (inductionHypothesis fun other inside => each other (List.mem_cons_of_mem a inside))
      exact fun later => ok_finished _

/-- What holds of all parts holds of all members. -/
theorem flatMapM_rule {E A B : Type} {property : B -> Prop} {parts : A -> Except E (List B)}
    {list : List A} {result : List B}
    (each : forall a, a ∈ list -> forall part, parts a = .ok part -> forall b, b ∈ part -> property b)
    (done : list.flatMapM parts = .ok result) : forall b, b ∈ result -> property b := by
  induction list generalizing result with
  | nil =>
      cases done
      exact fun _ member => absurd member List.not_mem_nil
  | cons a rest inductionHypothesis =>
      rw [List.flatMapM_cons] at done
      rcases bind_eq_ok done with ⟨part, here, onward⟩
      rcases bind_eq_ok onward with ⟨later, after, same⟩
      cases same
      intro b member
      rcases List.mem_append.mp member with early | late
      · exact each a List.mem_cons_self part here b early
      · exact inductionHypothesis (fun other inside => each other (List.mem_cons_of_mem a inside)) after b late

variable {E A B : Type} {unfinished : E}

/-- With enough rounds the result is always the same, and the rounds are not used up. -/
def Ends (unfinished : E) (computation : Nat -> Except E A) : Prop :=
  Exists fun result : Except E A => result ≠ .error unfinished ∧
    Exists fun bound : Nat => forall rounds, bound ≤ rounds -> computation rounds = result

theorem Ends.const {result : Except E A} (finished : result ≠ .error unfinished) :
    Ends unfinished (fun _ => result) :=
  ⟨result, finished, 0, fun _ _ => rfl⟩

theorem Ends.ok (value : A) : Ends unfinished (fun _ => .ok value) := .const (ok_finished value)

/-- A round has been used. -/
theorem Ends.later {computation : Nat -> Except E A}
    (ends : Ends unfinished (fun rounds => computation (rounds + 1))) : Ends unfinished computation := by
  rcases ends with ⟨result, finished, bound, each⟩
  refine ⟨result, finished, bound + 1, fun rounds enough => ?_⟩
  cases rounds with
  | zero => exact absurd enough (Nat.not_succ_le_zero bound)
  | succ rounds => exact each rounds (Nat.le_of_succ_le_succ enough)

/-- One computation ends, and so does what is done with its result. -/
theorem Ends.bind {computation : Nat -> Except E A} {rest : Nat -> A -> Except E B}
    (ends : Ends unfinished computation)
    (onward : forall value, (Exists fun rounds : Nat => computation rounds = .ok value) ->
      Ends unfinished (fun rounds => rest rounds value)) :
    Ends unfinished (fun rounds => computation rounds >>= rest rounds) := by
  rcases ends with ⟨result, finished, bound, each⟩
  cases result with
  | error fault =>
      refine ⟨.error fault, fun same => finished (congrArg Except.error (Except.error.inj same)), bound,
        fun rounds enough => ?_⟩
      dsimp only
      rw [each rounds enough]
      rfl
  | ok value =>
      rcases onward value ⟨bound, each bound (Nat.le_refl bound)⟩ with
        ⟨final, finishedToo, boundToo, eachToo⟩
      refine ⟨final, finishedToo, bound.max boundToo, fun rounds enough => ?_⟩
      dsimp only
      rw [each rounds (Nat.le_trans (Nat.le_max_left bound boundToo) enough)]
      exact eachToo rounds (Nat.le_trans (Nat.le_max_right bound boundToo) enough)

/-- A result that another round does not change is the result from there on. -/
theorem Ends.of_steady {computation : Nat -> Except E A}
    (steady : forall {rounds value}, computation rounds = .ok value ->
      computation (rounds + 1) = .ok value)
    {bound : Nat} {value : A} (ended : computation bound = .ok value) : Ends unfinished computation := by
  refine ⟨.ok value, ok_finished value, bound, fun rounds enough => ?_⟩
  induction enough with
  | refl => exact ended
  | step _ inductionHypothesis => exact steady inductionHypothesis

end Rounds
end Webserver
