import Webserver.Library.Programs

namespace Webserver
namespace Programs
namespace Pool

/-!
# Rules for interleavings

What a pool of programs does under a schedule, from what its operations do.
`run_separate` is the rule for programs that do not touch what others depend on: their
results are those of the schedule without the turns of the others.
-/

variable {Op : Type} {Reply : Op -> Type} {Fault A State Choice : Type}
  {exec : Choice -> (op : Op) -> State -> Except Fault (Reply op) × State}

/-- What a program does with the answer to its call. -/
def resume {op : Op} (next : Reply op -> Program Op Reply Fault A) :
    Except Fault (Reply op) -> Program Op Reply Fault A
  | .ok reply => next reply
  | .error fault => .fail fault

/-- How a turn goes: it changes nothing, or one thread calls an operation. -/
theorem step_cases (exec : Choice -> (op : Op) -> State -> Except Fault (Reply op) × State)
    (pool : Pool Op Reply Fault A State) (turn : Nat × Choice) :
    ((forall op next, pool.threads[turn.1]? ≠ some (.call op next)) ∧ pool.step exec turn = pool) ∨
    (Exists fun op : Op => Exists fun next : Reply op -> Program Op Reply Fault A =>
      pool.threads[turn.1]? = some (.call op next) ∧
      pool.step exec turn = ⟨pool.threads.set turn.1 (resume next (exec turn.2 op pool.shared).1),
        (exec turn.2 op pool.shared).2⟩) := by
  by_cases idle : forall op next, pool.threads[turn.1]? ≠ some (.call op next)
  · exact Or.inl ⟨idle, step_of_idle idle⟩
  · simp only [ne_eq, not_forall, Classical.not_not] at idle
    rcases idle with ⟨op, next, waiting⟩
    refine Or.inr ⟨op, next, waiting, ?_⟩
    cases outcome : exec turn.2 op pool.shared with
    | mk answer shared =>
        cases answer with
        | ok reply => exact step_of_reply waiting outcome
        | error fault => exact step_of_fault waiting outcome

/-- What is left of a program after a call. -/
theorem callsOnly_resume {allowed : Op -> Prop} {op : Op}
    {next : Reply op -> Program Op Reply Fault A} (calls : (Program.call op next).CallsOnly allowed)
    (answer : Except Fault (Reply op)) : (resume next answer).CallsOnly allowed := by
  cases answer with
  | ok reply => exact calls.2 reply
  | error fault => exact trivial

/-- What can be left of a program after some of its calls have been answered. -/
inductive Leads (program : Program Op Reply Fault A) : Program Op Reply Fault A -> Prop
  | start : Leads program program
  | resumed {op : Op} {next : Reply op -> Program Op Reply Fault A}
      (before : Leads program (.call op next)) (answer : Except Fault (Reply op)) :
      Leads program (resume next answer)

theorem callsOnly_of_leads {allowed : Op -> Prop} {program rest : Program Op Reply Fault A}
    (calls : program.CallsOnly allowed) (leads : Leads program rest) : rest.CallsOnly allowed := by
  induction leads with
  | start => exact calls
  | resumed before answer inductionHypothesis => exact callsOnly_resume inductionHypothesis answer

theorem getElem?_set_cases {B : Type} {list : List B} {here index : Nat} {value found : B}
    (present : (list.set here value)[index]? = some found) :
    (here = index ∧ found = value) ∨ (here ≠ index ∧ list[index]? = some found) := by
  rw [List.getElem?_set] at present
  split at present
  · rename_i same
    split at present
    · exact Or.inl ⟨same, (Option.some.inj present).symm⟩
    · cases present
  · rename_i different
    exact Or.inr ⟨different, present⟩

/-! ## Separate programs -/

/-- Two pools have the same threads of a group. -/
def SameThreads (group : Nat -> Bool) (first second : Pool Op Reply Fault A State) : Prop :=
  forall index, group index = true -> second.threads[index]? = first.threads[index]?

/-- The group calls its own operations and every other thread calls others. -/
def Divided (group : Nat -> Bool) (own other : Op -> Prop) (pool : Pool Op Reply Fault A State) :
    Prop :=
  forall (index : Nat) (program : Program Op Reply Fault A), pool.threads[index]? = some program ->
    program.CallsOnly (if group index = true then own else other)

theorem Divided.set {group : Nat -> Bool} {own other : Op -> Prop} {pool : Pool Op Reply Fault A State}
    (divided : pool.Divided group own other) {index : Nat} {op : Op}
    {next : Reply op -> Program Op Reply Fault A} (waiting : pool.threads[index]? = some (.call op next))
    (answer : Except Fault (Reply op)) (shared : State) :
    Divided group own other ⟨pool.threads.set index (resume next answer), shared⟩ := by
  intro place program present
  rcases getElem?_set_cases present with ⟨rfl, rfl⟩ | ⟨_, old⟩
  · exact callsOnly_resume (divided index _ waiting) answer
  · exact divided place program old

section Separate

variable {group : Nat -> Bool} {own other : Op -> Prop} {agree : State -> State -> Prop}

/-- In a divided pool, the group's threads and their part of the state are those of the
second pool. -/
structure Separate (group : Nat -> Bool) (own other : Op -> Prop) (agree : State -> State -> Prop)
    (first second : Pool Op Reply Fault A State) : Prop where
  divided : first.Divided group own other
  same : SameThreads group first second
  agrees : agree first.shared second.shared

/-- A turn of the group, in both pools. -/
theorem Separate.own_turn
    (owns : forall choice op first second, own op -> agree first second ->
      (exec choice op second).1 = (exec choice op first).1 ∧
        agree (exec choice op first).2 (exec choice op second).2)
    {first second : Pool Op Reply Fault A State} (separate : Separate group own other agree first second)
    {turn : Nat × Choice} (mine : group turn.1 = true) :
    Separate group own other agree (first.step exec turn) (second.step exec turn) := by
  rcases step_cases exec first turn with ⟨idle, unchanged⟩ | ⟨op, next, waiting, after⟩
  · have idleToo : second.step exec turn = second :=
      step_of_idle (fun op next => (separate.same turn.1 mine).symm ▸ idle op next)
    rwa [unchanged, idleToo]
  · have waitingToo := (separate.same turn.1 mine).trans waiting
    rcases step_cases exec second turn with ⟨idle, _⟩ | ⟨opToo, nextToo, here, afterToo⟩
    · exact absurd waitingToo (idle op next)
    · rw [waitingToo] at here
      cases here
      have calls := separate.divided turn.1 _ waiting
      rw [if_pos mine] at calls
      rcases owns turn.2 op first.shared second.shared calls.1 separate.agrees with ⟨answer, agrees⟩
      rw [after, afterToo, answer]
      refine ⟨separate.divided.set waiting _ _, ?_, agrees⟩
      intro index member
      rw [List.getElem?_set, List.getElem?_set, separate.same index member]
      have bounds : turn.1 < first.threads.length ∧ turn.1 < second.threads.length :=
        ⟨(List.getElem?_eq_some_iff.mp waiting).1, (List.getElem?_eq_some_iff.mp waitingToo).1⟩
      rw [if_pos bounds.1, if_pos bounds.2]

/-- A turn of another thread, in the first pool only. -/
theorem Separate.other_turn
    (others : forall choice op first second, other op -> agree first second ->
      agree (exec choice op first).2 second)
    {first second : Pool Op Reply Fault A State} (separate : Separate group own other agree first second)
    {turn : Nat × Choice} (notMine : Not (group turn.1 = true)) :
    Separate group own other agree (first.step exec turn) second := by
  rcases step_cases exec first turn with ⟨_, unchanged⟩ | ⟨op, next, waiting, after⟩
  · rwa [unchanged]
  · have calls := separate.divided turn.1 _ waiting
    rw [if_neg notMine] at calls
    rw [after]
    refine ⟨separate.divided.set waiting _ _, ?_, others turn.2 op _ _ calls.1 separate.agrees⟩
    intro index member
    have different : turn.1 ≠ index := fun equal => notMine (equal ▸ member)
    rw [List.getElem?_set_ne different]
    exact separate.same index member

/-- When the operations of a group depend on a part of the state that no other operation
changes, the group's threads and that part of the state are the same without the turns
of the other threads. -/
theorem run_separate
    (owns : forall choice op first second, own op -> agree first second ->
      (exec choice op second).1 = (exec choice op first).1 ∧
        agree (exec choice op first).2 (exec choice op second).2)
    (others : forall choice op first second, other op -> agree first second ->
      agree (exec choice op first).2 second)
    {first second : Pool Op Reply Fault A State} (separate : Separate group own other agree first second)
    (schedule : List (Nat × Choice)) :
    Separate group own other agree (first.run exec schedule)
      (second.run exec (schedule.filter (fun turn => group turn.1))) := by
  induction schedule generalizing first second with
  | nil => exact separate
  | cons turn rest inductionHypothesis =>
      rw [run_cons, List.filter_cons]
      by_cases mine : group turn.1 = true
      · rw [if_pos mine, run_cons]
        exact inductionHypothesis (separate.own_turn owns mine)
      · rw [if_neg mine]
        exact inductionHypothesis (separate.other_turn others mine)

end Separate

end Pool
end Programs
end Webserver
