import Mathlib.Logic.Basic

namespace Webserver
namespace Programs

/-!
# Programs that call an environment

A program is a tree: it ends with a value, stops with a fault, or calls an
operation and continues with whatever reply the environment chooses.  Keeping
every possible reply makes two readings available without a second model of
the code.  `CallsOnly` speaks about every operation that is called, under any
replies at all; `run`, `outcome` and `Pool.step` let one concrete environment
answer.  `expand` replaces each operation by a program of finer operations.

`Pool` is the interleaving semantics.  The operations of several programs act
on one shared state, one operation at a time, in the order of a schedule.  The
schedule also carries the environment's own choices for each operation.
-/

/-- A program whose operations `Op` are answered by replies of type `Reply`. -/
inductive Program (Op : Type) (Reply : Op -> Type) (Fault : Type) (A : Type) where
  | done (value : A)
  | fail (fault : Fault)
  | call (op : Op) (next : Reply op -> Program Op Reply Fault A)

namespace Program

variable {Op : Type} {Reply : Op -> Type} {Fault : Type} {A B C : Type}

/-- Continue with the value of the first program. -/
def bind (program : Program Op Reply Fault A) (rest : A -> Program Op Reply Fault B) :
    Program Op Reply Fault B :=
  match program with
  | done value => rest value
  | fail fault => fail fault
  | call op next => call op (fun reply => (next reply).bind rest)

instance : Monad (Program Op Reply Fault) where
  pure := done
  bind := bind

/-- Call one operation and return its reply. -/
def perform (op : Op) : Program Op Reply Fault (Reply op) := call op done

/-- A computation without operations, as a program. -/
def ofExcept : Except Fault A -> Program Op Reply Fault A
  | .ok value => done value
  | .error fault => fail fault

@[simp] theorem done_bind (value : A) (rest : A -> Program Op Reply Fault B) :
    (done value >>= rest) = rest value := rfl

@[simp] theorem ofExcept_ok (value : A) :
    (ofExcept (.ok value) : Program Op Reply Fault A) = done value := rfl

/-! ## Every operation under every reply -/

/-- Every operation which the program can call is allowed. -/
def CallsOnly (allowed : Op -> Prop) : Program Op Reply Fault A -> Prop
  | done _ => True
  | fail _ => True
  | call op next => allowed op ∧ forall reply, (next reply).CallsOnly allowed

theorem CallsOnly.ofExcept_bind {allowed : Op -> Prop} {result : Except Fault A}
    {rest : A -> Program Op Reply Fault B}
    (each : forall value, result = .ok value -> (rest value).CallsOnly allowed) :
    (Program.ofExcept result >>= rest).CallsOnly allowed := by
  cases result with
  | error fault => exact trivial
  | ok value => exact each value rfl

theorem CallsOnly.perform_bind {allowed : Op -> Prop} {op : Op}
    {rest : Reply op -> Program Op Reply Fault B} (here : allowed op)
    (each : forall reply, (rest reply).CallsOnly allowed) :
    (perform op >>= rest).CallsOnly allowed :=
  ⟨here, each⟩

theorem CallsOnly.pure {allowed : Op -> Prop} (value : A) :
    (Pure.pure value : Program Op Reply Fault A).CallsOnly allowed :=
  trivial

theorem CallsOnly.ite {allowed : Op -> Prop} {condition : Prop} [Decidable condition]
    {first second : Program Op Reply Fault A} (yes : first.CallsOnly allowed)
    (no : second.CallsOnly allowed) : (if condition then first else second).CallsOnly allowed := by
  split
  · exact yes
  · exact no

theorem CallsOnly.mono {allowed more : Op -> Prop} {program : Program Op Reply Fault A}
    (calls : program.CallsOnly allowed) (weaker : forall op, allowed op -> more op) :
    program.CallsOnly more := by
  induction program with
  | done value => exact trivial
  | fail fault => exact trivial
  | call op next inductionHypothesis =>
      exact ⟨weaker op calls.1, fun reply => inductionHypothesis reply (calls.2 reply)⟩

theorem CallsOnly.bind {allowed : Op -> Prop} {program : Program Op Reply Fault A}
    {rest : A -> Program Op Reply Fault B} (calls : program.CallsOnly allowed)
    (each : forall value, (rest value).CallsOnly allowed) : (program.bind rest).CallsOnly allowed := by
  induction program with
  | done value => exact each value
  | fail fault => exact trivial
  | call op next inductionHypothesis =>
      exact ⟨calls.1, fun reply => inductionHypothesis reply (calls.2 reply)⟩

/-! ## One environment -/

variable {State Choice : Type}

/-- Run a program to its end.  The environment's choices are consumed one for
each operation; an operation may itself end the program with a fault. -/
def run (exec : Choice -> (op : Op) -> State -> Except Fault (Reply op) × State) :
    (Nat -> Choice) -> Program Op Reply Fault A -> State -> Except Fault A × State
  | _, done value, state => (.ok value, state)
  | _, fail fault, state => (.error fault, state)
  | choices, call op next, state =>
      match exec (choices 0) op state with
      | (.ok reply, state) => run exec (fun index => choices (index + 1)) (next reply) state
      | (.error fault, state) => (.error fault, state)

/-- One operation on its own. -/
theorem run_perform (exec : Choice -> (op : Op) -> State -> Except Fault (Reply op) × State)
    (choices : Nat -> Choice) (op : Op) (state : State) :
    (perform op : Program Op Reply Fault (Reply op)).run exec choices state =
      exec (choices 0) op state := by
  rw [perform, run]
  split
  · rename_i answered
    exact answered.symm
  · rename_i answered
    exact answered.symm

/-- What every allowed operation keeps, a program of allowed operations keeps. -/
theorem CallsOnly.run_keeps {exec : Choice -> (op : Op) -> State -> Except Fault (Reply op) × State}
    {allowed : Op -> Prop} {invariant : State -> Prop}
    (keeps : forall choice op state, allowed op -> invariant state ->
      invariant (exec choice op state).2)
    {program : Program Op Reply Fault A} (calls : program.CallsOnly allowed)
    (choices : Nat -> Choice) {state : State} (holds : invariant state) :
    invariant (program.run exec choices state).2 := by
  induction program generalizing choices state with
  | done value => exact holds
  | fail fault => exact holds
  | call op next inductionHypothesis =>
      have kept := keeps (choices 0) op state calls.1 holds
      rw [run]
      generalize exec (choices 0) op state = outcome at kept ⊢
      rcases outcome with ⟨fault | reply, after⟩
      · exact kept
      · exact inductionHypothesis reply (calls.2 reply) _ kept

/-! ## Finer operations -/

section Expansion

variable {Fine : Type} {FineReply : Fine -> Type}

/-- Take every operation in the steps that it consists of. -/
def expand (steps : (op : Op) -> Program Fine FineReply Fault (Reply op)) :
    Program Op Reply Fault A -> Program Fine FineReply Fault A
  | done value => done value
  | fail fault => fail fault
  | call op next => (steps op).bind (fun reply => (next reply).expand steps)

variable {steps : (op : Op) -> Program Fine FineReply Fault (Reply op)}

/-- What is allowed of the steps of every allowed operation. -/
theorem CallsOnly.expand {allowed : Op -> Prop} {fine : Fine -> Prop} {program : Program Op Reply Fault A}
    (calls : program.CallsOnly allowed) (each : forall op, allowed op -> (steps op).CallsOnly fine) :
    (program.expand steps).CallsOnly fine := by
  induction program with
  | done value => exact trivial
  | fail fault => exact trivial
  | call op next inductionHypothesis =>
      exact (each op calls.1).bind (fun reply => inductionHypothesis reply (calls.2 reply))

/-- A program runs to its end under one choice, and what follows it goes on from there. -/
theorem exists_run_bind
    (exec : Choice -> (op : Op) -> State -> Except Fault (Reply op) × State) (choice : Choice)
    (program : Program Op Reply Fault A) (rest : A -> Program Op Reply Fault B) (state : State)
    (later : Nat -> Choice) :
    Exists fun choices : Nat -> Choice => (program.bind rest).run exec choices state =
      match program.run exec (fun _ => choice) state with
      | (.ok value, state) => (rest value).run exec later state
      | (.error fault, state) => (.error fault, state) := by
  induction program generalizing state with
  | done value => exact ⟨later, rfl⟩
  | fail fault => exact ⟨later, rfl⟩
  | call op next inductionHypothesis =>
      cases answered : exec choice op state with
      | mk answer after =>
          cases answer with
          | error fault => exact ⟨fun _ => choice, by simp only [bind, run, answered]⟩
          | ok reply =>
              rcases inductionHypothesis reply after with ⟨choices, same⟩
              refine ⟨fun index => if index = 0 then choice else choices (index - 1), ?_⟩
              simp only [bind, run, if_pos, answered]
              exact same

/-- When the steps of every operation do what the operation does, a program that nothing
interrupts does the same in steps. -/
theorem exists_run_expand
    {exec : Choice -> (op : Op) -> State -> Except Fault (Reply op) × State}
    {execStep : Choice -> (step : Fine) -> State -> Except Fault (FineReply step) × State}
    (sameEffect : forall choice op state,
      (steps op).run execStep (fun _ => choice) state = exec choice op state)
    (program : Program Op Reply Fault A) (choices : Nat -> Choice) (state : State) :
    Exists fun fineChoices : Nat -> Choice =>
      (program.expand steps).run execStep fineChoices state = program.run exec choices state := by
  induction program generalizing choices state with
  | done value => exact ⟨choices, rfl⟩
  | fail fault => exact ⟨choices, rfl⟩
  | call op next inductionHypothesis =>
      rw [run, expand]
      cases answered : exec (choices 0) op state with
      | mk answer after =>
          cases answer with
          | error fault =>
              rcases exists_run_bind execStep (choices 0) (steps op)
                (fun reply => (next reply).expand steps) state choices with ⟨fineChoices, same⟩
              refine ⟨fineChoices, same.trans ?_⟩
              rw [sameEffect, answered]
          | ok reply =>
              rcases inductionHypothesis reply (fun index => choices (index + 1)) after with
                ⟨later, ends⟩
              rcases exists_run_bind execStep (choices 0) (steps op)
                (fun reply => (next reply).expand steps) state later with ⟨fineChoices, same⟩
              refine ⟨fineChoices, same.trans ?_⟩
              rw [sameEffect, answered]
              exact ends

end Expansion

/-- How a program ends when every operation returns with an answer. -/
def outcome (answer : (op : Op) -> State -> Reply op × State) :
    Program Op Reply Fault A -> State -> Except Fault A
  | done value, _ => .ok value
  | fail fault, _ => .error fault
  | call op next, state => (next (answer op state).1).outcome answer (answer op state).2

@[simp] theorem outcome_perform_bind (answer : (op : Op) -> State -> Reply op × State) (op : Op)
    (rest : Reply op -> Program Op Reply Fault A) (state : State) :
    (perform op >>= rest).outcome answer state =
      (rest (answer op state).1).outcome answer (answer op state).2 := rfl

end Program

/-! ## Interleavings -/

/-- Programs that share one state. -/
structure Pool (Op : Type) (Reply : Op -> Type) (Fault A State : Type) where
  threads : List (Program Op Reply Fault A)
  shared : State

namespace Pool

variable {Op : Type} {Reply : Op -> Type} {Fault A State Choice : Type}

/-- Let one thread perform its next operation.  A thread that has ended, and an
index without a thread, leave everything as it is. -/
def step (exec : Choice -> (op : Op) -> State -> Except Fault (Reply op) × State)
    (pool : Pool Op Reply Fault A State) (turn : Nat × Choice) : Pool Op Reply Fault A State :=
  match pool.threads[turn.1]? with
  | some (.call op next) =>
      match exec turn.2 op pool.shared with
      | (.ok reply, shared) => ⟨pool.threads.set turn.1 (next reply), shared⟩
      | (.error fault, shared) => ⟨pool.threads.set turn.1 (.fail fault), shared⟩
  | _ => pool

/-- Let the threads take turns in the order of the schedule. -/
def run (exec : Choice -> (op : Op) -> State -> Except Fault (Reply op) × State)
    (schedule : List (Nat × Choice)) (pool : Pool Op Reply Fault A State) :
    Pool Op Reply Fault A State :=
  schedule.foldl (step exec) pool

variable {exec : Choice -> (op : Op) -> State -> Except Fault (Reply op) × State}
  {pool : Pool Op Reply Fault A State} {thread : Nat} {choice : Choice}

theorem run_cons (turn : Nat × Choice) (rest : List (Nat × Choice)) :
    run exec (turn :: rest) pool = run exec rest (pool.step exec turn) := rfl

/-- The next operation of a thread is answered. -/
theorem step_of_reply {op : Op} {next : Reply op -> Program Op Reply Fault A} {reply : Reply op}
    {shared : State} (waiting : pool.threads[thread]? = some (.call op next))
    (answered : exec choice op pool.shared = (.ok reply, shared)) :
    pool.step exec (thread, choice) = ⟨pool.threads.set thread (next reply), shared⟩ := by
  simp only [step, waiting, answered]

/-- The next operation of a thread ends it with a fault. -/
theorem step_of_fault {op : Op} {next : Reply op -> Program Op Reply Fault A} {fault : Fault}
    {shared : State} (waiting : pool.threads[thread]? = some (.call op next))
    (faulted : exec choice op pool.shared = (.error fault, shared)) :
    pool.step exec (thread, choice) = ⟨pool.threads.set thread (.fail fault), shared⟩ := by
  simp only [step, waiting, faulted]

/-- A turn without an operation to perform changes nothing. -/
theorem step_of_idle (idle : forall (op : Op) (next : Reply op -> Program Op Reply Fault A),
      pool.threads[thread]? ≠ some (.call op next)) :
    pool.step exec (thread, choice) = pool := by
  unfold step
  split
  · rename_i op next waiting
    exact absurd waiting (idle op next)
  · rfl

end Pool

end Programs
end Webserver
