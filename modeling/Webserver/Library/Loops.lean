import Mathlib.Data.Nat.Init

namespace Webserver
namespace Loop

/-!
# Loops that may not come back

A round of a loop goes on with another state, returns, or never ends.  `Ends` and
`Reaches` follow the rounds without a bound.  A loop whose rounds make some measure
smaller returns exactly when it reaches no round that never ends, and then it needs no
more rounds than the measure allows.

A program is run with a limit on the rounds of its loops instead.  `limited` is such a
loop, with rounds that have inner loops of their own; where its rounds do what a turn
says once the limit is large enough, it returns for some limit exactly what the turns
lead to.
-/

/-- What a round of a loop does. -/
inductive Turn (σ ρ : Type) where
  | goOn (state : σ)
  | returns (result : ρ)
  | hangs

section Turns

variable {σ ρ : Type} {turn : σ -> Turn σ ρ}

/-- The rounds lead to a result. -/
inductive Ends (turn : σ -> Turn σ ρ) : σ -> ρ -> Prop
  | now {state : σ} {result : ρ} (outcome : turn state = .returns result) : Ends turn state result
  | later {state next : σ} {result : ρ} (outcome : turn state = .goOn next)
      (onward : Ends turn next result) : Ends turn state result

/-- The rounds lead from one state to another. -/
inductive Reaches (turn : σ -> Turn σ ρ) : σ -> σ -> Prop
  | here (state : σ) : Reaches turn state state
  | later {state next final : σ} (outcome : turn state = .goOn next)
      (onward : Reaches turn next final) : Reaches turn state final

theorem Ends.unique {state : σ} {first second : ρ} (ends : Ends turn state first)
    (endsToo : Ends turn state second) : first = second := by
  induction ends with
  | now outcome =>
      cases endsToo with
      | now outcomeToo =>
          rw [outcome] at outcomeToo
          injection outcomeToo
      | later outcomeToo _ =>
          rw [outcome] at outcomeToo
          cases outcomeToo
  | later outcome _ inductionHypothesis =>
      cases endsToo with
      | now outcomeToo =>
          rw [outcome] at outcomeToo
          cases outcomeToo
      | later outcomeToo onward =>
          rw [outcome] at outcomeToo
          injection outcomeToo with same
          exact inductionHypothesis (same ▸ onward)

theorem ends_iff_of_returns {state : σ} {result other : ρ} (outcome : turn state = .returns result) :
    Ends turn state other <-> other = result := by
  constructor
  · exact fun ends => ends.unique (.now outcome)
  · rintro rfl
    exact .now outcome

theorem ends_iff_of_goOn {state next : σ} {result : ρ} (outcome : turn state = .goOn next) :
    Ends turn state result <-> Ends turn next result := by
  constructor
  · intro ends
    cases ends with
    | now outcomeToo =>
        rw [outcome] at outcomeToo
        cases outcomeToo
    | later outcomeToo onward =>
        rw [outcome] at outcomeToo
        injection outcomeToo with same
        exact same ▸ onward
  · exact .later outcome

theorem not_hangs_of_ends {state final : σ} {result : ρ} (ends : Ends turn state result)
    (reaches : Reaches turn state final) : turn final ≠ .hangs := by
  induction reaches with
  | here state =>
      intro hangs
      cases ends with
      | now outcome =>
          rw [outcome] at hangs
          cases hangs
      | later outcome _ =>
          rw [outcome] at hangs
          cases hangs
  | later outcome _ inductionHypothesis =>
      cases ends with
      | now outcomeToo =>
          rw [outcome] at outcomeToo
          cases outcomeToo
      | later outcomeToo onward =>
          rw [outcome] at outcomeToo
          injection outcomeToo with same
          exact inductionHypothesis (same ▸ onward)

/-- A loop with a measure returns unless it comes to a round that never ends. -/
theorem ends_iff (measure : σ -> Nat)
    (decreases : forall state next, turn state = .goOn next -> measure next < measure state)
    (state : σ) :
    (Exists fun result : ρ => Ends turn state result) <->
      forall final, Reaches turn state final -> turn final ≠ .hangs := by
  constructor
  · rintro ⟨result, ends⟩ final reaches
    exact not_hangs_of_ends ends reaches
  · intro never
    induction size : measure state using Nat.strong_induction_on generalizing state with
    | h size inductionHypothesis =>
        cases outcome : turn state with
        | hangs => exact absurd outcome (never state (.here state))
        | returns result => exact ⟨result, .now outcome⟩
        | goOn next =>
            rcases inductionHypothesis _ (size ▸ decreases state next outcome) next
              (fun final onward => never final (.later outcome onward)) rfl with ⟨result, ends⟩
            exact ⟨result, .later outcome ends⟩

/-- A loop with a limit on its rounds, `none` when it takes more. -/
def turnsWithin (turn : σ -> Turn σ ρ) : Nat -> σ -> Option ρ
  | 0, _ => none
  | rounds + 1, state =>
      match turn state with
      | .goOn next => turnsWithin turn rounds next
      | .returns result => some result
      | .hangs => none

/-- A loop with a measure comes to its result in at most one round more than the
measure. -/
theorem turnsWithin_of_ends (measure : σ -> Nat)
    (decreases : forall state next, turn state = .goOn next -> measure next < measure state)
    {state : σ} {result : ρ} (ends : Ends turn state result) {rounds : Nat}
    (enough : measure state < rounds) : turnsWithin turn rounds state = some result := by
  induction ends generalizing rounds with
  | now outcome =>
      cases rounds with
      | zero => cases enough
      | succ rounds => rw [turnsWithin, outcome]
  | later outcome _ inductionHypothesis =>
      cases rounds with
      | zero => cases enough
      | succ rounds =>
          have smaller := decreases _ _ outcome
          rw [turnsWithin, outcome]
          exact inductionHypothesis (by omega)

end Turns

/-! ## Limits -/

section Limits

variable {τ σ ρ : Type}

/-- A loop with a limit on its rounds and one for the loops inside a round. -/
def limited (round : Nat -> τ -> Option (Sum τ ρ)) (limit : Nat) : Nat -> τ -> Option ρ
  | 0, _ => none
  | rounds + 1, state =>
      match round limit state with
      | none => none
      | some (.inl next) => limited round limit rounds next
      | some (.inr result) => some result

/-- A round does what the turn says, once its limit is large enough, and a larger limit
does not change what it does. -/
structure Refines (round : Nat -> τ -> Option (Sum τ ρ)) (turn : σ -> Turn σ ρ)
    (related : τ -> σ -> Prop) : Prop where
  mono : forall {limit limit' : Nat} {state : τ} {outcome : Sum τ ρ}, limit ≤ limit' ->
    round limit state = some outcome -> round limit' state = some outcome
  goOn : forall {state : τ} {spot next : σ}, related state spot -> turn spot = .goOn next ->
    Exists fun limit : Nat => Exists fun state' : τ =>
      round limit state = some (.inl state') ∧ related state' next
  returns : forall {state : τ} {spot : σ} {result : ρ}, related state spot ->
    turn spot = .returns result -> Exists fun limit : Nat => round limit state = some (.inr result)
  hangs : forall {state : τ} {spot : σ}, related state spot -> turn spot = .hangs ->
    forall limit, round limit state = none

variable {round : Nat -> τ -> Option (Sum τ ρ)} {turn : σ -> Turn σ ρ} {related : τ -> σ -> Prop}

/-- A round that comes back within some limit does what the turn says. -/
theorem Refines.same (refines : Refines round turn related) {limit limit' : Nat} {state : τ}
    {outcome outcome' : Sum τ ρ} (first : round limit state = some outcome)
    (second : round limit' state = some outcome') : outcome = outcome' := by
  have firstToo := refines.mono (Nat.le_max_left limit limit') first
  rw [refines.mono (Nat.le_max_right limit limit') second] at firstToo
  exact (Option.some.inj firstToo).symm

/-- What the limited loop returns is what the turns lead to. -/
theorem Refines.ends (refines : Refines round turn related) {limit rounds : Nat} {state : τ}
    {spot : σ} {result : ρ} (holds : related state spot)
    (returned : limited round limit rounds state = some result) : Ends turn spot result := by
  induction rounds generalizing state spot with
  | zero => cases returned
  | succ rounds inductionHypothesis =>
      rw [limited] at returned
      cases outcome : round limit state with
      | none =>
          rw [outcome] at returned
          cases returned
      | some taken =>
          rw [outcome] at returned
          cases spotTurn : turn spot with
          | hangs =>
              rw [refines.hangs holds spotTurn limit] at outcome
              cases outcome
          | returns final =>
              rcases refines.returns holds spotTurn with ⟨_, known⟩
              obtain rfl := refines.same outcome known
              obtain rfl := Option.some.inj returned
              exact .now spotTurn
          | goOn next =>
              rcases refines.goOn holds spotTurn with ⟨_, state', known, onward⟩
              obtain rfl := refines.same outcome known
              exact .later spotTurn (inductionHypothesis onward returned)

/-- What the turns lead to is returned with all limits that are large enough. -/
theorem Refines.limited_of_ends (refines : Refines round turn related) {state : τ} {spot : σ}
    {result : ρ} (holds : related state spot) (ends : Ends turn spot result) :
    Exists fun bound : Nat => forall limit rounds, bound ≤ limit -> bound ≤ rounds ->
      limited round limit rounds state = some result := by
  induction ends generalizing state with
  | now outcome =>
      rcases refines.returns holds outcome with ⟨bound, known⟩
      refine ⟨bound + 1, fun limit rounds enough long => ?_⟩
      cases rounds with
      | zero => cases long
      | succ rounds => rw [limited, refines.mono (by omega) known]
  | later outcome _ inductionHypothesis =>
      rcases refines.goOn holds outcome with ⟨roundBound, state', known, onward⟩
      rcases inductionHypothesis onward with ⟨bound, returned⟩
      refine ⟨max roundBound bound + 1, fun limit rounds enough long => ?_⟩
      cases rounds with
      | zero => cases long
      | succ rounds =>
          rw [limited, refines.mono (by omega) known]
          exact returned limit rounds (by omega) (by omega)

end Limits

end Loop
end Webserver
