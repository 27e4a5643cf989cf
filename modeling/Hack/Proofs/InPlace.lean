import Hack.Proofs.Sequence

namespace Hack

/-! Runs that change a state in place.

What such a run has written before it fails stays written, so it can leave half
of a change behind.  A step that hands on a new state together with its value
has none to hand on with a failure; a run that settles like such a step leaves
the state as it was when it fails, and a series of such runs is the series of
those among them that succeed.
-/

abbrev InPlace (σ ε : Type) := ExceptT ε (StateM σ)

namespace InPlace

variable {σ ε α β γ : Type} {state : σ} {step : γ → InPlace σ ε α} {items front back : List γ}

def act (action : InPlace σ ε α) (state : σ) : Except ε α × σ :=
  StateT.run action.run state

/-- The value of a step and the state that it hands on, or its error and the
state as it was. -/
def settle (state : σ) : Except ε (α × σ) → Except ε α × σ
  | .ok (value, next) => (.ok value, next)
  | .error error => (.error error, state)

def Settles (action : InPlace σ ε α) (step : StateT σ (Except ε) α) : Prop :=
  ∀ state, action.act state = settle state (step state)

/-- A failure leaves the state as it was. -/
def Clean (action : InPlace σ ε α) : Prop :=
  ∀ state error after, action.act state = (.error error, after) → after = state

/-- The outcomes of runs one after the other, whether they succeed or fail, and
the state after the last. -/
def outcomes (step : γ → InPlace σ ε α) : List γ → σ → List (Except ε α) × σ
  | [], state => ([], state)
  | item :: rest, state =>
      let acted := (step item).act state
      let others := outcomes step rest acted.2
      (acted.1 :: others.1, others.2)

def stateAfter (step : γ → InPlace σ ε α) (items : List γ) (state : σ) : σ :=
  (outcomes step items state).2

/-- The items whose runs have succeeded. -/
def succeeding (items : List γ) (outcomes : List (Except ε α)) : List γ :=
  ((items.zip outcomes).filter fun (_, outcome) => outcome.isOk).map Prod.fst

theorem act_get : (get : InPlace σ ε σ).act state = (.ok state, state) := rfl

theorem act_bind (action : InPlace σ ε α) (next : α → InPlace σ ε β) (state : σ) :
    (action >>= next).act state =
      match action.act state with
      | (.ok value, middle) => (next value).act middle
      | (.error error, middle) => (.error error, middle) := by
  have step : (action >>= next).act state = (ExceptT.bindCont next (action.act state).1) (action.act state).2 := rfl
  rw [step]
  cases action.act state with
  | mk outcome middle => cases outcome <;> rfl

theorem Settles.clean {action : InPlace σ ε α} {step : StateT σ (Except ε) α} (settles : action.Settles step) :
    action.Clean := by
  intro state error after failed
  rw [settles state] at failed
  cases result : step state with
  | ok found =>
      rw [result] at failed
      cases failed
  | error found =>
      rw [result] at failed
      cases failed
      rfl

theorem Settles.map {action : InPlace σ ε α} {step : StateT σ (Except ε) α} (settles : action.Settles step)
    (change : α → β) : InPlace.Settles (do let value ← action; return change value)
      fun state => (step state).map fun (value, next) => (change value, next) := by
  intro state
  rw [act_bind, settles state]
  dsimp only
  cases step state with
  | error error => rfl
  | ok found => rfl

theorem outcomes_cons (item : γ) (rest : List γ) (state : σ) : outcomes step (item :: rest) state =
    (((step item).act state).1 :: (outcomes step rest ((step item).act state).2).1,
      (outcomes step rest ((step item).act state).2).2) := rfl

theorem stateAfter_append : stateAfter step (front ++ back) state =
    stateAfter step back (stateAfter step front state) := by
  induction front generalizing state with
  | nil => rfl
  | cons item rest ih => exact ih

/-- Where failures leave nothing behind, the runs that fail can be left out. -/
theorem outcomes_succeeding (clean : ∀ item, (step item).Clean) (items : List γ) (state : σ) :
    outcomes step (succeeding items (outcomes step items state).1) state =
      ((outcomes step items state).1.filter Except.isOk, (outcomes step items state).2) := by
  induction items generalizing state with
  | nil => rfl
  | cons item rest ih =>
      rw [outcomes_cons]
      cases acted : (step item).act state with
      | mk outcome next =>
          cases outcome with
          | error error =>
              have same : next = state := clean item state error next acted
              subst same
              exact ih next
          | ok value =>
              have kept : succeeding (item :: rest) (.ok value :: (outcomes step rest next).1) =
                  item :: succeeding rest (outcomes step rest next).1 := rfl
              rw [kept, outcomes_cons, acted, ih next]
              rfl

/-- The runs that succeed are together one run of the steps that they settle like. -/
theorem runM_succeeding {plain : γ → StateT σ (Except ε) α} (settles : ∀ item, (step item).Settles (plain item))
    (items : List γ) (state : σ) : (succeeding items (outcomes step items state).1).mapM plain state =
      .ok ((outcomes step items state).1.filterMap Except.toOption, (outcomes step items state).2) := by
  induction items generalizing state with
  | nil => rfl
  | cons item rest ih =>
      rw [outcomes_cons, settles item state]
      cases result : plain item state with
      | error error => exact ih state
      | ok found => exact runM_cons_ok result (ih found.2)

end InPlace

end Hack
