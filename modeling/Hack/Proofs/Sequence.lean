import Mathlib.Data.List.Forall2
import Hack.Error

namespace Hack

variable {α β σ ε : Type} {first : α} {rest : List α}

/-- Results that may be faults cannot be compared, but what they hold can. -/
theorem eq_ok_of_toOption {action : Except ε α} {value : α} (held : action.toOption = some value) :
    action = .ok value := by
  cases action with
  | error fault => contradiction
  | ok found =>
      cases held
      rfl

def failure? : Except ε α → Option ε
  | .error fault => some fault
  | .ok _ => none

theorem eq_error_of_failure? {action : Except ε α} {fault : ε} (held : failure? action = some fault) :
    action = .error fault := by
  cases action with
  | error found =>
      cases held
      rfl
  | ok value => contradiction

/-- Where values are read back from how they are spelled, what spells none is not read. -/
theorem eq_none_iff_unspelled {spell : α → String} {read : String → Option α}
    (inverse : ∀ value, read (spell value) = some value)
    (spelled : ∀ {token : String} {value : α}, read token = some value → spell value = token) {token : String} :
    read token = none ↔ ∀ value, spell value ≠ token := by
  constructor
  · rintro unread value rfl
    rw [inverse value] at unread
    contradiction
  · intro unspelled
    refine Option.eq_none_iff_forall_ne_some.mpr fun value known => ?_
    exact unspelled value (spelled known)

theorem exists_ok_of_isSome {action : Except ε α} (succeeds : action.toOption.isSome = true) :
    ∃ value, action = .ok value := by
  obtain ⟨value, held⟩ := Option.isSome_iff_exists.mp succeeds
  exact ⟨value, eq_ok_of_toOption held⟩

theorem ok_bind (value : α) (next : α → Except ε β) : (.ok value >>= next) = next value := rfl

theorem error_bind (error : ε) (next : α → Except ε β) : (.error error >>= next) = .error error := rfl

theorem steps_of_bind {action : Except ε α} {next : α → Except ε β} {result : β}
    (succeeded : (action >>= next) = .ok result) :
    ∃ value, action = .ok value ∧ next value = .ok result := by
  cases action with
  | error fault => contradiction
  | ok value => exact ⟨value, rfl, succeeded⟩

theorem steps_of_map {f : α → β} {action : Except ε α} {result : β}
    (succeeded : action.map f = .ok result) : ∃ value, action = .ok value ∧ result = f value := by
  cases action with
  | error fault => contradiction
  | ok value =>
      cases succeeded
      exact ⟨value, rfl, rfl⟩

theorem steps_of_blame {place : Place} {action : Except Fault α} {result : α}
    (succeeded : place.blame action = .ok result) : action = .ok result := by
  cases action with
  | error fault => contradiction
  | ok value =>
      cases succeeded
      rfl

theorem steps_of_mapM {step : α → Except ε β} {results : List β}
    (succeeded : (first :: rest).mapM step = .ok results) :
    ∃ result others, step first = .ok result ∧ rest.mapM step = .ok others ∧
      results = result :: others := by
  rw [List.mapM_cons] at succeeded
  obtain ⟨result, one, succeeded⟩ := steps_of_bind succeeded
  obtain ⟨others, more, succeeded⟩ := steps_of_bind succeeded
  cases succeeded
  exact ⟨result, others, one, more, rfl⟩

theorem error_of_bind {action : Except ε α} {next : α → Except ε β} {error : ε}
    (failed : (action >>= next) = .error error) :
    action = .error error ∨ ∃ value, action = .ok value ∧ next value = .error error := by
  cases action with
  | error fault =>
      cases failed
      exact .inl rfl
  | ok value => exact .inr ⟨value, rfl, failed⟩

theorem error_of_map {f : α → β} {action : Except ε α} {error : ε} (failed : action.map f = .error error) :
    action = .error error := by
  cases action with
  | error fault =>
      cases failed
      rfl
  | ok value => contradiction

theorem error_of_blame {place : Place} {action : Except Fault α} {error : Error}
    (failed : place.blame action = .error error) : action = .error error.fault := by
  cases action with
  | error fault =>
      cases failed
      rfl
  | ok value => contradiction

theorem error_of_mapM {step : α → Except ε β} {list : List α} {error : ε}
    (failed : list.mapM step = .error error) : ∃ item ∈ list, step item = .error error := by
  induction list with
  | nil => cases failed
  | cons first rest ih =>
      rw [List.mapM_cons] at failed
      rcases error_of_bind failed with here | ⟨result, _, failed⟩
      · exact ⟨first, List.mem_cons_self, here⟩
      · rcases error_of_bind failed with later | ⟨others, _, finished⟩
        · obtain ⟨item, member, found⟩ := ih later
          exact ⟨item, List.mem_cons_of_mem _ member, found⟩
        · cases finished

theorem error_of_runM {step : α → StateT σ (Except ε) β} {list : List α} {before : σ} {error : ε}
    (failed : list.mapM step before = .error error) :
    ∃ item ∈ list, ∃ state, step item state = .error error := by
  induction list generalizing before with
  | nil => cases failed
  | cons first rest ih =>
      rw [List.mapM_cons] at failed
      rcases error_of_bind failed with here | ⟨⟨result, middle⟩, _, failed⟩
      · exact ⟨first, List.mem_cons_self, before, here⟩
      · rcases error_of_bind failed with later | ⟨others, _, finished⟩
        · obtain ⟨item, member, found⟩ := ih later
          exact ⟨item, List.mem_cons_of_mem _ member, found⟩
        · cases finished

theorem mapM_cons_ok {step : α → Except ε β} {result : β} {others : List β} (one : step first = .ok result)
    (more : rest.mapM step = .ok others) : (first :: rest).mapM step = .ok (result :: others) := by
  rw [List.mapM_cons, one, more]
  rfl

theorem forall_or_first (property : α → Prop) (list : List α) : (∀ item ∈ list, property item) ∨
    ∃ front item back, list = front ++ item :: back ∧ (∀ other ∈ front, property other) ∧ ¬ property item := by
  induction list with
  | nil => exact .inl nofun
  | cons first rest ih =>
      by_cases here : property first
      · rcases ih with later | ⟨front, item, back, rfl, earlier, fails⟩
        · exact .inl (List.forall_mem_cons.mpr ⟨here, later⟩)
        · exact .inr ⟨first :: front, item, back, rfl, List.forall_mem_cons.mpr ⟨here, earlier⟩, fails⟩
      · exact .inr ⟨[], first, rest, rfl, nofun, here⟩

theorem mapM_eq_ok_iff {step : α → Except ε β} {list : List α} {results : List β} :
    list.mapM step = .ok results ↔ List.Forall₂ (fun item result => step item = .ok result) list results := by
  constructor
  · intro succeeded
    induction list generalizing results with
    | nil =>
        cases succeeded
        exact .nil
    | cons first rest ih =>
        obtain ⟨result, others, one, more, rfl⟩ := steps_of_mapM succeeded
        exact .cons one (ih more)
  · intro steps
    induction steps with
    | nil => rfl
    | cons one _ ih => exact mapM_cons_ok one ih

theorem mapM_eq_error_iff {step : α → Except ε β} {list : List α} {error : ε} :
    list.mapM step = .error error ↔ ∃ front item back, list = front ++ item :: back ∧
      (∀ other ∈ front, ∃ result, step other = .ok result) ∧ step item = .error error := by
  constructor
  · intro failed
    induction list with
    | nil => cases failed
    | cons first rest ih =>
        rw [List.mapM_cons] at failed
        rcases error_of_bind failed with here | ⟨result, one, failed⟩
        · exact ⟨[], first, rest, rfl, by simp, here⟩
        · rcases error_of_bind failed with later | ⟨others, _, finished⟩
          · obtain ⟨front, item, back, rfl, passed, found⟩ := ih later
            exact ⟨first :: front, item, back, rfl, List.forall_mem_cons.mpr ⟨⟨result, one⟩, passed⟩, found⟩
          · cases finished
  · rintro ⟨front, item, back, rfl, passed, failed⟩
    induction front with
    | nil =>
        rw [List.nil_append, List.mapM_cons, failed]
        rfl
    | cons first rest ih =>
        obtain ⟨⟨result, one⟩, passed⟩ := List.forall_mem_cons.mp passed
        rw [List.cons_append, List.mapM_cons, one, ih passed]
        rfl

theorem exists_of_mapM {step : α → Except ε β} {list : List α} {results : List β}
    (succeeded : list.mapM step = .ok results) : ∀ result ∈ results, ∃ item ∈ list, step item = .ok result := by
  induction list generalizing results with
  | nil =>
      cases succeeded
      simp
  | cons first rest ih =>
      obtain ⟨result, others, one, more, rfl⟩ := steps_of_mapM succeeded
      refine List.forall_mem_cons.mpr ⟨⟨first, List.mem_cons_self, one⟩, fun result member => ?_⟩
      obtain ⟨item, inside, found⟩ := ih more result member
      exact ⟨item, List.mem_cons_of_mem _ inside, found⟩

theorem steps_of_runM {step : α → StateT σ (Except ε) β} {results : List β} {before after : σ}
    (succeeded : (first :: rest).mapM step before = .ok (results, after)) :
    ∃ result middle others, step first before = .ok (result, middle) ∧
      rest.mapM step middle = .ok (others, after) ∧ results = result :: others := by
  rw [List.mapM_cons] at succeeded
  obtain ⟨⟨result, middle⟩, one, succeeded⟩ := steps_of_bind succeeded
  obtain ⟨⟨others, last⟩, more, succeeded⟩ := steps_of_bind succeeded
  cases succeeded
  exact ⟨result, middle, others, one, more, rfl⟩

theorem runM_cons_ok {step : α → StateT σ (Except ε) β} {result : β} {others : List β} {before middle after : σ}
    (one : step first before = .ok (result, middle)) (more : rest.mapM step middle = .ok (others, after)) :
    (first :: rest).mapM step before = .ok (result :: others, after) := by
  have first : (step first >>= fun result => rest.mapM step >>= fun others => pure (result :: others)) before =
      (rest.mapM step >>= fun others => pure (result :: others)) middle := by
    change (step first before >>= _) = _
    rw [one]
    rfl
  rw [List.mapM_cons, first]
  change (rest.mapM step middle >>= _) = _
  rw [more]
  rfl

theorem runM_failed {step : α → StateT σ (Except ε) β} {before : σ} {error : ε} (one : step first before = .error error) :
    (first :: rest).mapM step before = .error error := by
  rw [List.mapM_cons]
  change (step first before >>= _) = _
  rw [one]
  rfl

theorem runM_cons_error {step : α → StateT σ (Except ε) β} {result : β} {before middle : σ} {error : ε}
    (one : step first before = .ok (result, middle)) (more : rest.mapM step middle = .error error) :
    (first :: rest).mapM step before = .error error := by
  rw [List.mapM_cons]
  change (step first before >>= _) = _
  rw [one]
  change (rest.mapM step middle >>= _) = _
  rw [more]
  rfl

theorem found_cons (step : α → Except ε (Option β)) (first : α) (rest : List α) :
    ((first :: rest).mapM step).map (fun found => found.filterMap id) = do
      let held ← step first
      let others ← (rest.mapM step).map fun found => found.filterMap id
      return held.toList ++ others := by
  rw [List.mapM_cons]
  cases step first with
  | error error => rfl
  | ok held =>
      cases rest.mapM step with
      | error error => rfl
      | ok found => cases held <;> rfl

/-- Where a step finds nothing, it need not be taken. -/
theorem found_filter {step : α → Except ε (Option β)} {keeps : α → Bool} (list : List α)
    (nothing : ∀ item, keeps item = false → step item = .ok none) :
    ((list.filter keeps).mapM step).map (fun found => found.filterMap id) =
      (list.mapM step).map fun found => found.filterMap id := by
  induction list with
  | nil => rfl
  | cons first rest ih =>
      rw [found_cons, ← ih]
      cases kept : keeps first with
      | true => rw [List.filter_cons_of_pos kept, found_cons]
      | false =>
          rw [List.filter_cons_of_neg (by simp [kept]), nothing first kept, ok_bind]
          cases (rest.filter keeps).mapM step with
          | error error => rfl
          | ok found => rfl

/-- Both runs end with values that belong together, or both with errors that do. -/
inductive EndAlike {α β ε δ : Type} (values : α → β → Prop) (errors : ε → δ → Prop) : Except ε α → Except δ β → Prop where
  | ok {value : α} {other : β} (alike : values value other) : EndAlike values errors (.ok value) (.ok other)
  | error {error : ε} {other : δ} (alike : errors error other) : EndAlike values errors (.error error) (.error other)

section EndAlike

variable {α β γ ζ ε δ σ τ : Type} {values : α → β → Prop} {results : γ → ζ → Prop} {states : σ → τ → Prop}
variable {errors : ε → δ → Prop} {first : Except ε α} {second : Except δ β}

theorem EndAlike.bind {next : α → Except ε γ} {otherNext : β → Except δ ζ} (alike : EndAlike values errors first second)
    (step : ∀ value other, values value other → EndAlike results errors (next value) (otherNext other)) :
    EndAlike results errors (first >>= next) (second >>= otherNext) := by
  cases alike with
  | ok together => exact step _ _ together
  | error together => exact .error together

theorem EndAlike.map {f : α → γ} {g : β → ζ} (alike : EndAlike values errors first second)
    (step : ∀ value other, values value other → results (f value) (g other)) :
    EndAlike results errors (first.map f) (second.map g) := by
  cases alike with
  | ok together => exact .ok (step _ _ together)
  | error together => exact .error together

theorem EndAlike.mapError {ι κ : Type} {faults : ι → κ → Prop} {f : ε → ι} {g : δ → κ}
    (alike : EndAlike values errors first second) (step : ∀ error other, errors error other → faults (f error) (g other)) :
    EndAlike values faults (first.mapError f) (second.mapError g) := by
  cases alike with
  | ok together => exact .ok together
  | error together => exact .error (step _ _ together)

theorem EndAlike.eq_ok {other : Except δ α} {value : α} (alike : EndAlike Eq errors first other)
    (ended : first = .ok value) : other = .ok value := by
  cases alike with
  | ok same =>
      cases ended
      rw [same]
  | error together => cases ended

theorem EndAlike.mapM {step : α → Except ε γ} {otherStep : β → Except δ ζ} {list : List α} {others : List β}
    (steps : ∀ item other, values item other → EndAlike results errors (step item) (otherStep other))
    (items : List.Forall₂ values list others) :
    EndAlike (List.Forall₂ results) errors (list.mapM step) (others.mapM otherStep) := by
  induction items with
  | nil => exact .ok .nil
  | cons one _ ih =>
      rw [List.mapM_cons, List.mapM_cons]
      refine (steps _ _ one).bind fun found changed here => ?_
      refine ih.bind fun later laterChanged more => ?_
      exact .ok (.cons here more)

/-- Two runs over lists end alike if their steps do and hand on states that belong together. -/
theorem EndAlike.runM {step : α → StateT σ (Except ε) γ} {otherStep : β → StateT τ (Except δ) ζ} {before : σ} {otherBefore : τ}
    {list : List α} {others : List β}
    (steps : ∀ item other state otherState, values item other → states state otherState →
      EndAlike (fun found changed => results found.1 changed.1 ∧ states found.2 changed.2) errors
        (step item state) (otherStep other otherState))
    (items : List.Forall₂ values list others) (start : states before otherBefore) :
    EndAlike (fun found changed => List.Forall₂ results found.1 changed.1 ∧ states found.2 changed.2) errors
      (list.mapM step before) (others.mapM otherStep otherBefore) := by
  induction items generalizing before otherBefore with
  | nil => exact .ok ⟨.nil, start⟩
  | cons one _ ih =>
      rw [List.mapM_cons, List.mapM_cons]
      refine (steps _ _ _ _ one start).bind fun found changed here => ?_
      refine (ih here.2).bind fun later laterChanged more => ?_
      exact .ok ⟨.cons here.1 more.1, more.2⟩

theorem forall₂_zipIdx {list : List α} {others : List β} (items : List.Forall₂ values list others) (index : Nat) :
    List.Forall₂ (fun item other => values item.1 other.1 ∧ other.2 = item.2) (list.zipIdx index)
      (others.zipIdx index) := by
  induction items generalizing index with
  | nil => exact .nil
  | cons one _ ih => exact .cons ⟨one, rfl⟩ (ih (index + 1))

end EndAlike

end Hack
