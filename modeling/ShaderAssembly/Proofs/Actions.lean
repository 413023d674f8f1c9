import ShaderAssembly.Numbered

/-!
# Results and states of actions

What an action does has two sides that count: the result and the state it leaves. The laws here
give both for every way in which actions are put together. The records of the journal play no part
in them, so that facts about results never look at a journal.
-/

namespace ShaderAssembly

/-- An outcome that is checked to be a value with a property is such a value. -/
theorem exists_of_toOption_any {ε α : Type} {outcome : Except ε α} {property : α → Bool}
    (h : outcome.toOption.any property = true) :
    ∃ value, outcome = .ok value ∧ property value = true := by
  cases outcome with
  | error error => cases h
  | ok value => exact ⟨value, rfl, h⟩

/-- An outcome that is checked to be no value is an error. -/
theorem exists_of_toOption_isNone {ε α : Type} {outcome : Except ε α}
    (h : outcome.toOption.isNone = true) : ∃ error, outcome = .error error := by
  cases outcome with
  | error error => exact ⟨error, rfl⟩
  | ok value => cases h

/-- A success with a changed value comes from a success. -/
theorem exists_of_map_eq_ok {ε α β : Type} {outcome : Except ε α} {f : α → β} {result : β}
    (h : outcome.map f = .ok result) : ∃ value, outcome = .ok value ∧ f value = result := by
  cases outcome with
  | error error => cases h
  | ok value => exact ⟨value, rfl, Except.ok.inj h⟩

/-- Changing the value of a success brings in no error. -/
theorem eq_error_of_map_eq_error {ε α β : Type} {result : Except ε α} {f : α → β} {error : ε}
    (h : result.map f = .error error) : result = .error error := by
  cases result with
  | error other =>
    cases h
    rfl
  | ok value => cases h

namespace Action

variable {σ τ ε ε' α β : Type}

@[simp]
theorem outcomeFrom_pure (value : α) (state : σ) :
    (pure value : Action σ ε α).outcomeFrom state = .ok value := rfl

@[simp]
theorem stateFrom_pure (value : α) (state : σ) :
    (pure value : Action σ ε α).stateFrom state = state := rfl

@[simp]
theorem outcomeFrom_throw (error : ε) (state : σ) :
    (throw error : Action σ ε α).outcomeFrom state = .error error := rfl

@[simp]
theorem stateFrom_throw (error : ε) (state : σ) :
    (throw error : Action σ ε α).stateFrom state = state := rfl

@[simp]
theorem outcomeFrom_get (state : σ) :
    (get : Action σ ε σ).outcomeFrom state = .ok state := rfl

@[simp]
theorem stateFrom_get (state : σ) : (get : Action σ ε σ).stateFrom state = state := rfl

@[simp]
theorem outcomeFrom_modify (f : σ → σ) (state : σ) :
    (modify f : Action σ ε Unit).outcomeFrom state = .ok () := rfl

@[simp]
theorem stateFrom_modify (f : σ → σ) (state : σ) :
    (modify f : Action σ ε Unit).stateFrom state = f state := rfl

@[simp]
theorem outcomeFrom_record (level : Level) (message : String) (state : σ) :
    (record level message : Action σ ε Unit).outcomeFrom state = .ok () := rfl

@[simp]
theorem stateFrom_record (level : Level) (message : String) (state : σ) :
    (record level message : Action σ ε Unit).stateFrom state = state := rfl

@[simp]
theorem outcomeFrom_liftM (traced : Traced ε α) (state : σ) :
    (liftM traced : Action σ ε α).outcomeFrom state = traced.outcome := rfl

@[simp]
theorem stateFrom_liftM (traced : Traced ε α) (state : σ) :
    (liftM traced : Action σ ε α).stateFrom state = state := rfl

@[simp]
theorem outcomeFrom_mapError (f : ε → ε') (action : Action σ ε α) (state : σ) :
    (action.mapError f).outcomeFrom state = (action.outcomeFrom state).mapError f := rfl

@[simp]
theorem stateFrom_mapError (f : ε → ε') (action : Action σ ε α) (state : σ) :
    (action.mapError f).stateFrom state = action.stateFrom state := rfl

@[simp]
theorem outcomeFrom_attempt (action : Action σ ε α) (state : σ) :
    (action.attempt : Action σ ε' _).outcomeFrom state = .ok (action.outcomeFrom state) := rfl

@[simp]
theorem stateFrom_attempt (action : Action σ ε α) (state : σ) :
    (action.attempt : Action σ ε' _).stateFrom state = action.stateFrom state := rfl

@[simp]
theorem outcomeFrom_focus (part : τ → σ) (replace : σ → τ → τ) (action : Action σ ε α)
    (whole : τ) : (action.focus part replace).outcomeFrom whole =
      action.outcomeFrom (part whole) := rfl

@[simp]
theorem stateFrom_focus (part : τ → σ) (replace : σ → τ → τ) (action : Action σ ε α)
    (whole : τ) : (action.focus part replace).stateFrom whole =
      replace (action.stateFrom (part whole)) whole := rfl

/-- The result of two actions in a row: the second starts where the first one stops. -/
theorem outcomeFrom_bind (action : Action σ ε α) (next : α → Action σ ε β) (state : σ) :
    (action >>= next).outcomeFrom state =
      (action.outcomeFrom state).bind fun value =>
        (next value).outcomeFrom (action.stateFrom state) := by
  show ((action.andThen next) state).1.outcome = _
  unfold andThen outcomeFrom stateFrom
  cases h : (action state).1.outcome <;> simp only [h] <;> rfl

/-- Two actions in a row leave the state that the second one leaves, unless the first one fails
and its state is the last one. -/
theorem stateFrom_bind (action : Action σ ε α) (next : α → Action σ ε β) (state : σ) :
    (action >>= next).stateFrom state =
      match action.outcomeFrom state with
      | .ok value => (next value).stateFrom (action.stateFrom state)
      | .error _ => action.stateFrom state := by
  show ((action.andThen next) state).2 = _
  unfold andThen outcomeFrom stateFrom
  cases h : (action state).1.outcome <;> simp only [h]

/-- An error of the first of two actions ends both where it occurs. -/
theorem stateFrom_bind_of_error {action : Action σ ε α} {state : σ} {error : ε}
    (h : action.outcomeFrom state = .error error) (next : α → Action σ ε β) :
    (action >>= next).stateFrom state = action.stateFrom state := by
  rw [stateFrom_bind, h]

/-- After a success of the first of two actions the second one decides the state. -/
theorem stateFrom_bind_of_ok {action : Action σ ε α} {state : σ} {value : α}
    (h : action.outcomeFrom state = .ok value) (next : α → Action σ ε β) :
    (action >>= next).stateFrom state = (next value).stateFrom (action.stateFrom state) := by
  rw [stateFrom_bind, h]

/-- Two actions in a row succeed exactly when both do. -/
theorem outcomeFrom_bind_eq_ok {action : Action σ ε α} {next : α → Action σ ε β} {state : σ}
    {result : β} : (action >>= next).outcomeFrom state = .ok result ↔
      ∃ value, action.outcomeFrom state = .ok value ∧
        (next value).outcomeFrom (action.stateFrom state) = .ok result := by
  rw [outcomeFrom_bind]
  cases h : action.outcomeFrom state <;> simp [Except.bind]

/-- Two actions in a row fail exactly when the first fails, or the second does after it. -/
theorem outcomeFrom_bind_eq_error {action : Action σ ε α} {next : α → Action σ ε β} {state : σ}
    {error : ε} : (action >>= next).outcomeFrom state = .error error ↔
      action.outcomeFrom state = .error error ∨
        ∃ value, action.outcomeFrom state = .ok value ∧
          (next value).outcomeFrom (action.stateFrom state) = .error error := by
  rw [outcomeFrom_bind]
  cases action.outcomeFrom state <;> simp [Except.bind]

/-- The second of two actions decides the result once the first one has succeeded. -/
theorem outcomeFrom_bind_of_ok {action : Action σ ε α} {state : σ} {value : α}
    (h : action.outcomeFrom state = .ok value) (next : α → Action σ ε β) :
    (action >>= next).outcomeFrom state = (next value).outcomeFrom (action.stateFrom state) := by
  rw [outcomeFrom_bind, h]
  rfl

/-- An error of the first of two actions is the result of both. -/
theorem outcomeFrom_bind_of_error {action : Action σ ε α} {state : σ} {error : ε}
    (h : action.outcomeFrom state = .error error) (next : α → Action σ ε β) :
    (action >>= next).outcomeFrom state = .error error := by
  rw [outcomeFrom_bind, h]
  rfl

/-- What follows a computation without a state starts where that did. -/
theorem outcomeFrom_liftM_bind_of_ok {traced : Traced ε α} {value : α}
    (h : traced.outcome = .ok value) (next : α → Action σ ε β) (state : σ) :
    ((liftM traced : Action σ ε α) >>= next).outcomeFrom state =
      (next value).outcomeFrom state := by
  have hlift : (liftM traced : Action σ ε α).outcomeFrom state = .ok value := h
  rw [outcomeFrom_bind_of_ok hlift, stateFrom_liftM]

/-- Changing the value of an action changes its result in the same way. -/
theorem outcomeFrom_bind_pure (action : Action σ ε α) (f : α → β) (state : σ) :
    (action >>= fun value => pure (f value)).outcomeFrom state =
      (action.outcomeFrom state).map f := by
  rw [outcomeFrom_bind]
  cases action.outcomeFrom state <;> rfl

/-- Changing the value of an action keeps the state it leaves. -/
theorem stateFrom_bind_pure (action : Action σ ε α) (f : α → β) (state : σ) :
    (action >>= fun value => pure (f value)).stateFrom state = action.stateFrom state := by
  rw [stateFrom_bind]
  cases action.outcomeFrom state <;> rfl

end Action

namespace Numbering

variable {σ ε α : Type} {action : Action σ ε α} {numbering : Numbering σ}

/-- A value that has been computed gets the next number. -/
theorem issue_onInner_of_ok {value : α} (h : action.outcomeFrom numbering.inner = .ok value) :
    (do issue (← onInner action)).outcomeFrom numbering = .ok ⟨numbering.next, value⟩ ∧
      (do issue (← onInner action)).stateFrom numbering =
        ⟨action.stateFrom numbering.inner, numbering.next + 1⟩ := by
  have hinner : (onInner action).outcomeFrom numbering = .ok value := h
  rw [Action.outcomeFrom_bind_of_ok hinner, Action.stateFrom_bind_of_ok hinner]
  exact ⟨rfl, rfl⟩

/-- Where no value could be computed, no number is given out. -/
theorem issue_onInner_of_error {error : ε}
    (h : action.outcomeFrom numbering.inner = .error error) :
    (do issue (← onInner action)).outcomeFrom numbering = .error error ∧
      (do issue (← onInner action)).stateFrom numbering =
        ⟨action.stateFrom numbering.inner, numbering.next⟩ := by
  have hinner : (onInner action).outcomeFrom numbering = .error error := h
  exact ⟨Action.outcomeFrom_bind_of_error hinner _, Action.stateFrom_bind_of_error hinner _⟩

end Numbering

end ShaderAssembly
