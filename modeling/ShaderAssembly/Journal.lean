/-!
# Journals

A computation reports what it does in records of five levels. `Traced` is a result together with
the records made on the way to it; they are kept when the result is an error. `Action` is the same
for computations that also change a state, which an error does not undo.
-/

namespace ShaderAssembly

/-- How important a record is, the most important level first. -/
inductive Level where
  | error
  | warning
  | info
  | debug
  | trace
  deriving DecidableEq, Repr, Inhabited

namespace Level

/-- The place of a level, the most important first. -/
def rank : Level → Nat
  | .error => 0
  | .warning => 1
  | .info => 2
  | .debug => 3
  | .trace => 4

/-- The name of a level in journals. -/
def name : Level → String
  | .error => "ERROR"
  | .warning => "WARN"
  | .info => "INFO"
  | .debug => "DEBUG"
  | .trace => "TRACE"

end Level

/-- One record of a journal. -/
structure Record where
  /-- How important it is. -/
  level : Level
  /-- What was done. -/
  message : String
  deriving DecidableEq, Repr, Inhabited

/-- The records of a level or a more important one. -/
def Record.upTo (level : Level) (records : List Record) : List Record :=
  records.filter fun record => record.level.rank ≤ level.rank

/-- A result or an error, with the records made on the way. -/
structure Traced (ε α : Type) where
  /-- The records, the first one first. -/
  records : List Record
  /-- The result. -/
  outcome : Except ε α

namespace Traced

variable {ε α β : Type}

/-- A result without records. -/
def ofOutcome (outcome : Except ε α) : Traced ε α := ⟨[], outcome⟩

/-- Puts records before those of a computation. -/
def after (records : List Record) (traced : Traced ε α) : Traced ε α :=
  ⟨records ++ traced.records, traced.outcome⟩

/-- Goes on with a result; an error ends the computation. -/
def andThen (traced : Traced ε α) (next : α → Traced ε β) : Traced ε β :=
  match traced.outcome with
  | .ok a => (next a).after traced.records
  | .error e => ⟨traced.records, .error e⟩

instance : Monad (Traced ε) where
  pure a := ofOutcome (.ok a)
  bind := andThen

instance : MonadExceptOf ε (Traced ε) where
  throw e := ofOutcome (.error e)
  tryCatch traced handle :=
    match traced.outcome with
    | .ok _ => traced
    | .error e => (handle e).after traced.records

instance : MonadLift (Except ε) (Traced ε) := ⟨ofOutcome⟩

/-- Makes one record. -/
def record (level : Level) (message : String) : Traced ε Unit := ⟨[⟨level, message⟩], .ok ()⟩

/-- Changes the error of a computation that fails. -/
def mapError {ε' : Type} (f : ε → ε') (traced : Traced ε α) : Traced ε' α :=
  ⟨traced.records, traced.outcome.mapError f⟩

@[simp]
theorem outcome_pure (a : α) : (pure a : Traced ε α).outcome = .ok a := rfl

@[simp]
theorem outcome_throw (e : ε) : (throw e : Traced ε α).outcome = .error e := rfl

@[simp]
theorem outcome_record (level : Level) (message : String) :
    (record level message : Traced ε Unit).outcome = .ok () := rfl

/-- The result of two computations in a row is that of running one and then the other. -/
theorem outcome_bind (traced : Traced ε α) (next : α → Traced ε β) :
    (traced >>= next).outcome = traced.outcome >>= fun a => (next a).outcome := by
  show (traced.andThen next).outcome = _
  unfold andThen
  cases traced.outcome <;> rfl

/-- Two computations in a row succeed exactly when both do. -/
theorem outcome_bind_eq_ok {traced : Traced ε α} {next : α → Traced ε β} {b : β} :
    (traced >>= next).outcome = .ok b ↔
      ∃ a, traced.outcome = .ok a ∧ (next a).outcome = .ok b := by
  rw [outcome_bind]
  cases h : traced.outcome with
  | error e => simp [bind, Except.bind]
  | ok a => simp [bind, Except.bind]

end Traced

/-- A computation that reads and changes a state, makes records and may fail. -/
def Action (σ ε α : Type) : Type := σ → Traced ε α × σ

namespace Action

variable {σ ε α β : Type}

/-- Goes on with a result; an error ends the computation and keeps the state. -/
def andThen (action : Action σ ε α) (next : α → Action σ ε β) : Action σ ε β := fun state =>
  let (traced, state) := action state
  match traced.outcome with
  | .ok a =>
    let (rest, state) := next a state
    (rest.after traced.records, state)
  | .error e => (⟨traced.records, .error e⟩, state)

instance : Monad (Action σ ε) where
  pure a := fun state => (pure a, state)
  bind := andThen

instance : MonadExceptOf ε (Action σ ε) where
  throw e := fun state => (throw e, state)
  tryCatch action handle := fun state =>
    let (traced, state) := action state
    match traced.outcome with
    | .ok _ => (traced, state)
    | .error e =>
      let (rest, state) := handle e state
      (rest.after traced.records, state)

instance : MonadStateOf σ (Action σ ε) where
  get := fun state => (pure state, state)
  set state := fun _ => (pure (), state)
  modifyGet f := fun state => (pure (f state).1, (f state).2)

instance : MonadLift (Traced ε) (Action σ ε) := ⟨fun traced state => (traced, state)⟩

/-- Makes one record. -/
def record (level : Level) (message : String) : Action σ ε Unit := fun state =>
  (Traced.record level message, state)

/-- Runs a computation and gives its result or its error as a value. -/
def attempt {ε' : Type} (action : Action σ ε α) : Action σ ε' (Except ε α) := fun state =>
  let (traced, state) := action state
  (⟨traced.records, .ok traced.outcome⟩, state)

/-- Changes the error of a computation that fails. -/
def mapError {ε' : Type} (f : ε → ε') (action : Action σ ε α) : Action σ ε' α := fun state =>
  let (traced, state) := action state
  (traced.mapError f, state)

/-- Runs a computation on a part of a larger state. -/
def focus {τ : Type} (part : τ → σ) (replace : σ → τ → τ) (action : Action σ ε α) :
    Action τ ε α := fun whole =>
  let (traced, state) := action (part whole)
  (traced, replace state whole)

/-- The result of running a computation from a state. -/
def outcomeFrom (action : Action σ ε α) (state : σ) : Except ε α := (action state).1.outcome

/-- The state a computation leaves. -/
def stateFrom (action : Action σ ε α) (state : σ) : σ := (action state).2

end Action

end ShaderAssembly
