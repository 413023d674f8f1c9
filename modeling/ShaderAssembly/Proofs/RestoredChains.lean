import ShaderAssembly.Include.Expand
import ShaderAssembly.Proofs.Actions

/-!
# Chains of open files are restored

An expansion puts files on the chain of open files and takes them off again, on every way out: at
the end of a file, at a malformed include line, at a cycle, at a file that cannot be read, at any
depth. Nothing is assumed of the provider here. It may fail, and what it gives may change from one
read to the next.

So an expansion that failed does not matter to a later one on the same chain, which goes as if it
had a chain of its own.
-/

namespace ShaderAssembly.Include

variable {σ α β : Type}

/-- Whether a computation leaves the chain of open files as it was, from any state and whether it
succeeds or fails. -/
def Restores (action : Action (Expanding σ) Error α) : Prop :=
  ∀ expanding, (action.stateFrom expanding).openFiles = expanding.openFiles

namespace Restores

variable {action : Action (Expanding σ) Error α}

theorem pure (value : α) : Restores (Pure.pure value : Action (Expanding σ) Error α) :=
  fun _ => rfl

theorem throw (error : Error) :
    Restores (MonadExcept.throw error : Action (Expanding σ) Error α) :=
  fun _ => rfl

theorem record (level : Level) (message : String) :
    Restores (Action.record level message : Action (Expanding σ) Error Unit) :=
  fun _ => rfl

theorem get : Restores (MonadState.get : Action (Expanding σ) Error (Expanding σ)) :=
  fun _ => rfl

/-- What the provider does is not about the chain. -/
theorem onSources (action : Action σ Error α) : Restores (Expanding.onSources action) :=
  fun _ => rfl

/-- Of two computations in a row the second one runs or not, and both restore the chain. -/
theorem bind (h : Restores action) {next : α → Action (Expanding σ) Error β}
    (hnext : ∀ value, Restores (next value)) : Restores (action >>= next) := by
  intro expanding
  cases houtcome : action.outcomeFrom expanding with
  | error error =>
    rw [Action.stateFrom_bind_of_error houtcome]
    exact h expanding
  | ok value =>
    rw [Action.stateFrom_bind_of_ok houtcome]
    exact (hnext value _).trans (h expanding)

/-- A file that is opened for a computation is the last one on the chain afterwards, and is taken
off. -/
theorem during (h : Restores action) (file : SourcePath) :
    Restores (Expanding.during file action) := by
  intro expanding
  have hinner := h { expanding with openFiles := expanding.openFiles ++ [file] }
  have hclosed : ((Expanding.during file action).stateFrom expanding).openFiles =
      (action.stateFrom { expanding with
        openFiles := expanding.openFiles ++ [file] }).openFiles.dropLast := rfl
  rw [hclosed, hinner, List.dropLast_concat]

/-- Looking whether a file is open does not open it. -/
theorem refuseOpen (file : SourcePath) (position : Position) :
    Restores (Expanding.refuseOpen file position : Action (Expanding σ) Error Unit) := by
  refine get.bind fun expanding => ?_
  dsimp only
  split
  · exact .throw _
  · exact .pure _

/-- A computation that restores the chain changes nothing but the state of the provider. -/
theorem stateFrom_eq (h : Restores action) (sources : σ) (openFiles : List SourcePath) :
    action.stateFrom ⟨sources, openFiles⟩ =
      ⟨(withOpen openFiles action).stateFrom sources, openFiles⟩ :=
  congrArg (Expanding.mk _) (h ⟨sources, openFiles⟩)

/-- What comes later on the same chain goes as if it had a chain of its own, though the computation
before it may have failed. -/
theorem withOpen_attempt_bind (h : Restores action)
    (next : Except Error α → Action (Expanding σ) Error β) (openFiles : List SourcePath) :
    withOpen openFiles (action.attempt >>= next) =
      (withOpen openFiles action).attempt >>= fun outcome => withOpen openFiles (next outcome) := by
  funext sources
  have hrun : action ⟨sources, openFiles⟩ = ((action ⟨sources, openFiles⟩).1,
      ⟨(withOpen openFiles action).stateFrom sources, openFiles⟩) :=
    Prod.ext rfl (h.stateFrom_eq sources openFiles)
  show ((Action.andThen action.attempt next ⟨sources, openFiles⟩).1,
    (Action.andThen action.attempt next ⟨sources, openFiles⟩).2.sources) =
      Action.andThen (withOpen openFiles action).attempt _ sources
  simp only [Action.andThen, Action.attempt]
  rw [hrun]
  rfl

end Restores

/-! ### Expansions -/

/-- Lines restore the chain if every include line does. -/
theorem restores_expandLines
    {expand : SourcePath → String → Position → Expansion →
      Action (Expanding σ) Error Expansion}
    (hexpand : ∀ file target position out, Restores (expand file target position out))
    (file : SourcePath) (number : Nat) (lines : List (List Char)) (out : Expansion) :
    Restores (expandLines expand file number lines out) := by
  induction lines generalizing number out with
  | nil => exact .pure _
  | cons line rest ih =>
    unfold expandLines
    dsimp only
    split
    · exact (Restores.pure _).bind (ih (number + 1))
    · exact (Restores.throw _).bind (ih (number + 1))
    · exact (hexpand file _ _ out).bind (ih (number + 1))

/-- An include line restores the chain, however deep its expansion may go. -/
theorem restores_expandTarget (provider : Provider σ) (depth : Nat) (includer : SourcePath)
    (target : String) (position : Position) (out : Expansion) :
    Restores (expandTarget provider depth includer target position out) := by
  induction depth generalizing includer target position out with
  | zero => exact .throw _
  | succ depth ih =>
    refine (Restores.refuseOpen _ position).bind fun _ => ?_
    refine (Restores.onSources _).bind fun text => ?_
    refine (Restores.record _ _).bind fun _ => ?_
    have hinner := restores_expandLines ih (includer.resolveInclude target) 1
      (Text.lines text.toList)
    exact ((hinner _).during _).bind fun inner => .pure _

theorem restores_expandText (provider : Provider σ) (file : SourcePath) (text : String)
    (firstLine : Nat) : Restores (expandText provider file text firstLine) :=
  Restores.get.bind fun _ =>
    restores_expandLines (restores_expandTarget provider _) file firstLine _ _

theorem restores_expandFile (provider : Provider σ) (path : SourcePath) :
    Restores (expandFile provider path) := by
  refine (Restores.onSources _).bind fun text => ?_
  exact ((restores_expandText provider path text 1).during path).bind fun inner => .pure _

/-- Expanding a file, a text or the lines of a file behind whatever was put out leaves the chain of
open files as it was, from any chain, whatever the provider does, however deep the expansion may
go, and whether it succeeds or fails. -/
theorem expansions_restore_chains (provider : Provider σ) (openFiles : List SourcePath)
    (sources : σ) :
    (∀ path, ((expandFile provider path).stateFrom ⟨sources, openFiles⟩).openFiles = openFiles) ∧
    (∀ file text firstLine,
      ((expandText provider file text firstLine).stateFrom ⟨sources, openFiles⟩).openFiles =
        openFiles) ∧
    ∀ depth file number lines out,
      ((expandLines (expandTarget provider depth) file number lines out).stateFrom
        ⟨sources, openFiles⟩).openFiles = openFiles :=
  ⟨fun path => restores_expandFile provider path _,
    fun file text firstLine => restores_expandText provider file text firstLine _,
    fun depth file number lines out =>
      restores_expandLines (restores_expandTarget provider depth) file number lines out _⟩

end ShaderAssembly.Include
