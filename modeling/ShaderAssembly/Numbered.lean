import ShaderAssembly.Journal

/-!
# Numbered values

Two compilations can be equal and still be two. Where it matters which of them is meant, each gets
a number of its own, and only the numbers are compared.
-/

namespace ShaderAssembly

/-- A value that a number tells from all others. -/
structure Numbered (α : Type) where
  /-- The number. -/
  number : Nat
  /-- The value. -/
  value : α
  deriving DecidableEq, Repr

/-- Whether two numbered values are the same one. -/
def Numbered.isSame {α : Type} (left right : Numbered α) : Bool := left.number == right.number

/-- A state together with how many numbers have been given out. -/
structure Numbering (σ : Type) where
  /-- The state. -/
  inner : σ
  /-- The next number. -/
  next : Nat
  deriving DecidableEq, Repr

namespace Numbering

variable {σ ε α : Type}

/-- Runs a computation that gives out no numbers. -/
def onInner (action : Action σ ε α) : Action (Numbering σ) ε α :=
  action.focus Numbering.inner fun inner numbering => { numbering with inner }

/-- Gives a value the next number. -/
def issue (value : α) : Action (Numbering σ) ε (Numbered α) := do
  let number := (← get).next
  modify fun numbering => { numbering with next := number + 1 }
  return ⟨number, value⟩

end Numbering

end ShaderAssembly
