/-!
# Numbers that are given out once

A counter gives out numbers. Somebody takes the next one, holds it for a while, and then uses it
up, so that from then on it has been seen. Whatever else happens in between, a number that is held
has not been seen, and nobody else holds it.
-/

namespace ShaderAssembly

variable {ι : Type} {next later : Nat} {seen seenLater : Nat → Prop}
  {held heldLater : ι → Option Nat}

/-- Whether numbers that somebody holds are apart from those that have been seen and from each
other, and the counter is beyond all of them. -/
structure FreshNumbers (next : Nat) (seen : Nat → Prop) (held : ι → Option Nat) : Prop where
  /-- A number that has been seen has been given out. -/
  seen_lt : ∀ number, seen number → number < next
  /-- A number that somebody holds has been given out. -/
  held_lt : ∀ holder number, held holder = some number → number < next
  /-- A number that somebody holds has not been seen. -/
  unseen : ∀ holder number, held holder = some number → ¬seen number
  /-- Nobody else holds it. -/
  distinct : ∀ holder other number, held holder = some number → held other = some number →
    holder = other

namespace FreshNumbers

/-- Before anybody has taken a number, all that have been seen have to be given out. -/
theorem of_unheld (hseen : ∀ number, seen number → number < next)
    (hheld : ∀ holder, held holder = none) : FreshNumbers next seen held := by
  have hnone : ∀ {holder number}, held holder ≠ some number := fun h =>
    absurd ((hheld _).symm.trans h) nofun
  exact ⟨hseen, fun _ _ h => absurd h hnone, fun _ _ h => absurd h hnone,
    fun _ _ _ h => absurd h hnone⟩

/-- Numbers stay apart if only numbers that somebody gives away get seen, and at most one holder
takes a number, the next one. -/
theorem step (h : FreshNumbers next seen held) (taker? : Option ι) (hnext : next ≤ later)
    (hseen : ∀ number, seenLater number →
      seen number ∨ ∃ holder, held holder = some number ∧ heldLater holder = none)
    (hheld : ∀ holder number, heldLater holder = some number →
      held holder = some number ∨ taker? = some holder ∧ number = next ∧ next < later) :
    FreshNumbers later seenLater heldLater := by
  have hseen_lt : ∀ number, seenLater number → number < next := fun number hnumber =>
    (hseen number hnumber).elim (h.seen_lt number) fun ⟨holder, hholder, _⟩ =>
      h.held_lt holder number hholder
  refine ⟨fun number hnumber => Nat.lt_of_lt_of_le (hseen_lt number hnumber) hnext,
    fun holder number hholder => ?_, fun holder number hholder hnumber => ?_,
    fun holder other number hholder hother => ?_⟩
  · rcases hheld holder number hholder with hold | ⟨-, rfl, hlt⟩
    · exact Nat.lt_of_lt_of_le (h.held_lt holder number hold) hnext
    · exact hlt
  · rcases hheld holder number hholder with hold | ⟨-, rfl, -⟩
    · rcases hseen number hnumber with hbefore | ⟨giver, hgiver, hgone⟩
      · exact h.unseen holder number hold hbefore
      · rw [h.distinct holder giver number hold hgiver, hgone] at hholder
        cases hholder
    · exact Nat.lt_irrefl _ (hseen_lt _ hnumber)
  · rcases hheld holder number hholder with hold | ⟨htaker, rfl, -⟩
    · rcases hheld other number hother with holdother | ⟨-, rfl, -⟩
      · exact h.distinct holder other number hold holdother
      · exact absurd (h.held_lt holder _ hold) (Nat.lt_irrefl _)
    · rcases hheld other _ hother with holdother | ⟨htakes, -, -⟩
      · exact absurd (h.held_lt other _ holdother) (Nat.lt_irrefl _)
      · exact Option.some.inj (htaker.symm.trans htakes)

end FreshNumbers

end ShaderAssembly
