import ShaderAssembly.Proofs.IncludeSubstitution
import ShaderAssembly.Proofs.WrittenTokens

/-!
# Texts without include lines

A text is ordinary if none of its lines is an include line, so that it expands to itself. What
stands around the code of a written shader never starts or completes an include line: marks and
names come without a number sign, and the brace behind the code does not make one of its last line.
-/

namespace ShaderAssembly

namespace Include

/-- Whether no line of a text is an include line. -/
def IsOrdinary (text : List Char) : Prop :=
  ∀ line ∈ Text.lines text, Directive.ofLine line = .none

instance (text : List Char) : Decidable (IsOrdinary text) :=
  inferInstanceAs (Decidable (∀ line ∈ Text.lines text, Directive.ofLine line = .none))

theorem isOrdinary_nil : IsOrdinary [] := nofun

/-- Only a number sign makes an include line of a line before which it stands. -/
theorem Directive.ofLine_cons {c : Char} {line : List Char} (hc : c ≠ '#')
    (h : ofLine line = .none) : ofLine (c :: line) = .none := by
  by_cases hblank : Text.isBlank c = true
  · have htrim : Text.trimStart (c :: line) = Text.trimStart line := by
      rw [Text.trimStart, List.dropWhile_cons_of_pos hblank, Text.trimStart]
    unfold ofLine afterWord? at h ⊢
    rwa [htrim]
  · have htrim : Text.trimStart (c :: line) = c :: line := by
      rw [Text.trimStart, List.dropWhile_cons_of_neg hblank]
    have hword : afterWord? (c :: line) = Option.none := by
      unfold afterWord?
      rw [htrim]
      split
      · rename_i heq
        exact absurd (List.cons.inj heq).1 hc
      · rfl
    rw [ofLine, hword]

theorem IsOrdinary.cons {c : Char} {text : List Char} (h : IsOrdinary text) (hc : c ≠ '#') :
    IsOrdinary (c :: text) := by
  by_cases hend : c = '\n'
  · intro line hline
    rw [hend, Text.lines_newline] at hline
    rcases List.mem_cons.mp hline with rfl | hrest
    · decide
    · exact h line hrest
  · intro line hline
    cases hlines : Text.lines text with
    | nil =>
      obtain rfl := Text.lines_eq_nil.mp hlines
      rw [Text.lines, if_neg hend, hlines] at hline
      obtain rfl := List.mem_singleton.mp hline
      exact Directive.ofLine_cons hc rfl
    | cons first more =>
      rw [Text.lines_cons_of_ne hend hlines] at hline
      rcases List.mem_cons.mp hline with rfl | hrest
      · exact Directive.ofLine_cons hc (h first (by simp [hlines]))
      · exact h line (by simp [hlines, hrest])

/-- Without a number sign nothing that stands before a text makes an include line of it. -/
theorem IsOrdinary.append {before text : List Char} (h : IsOrdinary text)
    (hbefore : '#' ∉ before) : IsOrdinary (before ++ text) := by
  induction before with
  | nil => exact h
  | cons c rest ih =>
    rw [List.mem_cons, not_or] at hbefore
    exact (ih hbefore.2).cons (Ne.symm hbefore.1)

/-- A brace behind an ordinary line does not make an include line of it. -/
theorem IsOrdinary.line_brace {line text : List Char} (hline : '\n' ∉ line)
    (hnone : Directive.ofLine line = .none) (h : IsOrdinary ('}' :: text)) :
    IsOrdinary (line ++ '}' :: text) := by
  obtain ⟨first, more, hfound⟩ : ∃ first more,
      Text.lines ('}' :: text) = ('}' :: first) :: more := by
    cases hmore : Text.lines text with
    | nil => exact ⟨[], [], by rw [Text.lines, if_neg (by decide), hmore]⟩
    | cons first more => exact ⟨first, more, Text.lines_cons_of_ne (by decide) hmore⟩
  have hends : Directive.EndsBefore ('}' :: first) := by
    constructor
    · rintro _ ⟨⟩
      decide
    · rintro _ ⟨⟩
      decide
  intro next hnext
  rw [Text.lines_append_of_not_mem hline hfound] at hnext
  rcases List.mem_cons.mp hnext with rfl | hmore
  · exact Directive.ofLine_append hends hnone
  · exact h next (by simp [hfound, hmore])

/-- The brace behind a body does not make an include line of its last line. -/
theorem IsOrdinary.append_brace {body text : List Char} (hbody : IsOrdinary body)
    (h : IsOrdinary ('}' :: text)) : IsOrdinary (body ++ '}' :: text) := by
  generalize hlines : Text.lines body = lines
  -- The lines of the body one after the other; only the last one may not be ended.
  induction lines generalizing body with
  | nil =>
    obtain rfl := Text.lines_eq_nil.mp hlines
    exact h
  | cons line lines ih =>
    obtain ⟨other, rfl, hline, hother, hends⟩ := Text.lines_eq_cons hlines
    have hfirst : Directive.ofLine line = .none := hbody line (by simp [hlines])
    have hrest : IsOrdinary (other ++ '}' :: text) :=
      ih (fun next hnext => hbody next (by rw [hlines, ← hother]; exact .tail _ hnext)) hother
    rw [List.append_assoc]
    obtain ⟨before, hbefore, rfl | rfl⟩ := Text.eq_of_lines_eq_singleton hline
    · obtain rfl : other = [] := by
        refine hends.resolve_right fun hends => ?_
        rcases hends with rfl | hlast
        · simp at hline
        · exact hbefore (List.mem_of_getLast? hlast)
      exact .line_brace hbefore hfirst h
    · intro next hnext
      rw [Text.lines_append (.inr List.getLast?_concat), hline] at hnext
      rcases List.mem_append.mp hnext with hnext | hnext
      · obtain rfl := List.mem_singleton.mp hnext
        exact hfirst
      · exact hrest next hnext

end Include

/-! ### Written texts -/

namespace Word

open ShaderAssembly.Include (IsOrdinary)

/-- Neither a mark nor a name has a number sign in it, and no gap. -/
theorem not_mem_gap {gap : List Char} (h : ∀ c ∈ gap, Text.isBlank c = true) : '#' ∉ gap :=
  fun hmem => absurd (h '#' hmem) (by decide)

theorem not_mem_name {name : List Char} (h : Piece.isName name = true) : '#' ∉ name :=
  fun hmem => absurd (Piece.continuesName_of_mem_name h hmem) (by decide)

/-- Whether no code among words has an include line. -/
def HasOrdinaryCode (words : List Word) : Prop :=
  ∀ word ∈ words, word.kind = .body → IsOrdinary word.lexeme

section Code

variable {word : Word} {words more : List Word}

@[simp]
theorem hasOrdinaryCode_nil : HasOrdinaryCode [] := nofun

@[simp]
theorem hasOrdinaryCode_cons : HasOrdinaryCode (word :: words) ↔
    (word.kind = .body → IsOrdinary word.lexeme) ∧ HasOrdinaryCode words :=
  List.forall_mem_cons

@[simp]
theorem hasOrdinaryCode_append : HasOrdinaryCode (words ++ more) ↔
    HasOrdinaryCode words ∧ HasOrdinaryCode more :=
  List.forall_mem_append

@[simp]
theorem hasOrdinaryCode_flatMap {α : Type} {write : α → List Word} {items : List α} :
    HasOrdinaryCode (items.flatMap write) ↔ ∀ item ∈ items, HasOrdinaryCode (write item) :=
  List.forall_mem_flatMap

end Code

/-- If no line of the code in legible words is an include line, then none of their text is. -/
theorem IsLegible.isOrdinary {rule : Option BlockRule} {state : ScanState} {words : List Word}
    (h : IsLegible rule state words) (hcode : HasOrdinaryCode words) :
    IsOrdinary (text words) := by
  induction h with
  | finish => exact Include.isOrdinary_nil
  | mark _ hmark hgap _ _ ih =>
    have hrest := ih (hasOrdinaryCode_cons.mp hcode).2
    rw [text_cons]
    refine (hrest.append (not_mem_gap hgap)).cons ?_
    rintro rfl
    exact nomatch hmark
  | name _ hname hgap _ _ ih =>
    have hrest := ih (hasOrdinaryCode_cons.mp hcode).2
    rw [text_cons]
    exact (hrest.append (not_mem_gap hgap)).append (not_mem_name hname)
  | body _ _ hgap _ ih =>
    simp only [hasOrdinaryCode_cons] at hcode
    obtain ⟨hbody, -, hcode⟩ := hcode
    have hclosing := ((ih hcode).append (not_mem_gap hgap)).cons (by decide : '}' ≠ '#')
    rw [text_cons, text_cons, List.nil_append, List.singleton_append]
    exact (hbody trivial).append_brace hclosing

end Word

end ShaderAssembly
