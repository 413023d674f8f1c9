import ShaderAssembly.Proofs.ScannedTokens

/-!
# Tokens stand one behind the other

What is read of a text next starts where the text that has been passed over ends. So of two tokens
of a text the later one stands behind the earlier one, line by line and within a line column by
column. Only an empty body and the brace that closes it stand in the same place.
-/

namespace ShaderAssembly

namespace Place

/-- Whether a place stands before another one of the same text. -/
def Precedes (place other : Place) : Prop :=
  place.line < other.line ∨ place.line = other.line ∧ place.column < other.column

theorem Precedes.trans {place other last : Place} (h : place.Precedes other)
    (hlast : other.Precedes last) : place.Precedes last := by
  unfold Precedes at *
  omega

theorem precedes_next (place : Place) (c : Char) : place.Precedes (place.next c) := by
  unfold next
  split
  · exact .inl (Nat.lt_succ_self _)
  · exact .inr ⟨rfl, Nat.lt_succ_self _⟩

/-- Behind a text is behind its start, unless the text is empty. -/
theorem precedes_after {text : List Char} (h : text ≠ []) (place : Place) :
    place.Precedes (place.after text) := by
  induction text generalizing place with
  | nil => exact absurd rfl h
  | cons c rest ih =>
    rw [after_cons]
    by_cases hrest : rest = []
    · rw [hrest]
      exact place.precedes_next c
    · exact (place.precedes_next c).trans (ih hrest _)

end Place

namespace Position

/-- The place of a position in its file. -/
def place (position : Position) : Place := ⟨position.line, position.column⟩

/-- Whether a position stands before another one of the same file. -/
def Precedes (position other : Position) : Prop :=
  position.file = other.file ∧ position.place.Precedes other.place

/-- No position stands before itself. -/
theorem Precedes.ne {position other : Position} (h : position.Precedes other) :
    position ≠ other := by
  rintro rfl
  obtain ⟨-, hline | ⟨-, hcolumn⟩⟩ := h
  · exact Nat.lt_irrefl _ hline
  · exact Nat.lt_irrefl _ hcolumn

end Position

namespace Token

variable {rule : Option BlockRule} {file : SourcePath} {state : ScanState} {text : List Char}

/-- Whether a token stands in a text of a file that starts at a place, at its start or behind some
of it. -/
def StandsFrom (file : SourcePath) (place : Place) (token : Token) : Prop :=
  ∃ passed, token.position = .ofPlace file (place.after passed)

/-- What stands behind some of a text stands behind its start. -/
theorem StandsFrom.of_after {place : Place} {passed : List Char} {token : Token}
    (h : token.StandsFrom file (place.after passed)) : token.StandsFrom file place := by
  obtain ⟨more, hposition⟩ := h
  exact ⟨passed ++ more, by rw [hposition, Place.after_append]⟩

/-- What stands behind a text that is not empty stands strictly behind its start. -/
theorem StandsFrom.precedes {place : Place} {passed : List Char} {token : Token}
    (hpassed : passed ≠ []) (h : token.StandsFrom file (place.after passed)) :
    (Position.ofPlace file place).Precedes token.position := by
  obtain ⟨more, hposition⟩ := h
  rw [hposition, ← Place.after_append]
  exact ⟨rfl, Place.precedes_after (by simp [hpassed]) place⟩

/-- Tokens stand where the text that is left starts, or behind that. -/
theorem standsFrom_of_mem_scanFrom :
    ∀ token ∈ scanFrom rule file state text, token.StandsFrom file state.place := by
  have hstart : ∀ kind lexeme place,
      (⟨kind, lexeme, .ofPlace file place⟩ : Token).StandsFrom file place :=
    fun _ _ _ => ⟨[], rfl⟩
  fun_induction scanFrom rule file state text with
  | case1 | case3 | case5 => exact List.forall_mem_singleton.mpr (hstart _ _ _)
  | case2 state text _ hbrace body after hbody closing ih =>
    refine List.forall_mem_cons.mpr ⟨hstart _ _ _, List.forall_mem_cons.mpr ⟨?_, ?_⟩⟩
    · exact (hstart _ _ _).of_after
    · exact fun token htoken => (ih token htoken).of_after.of_after
  | case4 state hbrace c text piece after hcontent ih =>
    exact fun token htoken => (ih token htoken).of_after
  | case6 state _ hbrace c text piece after kind lexeme hcontent token hkind ih =>
    refine List.forall_mem_cons.mpr ⟨hstart _ _ _, ?_⟩
    exact fun token htoken => (ih token htoken).of_after

/-- Of two tokens of a text the later one stands behind the earlier one, if it is no brace that
closes a body. -/
theorem pairwise_scanFrom : (scanFrom rule file state text).Pairwise fun earlier later =>
    later.kind ≠ .closeBrace → earlier.position.Precedes later.position := by
  fun_induction scanFrom rule file state text with
  | case1 | case3 | case5 => exact List.pairwise_singleton _ _
  | case2 state text _ hbrace body after hbody closing ih =>
    refine .cons (List.forall_mem_cons.mpr ⟨fun hkind => absurd rfl hkind, ?_⟩) (.cons ?_ ih)
    · intro token htoken _
      have hstands : token.StandsFrom file (state.place.after (body ++ ['}'])) := by
        rw [Place.after_append]
        exact standsFrom_of_mem_scanFrom token htoken
      exact hstands.precedes (by simp)
    · intro token htoken _
      exact (standsFrom_of_mem_scanFrom token htoken).precedes (List.cons_ne_nil _ _)
  | case4 state hbrace c text piece after hcontent ih => exact ih
  | case6 state _ hbrace c text piece after kind lexeme hcontent token hkind ih =>
    refine .cons (fun other hother _ => ?_) ih
    exact (standsFrom_of_mem_scanFrom other hother).precedes (Piece.read_spelling_ne_nil c text)

theorem pairwise_scan (rule : Option BlockRule) (file : SourcePath) (text : String) :
    (scan rule file text).Pairwise fun earlier later =>
      later.kind ≠ .closeBrace → earlier.position.Precedes later.position :=
  pairwise_scanFrom

end Token

end ShaderAssembly
