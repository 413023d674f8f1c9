import Mathlib.Data.List.TakeWhile
import ShaderAssembly.Token.Scan

/-!
# Bodies of code among the tokens

A body token is a part of the text, right after an opening brace and right before a closing one,
and its position is that of its first character. A name has no line feed. These are the two facts
about tokens that decide where the lines of a stage come from.
-/

namespace ShaderAssembly

/-- Whether a body stands in a text between braces, its first character at a place. -/
def StandsAt (text body : List Char) (place : Place) : Prop :=
  ∃ before after, text = before ++ '{' :: (body ++ '}' :: after) ∧
    place = Place.start.after (before ++ ['{'])

/-- What the token of a body or a name in a text of a file is like. -/
structure Token.IsFrom (file : SourcePath) (text : List Char) (token : Token) : Prop where
  /-- A body stands in the text where the token does. -/
  body : token.kind = .body → ∃ place, StandsAt text token.lexeme.toList place ∧
    token.position = Position.ofPlace file place
  /-- A name has only characters of names. -/
  name : token.kind = .identifier → ∀ c ∈ token.lexeme.toList, Piece.continuesName c = true

namespace Piece

/-- What the content of a piece says about the piece. -/
structure IsRead (piece : Piece) (kind : TokenKind) (lexeme : List Char) : Prop where
  /-- An opening brace is spelled as one. -/
  brace : kind = .openBrace → piece.spelling = ['{']
  /-- A name has only characters of names. -/
  name : kind = .identifier → ∀ c ∈ lexeme, continuesName c = true
  /-- Bodies are not read as pieces. -/
  ne_body : kind ≠ .body

/-- The only mark that is an opening brace. -/
theorem eq_of_punctuation?_openBrace {c : Char} (h : punctuation? c = some .openBrace) :
    c = '{' := by
  unfold punctuation? at h
  split at h <;> simp_all

/-- No mark is a name or a body. -/
theorem punctuation?_ne {c : Char} {kind : TokenKind} (h : punctuation? c = some kind) :
    kind ≠ .identifier ∧ kind ≠ .body := by
  unfold punctuation? at h
  split at h <;> simp_all <;> subst h <;> decide

/-- A character that can start a name can continue one. -/
theorem continuesName_of_startsName {c : Char} (h : startsName c = true) :
    continuesName c = true := by
  rw [startsName, Bool.or_eq_true] at h
  rw [continuesName, Char.isAlphanum, Bool.or_eq_true, Bool.or_eq_true]
  exact h.imp .inl id

/-- What the content of a word says about it. -/
theorem isRead_of_readWord {c : Char} {rest after : List Char} {piece : Piece}
    (h : readWord c rest = (piece, after)) {kind : TokenKind} {lexeme : List Char}
    (hcontent : piece.content = some (kind, lexeme)) : piece.IsRead kind lexeme := by
  unfold readWord at h
  split at h
  · rename_i hstarts
    cases h
    cases hcontent
    refine ⟨nofun, fun _ d hmem => ?_, nofun⟩
    rcases List.mem_cons.mp hmem with rfl | hrest
    · exact continuesName_of_startsName hstarts
    · exact List.mem_takeWhile_imp hrest
  · split at h
    · cases h
      cases hcontent
      exact ⟨nofun, nofun, nofun⟩
    · split at h
      · cases h
        cases hcontent
        split <;> exact ⟨nofun, nofun, nofun⟩
      · cases h
        cases hcontent
        exact ⟨nofun, nofun, nofun⟩

/-- What the content of the first piece of a text says about it. -/
theorem isRead_of_read {c : Char} {rest after : List Char} {piece : Piece}
    (h : read c rest = (piece, after)) {kind : TokenKind} {lexeme : List Char}
    (hcontent : piece.content = some (kind, lexeme)) : piece.IsRead kind lexeme := by
  unfold read at h
  split at h
  · cases h
    cases hcontent
  · split at h
    · cases h
      cases hcontent
    · split at h
      · cases h
        cases hcontent
      · cases h
        cases hcontent
        exact ⟨nofun, nofun, nofun⟩
    · split at h
      · rename_i mark hmark
        cases h
        cases hcontent
        have hne := punctuation?_ne hmark
        refine ⟨fun hbrace => ?_, fun hname => absurd hname hne.1, hne.2⟩
        rw [hbrace] at hmark
        rw [eq_of_punctuation?_openBrace hmark]
      · exact isRead_of_readWord h hcontent

end Piece

namespace Token

/-- A body comes next only right after an opening brace. -/
theorem headAfter_eq_brace {state : ScanState} {rule : BlockRule} {kind : TokenKind}
    {lexeme : List Char} (h : state.headAfter rule kind lexeme = .brace) : kind = .openBrace := by
  unfold ScanState.headAfter at h
  split at h
  · split at h
    · cases h
    · split at h <;> cases h
  · rfl
  · cases h

/-- A body comes next after a token only if that is an opening brace. -/
theorem head_taking_eq_brace {state : ScanState} {rule : Option BlockRule} {kind : TokenKind}
    {lexeme : List Char} (h : (state.taking rule kind lexeme).head = .brace) :
    kind = .openBrace := by
  unfold ScanState.taking at h
  cases rule with
  | none => cases h
  | some rule => exact headAfter_eq_brace h

/-- What holds between the tokens of a text: the place is that of the text that is left, and where
a body comes next a brace stands before it. -/
structure ScanInvariant (whole text : List Char) (state : ScanState) : Prop where
  /-- Some of the text has been passed over. -/
  passed : ∃ before, whole = before ++ text ∧ state.place = Place.start.after before ∧
    (state.head = .brace → ∃ earlier, before = earlier ++ ['{'])

/-- The invariant after more text is passed over. -/
theorem ScanInvariant.advance {whole text spelling rest : List Char} {state after : ScanState}
    (h : ScanInvariant whole text state) (htext : spelling ++ rest = text)
    (hplace : after.place = state.place.after spelling)
    (hhead : after.head = .brace → spelling = ['{']) : ScanInvariant whole rest after := by
  obtain ⟨before, hwhole, hstate, -⟩ := h.passed
  refine ⟨before ++ spelling, ?_, ?_, fun hbrace => ⟨before, by rw [hhead hbrace]⟩⟩
  · rw [hwhole, ← htext, List.append_assoc]
  · rw [hplace, hstate, Place.after_append]

/-- The invariant after a body and the brace behind it. -/
theorem ScanInvariant.behind_body {whole text body rest : List Char} {state : ScanState}
    (h : ScanInvariant whole text state) (hbody : readBody? 0 text = some (body, rest))
    (rule : Option BlockRule) : ScanInvariant whole rest
      (((state.passing body).taking rule .closeBrace ['}']).passing ['}']) := by
  have hspelling : (body ++ ['}']) ++ rest = text := by
    rw [← readBody?_append hbody, List.append_assoc, List.singleton_append]
  refine h.advance hspelling ?_ fun hhead => ?_
  · rw [Place.after_append]
    rfl
  · cases head_taking_eq_brace hhead

/-- A body that comes next is from the text. -/
theorem ScanInvariant.isFrom_body {whole text body rest : List Char} {state : ScanState}
    (h : ScanInvariant whole text state) (hbrace : state.head = .brace)
    (hbody : readBody? 0 text = some (body, rest)) (file : SourcePath) :
    IsFrom file whole ⟨.body, String.ofList body, .ofPlace file state.place⟩ := by
  refine ⟨fun _ => ⟨state.place, ?_, rfl⟩, by rintro ⟨⟩⟩
  obtain ⟨before, hwhole, hplace, hhead⟩ := h.passed
  obtain ⟨earlier, rfl⟩ := hhead hbrace
  refine ⟨earlier, rest, ?_, hplace⟩
  rw [hwhole, String.toList_ofList, readBody?_append hbody, List.append_assoc,
    List.singleton_append]

/-- A token that is no body and no name is from any text. -/
theorem isFrom_of_ne {file : SourcePath} {whole : List Char} {token : Token}
    (hbody : token.kind ≠ .body) (hname : token.kind ≠ .identifier) : token.IsFrom file whole :=
  ⟨fun heq => absurd heq hbody, fun heq => absurd heq hname⟩

/-- The token of a piece is from any text. -/
theorem isFrom_of_isRead {piece : Piece} {kind : TokenKind} {lexeme : List Char}
    (hread : piece.IsRead kind lexeme) (file : SourcePath) (whole : List Char)
    (position : Position) : IsFrom file whole ⟨kind, String.ofList lexeme, position⟩ := by
  refine ⟨fun hbody => absurd hbody hread.ne_body, fun hname => ?_⟩
  rw [String.toList_ofList]
  exact hread.name hname

/-- All tokens of what is left of a text are from the text. -/
theorem isFrom_of_mem_scanFrom {rule : Option BlockRule} {file : SourcePath} {state : ScanState}
    {text whole : List Char} (h : ScanInvariant whole text state) :
    ∀ token ∈ scanFrom rule file state text, token.IsFrom file whole := by
  induction hlength : text.length using Nat.strongRecOn generalizing text state with
  | _ length ih =>
    subst hlength
    unfold scanFrom
    split
    · rename_i hbrace
      -- A body, the brace after it and what follows.
      split
      · exact List.forall_mem_singleton.mpr (isFrom_of_ne (by simp) (by simp))
      · rename_i body rest hbody
        have hshorter : rest.length < text.length := by
          rw [← readBody?_append hbody, List.length_append, List.length_cons]
          omega
        exact List.forall_mem_cons.mpr ⟨h.isFrom_body hbrace hbody file, List.forall_mem_cons.mpr
          ⟨isFrom_of_ne (by simp) (by simp), ih _ hshorter (h.behind_body hbody rule) rfl⟩⟩
    · rename_i hbrace
      split
      · exact List.forall_mem_singleton.mpr (isFrom_of_ne (by simp) (by simp))
      · rename_i c rest
        have htext := Piece.read_append c rest
        have hshorter := Piece.length_read_lt c rest
        dsimp only
        split
        · exact ih _ hshorter (h.advance htext rfl fun hhead => absurd hhead hbrace) rfl
        · rename_i kind lexeme hcontent
          have hread := Piece.isRead_of_read rfl hcontent
          have hself : IsFrom file whole ⟨kind, String.ofList lexeme, .ofPlace file state.place⟩ :=
            isFrom_of_isRead hread file whole _
          split
          · exact List.forall_mem_singleton.mpr hself
          · refine List.forall_mem_cons.mpr ⟨hself, ih _ hshorter ?_ rfl⟩
            exact h.advance htext rfl fun hhead => hread.brace (head_taking_eq_brace hhead)

/-- All tokens of a text are from the text. -/
theorem isFrom_of_mem_scan {rule : Option BlockRule} {file : SourcePath} {text : String} :
    ∀ token ∈ scan rule file text, token.IsFrom file text.toList :=
  isFrom_of_mem_scanFrom ⟨[], rfl, rfl, nofun⟩

end Token

end ShaderAssembly
