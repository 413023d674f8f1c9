import ShaderAssembly.Proofs.CodeBodies
import ShaderAssembly.Proofs.ParserRuns

/-!
# Tokens in the order of a scan

Reading a text decides from the tokens so far whether the next token is a body, and never from
what a parser makes of them. Which tokens can come out of a state is a judgment about tokens alone:
a body stands where the head of a block has been read, its closing brace stands behind it, and
nothing else stands there but the error of a block that is not closed. After some of the tokens
the others come out of the state that those lead to.
-/

namespace ShaderAssembly

namespace Piece

/-- No mark is an end or an error. -/
theorem punctuation?_ne_end {c : Char} {kind : TokenKind} (h : punctuation? c = some kind) :
    kind ≠ .endOfFile ∧ ∀ issue, kind ≠ .error issue := by
  unfold punctuation? at h
  split at h <;> cases h <;> exact ⟨nofun, nofun⟩

theorem readWord_ne_end {c : Char} {rest : List Char} {kind : TokenKind} {lexeme : List Char}
    (h : (readWord c rest).1.content = some (kind, lexeme)) :
    kind ≠ .endOfFile ∧ kind ≠ .error .unterminatedBlock := by
  unfold readWord at h
  split at h
  · cases h
    exact ⟨nofun, nofun⟩
  · split at h
    · cases h
      exact ⟨nofun, nofun⟩
    · split at h
      · cases h
        split <;> exact ⟨nofun, nofun⟩
      · cases h
        exact ⟨nofun, nofun⟩

/-- Pieces are neither the end of a text nor the error of a block. -/
theorem read_ne_end {c : Char} {rest : List Char} {kind : TokenKind} {lexeme : List Char}
    (h : (read c rest).1.content = some (kind, lexeme)) :
    kind ≠ .endOfFile ∧ kind ≠ .error .unterminatedBlock := by
  unfold read at h
  split at h
  · cases h
  · split at h
    · cases h
    · split at h
      · cases h
      · cases h
        exact ⟨nofun, nofun⟩
    · split at h
      · rename_i hmark
        cases h
        exact (punctuation?_ne_end hmark).imp_right fun hissue => hissue _
      · exact readWord_ne_end h

end Piece

/-- Whether a declaration can start right behind a token of the kind. -/
def TokenKind.endsDeclaration : TokenKind → Bool
  | .openBrace | .closeBrace | .semicolon => true
  | _ => false

/-- Whether a token ends what is read of a text. -/
def TokenKind.EndsText (kind : TokenKind) : Prop :=
  kind = .endOfFile ∨ kind = .error .unterminatedComment ∨ kind = .error .unterminatedBlock

/-- Whether tokens can be what is read of a text in a state; the place does not matter. -/
inductive ScanState.Emits (rule : Option BlockRule) : ScanState → List Token → Prop
  | finish {state : ScanState} {last : Token} (hhead : state.head ≠ .brace)
      (hlast : last.kind = .endOfFile ∨ last.kind = .error .unterminatedComment) :
      Emits rule state [last]
  | unterminated {state : ScanState} {last : Token} (hhead : state.head = .brace)
      (hlast : last.kind = .error .unterminatedBlock) : Emits rule state [last]
  | body {state : ScanState} {body closing : Token} {tokens : List Token}
      (hhead : state.head = .brace) (hbody : body.kind = .body)
      (hclosing : closing.kind = .closeBrace)
      (htokens : Emits rule (state.taking rule .closeBrace closing.lexeme.toList) tokens) :
      Emits rule state (body :: closing :: tokens)
  | token {state : ScanState} {token : Token} {tokens : List Token} (hhead : state.head ≠ .brace)
      (hbody : token.kind ≠ .body) (hend : ¬ token.kind.EndsText)
      (htokens : Emits rule (state.taking rule token.kind token.lexeme.toList) tokens) :
      Emits rule state (token :: tokens)

/-- What a parser of a text reads: its tokens up to the end of the file. Where the text ends
early, the error token is the last of them, and an end of the file stands behind it. -/
inductive Token.IsStreamOf (tokens : List Token) : TokenStream → Prop
  | whole {pending : List Token} {last : Token} (hlast : last.kind = .endOfFile)
      (hpending : ∀ token ∈ pending, token.kind ≠ .endOfFile)
      (htokens : tokens = pending ++ [last]) : IsStreamOf tokens ⟨pending, last⟩
  | early {before : List Token} {fault last : Token} {issue : TokenIssue}
      (hlast : last.kind = .endOfFile) (hpending : ∀ token ∈ tokens, token.kind ≠ .endOfFile)
      (hfault : fault.kind = .error issue) (htokens : tokens = before ++ [fault]) :
      IsStreamOf tokens ⟨tokens, last⟩

namespace ScanState

variable {rule : Option BlockRule} {state : ScanState} {token : Token}
  {tokens taken rest : List Token}

/-! ### Heads of blocks -/

section Heads

variable {rule : BlockRule} {kind : TokenKind} {lexeme : List Char}

/-- The keyword of a block counts where a declaration can start. -/
theorem head_taking_keyword (h : state.atDeclaration rule = true)
    (hlexeme : String.ofList lexeme = rule.keyword) :
    (state.taking (some rule) .identifier lexeme).head = .keyword := by
  simp [taking, headAfter, h, hlexeme]

/-- No declaration can start right behind a token that does not end one. -/
theorem not_atDeclaration_of_previous (hprevious : state.previous = some kind)
    (hkind : kind.endsDeclaration = false) : state.atDeclaration rule = false := by
  unfold atDeclaration
  rw [hprevious]
  cases kind <;> simp_all [TokenKind.endsDeclaration]

/-- Behind its keyword a block may have a name. -/
theorem head_taking_name (h : state.atDeclaration rule = false)
    (hhead : state.head = .keyword) :
    (state.taking (some rule) .identifier lexeme).head = .name := by
  simp [taking, headAfter, h, hhead]

theorem head_taking_brace (hhead : state.head = .keyword ∨ state.head = .name) :
    (state.taking (some rule) .openBrace lexeme).head = .brace := by
  simp [taking, headAfter, hhead]

end Heads

/-! ### Tokens of a whole text -/

/-- What is read of a text comes out of the state in which it is read. -/
theorem emits_scanFrom (rule : Option BlockRule) (file : SourcePath) (state : ScanState)
    (text : List Char) (place : Place) :
    Emits rule { state with place } (Token.scanFrom rule file state text) := by
  induction hlength : text.length using Nat.strongRecOn generalizing text state with
  | _ length ih =>
    subst hlength
    unfold Token.scanFrom
    split
    · rename_i hhead
      split
      · exact .unterminated hhead rfl
      · rename_i body after hbody
        have hshorter : after.length < text.length := by
          rw [← readBody?_append hbody, List.length_append, List.length_cons]
          omega
        exact .body hhead rfl rfl (ih _ hshorter
          (((state.passing body).taking rule .closeBrace ['}']).passing ['}']) after rfl)
    · rename_i hhead
      split
      · exact .finish hhead (.inl rfl)
      · rename_i c after
        have hshorter := Piece.length_read_lt c after
        dsimp only
        split
        · exact ih _ hshorter (state.passing _) _ rfl
        · rename_i kind lexeme hcontent
          split
          · exact .finish hhead (.inr ‹_›)
          · rename_i hcomment
            have hend := Piece.read_ne_end hcontent
            refine .token hhead (Piece.isRead_of_read rfl hcontent).ne_body ?_ ?_
            · rintro (h | h | h)
              · exact hend.1 h
              · exact hcomment h
              · exact hend.2 h
            · rw [String.toList_ofList]
              exact ih _ hshorter ((state.taking rule kind lexeme).passing _) _ rfl

theorem emits_scan (rule : Option BlockRule) (file : SourcePath) (text : String) :
    Emits rule .start (Token.scan rule file text) :=
  emits_scanFrom rule file .start text.toList Place.start

/-- The state after some tokens, but for the place. -/
def after (rule : Option BlockRule) (state : ScanState) (tokens : List Token) : ScanState :=
  tokens.foldl (fun state token => state.taking rule token.kind token.lexeme.toList) state

theorem after_append :
    state.after rule (taken ++ rest) = (state.after rule taken).after rule rest :=
  List.foldl_append

/-- Where tokens are left after one of them, they come out of the state that it leads to. -/
theorem Emits.tail (h : Emits rule state (token :: rest)) (hrest : rest ≠ []) :
    Emits rule (state.taking rule token.kind token.lexeme.toList) rest := by
  cases h with
  | finish _ _ => exact absurd rfl hrest
  | unterminated _ _ => exact absurd rfl hrest
  | token _ _ _ htokens => exact htokens
  | @body _ _ closing tokens hhead hbody hclosing htokens =>
    -- Between a body and its closing brace the state is that of the brace before it.
    refine .token ?_ (by simp [hclosing]) (by simp [hclosing, TokenKind.EndsText]) ?_
    · cases rule <;> simp [taking, headAfter, hbody]
    · rw [hclosing]
      cases rule <;> simpa [taking, headAfter, hbody] using htokens

/-- Where tokens are left, they come out of the state that those before them lead to. -/
theorem Emits.drop (h : Emits rule state (taken ++ rest)) (hrest : rest ≠ []) :
    Emits rule (state.after rule taken) rest := by
  induction taken generalizing state with
  | nil => exact h
  | cons token taken ih => exact ih (h.tail (by simp [hrest]))

/-- The last of the tokens ends the text, and no other does. -/
theorem Emits.exists_last (h : Emits rule state tokens) :
    ∃ pending last, tokens = pending ++ [last] ∧ last.kind.EndsText ∧
      ∀ token ∈ pending, ¬ token.kind.EndsText := by
  induction h with
  | finish _ hlast => exact ⟨[], _, rfl, hlast.imp_right .inl, nofun⟩
  | unterminated _ hlast => exact ⟨[], _, rfl, .inr (.inr hlast), nofun⟩
  | body hhead hbody hclosing _ ih =>
    obtain ⟨pending, last, rfl, hlast, hpending⟩ := ih
    refine ⟨_ :: _ :: pending, last, rfl, hlast, ?_⟩
    simpa [TokenKind.EndsText, hbody, hclosing] using hpending
  | token _ _ hend _ ih =>
    obtain ⟨pending, last, rfl, hlast, hpending⟩ := ih
    exact ⟨_ :: pending, last, rfl, hlast, by simpa [hend] using hpending⟩

/-- Where the head of a block has been read, a body and its closing brace come next, or the error
of a block that is not closed. -/
theorem Emits.of_brace (h : Emits rule state tokens) (hhead : state.head = .brace) :
    (∃ body closing rest, tokens = body :: closing :: rest ∧ body.kind = .body ∧
      closing.kind = .closeBrace) ∨
        ∃ last, tokens = [last] ∧ last.kind = .error .unterminatedBlock := by
  cases h with
  | finish hother _ => exact absurd hhead hother
  | token hother _ _ _ => exact absurd hhead hother
  | unterminated _ hlast => exact .inr ⟨_, rfl, hlast⟩
  | body _ hbody hclosing _ => exact .inl ⟨_, _, _, rfl, hbody, hclosing⟩

theorem isStreamOf_scan (rule : Option BlockRule) (path : SourcePath) (text : String) :
    Token.IsStreamOf (Token.scan rule path text)
      (TokenStream.ofTokens path (Token.scan rule path text)) := by
  obtain ⟨pending, last, htokens, hlast, hpending⟩ := (emits_scan rule path text).exists_last
  have hpending : ∀ token ∈ pending, token.kind ≠ .endOfFile := fun token htoken hkind =>
    hpending token htoken (.inl hkind)
  rcases hlast with hlast | hlast | hlast
  · rw [htokens, Parser.ofTokens_append hlast]
    exact .whole hlast hpending rfl
  all_goals
    have hstream : TokenStream.ofTokens path (Token.scan rule path text) =
        ⟨Token.scan rule path text, TokenStream.endAt last.position⟩ := by
      simp [TokenStream.ofTokens, htokens, hlast]
    rw [hstream]
    refine .early rfl ?_ hlast htokens
    rw [htokens]
    simpa [hlast, or_imp, forall_and] using hpending

end ScanState

end ShaderAssembly
