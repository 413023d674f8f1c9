import ShaderAssembly.Description
import ShaderAssembly.Effect
import ShaderAssembly.Proofs.RecognizedPhrases

/-!
# Requests for bodies

A parser that fails says what it asks for. In both dialects only the parser of code blocks asks for
a body, behind the opening brace of a block; no other part of a grammar can fail with that message.
This is stated once for every way in which parsers are put together, and then for each parser.
-/

namespace ShaderAssembly

/-- Whether what is asked for is the body of a code block, in either dialect. -/
def namesBody (expected : String) : Bool :=
  expected == "a GLSL block body" || expected == "a GLSLShader body"

/-- Whether an error says that the body of a code block is missing. -/
def Error.asksForBody : Error → Bool
  | .unexpected expected _ _ => namesBody expected
  | _ => false

theorem TokenKind.namesBody_description (kind : TokenKind) :
    namesBody kind.description = false := by
  cases kind with
  | error issue => cases issue <;> rfl
  | _ => rfl

theorem PropertyDeclaration.asksForBody_of_resolve {declaration : PropertyDeclaration}
    {error : Error} (h : declaration.resolve = .error error) : error.asksForBody = false := by
  unfold resolve at h
  split at h
  · cases h
    rfl
  · dsimp only at h
    split at h
    · exact nomatch h
    · split at h
      · exact nomatch h
      · cases h
        rfl

namespace Parser

variable {α β : Type}

/-- Whether a parser that is run on a stream does not fail because a body is missing. -/
def AsksNoBodyOn (stream : TokenStream) (parser : Parser α) : Prop :=
  ∀ error, parser.outcomeFrom stream = .error error → error.asksForBody = false

/-- Whether a parser never fails because a body is missing. -/
def AsksNoBody (parser : Parser α) : Prop := ∀ stream, AsksNoBodyOn stream parser

/-! ### Ways to put parsers together -/

section Combination

variable {parser other : Parser α} {next : α → Parser β} {stream : TokenStream}

/-- One parser after another. -/
theorem AsksNoBodyOn.bind (h : AsksNoBodyOn stream parser)
    (hnext : ∀ value after, Reads parser stream value after → AsksNoBodyOn after (next value)) :
    AsksNoBodyOn stream (parser >>= next) := by
  intro error herror
  rw [Action.outcomeFrom_bind] at herror
  cases houtcome : parser.outcomeFrom stream with
  | error first =>
    rw [houtcome] at herror
    cases herror
    exact h error houtcome
  | ok value =>
    rw [houtcome] at herror
    exact hnext value _ ⟨houtcome, rfl⟩ error herror

theorem AsksNoBody.bind (h : AsksNoBody parser) (hnext : ∀ value, AsksNoBody (next value)) :
    AsksNoBody (parser >>= next) := fun stream =>
  (h stream).bind fun value after _ => hnext value after

theorem AsksNoBody.pure (value : α) : AsksNoBody (Pure.pure value : Parser α) := fun _ => nofun

theorem AsksNoBody.throw {error : Error} (h : error.asksForBody = false) :
    AsksNoBody (throw error : Parser α) := by
  rintro _ _ ⟨⟩
  exact h

theorem AsksNoBody.record (level : Level) (message : String) :
    AsksNoBody (Action.record level message : Parser Unit) := fun _ => nofun

/-- A parser after a value. -/
theorem AsksNoBody.pure_bind {value : α} (h : AsksNoBody (next value)) :
    AsksNoBody (Pure.pure value >>= next) := h

/-- A parser whose value is changed. -/
theorem AsksNoBody.map (h : AsksNoBody parser) (f : α → β) : AsksNoBody (f <$> parser) :=
  h.bind fun _ => .pure _

/-- A parser that is chosen by a condition. -/
theorem AsksNoBody.ite {condition : Prop} [Decidable condition] (h : AsksNoBody parser)
    (hother : AsksNoBody other) : AsksNoBody (if condition then parser else other) := by
  split
  · exact h
  · exact hother

/-- A refusal on some condition, and what follows it otherwise. -/
theorem AsksNoBody.refusing {condition : Prop} [Decidable condition] {refusal : Parser PUnit}
    {next : PUnit → Parser β} (hrefusal : AsksNoBody refusal) (hnext : AsksNoBody (next ⟨⟩)) :
    AsksNoBody (if condition then refusal >>= next else next ⟨⟩) :=
  .ite (hrefusal.bind fun _ => hnext) hnext

end Combination

/-! ### Single tokens -/

section Tokens

variable {expected : String}

theorem asksNoBody_peek : AsksNoBody peek := fun _ => nofun

theorem asksNoBody_take : AsksNoBody take := fun _ => nofun

theorem asksNoBody_sees (kind : TokenKind) : AsksNoBody (sees kind) :=
  .bind asksNoBody_peek fun _ => .pure _

theorem asksNoBody_seesKeyword (word : String) : AsksNoBody (seesKeyword word) :=
  .bind asksNoBody_peek fun _ => .pure _

theorem asksNoBody_takeIf (kind : TokenKind) : AsksNoBody (takeIf kind) :=
  (asksNoBody_sees kind).bind fun _ => .ite (.map asksNoBody_take _) (.pure _)

theorem asksNoBody_accept (kind : TokenKind) : AsksNoBody (accept kind) :=
  (asksNoBody_takeIf kind).bind fun _ => .pure _

theorem asksNoBody_acceptKeyword (word : String) : AsksNoBody (acceptKeyword word) :=
  (asksNoBody_seesKeyword word).bind fun _ =>
    .ite (.bind asksNoBody_take fun _ => .pure _) (.pure _)

theorem asksNoBody_refuse (token : Token) (h : namesBody expected = false) :
    AsksNoBody (refuse expected token : Parser α) := .throw h

theorem asksNoBody_refuseDuplicate (kind : DeclarationKind) (token : Token) :
    AsksNoBody (refuseDuplicate kind token : Parser α) := .throw rfl

theorem asksNoBody_unexpected (h : namesBody expected = false) :
    AsksNoBody (unexpected expected : Parser α) := by
  refine .bind asksNoBody_peek fun token => ?_
  split
  · exact asksNoBody_refuse token h
  · exact .throw rfl
  · exact asksNoBody_refuse token h

theorem asksNoBody_expect (kind : TokenKind) (h : namesBody expected = false) :
    AsksNoBody (expect kind expected) :=
  (asksNoBody_sees kind).bind fun _ => .ite asksNoBody_take (asksNoBody_unexpected h)

theorem asksNoBody_expectMark (kind : TokenKind) : AsksNoBody (expectMark kind) :=
  (asksNoBody_expect kind kind.namesBody_description).bind fun _ => .pure _

theorem asksNoBody_expectKeyword (word : String) (h : namesBody s!"`{word}`" = false) :
    AsksNoBody (expectKeyword word) :=
  (asksNoBody_seesKeyword word).bind fun _ => .ite asksNoBody_take (asksNoBody_unexpected h)

theorem asksNoBody_expectName (h : namesBody expected = false) :
    AsksNoBody (expectName expected) :=
  asksNoBody_expect .identifier h

theorem asksNoBody_expectString (h : namesBody expected = false) :
    AsksNoBody (expectString expected) :=
  (asksNoBody_expect .string h).bind fun _ => .pure _

theorem asksNoBody_expectNumber : AsksNoBody expectNumber := by
  refine .bind (asksNoBody_expect .number rfl) fun token => ?_
  split
  · exact .pure _
  · exact asksNoBody_refuse token rfl

theorem asksNoBody_acceptBoolean : AsksNoBody acceptBoolean := by
  refine (asksNoBody_acceptKeyword "true").bind fun _ => .ite (.pure _) ?_
  exact (asksNoBody_acceptKeyword "false").bind fun _ => .ite (.pure _) (.pure _)

end Tokens

/-- An optional part after a mark, and what follows it in either case. -/
theorem asksNoBody_optional {parser : Parser α} {next : Option α → Parser β} {kind : TokenKind}
    (hparser : AsksNoBody parser) (hnext : ∀ value?, AsksNoBody (next value?)) :
    AsksNoBody (do
      if ← accept kind then
        let value? ← some <$> parser
        next value?
      else
        let value? ← pure none
        next value?) :=
  (asksNoBody_accept kind).bind fun _ => .ite ((hparser.map some).bind hnext) (.pure_bind (hnext _))

/-! ### Repetition -/

section Repetition

variable {stop : TokenKind} {step : β → Parser β} {value : β} {stream : TokenStream}

/-- If no step of a repetition fails because a body is missing, the repetition does not. -/
theorem AsksNoBodyOn.foldUntil
    (hstep : ∀ middle after, Between stop step value stream middle after →
      after.next.kind ≠ stop → AsksNoBodyOn after (step middle)) :
    AsksNoBodyOn stream (foldUntil stop step value) := by
  have hall : ∀ middle after, Between stop step value stream middle after →
      AsksNoBodyOn after (Parser.foldUntil stop step middle) := by
    intro middle after hbetween
    induction hlength : after.pending.length using Nat.strongRecOn generalizing middle after with
    | _ length ih =>
      subst hlength
      by_cases hstop : after.next.kind = stop
      · rintro error herror
        rw [Action.outcomeFrom, Parser.foldUntil, if_pos hstop] at herror
        cases herror
      · have hafter : AsksNoBodyOn after (step middle >>= repeatAfter stop step after) := by
          refine (hstep middle after hbetween hstop).bind fun result final hreads => ?_
          intro error herror
          rw [Action.outcomeFrom, repeatAfter] at herror
          split at herror
          · rename_i hshorter
            exact ih _ hshorter result final (.step hbetween hstop hreads) rfl error herror
          · exact asksNoBody_unexpected stop.namesBody_description final error herror
        rintro error herror
        rw [Action.outcomeFrom, foldUntil_run hstop] at herror
        exact hafter error herror
  exact hall value stream .start

theorem AsksNoBody.foldUntil (hstep : ∀ value, AsksNoBody (step value)) (value : β) :
    AsksNoBody (foldUntil stop step value) := fun _ =>
  .foldUntil fun middle after _ _ => hstep middle after

theorem AsksNoBody.manyUntil {item : Parser α} (hitem : AsksNoBody item) :
    AsksNoBody (manyUntil stop item) :=
  (AsksNoBody.foldUntil (fun _ => hitem.bind fun _ => .pure _) []).bind fun _ => .pure _

theorem AsksNoBody.commaSeparated {item : Parser α} (hitem : AsksNoBody item) (close : TokenKind) :
    AsksNoBody (commaSeparated item close) := by
  have hexpected : namesBody s!"`,` or {close.description}" = false := by
    cases close with
    | error issue => cases issue <;> rfl
    | _ => rfl
  refine hitem.bind fun _ => ?_
  have hitems : AsksNoBody (do
      if ← accept .comma then item else unexpected s!"`,` or {close.description}") :=
    (asksNoBody_accept .comma).bind fun _ => .ite hitem (asksNoBody_unexpected hexpected)
  exact hitems.manyUntil.bind fun _ => (asksNoBody_expectMark close).bind fun _ => .pure _

theorem AsksNoBody.foldlM {γ : Type} {step : β → γ → Parser β}
    (hstep : ∀ value item, AsksNoBody (step value item)) (items : List γ) (value : β) :
    AsksNoBody (items.foldlM step value) := by
  induction items generalizing value with
  | nil => exact .pure value
  | cons item rest ih =>
    rw [List.foldlM_cons]
    exact (hstep value item).bind ih

end Repetition

/-! ### Phrases of both dialects -/

section Shared

variable {expected : String}

theorem asksNoBody_expectBounds : AsksNoBody expectBounds := by
  refine (asksNoBody_expectMark _).bind fun _ => ?_
  refine .bind asksNoBody_expectNumber fun _ => ?_
  refine (asksNoBody_expectMark _).bind fun _ => ?_
  refine .bind asksNoBody_expectNumber fun _ => ?_
  exact (asksNoBody_expectMark _).bind fun _ => .pure _

theorem asksNoBody_expectLiteral (brackets : Brackets) (h : namesBody expected = false) :
    AsksNoBody (expectLiteral brackets expected) := by
  refine .bind asksNoBody_acceptBoolean fun value? => ?_
  split
  · exact .pure _
  refine .bind asksNoBody_peek fun token => ?_
  split
  · exact .bind asksNoBody_take fun _ => .pure _
  · exact .bind asksNoBody_expectNumber fun _ => .pure _
  · refine .ite ?_ (asksNoBody_unexpected h)
    refine .bind asksNoBody_take fun _ => ?_
    exact .bind (.commaSeparated asksNoBody_expectNumber _) fun _ => .pure _

theorem asksNoBody_expectReference (h : namesBody expected = false) :
    AsksNoBody (expectReference expected) :=
  (asksNoBody_expectName h).bind fun _ => .pure _

theorem asksNoBody_expectReferences (brackets : Brackets) (h : namesBody expected = false) :
    AsksNoBody (expectReferences brackets expected) := by
  have hreference := asksNoBody_expectReference h
  refine (asksNoBody_accept _).bind fun _ => .ite (hreference.commaSeparated _) ?_
  exact hreference.bind fun _ => .pure _

theorem asksNoBody_requireStages (stages : OrderedMap Stage BoundStage) (close : Token) :
    AsksNoBody (requireStages stages close) := by
  unfold requireStages
  split
  · exact .pure _
  · rename_i slot _
    exact asksNoBody_refuse close (by cases slot <;> rfl)

theorem asksNoBody_resolveProperty (declaration : PropertyDeclaration) :
    AsksNoBody (resolveProperty declaration) := by
  unfold resolveProperty
  split
  · rename_i hresolve
    exact .throw (PropertyDeclaration.asksForBody_of_resolve hresolve)
  · exact (AsksNoBody.record _ _).bind fun _ => .pure _

end Shared

end Parser

/-! ### Descriptions -/

namespace Description

open ShaderAssembly.Parser

theorem asksNoBody_expectAttribute : AsksNoBody expectAttribute := by
  have hclose : ∀ advice : EditorHint, AsksNoBody (do
      expectMark .closeBracket
      return advice) := fun _ => (asksNoBody_expectMark _).bind fun _ => .pure _
  refine .bind (asksNoBody_expectName rfl) fun name => ?_
  split
  · exact .bind asksNoBody_expectBounds fun _ => .pure_bind (hclose _)
  · exact .pure_bind (hclose _)
  · refine (asksNoBody_expectMark _).bind fun _ => ?_
    refine .bind (asksNoBody_expectString rfl) fun _ => ?_
    exact (asksNoBody_expectMark _).bind fun _ => .pure_bind (hclose _)
  · exact (asksNoBody_refuse name rfl).bind hclose

theorem asksNoBody_expectType : AsksNoBody expectType := by
  refine .bind (asksNoBody_expectName rfl) fun word => ?_
  split
  · exact .pure _
  · exact asksNoBody_refuse word rfl

theorem asksNoBody_expectPropertyName : AsksNoBody expectPropertyName := by
  have hattribute : AsksNoBody (do
      if ← accept .openBracket then expectAttribute else unexpected "a property name") :=
    (asksNoBody_accept _).bind fun _ => .ite asksNoBody_expectAttribute (asksNoBody_unexpected rfl)
  exact hattribute.manyUntil.bind fun _ => .bind (asksNoBody_expectName rfl) fun _ => .pure _

theorem asksNoBody_expectProperty : AsksNoBody expectProperty := by
  refine .bind asksNoBody_expectPropertyName fun _ => ?_
  refine (asksNoBody_expectMark _).bind fun _ => ?_
  refine .bind (asksNoBody_expectString rfl) fun _ => ?_
  refine asksNoBody_optional asksNoBody_expectType fun _ => ?_
  refine (asksNoBody_expectMark _).bind fun _ => ?_
  exact asksNoBody_optional (asksNoBody_expectLiteral _ rfl) fun _ => .pure _

theorem asksNoBody_readProperties (draft : Draft) : AsksNoBody (readProperties draft) := by
  refine .bind asksNoBody_take fun keyword => ?_
  refine .refusing (asksNoBody_refuseDuplicate _ keyword) ?_
  refine (asksNoBody_expectMark _).bind fun _ => ?_
  refine (AsksNoBody.foldUntil (fun properties => ?_) _).bind fun _ =>
    (asksNoBody_expectMark _).bind fun _ => .pure _
  refine .bind asksNoBody_expectProperty fun declaration => .refusing (.throw rfl) ?_
  exact (asksNoBody_resolveProperty declaration).bind fun _ => .pure _

theorem asksNoBody_readStage (stages : OrderedMap Stage BoundStage) :
    AsksNoBody (readStage stages) := by
  refine .bind (asksNoBody_expectName rfl) fun word => ?_
  split
  · exact asksNoBody_refuse word rfl
  · refine .refusing (asksNoBody_refuseDuplicate _ word) ?_
    refine (asksNoBody_expectMark _).bind fun _ => ?_
    exact .bind (asksNoBody_expectReferences _ rfl) fun _ => .pure _

theorem asksNoBody_expectPass : AsksNoBody expectPass := by
  refine (asksNoBody_seesKeyword _).bind fun _ => ?_
  refine .refusing (asksNoBody_unexpected rfl) ?_
  refine .bind asksNoBody_take fun _ => ?_
  refine (asksNoBody_expectMark _).bind fun _ => ?_
  refine (AsksNoBody.foldUntil asksNoBody_readStage _).bind fun stages => ?_
  refine .bind asksNoBody_take fun close => ?_
  exact (asksNoBody_requireStages stages close).bind fun _ => .pure _

theorem asksNoBody_readTechnique (draft : Draft) : AsksNoBody (readTechnique draft) := by
  refine .bind asksNoBody_take fun keyword => ?_
  refine .bind (asksNoBody_expectName rfl) fun name => ?_
  refine .refusing (asksNoBody_refuseDuplicate _ name) ?_
  refine (asksNoBody_expectMark _).bind fun _ => ?_
  refine .bind (.manyUntil asksNoBody_expectPass) fun passes => ?_
  refine .bind asksNoBody_take fun close => ?_
  refine .refusing (asksNoBody_refuse close rfl) ?_
  exact (AsksNoBody.record _ _).bind fun _ => .pure _

end Description

/-! ### Effect files -/

namespace Effect

open ShaderAssembly.Parser

theorem asksNoBody_expectSampler : AsksNoBody expectSampler := by
  refine (asksNoBody_expectMark _).bind fun _ => ?_
  refine .bind (asksNoBody_expectKeyword _ rfl) fun _ => ?_
  refine (asksNoBody_expectMark _).bind fun _ => ?_
  refine (asksNoBody_expectMark _).bind fun _ => ?_
  refine .bind (asksNoBody_expectName rfl) fun _ => ?_
  refine (asksNoBody_expectMark _).bind fun _ => ?_
  refine (asksNoBody_expectMark _).bind fun _ => ?_
  exact (asksNoBody_expectMark _).bind fun _ => .pure _

theorem asksNoBody_expectConstant : AsksNoBody expectConstant := by
  refine (asksNoBody_acceptKeyword _).bind fun _ => .ite ?_ (asksNoBody_expectLiteral _ rfl)
  exact .bind asksNoBody_expectSampler fun _ => .pure _

theorem asksNoBody_expectControl : AsksNoBody expectControl := by
  refine .bind (asksNoBody_expectName rfl) fun word => ?_
  split
  · exact .pure _
  · exact .bind asksNoBody_expectBounds fun _ => .pure _
  · exact asksNoBody_refuse word rfl

theorem asksNoBody_expectDescription : AsksNoBody expectDescription := by
  refine .bind (asksNoBody_expectString rfl) fun _ => ?_
  refine asksNoBody_optional asksNoBody_expectControl fun _ => ?_
  exact (asksNoBody_expectMark _).bind fun _ => .pure _

theorem asksNoBody_expectEntry : AsksNoBody expectEntry := by
  refine .bind (asksNoBody_expectName rfl) fun _ => ?_
  refine .bind (asksNoBody_expectName rfl) fun _ => ?_
  refine asksNoBody_optional asksNoBody_expectDescription fun _ => ?_
  refine asksNoBody_optional asksNoBody_expectConstant fun _ => ?_
  exact (asksNoBody_expectMark _).bind fun _ => .pure _

theorem asksNoBody_acceptAnnotations : AsksNoBody acceptAnnotations := by
  refine (asksNoBody_accept _).bind fun _ => .ite ?_ (.pure _)
  exact .bind (.manyUntil asksNoBody_expectEntry) fun _ => (asksNoBody_expectMark _).bind fun _ =>
    .pure _

theorem asksNoBody_readUniform (draft : Draft) : AsksNoBody (readUniform draft) := by
  refine .bind asksNoBody_take fun _ => ?_
  refine .bind (asksNoBody_expectName rfl) fun type => ?_
  refine .bind (asksNoBody_expectName rfl) fun name => ?_
  refine .refusing (asksNoBody_refuseDuplicate _ name) ?_
  refine asksNoBody_optional (asksNoBody_expectName rfl) fun semantic? => ?_
  refine .bind asksNoBody_acceptAnnotations fun annotations => ?_
  refine asksNoBody_optional asksNoBody_expectConstant fun default? => ?_
  refine (asksNoBody_expectMark _).bind fun _ => ?_
  exact (AsksNoBody.record _ _).bind fun _ => .pure _

theorem asksNoBody_expectField : AsksNoBody expectField := by
  refine .bind (asksNoBody_expectName rfl) fun _ => ?_
  refine .bind (asksNoBody_expectName rfl) fun _ => ?_
  refine (asksNoBody_expectMark _).bind fun _ => ?_
  refine .bind (asksNoBody_expectName rfl) fun _ => ?_
  exact (asksNoBody_expectMark _).bind fun _ => .pure _

theorem asksNoBody_readStream (draft : Draft) : AsksNoBody (readStream draft) := by
  refine .bind asksNoBody_take fun _ => ?_
  refine .bind (asksNoBody_expectName rfl) fun name => ?_
  refine .refusing (asksNoBody_refuseDuplicate _ name) ?_
  refine (asksNoBody_expectMark _).bind fun _ => ?_
  refine .bind (.manyUntil asksNoBody_expectField) fun fields => ?_
  refine (asksNoBody_expectMark _).bind fun _ => ?_
  exact (asksNoBody_expectMark _).bind fun _ => .pure _

theorem asksNoBody_expectArgument (direction : Direction) :
    AsksNoBody (expectArgument direction) := by
  refine .bind (asksNoBody_expectKeyword _ (by cases direction <;> rfl)) fun _ => ?_
  refine .bind (asksNoBody_expectName rfl) fun _ => ?_
  exact (asksNoBody_takeIf _).bind fun _ => .pure _

theorem asksNoBody_expectInterface : AsksNoBody expectInterface := by
  refine (asksNoBody_expectMark _).bind fun _ => ?_
  refine (asksNoBody_expectArgument _).bind fun _ => ?_
  refine (asksNoBody_expectMark _).bind fun _ => ?_
  refine (asksNoBody_expectArgument _).bind fun _ => ?_
  exact (asksNoBody_expectMark _).bind fun _ => .pure _

theorem asksNoBody_readStage (stages : OrderedMap Stage BoundStage) :
    AsksNoBody (readStage stages) := by
  refine .bind (asksNoBody_expectName rfl) fun word => ?_
  split
  · exact asksNoBody_refuse word rfl
  · refine .refusing (asksNoBody_refuseDuplicate _ word) ?_
    refine .bind asksNoBody_expectInterface fun _ => ?_
    refine (asksNoBody_expectMark _).bind fun _ => ?_
    refine .bind (asksNoBody_expectReferences _ rfl) fun _ => ?_
    exact (asksNoBody_expectMark _).bind fun _ => .pure _

theorem asksNoBody_readPass : AsksNoBody readPass := by
  refine .bind asksNoBody_take fun _ => ?_
  refine .bind (asksNoBody_expectName rfl) fun _ => ?_
  refine .bind asksNoBody_acceptAnnotations fun _ => ?_
  refine (asksNoBody_expectMark _).bind fun _ => ?_
  refine (AsksNoBody.foldUntil asksNoBody_readStage _).bind fun stages => ?_
  refine .bind asksNoBody_take fun close => ?_
  exact (asksNoBody_requireStages stages close).bind fun _ => .pure _

theorem asksNoBody_expectPasses : AsksNoBody expectPasses := by
  refine (asksNoBody_seesKeyword _).bind fun _ => ?_
  refine .refusing (asksNoBody_unexpected rfl) (AsksNoBody.manyUntil ?_)
  exact (asksNoBody_seesKeyword _).bind fun _ =>
    .ite asksNoBody_readPass (asksNoBody_unexpected rfl)

theorem asksNoBody_readTechnique (draft : Draft) : AsksNoBody (readTechnique draft) := by
  refine .bind asksNoBody_take fun _ => ?_
  refine .bind (asksNoBody_expectName rfl) fun name => ?_
  refine .refusing (asksNoBody_refuseDuplicate _ name) ?_
  refine .bind asksNoBody_acceptAnnotations fun annotations => ?_
  refine (asksNoBody_expectMark _).bind fun _ => ?_
  refine .bind asksNoBody_expectPasses fun passes => ?_
  refine (asksNoBody_expectMark _).bind fun _ => ?_
  exact (AsksNoBody.record _ _).bind fun _ => .pure _

theorem asksNoBody_warnOfUnknown (annotations : List AnnotationEntry) :
    AsksNoBody (warnOfUnknown annotations) := by
  unfold warnOfUnknown
  induction annotations with
  | nil => exact .pure _
  | cons entry annotations ih =>
    exact AsksNoBody.bind (.ite (.record _ _) (.pure _)) fun _ => ih

theorem asksNoBody_addProperty (draft : Draft) (properties : OrderedMap String Property)
    (uniform : Uniform) : AsksNoBody (addProperty draft properties uniform) := by
  refine (asksNoBody_warnOfUnknown _).bind fun _ => .ite (.pure _) ?_
  split
  · exact .pure _
  · rename_i declaration _
    exact (asksNoBody_resolveProperty declaration).bind fun _ => .pure _

end Effect

end ShaderAssembly
