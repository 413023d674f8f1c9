import ShaderAssembly.Proofs.EffectGrammar

/-!
# Parsers of effect files

The parser of each production of the grammar recognizes it. Several parts may be left out, and a
parser tells that from the next token: what follows such a part never starts like it. The parser of
an item adds it to a draft, which fails where a name is declared twice or a pass is not complete.
-/

namespace ShaderAssembly.Effect

open ShaderAssembly.Grammar ShaderAssembly.Parser

/-! ### Constants and annotations -/

section Annotations

theorem recognizes_expectSampler : Recognizes expectSampler IsSampler where
  sound := by
    intro last tokens hlast
    refine ensures_mark .openBrace nofun hlast ?_
    rintro opening _ rfl hopening
    refine (recognizes_expectKeyword "Texture").ensures hlast ?_
    rintro _ keyword _ rfl ⟨rfl, hkeyword⟩
    refine ensures_mark .equal nofun hlast ?_
    rintro equal _ rfl hequal
    refine ensures_mark .less nofun hlast ?_
    rintro less _ rfl hless
    refine (recognizes_expectName "a texture name").ensures hlast ?_
    rintro _ name _ rfl ⟨hname⟩
    refine ensures_mark .greater nofun hlast ?_
    rintro greater _ rfl hgreater
    refine ensures_mark .semicolon nofun hlast ?_
    rintro semicolon _ rfl hsemicolon
    refine ensures_mark .closeBrace nofun hlast ?_
    rintro closing rest rfl hclosing
    exact ensures_pure ⟨_, rest, rfl, rfl,
      .sampler hopening hkeyword hequal hless hname hgreater hsemicolon hclosing⟩
  complete := by
    rintro last _ rest _ hlast
      ⟨hopening, hkeyword, hequal, hless, hname, hgreater, hsemicolon, hclosing⟩ -
    refine thenMark hopening ?_
    refine (recognizes_expectKeyword "Texture").thenToken hlast ⟨rfl, hkeyword⟩ trivial ?_
    refine thenMark hequal ?_
    refine thenMark hless ?_
    refine (recognizes_expectName "a texture name").thenToken hlast (.token hname) trivial ?_
    refine thenMark hgreater ?_
    refine thenMark hsemicolon ?_
    exact thenMark hclosing (reads_pure _ _)

/-- A literal does not start like a sampler state. -/
theorem startsWith_literal :
    StartsWith (IsLiteral .curly) (¬ ·.isKeyword "sampler_state" = true) := by
  intro tokens literal h
  cases h with
  | yes hyes => exact ⟨_, _, rfl, not_isKeyword_of_isKeyword (by decide) hyes⟩
  | no hno => exact ⟨_, _, rfl, not_isKeyword_of_isKeyword (by decide) hno⟩
  | string hkind => exact ⟨_, _, rfl, not_isKeyword_of_kind (by simp [hkind])⟩
  | number hnumber =>
    obtain ⟨hkind, -⟩ := hnumber
    exact ⟨_, _, rfl, not_isKeyword_of_kind (by simp [hkind])⟩
  | tuple hopening _ _ =>
    exact ⟨_, _, rfl, not_isKeyword_of_kind (by simp [hopening, Brackets.curly])⟩

theorem recognizes_expectConstant : Recognizes expectConstant IsConstant where
  sound := by
    intro last tokens hlast
    refine (tries_acceptKeyword "sampler_state").ensures ?_ ?_ fun _ => ?_
    · exact not_isKeyword_of_kind (by simp [hlast])
    · rintro keyword _ rfl hkeyword
      rw [if_pos rfl]
      refine Recognizes.ensures recognizes_expectSampler hlast ?_
      rintro tokens texture rest rfl hsampler
      exact ensures_pure ⟨_, rest, rfl, rfl, .sampler hkeyword hsampler⟩
    · rw [if_neg Bool.false_ne_true]
      intro literal after hreads
      obtain ⟨taken, rest, htaken, hafter, hliteral⟩ :=
        (recognizes_expectLiteral (.inr rfl) "a constant").sound hlast literal after hreads
      exact ⟨taken, rest, htaken, hafter, .literal hliteral⟩
  complete := by
    rintro last _ rest _ hlast (⟨hkeyword, hsampler⟩ | hliteral) -
    · refine (tries_acceptKeyword "sampler_state").thenTake hkeyword ?_
      rw [if_pos rfl]
      exact Recognizes.then recognizes_expectSampler hlast hsampler trivial (reads_pure _ _)
    · obtain ⟨token, more, rfl, htoken⟩ := startsWith_literal _ _ hliteral
      refine (tries_acceptKeyword "sampler_state").thenLeave htoken ?_
      rw [if_neg Bool.false_ne_true]
      exact (recognizes_expectLiteral (.inr rfl) "a constant").complete hlast hliteral trivial

theorem recognizes_expectControl : Recognizes expectControl IsControl where
  sound := by
    intro last tokens hlast
    refine (recognizes_expectName "`Range` or `Color`").ensures hlast ?_
    rintro _ word _ rfl ⟨hword⟩
    split
    · rename_i hlexeme
      exact ensures_pure ⟨_, _, rfl, rfl, .color (isKeyword_iff.mpr ⟨hword, hlexeme⟩)⟩
    · rename_i hlexeme
      refine Recognizes.ensures recognizes_expectBounds hlast ?_
      rintro tokens bounds rest rfl hbounds
      exact ensures_pure ⟨_, rest, rfl, rfl,
        .range (isKeyword_iff.mpr ⟨hword, hlexeme⟩) hbounds⟩
    · exact ensures_throw
  complete := by
    rintro last _ rest _ hlast hcontrol -
    cases hcontrol with
    | color hword =>
      obtain ⟨hword, hlexeme⟩ := isKeyword_iff.mp hword
      refine (recognizes_expectName "`Range` or `Color`").thenToken hlast (.token hword)
        trivial ?_
      split
      case h_1 => exact reads_pure _ _
      all_goals simp_all
    | range hword hbounds =>
      obtain ⟨hword, hlexeme⟩ := isKeyword_iff.mp hword
      refine (recognizes_expectName "`Range` or `Color`").thenToken hlast (.token hword)
        trivial ?_
      split
      case h_2 =>
        exact Recognizes.then recognizes_expectBounds hlast hbounds trivial (reads_pure _ _)
      all_goals simp_all

theorem recognizes_expectDescription : Recognizes expectDescription IsAbout where
  sound := by
    intro last tokens hlast
    refine (recognizes_expectString "a description").ensures hlast ?_
    rintro _ _ _ rfl ⟨text, ⟨htext⟩, rfl⟩
    refine Recognizes.ensures_optional recognizes_expectControl nofun hlast ?_
    rintro tokens control? _ rfl hcontrol
    refine ensures_mark .closeParen nofun hlast ?_
    rintro closing rest rfl hclosing
    exact ensures_pure ⟨_, rest, by simp, rfl, .about htext hcontrol hclosing⟩
  complete := by
    rintro last _ rest _ hlast ⟨htext, hcontrol, hclosing⟩ -
    simp only [List.cons_append, List.append_assoc, List.nil_append]
    refine (recognizes_expectString "a description").thenToken hlast ⟨_, .token htext, rfl⟩
      trivial ?_
    refine Recognizes.thenOptional recognizes_expectControl hlast hcontrol
      (by simp [TokenStream.next, hclosing]) ?_
    exact thenMark hclosing (reads_pure _ _)

theorem recognizes_expectEntry : Recognizes expectEntry IsEntry where
  sound := by
    intro last tokens hlast
    refine (recognizes_expectName "an annotation type or `>`").ensures hlast ?_
    rintro _ type _ rfl ⟨htype⟩
    refine (recognizes_expectName "an annotation name").ensures hlast ?_
    rintro _ name _ rfl ⟨hname⟩
    refine Recognizes.ensures_optional recognizes_expectDescription nofun hlast ?_
    rintro aboutTokens about? _ rfl habout
    refine Recognizes.ensures_optional recognizes_expectConstant nofun hlast ?_
    rintro valueTokens value? _ rfl hvalue
    refine ensures_mark .semicolon nofun hlast ?_
    rintro semicolon rest rfl hsemicolon
    exact ensures_pure ⟨_, rest, by simp, rfl, .entry htype hname habout hvalue hsemicolon⟩
  complete := by
    rintro last _ rest _ hlast ⟨htype, hname, habout, hvalue, hsemicolon⟩ -
    simp only [List.cons_append, List.append_assoc, List.nil_append]
    refine (recognizes_expectName "an annotation type or `>`").thenToken hlast (.token htype)
      trivial ?_
    refine (recognizes_expectName "an annotation name").thenToken hlast (.token hname) trivial ?_
    refine Recognizes.thenOptional recognizes_expectDescription hlast habout
      ((mayStart_of_optional hvalue).next_ne (by decide)
        (by simp [TokenStream.next, hsemicolon])) ?_
    refine Recognizes.thenOptional recognizes_expectConstant hlast hvalue
      (by simp [TokenStream.next, hsemicolon]) ?_
    exact thenMark hsemicolon (reads_pure _ _)

theorem recognizes_acceptAnnotations : Recognizes acceptAnnotations IsAnnotations (· ≠ .less) := by
  have hstarts : StartsWith IsEntry fun token => token.kind ≠ .greater ∧ True := by
    rintro _ _ ⟨htype, -, -, -, -⟩
    exact ⟨_, _, rfl, by simp [htype], trivial⟩
  have hentries := recognizes_manyUntil recognizes_expectEntry hstarts trivial
  constructor
  · intro last tokens hlast
    refine (tries_accept .less).ensures (by simp [hlast]) ?_ fun _ => ?_
    · rintro less _ rfl hless
      rw [if_pos rfl]
      refine hentries.ensures hlast ?_
      rintro tokens entries _ rfl hmany
      refine ensures_mark .greater nofun hlast ?_
      rintro greater rest rfl hgreater
      exact ensures_pure ⟨_, rest, by simp, rfl, .entries hless hmany hgreater⟩
    · rw [if_neg Bool.false_ne_true]
      exact ensures_pure ⟨[], tokens, rfl, rfl, .absent⟩
  · rintro last _ rest _ hlast (_ | ⟨hless, hmany, hgreater⟩) hnext
    · refine (tries_accept .less).thenLeave hnext ?_
      rw [if_neg Bool.false_ne_true]
      exact reads_pure _ _
    · simp only [List.cons_append, List.append_assoc, List.nil_append]
      refine (tries_accept .less).thenTake hless ?_
      rw [if_pos rfl]
      refine hentries.then hlast hmany hgreater ?_
      exact thenMark hgreater (reads_pure _ _)

theorem mayStart_of_annotations {tokens : List Token} {annotations : List AnnotationEntry}
    (h : IsAnnotations tokens annotations) : MayStart .less tokens := by
  cases h with
  | absent => exact nofun
  | entries hless _ _ =>
    rintro _ _ ⟨⟩
    exact hless

end Annotations

/-! ### Streams -/

section Streams

theorem recognizes_expectField : Recognizes expectField IsField where
  sound := by
    intro last tokens hlast
    refine (recognizes_expectName r"a type or `}`").ensures hlast ?_
    rintro _ type _ rfl ⟨htype⟩
    refine (recognizes_expectName "a field name").ensures hlast ?_
    rintro _ name _ rfl ⟨hname⟩
    refine ensures_mark .colon nofun hlast ?_
    rintro colon _ rfl hcolon
    refine (recognizes_expectName "a semantic").ensures hlast ?_
    rintro _ semantic _ rfl ⟨hsemantic⟩
    refine ensures_mark .semicolon nofun hlast ?_
    rintro semicolon rest rfl hsemicolon
    exact ensures_pure ⟨_, rest, rfl, rfl, .field htype hname hcolon hsemantic hsemicolon⟩
  complete := by
    rintro last _ rest _ hlast ⟨htype, hname, hcolon, hsemantic, hsemicolon⟩ -
    refine (recognizes_expectName r"a type or `}`").thenToken hlast (.token htype) trivial ?_
    refine (recognizes_expectName "a field name").thenToken hlast (.token hname) trivial ?_
    refine thenMark hcolon ?_
    refine (recognizes_expectName "a semantic").thenToken hlast (.token hsemantic) trivial ?_
    exact thenMark hsemicolon (reads_pure _ _)

theorem recognizes_fields :
    Recognizes (manyUntil .closeBrace expectField) (Many IsField) (· = .closeBrace) := by
  refine recognizes_manyUntil recognizes_expectField ?_ trivial
  rintro _ _ ⟨htype, -, -, -, -⟩
  exact ⟨_, _, rfl, by simp [htype], trivial⟩

/-- A stream of a stage, before a token that is no name. -/
theorem recognizes_expectArgument (direction : Direction) :
    Recognizes (expectArgument direction) (IsArgument direction) (· ≠ .identifier) where
  sound := by
    intro last tokens hlast
    refine (recognizes_expectKeyword direction.keyword).ensures hlast ?_
    rintro _ keyword _ rfl ⟨rfl, hkeyword⟩
    refine (recognizes_expectName "an attribute stream name").ensures hlast ?_
    rintro _ stream _ rfl ⟨hstream⟩
    refine (tries_takeIf .identifier).ensures (by simp [hlast]) ?_ fun _ => ?_
    · rintro name rest rfl hname
      exact ensures_pure ⟨_, rest, rfl, rfl,
        .argument hkeyword hstream (.present (.token hname))⟩
    · exact ensures_pure ⟨[keyword, stream], _, rfl, rfl, .argument hkeyword hstream .absent⟩
  complete := by
    rintro last _ rest _ hlast ⟨hkeyword, hstream, hinstance⟩ hnext
    refine (recognizes_expectKeyword direction.keyword).thenToken hlast ⟨rfl, hkeyword⟩ trivial ?_
    refine (recognizes_expectName "an attribute stream name").thenToken hlast (.token hstream)
      trivial ?_
    cases hinstance with
    | absent => exact (tries_takeIf .identifier).thenLeave hnext (reads_pure _ _)
    | present hname =>
      obtain ⟨hname⟩ := hname
      exact (tries_takeIf .identifier).thenTake hname (reads_pure _ _)

theorem recognizes_expectInterface : Recognizes expectInterface IsInterface where
  sound := by
    intro last tokens hlast
    refine ensures_mark .openParen nofun hlast ?_
    rintro opening _ rfl hopening
    refine (recognizes_expectArgument .input).ensures hlast ?_
    rintro inputTokens input _ rfl hinput
    refine ensures_mark .comma nofun hlast ?_
    rintro comma _ rfl hcomma
    refine (recognizes_expectArgument .output).ensures hlast ?_
    rintro outputTokens output _ rfl houtput
    refine ensures_mark .closeParen nofun hlast ?_
    rintro closing rest rfl hclosing
    exact ensures_pure ⟨_, rest, by simp, rfl,
      .interface hopening hinput hcomma houtput hclosing⟩
  complete := by
    rintro last _ rest _ hlast ⟨hopening, hinput, hcomma, houtput, hclosing⟩ -
    simp only [List.cons_append, List.append_assoc, List.nil_append]
    refine thenMark hopening ?_
    refine (recognizes_expectArgument .input).then hlast hinput
      (by simp [TokenStream.next, hcomma]) ?_
    refine thenMark hcomma ?_
    refine (recognizes_expectArgument .output).then hlast houtput
      (by simp [TokenStream.next, hclosing]) ?_
    exact thenMark hclosing (reads_pure _ _)

end Streams

/-! ### Passes -/

section Passes

/-- One more binding of a pass. -/
theorem recognizes_readStage (stages : OrderedMap Stage BoundStage) :
    Recognizes (readStage stages) (fun tokens after => ∃ binding, IsBinding tokens binding ∧
      stages.insertNew? binding.1 binding.2 = some after) where
  sound := by
    intro last tokens hlast
    refine (recognizes_expectName r"a shader stage or `}`").ensures hlast ?_
    rintro _ word _ rfl ⟨hword⟩
    split
    · exact ensures_throw
    · rename_i slot hslot
      refine ensures_refusing ensures_throw fun hnew => ?_
      refine Recognizes.ensures recognizes_expectInterface hlast ?_
      rintro interfaceTokens interface _ rfl hinterface
      refine ensures_mark .equal nofun hlast ?_
      rintro equal _ rfl hequal
      refine (recognizes_expectReferences (.inr rfl) "a GLSLShader name").ensures hlast ?_
      rintro tokens references _ rfl hreferences
      refine ensures_mark .semicolon nofun hlast ?_
      rintro semicolon rest rfl hsemicolon
      exact ensures_pure ⟨_, rest, by simp, rfl, _,
        .binding hword hslot hinterface hequal hreferences hsemicolon,
        OrderedMap.insertNew?_of_new hnew⟩
  complete := by
    rintro last _ rest after hlast
      ⟨_, ⟨hword, hslot, hinterface, hequal, hreferences, hsemicolon⟩, hafter⟩ -
    obtain ⟨hnew, rfl⟩ := OrderedMap.insertNew?_eq_insert.mp hafter
    simp only [List.cons_append, List.append_assoc, List.nil_append]
    refine (recognizes_expectName r"a shader stage or `}`").thenToken hlast (.token hword)
      trivial ?_
    rw [hslot]
    dsimp only
    rw [if_neg hnew]
    refine Recognizes.then recognizes_expectInterface hlast hinterface trivial ?_
    refine thenMark hequal ?_
    refine (recognizes_expectReferences (.inr rfl) "a GLSLShader name").then hlast hreferences
      trivial ?_
    exact thenMark hsemicolon (reads_pure _ _)

/-- The bindings of a pass, whose stages are distinct. -/
theorem recognizes_stages :
    Recognizes (foldUntil .closeBrace readStage .empty) (fun tokens stages =>
      Many IsBinding tokens stages.entries ∧ stages.keys.Nodup) (· = .closeBrace) := by
  refine recognizes_table recognizes_readStage ?_
  rintro _ _ ⟨hword, -, -, -, -, -⟩
  exact ⟨_, _, rfl, by simp [hword]⟩

/-- A pass that binds what it has to. -/
theorem recognizes_readPass :
    RecognizesAt "pass" readPass (fun tokens pass => IsPass tokens pass ∧ pass.IsComplete) where
  starts := by
    rintro _ _ ⟨⟨hkeyword, -, -, -, -, -⟩, -⟩
    exact ⟨_, _, rfl, hkeyword⟩
  sound := by
    intro last keyword tokens hlast hkeyword
    refine ensures_take_cons ?_
    refine (recognizes_expectName "a pass name").ensures hlast ?_
    rintro _ name _ rfl ⟨hname⟩
    refine Recognizes.ensures recognizes_acceptAnnotations hlast ?_
    rintro annotationTokens annotations _ rfl hannotations
    refine ensures_mark .openBrace nofun hlast ?_
    rintro opening _ rfl hopening
    refine Recognizes.ensures_closing recognizes_stages (stopsAt_foldUntil _) nofun hlast ?_
    rintro tokens ⟨bindings⟩ closing rest rfl ⟨hbindings, hnodup⟩ hclosing
    refine ensures_bind ensures_requireStages ?_
    rintro _ _ ⟨rfl, hvertex, hfragment⟩
    exact ensures_pure ⟨_, rest, by simp, rfl,
      .pass hkeyword hname hannotations hopening hbindings hclosing, hnodup, hvertex, hfragment⟩
  complete := by
    rintro last _ rest _ hlast
      ⟨⟨hkeyword, hname, hannotations, hopening, hbindings, hclosing⟩, hcomplete⟩
    simp only [List.cons_append, List.append_assoc, List.nil_append]
    refine reads_take_cons ?_
    refine (recognizes_expectName "a pass name").thenToken hlast (.token hname) trivial ?_
    refine Recognizes.then recognizes_acceptAnnotations hlast hannotations
      (by simp [TokenStream.next, hopening]) ?_
    refine thenMark hopening ?_
    refine Recognizes.then recognizes_stages hlast ⟨hbindings, hcomplete.nodup⟩ hclosing ?_
    rw [reads_bind_of_run (take_run _),
      reads_bind_of_run (requireStages_run hcomplete.vertex hcomplete.fragment)]
    exact reads_pure _ _

/-- Passes up to a closing brace. -/
theorem recognizes_passes : Recognizes (manyUntil .closeBrace (do
      if ← seesKeyword "pass" then readPass else unexpected r"`pass` or `}`"))
    (fun tokens passes => Many IsPass tokens passes ∧ ∀ pass ∈ passes, pass.IsComplete)
    (· = .closeBrace) := by
  refine (recognizes_manyUntil (RecognizesAt.orUnexpected recognizes_readPass _)
    ((RecognizesAt.starts recognizes_readPass).mono fun keyword hkeyword => ?_) trivial).congr
    fun _ _ => many_and_iff.symm
  exact ⟨by simp [(isKeyword_iff.mp hkeyword).1], trivial⟩

/-- The passes of a technique, of which there has to be one. -/
theorem recognizes_expectPasses : Recognizes expectPasses (fun tokens passes =>
    (Many IsPass tokens passes ∧ ∀ pass ∈ passes, pass.IsComplete) ∧ passes ≠ [])
    (· = .closeBrace) where
  sound := by
    intro last tokens hlast
    rw [expectPasses, ensures_bind_of_run (seesKeyword_run "pass" _)]
    refine ensures_refusing ensures_unexpected fun hsees => ?_
    have hkeyword : (TokenStream.next ⟨tokens, last⟩).isKeyword "pass" = true := by
      simpa using hsees
    intro passes after hreads
    have hstop := stopsAt_manyUntil _ passes after hreads
    obtain ⟨taken, rest, htaken, rfl, hpasses⟩ :=
      Recognizes.sound recognizes_passes hlast passes after hreads
    refine ⟨taken, rest, htaken, rfl, hpasses, ?_⟩
    -- Without a pass the closing brace would stand where the keyword does.
    rintro rfl
    cases hpasses.1
    rw [List.nil_append] at htaken
    rw [← htaken, (isKeyword_iff.mp hkeyword).1] at hstop
    exact nomatch hstop
  complete := by
    rintro last taken rest passes hlast ⟨hpasses, hsome⟩ hnext
    have hkeyword : (TokenStream.next ⟨taken ++ rest, last⟩).isKeyword "pass" = true := by
      cases hpasses.1 with
      | nil => exact absurd rfl hsome
      | cons hfirst _ =>
        obtain ⟨hkeyword, -, -, -, -, -⟩ := hfirst
        exact hkeyword
    rw [expectPasses, reads_bind_of_run (seesKeyword_run "pass" _), if_neg (by simp [hkeyword])]
    exact Recognizes.complete recognizes_passes hlast hpasses hnext

end Passes

/-! ### Drafts -/

section Drafts

/-- Adds an item to a draft, if both can stand in one file. -/
def Draft.add? (draft : Draft) : Item → Option Draft
  | .uniform uniform annotations =>
    (draft.shader.uniforms.insertNew? uniform.name uniform).map fun uniforms =>
      ⟨{ draft.shader with uniforms }, draft.annotations.insert uniform.name annotations⟩
  | .stream stream =>
    (draft.shader.streams.insertNew? stream.name stream).map fun streams =>
      { draft with shader := { draft.shader with streams } }
  | .block block =>
    (draft.shader.blocks.insertNew? block.name block).map fun blocks =>
      { draft with shader := { draft.shader with blocks } }
  | .technique technique =>
    if ∀ pass ∈ technique.passes, pass.IsComplete then
      (draft.shader.techniques.insertNew? technique.name technique).map fun techniques =>
        { draft with shader := { draft.shader with techniques } }
    else none

/-- An item that a keyword starts, as the draft that a given one becomes with it. -/
def Draft.Extends (draft : Draft) (word : String) : Phrase Draft := fun tokens after =>
  ∃ item, IsItem tokens item ∧ item.keyword = word ∧ draft.add? item = some after

theorem Draft.startsWith_extends (draft : Draft) (word : String) :
    StartsWith (draft.Extends word) (·.isKeyword word = true) := by
  rintro _ _ ⟨_, hitem, rfl, -⟩
  exact hitem.starts

theorem recognizes_readUniform (draft : Draft) :
    RecognizesAt "uniform" (readUniform draft) (draft.Extends "uniform") where
  starts := draft.startsWith_extends _
  sound := by
    intro last keyword tokens hlast hkeyword
    refine ensures_take_cons ?_
    refine (recognizes_expectName "a type").ensures hlast ?_
    rintro _ type _ rfl ⟨htype⟩
    refine (recognizes_expectName "a uniform name").ensures hlast ?_
    rintro _ name _ rfl ⟨hname⟩
    refine ensures_refusing ensures_throw fun hnew => ?_
    refine (recognizes_expectName "a semantic").ensures_optional nofun hlast ?_
    rintro semanticTokens semantic? _ rfl hsemantic
    refine Recognizes.ensures recognizes_acceptAnnotations hlast ?_
    rintro annotationTokens annotations _ rfl hannotations
    refine Recognizes.ensures_optional recognizes_expectConstant nofun hlast ?_
    rintro defaultTokens default? _ rfl hdefault
    refine ensures_mark .semicolon nofun hlast ?_
    rintro semicolon rest rfl hsemicolon
    refine (ensures_bind_of_reads (reads_record _ _ _)).mpr (ensures_pure ⟨_, rest, by simp, rfl, _,
      .uniform (.uniform hkeyword htype hname hsemantic hannotations hdefault hsemicolon), rfl, ?_⟩)
    exact congrArg (Option.map _) (OrderedMap.insertNew?_of_new hnew)
  complete := by
    rintro last _ rest after hlast ⟨_, ⟨huniform⟩ | ⟨⟩ | ⟨⟩ | ⟨⟩, hword, hafter⟩
    case uniform =>
      obtain ⟨hkeyword, htype, hname, hsemantic, hannotations, hdefault, hsemicolon⟩ := huniform
      obtain ⟨uniforms, huniforms, rfl⟩ := Option.map_eq_some_iff.mp hafter
      obtain ⟨hnew, rfl⟩ := OrderedMap.insertNew?_eq_insert.mp huniforms
      simp only [List.cons_append, List.append_assoc, List.nil_append]
      refine reads_take_cons ?_
      refine (recognizes_expectName "a type").thenToken hlast (.token htype) trivial ?_
      refine (recognizes_expectName "a uniform name").thenToken hlast (.token hname) trivial ?_
      rw [if_neg hnew]
      refine (recognizes_expectName "a semantic").thenOptional hlast hsemantic
        ((mayStart_of_annotations hannotations).next_ne (by decide)
          ((mayStart_of_optional hdefault).next_ne (by decide)
            (by simp [TokenStream.next, hsemicolon]))) ?_
      refine Recognizes.then recognizes_acceptAnnotations hlast hannotations
        ((mayStart_of_optional hdefault).next_ne (by decide)
          (by simp [TokenStream.next, hsemicolon])) ?_
      refine Recognizes.thenOptional recognizes_expectConstant hlast hdefault
        (by simp [TokenStream.next, hsemicolon]) ?_
      refine thenMark hsemicolon ?_
      exact (reads_bind_of_reads (reads_record _ _ _)).mpr (reads_pure _ _)
    all_goals simp [Item.keyword] at hword

theorem recognizes_readStream (draft : Draft) :
    RecognizesAt "attribute" (readStream draft) (draft.Extends "attribute") where
  starts := draft.startsWith_extends _
  sound := by
    intro last keyword tokens hlast hkeyword
    refine ensures_take_cons ?_
    refine (recognizes_expectName "an attribute stream name").ensures hlast ?_
    rintro _ name _ rfl ⟨hname⟩
    refine ensures_refusing ensures_throw fun hnew => ?_
    refine ensures_mark .openBrace nofun hlast ?_
    rintro opening _ rfl hopening
    refine Recognizes.ensures recognizes_fields hlast ?_
    rintro tokens fields _ rfl hfields
    refine ensures_mark .closeBrace nofun hlast ?_
    rintro closing _ rfl hclosing
    refine ensures_mark .semicolon nofun hlast ?_
    rintro semicolon rest rfl hsemicolon
    exact ensures_pure ⟨_, rest, by simp, rfl, _,
      .stream (.stream hkeyword hname hopening hfields hclosing hsemicolon), rfl,
      congrArg (Option.map _) (OrderedMap.insertNew?_of_new hnew)⟩
  complete := by
    rintro last _ rest after hlast ⟨_, ⟨⟩ | ⟨hstream⟩ | ⟨⟩ | ⟨⟩, hword, hafter⟩
    case stream =>
      obtain ⟨hkeyword, hname, hopening, hfields, hclosing, hsemicolon⟩ := hstream
      obtain ⟨streams, hstreams, rfl⟩ := Option.map_eq_some_iff.mp hafter
      obtain ⟨hnew, rfl⟩ := OrderedMap.insertNew?_eq_insert.mp hstreams
      simp only [List.cons_append, List.append_assoc, List.nil_append]
      refine reads_take_cons ?_
      refine (recognizes_expectName "an attribute stream name").thenToken hlast (.token hname)
        trivial ?_
      rw [if_neg hnew]
      refine thenMark hopening ?_
      refine Recognizes.then recognizes_fields hlast hfields hclosing ?_
      refine thenMark hclosing ?_
      exact thenMark hsemicolon (reads_pure _ _)
    all_goals simp [Item.keyword] at hword

theorem recognizes_readBlock (draft : Draft) :
    RecognizesAt "GLSLShader" (readBlock draft) (draft.Extends "GLSLShader") where
  starts := draft.startsWith_extends _
  sound := by
    intro last keyword tokens hlast hkeyword
    refine ensures_take_cons ?_
    refine (recognizes_expectName "a GLSLShader name").ensures hlast ?_
    rintro _ name _ rfl ⟨hname⟩
    refine ensures_mark .openBrace nofun hlast ?_
    rintro opening _ rfl hopening
    refine (recognizes_expectBody "a GLSLShader body").ensures hlast ?_
    rintro tokens body rest rfl hbody
    refine ensures_refusing ensures_throw fun hnew => ?_
    exact ensures_pure ⟨_, rest, rfl, rfl, _, .block (.block hkeyword hname hopening hbody), rfl,
      congrArg (Option.map _) (OrderedMap.insertNew?_of_new hnew)⟩
  complete := by
    rintro last _ rest after hlast ⟨_, ⟨⟩ | ⟨⟩ | ⟨hblock⟩ | ⟨⟩, hword, hafter⟩
    case block =>
      obtain ⟨hkeyword, hname, hopening, hbody⟩ := hblock
      obtain ⟨blocks, hblocks, rfl⟩ := Option.map_eq_some_iff.mp hafter
      obtain ⟨hnew, rfl⟩ := OrderedMap.insertNew?_eq_insert.mp hblocks
      rw [CodeBlock.name_ofBody] at hnew
      refine reads_take_cons ?_
      refine (recognizes_expectName "a GLSLShader name").thenToken hlast (.token hname) trivial ?_
      refine thenMark hopening ?_
      refine (recognizes_expectBody "a GLSLShader body").then hlast hbody trivial ?_
      rw [if_neg hnew]
      exact reads_pure _ _
    all_goals simp [Item.keyword] at hword

theorem recognizes_readTechnique (draft : Draft) :
    RecognizesAt "technique" (readTechnique draft) (draft.Extends "technique") where
  starts := draft.startsWith_extends _
  sound := by
    intro last keyword tokens hlast hkeyword
    refine ensures_take_cons ?_
    refine (recognizes_expectName "a technique name").ensures hlast ?_
    rintro _ name _ rfl ⟨hname⟩
    refine ensures_refusing ensures_throw fun hnew => ?_
    refine Recognizes.ensures recognizes_acceptAnnotations hlast ?_
    rintro annotationTokens annotations _ rfl hannotations
    refine ensures_mark .openBrace nofun hlast ?_
    rintro opening _ rfl hopening
    refine Recognizes.ensures recognizes_expectPasses hlast ?_
    rintro tokens passes _ rfl ⟨⟨hpasses, hcomplete⟩, hsome⟩
    refine ensures_mark .closeBrace nofun hlast ?_
    rintro closing rest rfl hclosing
    refine (ensures_bind_of_reads (reads_record _ _ _)).mpr (ensures_pure ⟨_, rest, by simp, rfl, _,
      .technique (.technique hkeyword hname hannotations hopening hpasses hsome hclosing),
      rfl, ?_⟩)
    rw [Draft.add?, if_pos hcomplete]
    exact congrArg (Option.map _) (OrderedMap.insertNew?_of_new hnew)
  complete := by
    rintro last _ rest after hlast ⟨_, ⟨⟩ | ⟨⟩ | ⟨⟩ | ⟨htechnique⟩, hword, hafter⟩
    case technique =>
      obtain ⟨hkeyword, hname, hannotations, hopening, hpasses, hsome, hclosing⟩ := htechnique
      obtain ⟨hcomplete, hafter⟩ := Option.ite_none_right_eq_some.mp hafter
      obtain ⟨techniques, htechniques, rfl⟩ := Option.map_eq_some_iff.mp hafter
      obtain ⟨hnew, rfl⟩ := OrderedMap.insertNew?_eq_insert.mp htechniques
      simp only [List.cons_append, List.append_assoc, List.nil_append]
      refine reads_take_cons ?_
      refine (recognizes_expectName "a technique name").thenToken hlast (.token hname) trivial ?_
      rw [if_neg hnew]
      refine Recognizes.then recognizes_acceptAnnotations hlast hannotations
        (by simp [TokenStream.next, hopening]) ?_
      refine thenMark hopening ?_
      refine Recognizes.then recognizes_expectPasses hlast ⟨⟨hpasses, hcomplete⟩, hsome⟩ hclosing ?_
      refine thenMark hclosing ?_
      exact (reads_bind_of_reads (reads_record _ _ _)).mpr (reads_pure _ _)
    all_goals simp [Item.keyword] at hword

/-- One more item of a file. -/
theorem recognizes_readItem (draft : Draft) : Recognizes (readItem draft) (fun tokens after =>
    ∃ item, IsItem tokens item ∧ draft.add? item = some after) := by
  have hother : ∀ {word other : String}, other ≠ word →
      StartsWith (draft.Extends other) (¬ ·.isKeyword word = true) := fun hne =>
    (draft.startsWith_extends _).mono fun _ => not_isKeyword_of_isKeyword hne
  have htechnique := (recognizes_readTechnique draft).orUnexpected
    "`uniform`, `attribute`, `GLSLShader` or `technique`"
  have hblock := (recognizes_readBlock draft).orElse htechnique (hother (by decide))
  have hstream := (recognizes_readStream draft).orElse hblock
    ((hother (by decide)).or (hother (by decide)))
  refine ((recognizes_readUniform draft).orElse hstream ((hother (by decide)).or
    ((hother (by decide)).or (hother (by decide))))).congr fun tokens after => ?_
  constructor
  · rintro ⟨item, hitem, hafter⟩
    cases item with
    | uniform _ _ => exact .inl ⟨_, hitem, rfl, hafter⟩
    | stream _ => exact .inr (.inl ⟨_, hitem, rfl, hafter⟩)
    | block _ => exact .inr (.inr (.inl ⟨_, hitem, rfl, hafter⟩))
    | technique _ => exact .inr (.inr (.inr ⟨_, hitem, rfl, hafter⟩))
  · rintro (⟨item, hitem, -, hafter⟩ | ⟨item, hitem, -, hafter⟩ | ⟨item, hitem, -, hafter⟩ |
      ⟨item, hitem, -, hafter⟩) <;>
      exact ⟨item, hitem, hafter⟩

theorem recognizes_items (draft : Draft) :
    Recognizes (foldUntil .endOfFile readItem draft) (fun tokens after =>
      ∃ items, Many IsItem tokens items ∧ items.foldlM Draft.add? draft = some after)
      (· = .endOfFile) := by
  refine recognizes_foldUntil recognizes_readItem ?_ trivial draft
  intro tokens item hitem
  obtain ⟨keyword, more, rfl, hkeyword⟩ := hitem.starts
  exact ⟨keyword, more, rfl, kind_ne_of_isKeyword hkeyword, trivial⟩

end Drafts

end ShaderAssembly.Effect
