import ShaderAssembly.Proofs.DeclaredEffects
import ShaderAssembly.Proofs.OrderedTokens
import ShaderAssembly.Proofs.ReportedTokens

/-!
# Text that makes no token comes to light

A piece of text that makes no token is a token of its own kind, which no grammar asks for. A parser
takes the tokens before the first such piece, and there it stops at the latest: either it has failed
at one of those tokens, or it fails at the piece and says what is wrong with it. It cannot succeed,
because the end of the file stands behind the piece.
-/

namespace ShaderAssembly

/-! ### Errors about a fault -/

/-- Whether a token is a piece of text that makes no token. -/
def Token.isFault (token : Token) : Bool := token.kind.isError

/-- A fault is of no proper kind. -/
theorem Token.kind_ne_of_isFault {fault : Token} {kind : TokenKind} (h : fault.isFault = true)
    (hproper : kind.isError = false) : fault.kind ≠ kind := by
  rintro rfl
  exact absurd (h.symm.trans hproper) nofun

/-- Whether an error says what is wrong with a piece of text that makes no token: it names a single
character that was found, and of everything else it gives the issue, whose text it then has. -/
def Error.Tells (fault : Token) (error : Error) : Prop :=
  match fault.kind with
  | .error .unexpectedCharacter => ∃ expected,
      error = .unexpected expected s!"unexpected character `{fault.lexeme}`" fault.position
  | .error issue => error = .lexical issue fault.position
  | _ => False

/-- Whether an error brings a fault to light, or something that is wrong before it. -/
def Error.Surfaces (fault : Token) (error : Error) : Prop :=
  ∃ position, error.position? = some position ∧
    (position.Precedes fault.position ∨ position = fault.position ∧ error.Tells fault)

/-- An error that is about the place of a fault says what is wrong with it. -/
theorem Error.Surfaces.tells {fault : Token} {error : Error} (h : error.Surfaces fault)
    (hposition : error.position? = some fault.position) : error.Tells fault := by
  obtain ⟨position, hsame, hwhere⟩ := h
  obtain rfl : position = fault.position := Option.some_inj.mp (hsame.symm.trans hposition)
  exact (hwhere.resolve_left fun hbefore => hbefore.ne rfl).2

/-- Where a fault stands next, the refusal says what is wrong with it. -/
theorem Error.tells_refused {fault : Token} (h : fault.isFault = true) (expected : String) :
    (fault.refused expected).Tells fault := by
  obtain ⟨kind, lexeme, position⟩ := fault
  cases kind with
  | error issue =>
    cases issue with
    | unexpectedCharacter => exact ⟨expected, rfl⟩
    | unterminatedString | unterminatedComment | unterminatedBlock => rfl
  | _ => cases h

/-- An error whose position is not changed is the same error. -/
theorem Error.mapPosition_eq_self {error : Error} {position : Position} {f : Position → Position}
    (h : error.position? = some position) (hf : f position = position) :
    error.mapPosition f = error := by
  cases error <;> cases h <;> simp only [mapPosition, hf]

/-- Whether a token stands before a fault and is not the end of the file. -/
structure Token.Leads (fault token : Token) : Prop where
  isNoEnd : token.kind ≠ .endOfFile
  precedes : token.position.Precedes fault.position

/-- Whether a fault is still to be read, behind tokens that stand before it. -/
def TokenStream.LeadsTo (stream : TokenStream) (fault : Token) : Prop :=
  ∃ before after, stream.pending = before ++ fault :: after ∧ ∀ token ∈ before, fault.Leads token

/-- The watch over streams with a fault ahead. -/
def Watch.before {fault : Token} (hfault : fault.isFault = true) : Watch where
  covers stream := stream.LeadsTo fault
  knows token := fault.Leads token
  admits error := error.Surfaces fault
  take := by
    rintro ⟨_, last⟩ ⟨before, after, rfl, hbefore⟩ hproper
    cases before with
    | nil => exact absurd (hfault.symm.trans hproper) nofun
    | cons token before =>
      obtain ⟨htoken, hbefore⟩ := List.forall_mem_cons.mp hbefore
      exact ⟨htoken, before, after, rfl, hbefore⟩
  refuse := by
    rintro ⟨_, last⟩ ⟨before, after, rfl, hbefore⟩ expected
    cases before with
    | nil =>
      exact ⟨_, fault.position?_refused expected, .inr ⟨rfl, Error.tells_refused hfault expected⟩⟩
    | cons token before =>
      exact ⟨_, token.position?_refused expected,
        .inl (hbefore token (List.mem_cons_self ..)).precedes⟩
  about token htoken error herror := ⟨_, herror, .inl htoken.precedes⟩

/-- Before a fault the end of the file does not stand next. -/
theorem TokenStream.LeadsTo.next_ne {stream : TokenStream} {fault : Token}
    (h : stream.LeadsTo fault) (hfault : fault.isFault = true) :
    stream.next.kind ≠ .endOfFile := by
  obtain ⟨pending, last⟩ := stream
  obtain ⟨before, after, rfl, hbefore⟩ := h
  cases before with
  | nil => exact Token.kind_ne_of_isFault hfault rfl
  | cons token before => exact (hbefore token (List.mem_cons_self ..)).isNoEnd

/-- The stream of a text leads to each fault in it. -/
theorem TokenStream.leadsTo_of_scan {rule : Option BlockRule} {path : SourcePath} {text : String}
    {fault : Token} (h : fault ∈ Token.scan rule path text) (hfault : fault.isFault = true) :
    (ofTokens path (Token.scan rule path text)).LeadsTo fault := by
  obtain ⟨before, after, htokens⟩ := List.append_of_mem h
  have hordered := Token.pairwise_scan rule path text
  rw [htokens] at hordered
  have hleads : ∀ token ∈ before, token.kind ≠ .endOfFile → fault.Leads token := by
    intro token htoken hend
    refine ⟨hend, ?_⟩
    exact (List.pairwise_append.mp hordered).2.2 token htoken fault (List.mem_cons_self ..)
      (Token.kind_ne_of_isFault hfault rfl)
  have hstream := ScanState.isStreamOf_scan rule path text
  generalize ofTokens path (Token.scan rule path text) = stream at hstream ⊢
  cases hstream with
  | early _ hpending _ _ =>
    refine ⟨before, after, htokens, fun token htoken => hleads token htoken (hpending token ?_)⟩
    simp [htokens, htoken]
  | @whole pending last hlast hpending hscan =>
    -- The fault is not the last token, which is the end of the file.
    obtain ⟨between, rfl⟩ : ∃ between, pending = before ++ fault :: between := by
      rw [htokens] at hscan
      rcases List.eq_nil_or_concat' after with rfl | ⟨between, final, rfl⟩
      · obtain ⟨-, hsame⟩ := List.append_inj' hscan rfl
        obtain rfl := List.singleton_inj.mp hsame
        exact absurd hlast (Token.kind_ne_of_isFault hfault rfl)
      · rw [← List.cons_append, ← List.append_assoc] at hscan
        exact ⟨between, (List.append_inj' hscan rfl).1.symm⟩
    refine ⟨before, between, rfl, fun token htoken => hleads token htoken (hpending token ?_)⟩
    simp [htoken]

/-- A parser that gives nothing with a fault ahead fails, and the error brings the fault or
something before it to light. -/
theorem Parser.HeedsFrom.exists_surfaces {α : Type} {parser : Parser α} {stream : TokenStream}
    {fault : Token} (hfault : fault.isFault = true)
    (h : HeedsFrom (.before hfault) parser stream fun _ _ => False) :
    ∃ error, parser.outcomeFrom stream = .error error ∧ error.Surfaces fault := by
  cases houtcome : parser.outcomeFrom stream with
  | error error => exact ⟨error, rfl, h.fails error houtcome⟩
  | ok value => exact (h.gives value _ ⟨houtcome, rfl⟩).elim

/-! ### Descriptions -/

namespace Description

open ShaderAssembly.Parser

variable {watch : Watch} {draft : Draft}

theorem obeys_expectAttribute : Obeys watch expectAttribute := by
  refine (heeds_expectName _).bind fun name hname => ?_
  have hclose : ∀ advice : EditorHint, Obeys watch (do
      expectMark .closeBracket
      return advice) := fun _ => (obeys_expectMark rfl).bind fun _ _ => .pure trivial
  dsimp only
  split
  · exact obeys_expectBounds.bind fun _ _ => .pure_bind (hclose _)
  · exact .pure_bind (hclose _)
  · refine (obeys_expectMark rfl).bind fun _ _ => ?_
    refine (obeys_expectString _).bind fun _ _ => ?_
    exact (obeys_expectMark rfl).bind fun _ _ => .pure_bind (hclose _)
  · exact (heeds_refuse (Q := fun _ => False) _ hname.1).bind nofun

theorem obeys_expectType : Obeys watch expectType := by
  refine (heeds_expectName _).bind fun word hword => ?_
  split
  · exact .pure trivial
  · exact heeds_refuse _ hword.1

theorem heeds_expectPropertyName :
    Heeds watch (fun named => named.2.position.Marks watch.knows) expectPropertyName := by
  have hattribute : Obeys watch (do
      if ← accept .openBracket then expectAttribute else unexpected "a property name") :=
    (obeys_accept rfl).bind fun _ _ => .ite obeys_expectAttribute (heeds_unexpected _)
  refine (heeds_manyUntil hattribute).bind fun attributes _ => ?_
  exact (heeds_expectName _).bind fun name hname => .pure hname.2

theorem heeds_expectProperty :
    Heeds watch (fun declaration => declaration.position.Marks watch.knows) expectProperty := by
  refine heeds_expectPropertyName.bind fun named hnamed => ?_
  refine (obeys_expectMark rfl).bind fun _ _ => ?_
  refine (obeys_expectString _).bind fun label _ => ?_
  refine heeds_optional rfl obeys_expectType fun type? => ?_
  refine (obeys_expectMark rfl).bind fun _ _ => ?_
  exact heeds_optional rfl (obeys_expectLiteral rfl rfl _) fun default? => .pure hnamed

theorem obeys_properties {other : Parser Draft} (hother : Obeys watch other) :
    Obeys watch (do if ← seesKeyword "Properties" then readProperties draft else other) := by
  refine heeds_keyword (fun keyword hkeyword => ?_) hother
  refine .refusing (heeds_refuseDuplicate _ hkeyword.1) ?_
  refine (obeys_expectMark rfl).bind fun _ _ => ?_
  refine (heeds_foldUntil (Q := fun _ => True) (fun properties _ => ?_) trivial).bind
    fun properties _ => (obeys_expectMark rfl).bind fun _ _ => .pure trivial
  refine heeds_expectProperty.bind fun declaration hdeclaration => ?_
  refine .refusing (heeds_throw_marked hdeclaration rfl) ?_
  exact (heeds_resolveProperty hdeclaration).bind fun _ _ => .pure trivial

theorem obeys_block {other : Parser Draft} (hother : Obeys watch other) :
    Obeys watch (do if ← seesKeyword "GLSL" then readBlock draft else other) := by
  refine heeds_keyword (fun keyword hkeyword => ?_) hother
  refine (heeds_takeIf rfl).bind fun name? hname => ?_
  refine (obeys_expectMark rfl).bind fun _ _ => ?_
  refine (heeds_expectBody _).bind fun body _ => ?_
  split
  · refine .refusing (heeds_refuseDuplicate _ hkeyword.1) ?_
    exact Heeds.record.bind fun _ _ => .pure trivial
  · refine .refusing (heeds_refuseDuplicate _ (hname _ rfl).1) ?_
    exact Heeds.record.bind fun _ _ => .pure trivial

theorem obeys_readStage (stages : OrderedMap Stage BoundStage) :
    Obeys watch (readStage stages) := by
  refine (heeds_expectName _).bind fun word hword => ?_
  split
  · exact heeds_refuse _ hword.1
  · refine .refusing (heeds_refuseDuplicate _ hword.1) ?_
    refine (obeys_expectMark rfl).bind fun _ _ => ?_
    exact (heeds_expectReferences rfl rfl _).bind fun _ _ => .pure trivial

theorem obeys_expectPass : Obeys watch expectPass := by
  intro stream hstream
  refine .bind_of_run (seesKeyword_run "Pass" stream) ?_
  by_cases hword : stream.next.isKeyword "Pass" = true
  · rw [hword]
    have hkind := (isKeyword_iff.mp hword).1
    refine (heedsFrom_take hstream (by rw [hkind]; rfl)).bind fun keyword after hkeyword => ?_
    refine Heeds.bind (Q := fun _ => True) (obeys_expectMark rfl) (fun _ _ => ?_) after hkeyword.2
    refine (heeds_foldUntil (fun _ _ => obeys_readStage _) trivial).closing
      (stopsAt_foldUntil _) rfl fun stages _ close hclose => ?_
    exact (obeys_requireStages stages hclose).bind fun _ _ => .pure trivial
  · rw [Bool.eq_false_iff.mpr hword]
    exact ((heeds_unexpected (Q := fun _ => False) _).bind nofun) stream hstream

theorem obeys_technique {other : Parser Draft} (hother : Obeys watch other) :
    Obeys watch (do if ← seesKeyword "Technique" then readTechnique draft else other) := by
  refine heeds_keyword (fun keyword _ => ?_) hother
  refine (heeds_expectName _).bind fun name hname => ?_
  refine .refusing (heeds_refuseDuplicate _ hname.1) ?_
  refine (obeys_expectMark rfl).bind fun _ _ => ?_
  refine (heeds_manyUntil obeys_expectPass).closing stopsAt_manyUntil rfl
    fun passes _ close hclose => ?_
  refine .refusing (heeds_refuse _ hclose) ?_
  exact Heeds.record.bind fun _ _ => .pure trivial

theorem obeys_readItem : Obeys watch (readItem draft) :=
  obeys_properties (obeys_block (obeys_technique (heeds_unexpected _)))

/-- Reading a description gives a shader once the end of the file has been taken. -/
theorem heeds_expectShader (path : SourcePath) :
    Heeds watch (fun _ => ∃ token, watch.knows token ∧ token.kind = .endOfFile)
      (expectShader path) := by
  refine (heeds_expectKeyword _).bind fun _ _ => ?_
  refine (obeys_expectMark rfl).bind fun _ _ => ?_
  refine (heeds_foldUntil (fun _ _ => obeys_readItem) trivial).closing
    (stopsAt_foldUntil _) rfl fun draft _ close hclose => ?_
  refine Heeds.bind (Q := fun _ => ∃ token, watch.knows token ∧ token.kind = .endOfFile)
    ((heeds_expect rfl _).bind fun token htoken => .pure ⟨token, htoken⟩) fun _ hend => ?_
  exact .refusing (heeds_refuse _ hclose) (.pure hend)

end Description

/-! ### Texts with a fault -/

/-- In a file that is mapped as it is, a line comes from itself. -/
theorem LineMap.eq_of_locate_run {file : SourcePath} {count line : Nat} {origin : Origin}
    (h : (run file 1 count).locate line = some origin) : origin = ⟨file, line⟩ := by
  obtain ⟨segment, hfound, hlocate⟩ := Option.bind_eq_some_iff.mp h
  have hmem := List.mem_reverse.mp (List.mem_of_find?_eq_some hfound)
  unfold run at hmem
  split at hmem
  · cases hmem
  · obtain rfl := List.mem_singleton.mp hmem
    unfold Segment.locate? at hlocate
    split at hlocate
    · rename_i hbounds
      cases hlocate
      exact congrArg (Origin.mk file) (Nat.add_sub_cancel' hbounds.1)
    · cases hlocate

namespace Effect

/-- In a file without includes no position is moved. -/
theorem located_verbatim {path : SourcePath} {position : Position} (text : String)
    (h : position.file = path) :
    located (ExpandedText.verbatim text path 1).map position = position := by
  unfold located
  split
  · rename_i origin horigin
    rw [LineMap.eq_of_locate_run horigin, ← h]
  · rfl

end Effect

namespace Token

variable {path : SourcePath} {text : String} {fault : Token}

/-- What is found out about a description up to a fault. -/
theorem exists_surfaces_description (h : fault ∈ scan (some Description.blockRule) path text)
    (hfault : fault.isFault = true) :
    ∃ error, (Description.parse path text).outcome = .error error ∧ error.Surfaces fault := by
  refine Parser.HeedsFrom.exists_surfaces hfault
    ((Description.heeds_expectShader path _ (TokenStream.leadsTo_of_scan h hfault)).mono ?_)
  rintro _ _ ⟨⟨token, hleads, hend⟩, -⟩
  exact hleads.isNoEnd hend

/-- What is found out about an effect file up to a fault. -/
theorem exists_surfaces_effect (h : fault ∈ scan (some Effect.blockRule) path text)
    (hfault : fault.isFault = true) :
    ∃ error, (Effect.parseText path text).outcome = .error error ∧ error.Surfaces fault := by
  obtain ⟨error, herror, position, hposition, hwhere⟩ :=
    Parser.HeedsFrom.exists_surfaces hfault
      ((Effect.heeds_expectFile path _ (TokenStream.leadsTo_of_scan h hfault)).mono (by
        rintro _ _ ⟨⟨-, stream, hleads, hend⟩, -⟩
        exact hleads.next_ne hfault hend))
  refine ⟨error, ?_, position, hposition, hwhere⟩
  have hfile : position.file = path := by
    obtain ⟨passed, hstart⟩ := standsFrom_of_mem_scanFrom fault h
    have hsame : fault.position.file = path := by rw [hstart]; rfl
    rcases hwhere with hbefore | ⟨rfl, -⟩
    · exact hbefore.1.trans hsame
    · exact hsame
  rw [Effect.parseText, Effect.outcome_parse]
  have hrun : (Effect.expectFile path).outcomeFrom (.ofTokens path (scan (some Effect.blockRule)
      path (ExpandedText.verbatim text path 1).text)) = .error error := herror
  rw [hrun]
  exact congrArg Except.error
    (Error.mapPosition_eq_self hposition (Effect.located_verbatim text hfile))

/-- A text with a piece that makes no token is not read by either dialect: the error is about
something before the first such piece, or says what is wrong with it. -/
theorem first_fault_surfaces (path : SourcePath) (text : String) :
    (∀ fault, (scan (some Description.blockRule) path text).find? isFault = some fault →
      ∃ error, (Description.parse path text).outcome = .error error ∧ error.Surfaces fault) ∧
    (∀ fault, (scan (some Effect.blockRule) path text).find? isFault = some fault →
      ∃ error, (Effect.parseText path text).outcome = .error error ∧ error.Surfaces fault) :=
  ⟨fun _ h => exists_surfaces_description (List.mem_of_find?_eq_some h) (List.find?_some h),
    fun _ h => exists_surfaces_effect (List.mem_of_find?_eq_some h) (List.find?_some h)⟩

/-- The open block of a description and the stray character of an effect file come to light. -/
theorem first_fault_surfaces_open_block :
    (∃ error, (Description.parse ⟨"/a.shader"⟩ r"Shader { GLSL A { x").outcome = .error error ∧
      error.Surfaces ⟨.error .unterminatedBlock, " x", ⟨⟨"/a.shader"⟩, 1, 18⟩⟩) ∧
    (∃ error, (Effect.parseText ⟨"/a.ogsfx"⟩ "uniform\n@").outcome = .error error ∧
      error.Surfaces ⟨.error .unexpectedCharacter, "@", ⟨⟨"/a.ogsfx"⟩, 2, 1⟩⟩) :=
  ⟨(first_fault_surfaces _ _).1 _ (by decide +kernel),
    (first_fault_surfaces _ _).2 _ (by decide +kernel)⟩

end Token

end ShaderAssembly
