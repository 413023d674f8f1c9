import ShaderAssembly.Proofs.DescriptionGrammar
import ShaderAssembly.Proofs.EffectGrammar
import ShaderAssembly.Proofs.ScannedTokens

/-!
# Phrases without code

Most phrases have no body of code among their tokens and close every brace that they open, so that
they leave the depth at which a text is read as it was. The exceptions are code blocks, each with
one body. So all items of both dialects leave the depth as it was and end where a declaration can
start again, and their blocks can be counted among their tokens.
-/

namespace ShaderAssembly

/-- Whether a kind of token is neither a body nor a brace. -/
def TokenKind.isPlain : TokenKind → Bool
  | .body | .openBrace | .closeBrace => false
  | _ => true

theorem TokenKind.ne_of_isPlain {kind : TokenKind} (h : kind.isPlain = true) :
    kind ≠ .body ∧ kind ≠ .openBrace ∧ kind ≠ .closeBrace := by
  refine ⟨?_, ?_, ?_⟩ <;> rintro rfl <;> exact nomatch h

namespace Grammar

variable {tokens more : List Token} {token opening closing : Token}

/-- Whether tokens leave the depth of braces as it was, wherever they are read. -/
def IsBalanced (tokens : List Token) : Prop :=
  ∀ rule (state : ScanState), (state.after rule tokens).depth = state.depth

/-- Whether tokens have no body among them and leave the depth of braces as it was. -/
structure IsPlain (tokens : List Token) : Prop where
  /-- There are no bodies. -/
  bodies : ∀ token ∈ tokens, token.kind ≠ .body
  /-- All braces are closed. -/
  balanced : IsBalanced tokens

theorem IsBalanced.nil : IsBalanced [] := fun _ _ => rfl

theorem IsBalanced.append (h : IsBalanced tokens) (hmore : IsBalanced more) :
    IsBalanced (tokens ++ more) := fun rule state => by
  rw [ScanState.after_append, hmore rule, h rule]

/-- A token that is no brace leaves the depth as it was. -/
theorem IsBalanced.cons (hopen : token.kind ≠ .openBrace) (hclose : token.kind ≠ .closeBrace)
    (h : IsBalanced tokens) : IsBalanced (token :: tokens) := fun rule state => by
  have hdepth : (state.taking rule token.kind token.lexeme.toList).depth = state.depth := by
    unfold ScanState.taking
    split <;> first | contradiction | rfl
  exact (h rule _).trans hdepth

/-- Braces around tokens leave the depth as it was. -/
theorem IsBalanced.braces (hopening : opening.kind = .openBrace) (h : IsBalanced tokens)
    (hclosing : closing.kind = .closeBrace) : IsBalanced (opening :: (tokens ++ [closing])) := by
  intro rule state
  have hinner := h rule (state.taking rule opening.kind opening.lexeme.toList)
  show (((state.taking rule opening.kind opening.lexeme.toList).after rule
    (tokens ++ [closing]))).depth = _
  rw [ScanState.after_append]
  simp only [ScanState.after, ScanState.taking, List.foldl_cons, List.foldl_nil, hclosing,
    hopening] at hinner ⊢
  rw [hinner]
  rfl

theorem IsPlain.nil : IsPlain [] := ⟨nofun, .nil⟩

theorem IsPlain.append (h : IsPlain tokens) (hmore : IsPlain more) : IsPlain (tokens ++ more) :=
  ⟨fun token htoken => (List.mem_append.mp htoken).elim (h.bodies token) (hmore.bodies token),
    h.balanced.append hmore.balanced⟩

/-- A token of a kind that is neither a body nor a brace. -/
theorem IsPlain.mark {kind : TokenKind} (hmark : token.kind = kind) (hkind : kind.isPlain = true)
    (h : IsPlain tokens) : IsPlain (token :: tokens) := by
  obtain ⟨hbody, hopen, hclose⟩ := TokenKind.ne_of_isPlain hkind
  subst hmark
  exact ⟨List.forall_mem_cons.mpr ⟨hbody, h.bodies⟩, .cons hopen hclose h.balanced⟩

theorem IsPlain.word {word : String} (hword : token.isKeyword word = true) (h : IsPlain tokens) :
    IsPlain (token :: tokens) :=
  .mark (Parser.isKeyword_iff.mp hword).1 rfl h

/-- Tokens in braces. -/
theorem IsPlain.braces (hopening : opening.kind = .openBrace) (h : IsPlain tokens)
    (hclosing : closing.kind = .closeBrace) : IsPlain (opening :: (tokens ++ [closing])) := by
  refine ⟨fun token htoken => ?_, .braces hopening h.balanced hclosing⟩
  rcases List.mem_cons.mp htoken with rfl | htoken
  · simp [hopening]
  · rcases List.mem_append.mp htoken with htoken | htoken
    · exact h.bodies token htoken
    · obtain rfl := List.mem_singleton.mp htoken
      simp [hclosing]

/-- Tokens in brackets of either dialect. -/
theorem IsPlain.brackets {brackets : Brackets} (hbrackets : brackets = .round ∨ brackets = .curly)
    (hopening : opening.kind = brackets.opening) (h : IsPlain tokens)
    (hclosing : closing.kind = brackets.closing) : IsPlain (opening :: (tokens ++ [closing])) := by
  rcases hbrackets with rfl | rfl
  · exact .mark hopening rfl (h.append (.mark hclosing rfl .nil))
  · exact .braces hopening h hclosing

section Combination

variable {α : Type} {phrase : Phrase α} {value : α} {values : List α}

theorem Many.isPlain (hphrase : ∀ {tokens value}, phrase tokens value → IsPlain tokens)
    (h : Many phrase tokens values) : IsPlain tokens := by
  induction h with
  | nil => exact .nil
  | cons hfirst _ ih => exact (hphrase hfirst).append ih

theorem Optional.isPlain {value? : Option α}
    (hphrase : ∀ {tokens value}, phrase tokens value → IsPlain tokens)
    (h : Optional phrase tokens value?) : IsPlain tokens := by
  cases h with
  | absent => exact .nil
  | present h => exact hphrase h

theorem After.isPlain {mark : TokenKind}
    (hphrase : ∀ {tokens value}, phrase tokens value → IsPlain tokens)
    (hkind : mark.isPlain = true)
    (h : After phrase mark tokens value) : IsPlain tokens := by
  obtain ⟨hmark, h⟩ := h
  exact .mark hmark hkind (hphrase h)

theorem CommaSeparated.isPlain (hphrase : ∀ {tokens value}, phrase tokens value → IsPlain tokens)
    (h : CommaSeparated phrase tokens values) : IsPlain tokens := by
  obtain ⟨hfirst, hmore⟩ := h
  exact (hphrase hfirst).append (hmore.isPlain (After.isPlain hphrase rfl))

end Combination

section Shared

theorem Single.isPlain {kind : TokenKind} (hkind : kind.isPlain = true)
    (h : Single kind tokens token) : IsPlain tokens := by
  obtain ⟨h⟩ := h
  exact .mark h hkind .nil

theorem IsNumber.isPlain {number : Number} (h : IsNumber tokens number) : IsPlain tokens := by
  obtain ⟨hkind, -⟩ := h
  exact .mark hkind rfl .nil

theorem IsBounds.isPlain {bounds : BinaryValue × BinaryValue} (h : IsBounds tokens bounds) :
    IsPlain tokens := by
  obtain ⟨hopening, hleast, hcomma, hgreatest, hclosing⟩ := h
  exact .mark hopening rfl
    (hleast.isPlain.append (.mark hcomma rfl (hgreatest.isPlain.append (.mark hclosing rfl .nil))))

theorem IsLiteral.isPlain {brackets : Brackets} {literal : Literal}
    (hbrackets : brackets = .round ∨ brackets = .curly) (h : IsLiteral brackets tokens literal) :
    IsPlain tokens := by
  cases h with
  | yes hword => exact .word hword .nil
  | no hword => exact .word hword .nil
  | string hkind => exact .mark hkind rfl .nil
  | number hnumber => exact hnumber.isPlain
  | tuple hopening hcomponents hclosing =>
    exact .brackets hbrackets hopening (hcomponents.isPlain IsNumber.isPlain) hclosing

theorem IsReference.isPlain {reference : BlockReference} (h : IsReference tokens reference) :
    IsPlain tokens := by
  obtain ⟨hname⟩ := h
  exact .mark hname rfl .nil

theorem IsReferences.isPlain {brackets : Brackets} {references : List BlockReference}
    (hbrackets : brackets = .round ∨ brackets = .curly)
    (h : IsReferences brackets tokens references) : IsPlain tokens := by
  cases h with
  | one hreference => exact hreference.isPlain
  | several hopening hreferences hclosing =>
    exact .brackets hbrackets hopening (hreferences.isPlain IsReference.isPlain) hclosing

end Shared

/-! ### Items -/

/-- How many bodies of code there are among tokens. -/
def countBodies (tokens : List Token) : Nat := tokens.countP (·.kind = .body)

theorem IsPlain.countBodies (h : IsPlain tokens) : countBodies tokens = 0 :=
  List.countP_eq_zero.mpr fun token htoken => by simpa using h.bodies token htoken

theorem countBodies_append (tokens more : List Token) :
    countBodies (tokens ++ more) = countBodies tokens + countBodies more :=
  List.countP_append

/-- Whether tokens leave the depth of braces as it was and end where a declaration can start. -/
structure IsClosed (tokens : List Token) : Prop where
  /-- All braces are closed. -/
  balanced : IsBalanced tokens
  /-- The last token is a closing brace or a semicolon. -/
  ends : ∃ last, tokens.getLast? = some last ∧
    (last.kind = .closeBrace ∨ last.kind = .semicolon)

/-- A block of code after its name. -/
theorem IsBody.isClosed {body : Token} (hopening : opening.kind = .openBrace)
    (h : IsBody tokens body) : IsClosed (opening :: tokens) := by
  obtain ⟨hbody, hclosing⟩ := h
  exact ⟨.braces hopening (.cons (by simp [hbody]) (by simp [hbody]) .nil) hclosing,
    _, rfl, .inl hclosing⟩

/-- A name before tokens that are closed. -/
theorem IsClosed.name (hname : token.kind = .identifier) (h : IsClosed tokens) :
    IsClosed (token :: tokens) := by
  obtain ⟨last, htokens, hlast⟩ := h.ends
  exact ⟨.cons (by simp [hname]) (by simp [hname]) h.balanced, last,
    by simp [List.getLast?_cons, htokens], hlast⟩

/-- Tokens that are closed one after the other, if there are any. -/
theorem Many.isClosed {α : Type} {phrase : Phrase α} {values : List α}
    (hphrase : ∀ {tokens value}, phrase tokens value → IsClosed tokens)
    (h : Many phrase tokens values) : tokens = [] ∨ IsClosed tokens := by
  induction h with
  | nil => exact .inl rfl
  | cons hfirst _ ih =>
    have hfirst := hphrase hfirst
    refine .inr ?_
    rcases ih with rfl | hmore
    · rwa [List.append_nil]
    · obtain ⟨last, hmoreLast, hlast⟩ := hmore.ends
      exact ⟨hfirst.balanced.append hmore.balanced, last,
        by simp [List.getLast?_append, hmoreLast], hlast⟩

/-- A block of code has one body, in front of which there is none. -/
theorem IsBody.countBodies {body : Token} {head : List Token} (hhead : IsPlain head)
    (hopening : opening.kind = .openBrace) (h : IsBody tokens body) :
    countBodies (head ++ opening :: tokens) = 1 := by
  obtain ⟨hbody, hclosing⟩ := h
  rw [countBodies_append, hhead.countBodies]
  simp [Grammar.countBodies, hopening, hbody, hclosing]

end Grammar

namespace Description

open ShaderAssembly.Grammar

variable {tokens : List Token}

theorem IsHint.isPlain {hint : EditorHint} (h : IsHint tokens hint) : IsPlain tokens := by
  cases h with
  | range hopening hword hbounds hclosing =>
    exact .mark hopening rfl (.word hword (hbounds.isPlain.append (.mark hclosing rfl .nil)))
  | toggle hopening hword hclosing =>
    exact .mark hopening rfl (.word hword (.mark hclosing rfl .nil))
  | header hopening hword hopenParen htext hcloseParen hclosing =>
    exact .mark hopening rfl (.word hword (.mark hopenParen rfl (.mark htext rfl
      (.mark hcloseParen rfl (.mark hclosing rfl .nil)))))

theorem IsTypeWord.isPlain {type : PropertyType} (h : IsTypeWord tokens type) :
    IsPlain tokens := by
  obtain ⟨hword, -⟩ := h
  exact .mark hword rfl .nil

theorem IsDeclaration.isPlain {declaration : PropertyDeclaration}
    (h : IsDeclaration tokens declaration) : IsPlain tokens := by
  obtain ⟨hhints, hname, hopening, hlabel, htype, hclosing, hdefault⟩ := h
  have htype := htype.isPlain (After.isPlain IsTypeWord.isPlain rfl)
  have hdefault := hdefault.isPlain (After.isPlain (IsLiteral.isPlain (.inl rfl)) rfl)
  exact (hhints.isPlain IsHint.isPlain).append (.mark hname rfl (.mark hopening rfl
    (.mark hlabel rfl (htype.append (.mark hclosing rfl hdefault)))))

theorem IsBinding.isPlain {binding : Stage × BoundStage} (h : IsBinding tokens binding) :
    IsPlain tokens := by
  obtain ⟨hword, -, hequal, hreferences⟩ := h
  exact .mark hword rfl (.mark hequal rfl (hreferences.isPlain (.inl rfl)))

theorem IsPass.isPlain {pass : Pass} (h : IsPass tokens pass) : IsPlain tokens := by
  obtain ⟨hkeyword, hopening, hbindings, hclosing⟩ := h
  exact .word hkeyword (.braces hopening (hbindings.isPlain IsBinding.isPlain) hclosing)

theorem IsTechnique.isPlain {technique : Technique} (h : IsTechnique tokens technique) :
    IsPlain tokens := by
  obtain ⟨hkeyword, hname, hopening, hpasses, -, hclosing⟩ := h
  exact .word hkeyword (.mark hname rfl
    (.braces hopening (hpasses.isPlain IsPass.isPlain) hclosing))

theorem IsItem.isClosed {item : Item} (h : IsItem tokens item) : IsClosed tokens := by
  cases h with
  | properties hkeyword hopening hdeclarations hclosing =>
    have hplain : IsPlain _ := .word hkeyword
      (.braces hopening (hdeclarations.isPlain IsDeclaration.isPlain) hclosing)
    exact ⟨hplain.balanced, _, by simp [List.getLast?_cons], .inl hclosing⟩
  | shared hkeyword hopening hbody =>
    exact .name (Parser.isKeyword_iff.mp hkeyword).1 (hbody.isClosed hopening)
  | block hkeyword hname hopening hbody =>
    exact .name (Parser.isKeyword_iff.mp hkeyword).1 (.name hname (hbody.isClosed hopening))
  | technique htechnique =>
    refine ⟨htechnique.isPlain.balanced, ?_⟩
    obtain ⟨-, -, -, -, -, hclosing⟩ := htechnique
    exact ⟨_, by simp [List.getLast?_cons], .inl hclosing⟩

/-- The bodies among the tokens of an item are those of the block that it is. -/
theorem IsItem.countBodies {item : Item} (h : IsItem tokens item) :
    countBodies tokens = item.shared?.toList.length + item.block?.toList.length := by
  cases h with
  | properties hkeyword hopening hdeclarations hclosing =>
    exact (IsPlain.word hkeyword
      (.braces hopening (hdeclarations.isPlain IsDeclaration.isPlain) hclosing)).countBodies
  | shared hkeyword hopening hbody =>
    exact hbody.countBodies (.word hkeyword .nil) hopening
  | block hkeyword hname hopening hbody =>
    exact hbody.countBodies (.word hkeyword (.mark hname rfl .nil)) hopening
  | technique htechnique => exact htechnique.isPlain.countBodies

/-- The bodies among the tokens of items are those of the blocks among the items. -/
theorem countBodies_items {items : List Item} (h : Many IsItem tokens items) :
    countBodies tokens =
      (items.filterMap Item.shared?).length + (items.filterMap Item.block?).length := by
  induction h with
  | nil => rfl
  | @cons _ _ item items hfirst _ ih =>
    rw [countBodies_append, hfirst.countBodies, ih, List.filterMap_cons, List.filterMap_cons]
    cases item <;> simp [Item.shared?, Item.block?] <;> omega

end Description

namespace Effect

open ShaderAssembly.Grammar

variable {tokens : List Token}

theorem IsSampler.isPlain {texture : String} (h : IsSampler tokens texture) : IsPlain tokens := by
  obtain ⟨hopening, hkeyword, hequal, hless, hname, hgreater, hsemicolon, hclosing⟩ := h
  have hinner := IsPlain.word hkeyword (.mark hequal rfl
    (.mark hless rfl (.mark hname rfl (.mark hgreater rfl (.mark hsemicolon rfl .nil)))))
  exact .braces hopening hinner hclosing

theorem IsConstant.isPlain {literal : Literal} (h : IsConstant tokens literal) :
    IsPlain tokens := by
  cases h with
  | sampler hkeyword hsampler => exact .word hkeyword hsampler.isPlain
  | literal hliteral => exact hliteral.isPlain (.inr rfl)

theorem IsControl.isPlain {control : Control} (h : IsControl tokens control) :
    IsPlain tokens := by
  cases h with
  | color hword => exact .word hword .nil
  | range hword hbounds => exact .word hword hbounds.isPlain

theorem IsAbout.isPlain {about : String × Option Control} (h : IsAbout tokens about) :
    IsPlain tokens := by
  obtain ⟨htext, hcontrol, hclosing⟩ := h
  have hcontrol := hcontrol.isPlain (After.isPlain IsControl.isPlain rfl)
  exact .mark htext rfl (hcontrol.append (.mark hclosing rfl .nil))

theorem IsEntry.isPlain {entry : AnnotationEntry} (h : IsEntry tokens entry) :
    IsPlain tokens := by
  obtain ⟨htype, hname, habout, hvalue, hsemicolon⟩ := h
  have habout := habout.isPlain (After.isPlain IsAbout.isPlain rfl)
  have hvalue := hvalue.isPlain (After.isPlain IsConstant.isPlain rfl)
  exact .mark htype rfl (.mark hname rfl
    (habout.append (hvalue.append (.mark hsemicolon rfl .nil))))

theorem IsAnnotations.isPlain {annotations : List AnnotationEntry}
    (h : IsAnnotations tokens annotations) : IsPlain tokens := by
  cases h with
  | absent => exact .nil
  | entries hless hentries hgreater =>
    exact .mark hless rfl ((hentries.isPlain IsEntry.isPlain).append (.mark hgreater rfl .nil))

theorem IsUniform.isPlain {declared : Uniform × List AnnotationEntry}
    (h : IsUniform tokens declared) : IsPlain tokens := by
  obtain ⟨hkeyword, htype, hname, hsemantic, hannotations, hdefault, hsemicolon⟩ := h
  have hsemantic := hsemantic.isPlain (After.isPlain (Single.isPlain rfl) rfl)
  have hdefault := hdefault.isPlain (After.isPlain IsConstant.isPlain rfl)
  exact .word hkeyword (.mark htype rfl (.mark hname rfl (hsemantic.append
    (hannotations.isPlain.append (hdefault.append (.mark hsemicolon rfl .nil))))))

theorem IsField.isPlain {field : StreamField} (h : IsField tokens field) : IsPlain tokens := by
  obtain ⟨htype, hname, hcolon, hsemantic, hsemicolon⟩ := h
  exact .mark htype rfl (.mark hname rfl (.mark hcolon rfl (.mark hsemantic rfl
    (.mark hsemicolon rfl .nil))))

theorem IsStream.isPlain {stream : AttributeStream} (h : IsStream tokens stream) :
    IsPlain tokens := by
  obtain ⟨hkeyword, hname, hopening, hfields, hclosing, hsemicolon⟩ := h
  have hbraces := IsPlain.braces hopening (hfields.isPlain IsField.isPlain) hclosing
  have hplain := IsPlain.word hkeyword
    (.mark hname rfl (hbraces.append (.mark hsemicolon rfl .nil)))
  simpa using hplain

theorem IsArgument.isPlain {direction : Direction} {argument : StreamArgument}
    (h : IsArgument direction tokens argument) : IsPlain tokens := by
  obtain ⟨hkeyword, hstream, hinstance⟩ := h
  exact .word hkeyword (.mark hstream rfl (hinstance.isPlain (Single.isPlain rfl)))

theorem IsInterface.isPlain {interface : StageStreams} (h : IsInterface tokens interface) :
    IsPlain tokens := by
  obtain ⟨hopening, hinput, hcomma, houtput, hclosing⟩ := h
  exact .mark hopening rfl
    (hinput.isPlain.append (.mark hcomma rfl (houtput.isPlain.append (.mark hclosing rfl .nil))))

theorem IsBinding.isPlain {binding : Stage × BoundStage} (h : IsBinding tokens binding) :
    IsPlain tokens := by
  obtain ⟨hword, -, hinterface, hequal, hreferences, hsemicolon⟩ := h
  exact .mark hword rfl (hinterface.isPlain.append (.mark hequal rfl
    ((hreferences.isPlain (.inr rfl)).append (.mark hsemicolon rfl .nil))))

theorem IsPass.isPlain {pass : Pass} (h : IsPass tokens pass) : IsPlain tokens := by
  obtain ⟨hkeyword, hname, hannotations, hopening, hbindings, hclosing⟩ := h
  exact .word hkeyword (.mark hname rfl (hannotations.isPlain.append
    (.braces hopening (hbindings.isPlain IsBinding.isPlain) hclosing)))

theorem IsTechnique.isPlain {technique : Technique} (h : IsTechnique tokens technique) :
    IsPlain tokens := by
  obtain ⟨hkeyword, hname, hannotations, hopening, hpasses, -, hclosing⟩ := h
  exact .word hkeyword (.mark hname rfl (hannotations.isPlain.append
    (.braces hopening (hpasses.isPlain IsPass.isPlain) hclosing)))

theorem IsItem.isClosed {item : Item} (h : IsItem tokens item) : IsClosed tokens := by
  cases h with
  | uniform h =>
    refine ⟨h.isPlain.balanced, ?_⟩
    obtain ⟨-, -, -, -, -, -, hsemicolon⟩ := h
    exact ⟨_, by simp [List.getLast?_cons], .inr hsemicolon⟩
  | stream h =>
    refine ⟨h.isPlain.balanced, ?_⟩
    obtain ⟨-, -, -, -, -, hsemicolon⟩ := h
    exact ⟨_, by simp [List.getLast?_cons], .inr hsemicolon⟩
  | block h =>
    obtain ⟨hkeyword, hname, hopening, hbody⟩ := h
    exact .name (Parser.isKeyword_iff.mp hkeyword).1 (.name hname (hbody.isClosed hopening))
  | technique h =>
    refine ⟨h.isPlain.balanced, ?_⟩
    obtain ⟨-, -, -, -, -, -, hclosing⟩ := h
    exact ⟨_, by simp [List.getLast?_cons], .inl hclosing⟩

/-- The bodies among the tokens of an item are those of the block that it is. -/
theorem IsItem.countBodies {item : Item} (h : IsItem tokens item) :
    countBodies tokens = item.block?.toList.length := by
  cases h with
  | uniform h => exact h.isPlain.countBodies
  | stream h => exact h.isPlain.countBodies
  | block h =>
    obtain ⟨hkeyword, hname, hopening, hbody⟩ := h
    exact hbody.countBodies (.word hkeyword (.mark hname rfl .nil)) hopening
  | technique h => exact h.isPlain.countBodies

/-- The bodies among the tokens of items are those of the blocks among the items. -/
theorem countBodies_items {items : List Item} (h : Many IsItem tokens items) :
    countBodies tokens = (items.filterMap Item.block?).length := by
  induction h with
  | nil => rfl
  | @cons _ _ item items hfirst _ ih =>
    rw [countBodies_append, hfirst.countBodies, ih, List.filterMap_cons]
    cases item <;> simp [Item.block?, Nat.add_comm]

end Effect

end ShaderAssembly
