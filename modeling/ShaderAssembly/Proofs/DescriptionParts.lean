import ShaderAssembly.Description
import ShaderAssembly.Proofs.CodeBodies
import ShaderAssembly.Proofs.ShaderParts

/-!
# What a description is made of

The blocks of a shader description are bodies that stand in its text, and it spells no names in
the preambles of stages. Every item that is read keeps that.
-/

namespace ShaderAssembly.Description

open ShaderAssembly.Parser

variable {property : Token → Prop} {path : SourcePath} {draft : Draft}

/-! ### Properties -/

theorem keeps_expectAttribute : Keeps property expectAttribute := by
  have hclose : ∀ advice : EditorHint, Keeps property (do
      expectMark .closeBracket
      return advice) := fun _ => (keeps_expectMark _).bind fun _ _ => .pure trivial
  refine (yields_expectName _).bind fun name _ => ?_
  split
  · exact keeps_expectBounds.bind fun _ _ => .pure_bind (hclose _)
  · exact .pure_bind (hclose _)
  · refine (keeps_expectMark _).bind fun _ _ => ?_
    refine (keeps_expectString _).bind fun _ _ => ?_
    refine (keeps_expectMark _).bind fun _ _ => ?_
    exact .pure_bind (hclose _)
  · exact (yields_refuse (Q := fun _ => False) _ name).bind nofun

theorem keeps_expectType : Keeps property expectType := by
  refine (yields_expectName _).bind fun word _ => ?_
  split
  · exact .pure trivial
  · exact yields_refuse _ word

theorem keeps_expectPropertyName : Keeps property expectPropertyName := by
  have hattributes : Keeps property (do
      if ← accept .openBracket then expectAttribute else unexpected "a property name") :=
    (keeps_accept _).bind fun _ _ => .ite (fun _ => keeps_expectAttribute) fun _ =>
      yields_unexpected _
  refine (yields_manyUntil hattributes).bind fun _ _ => ?_
  exact (yields_expectName _).bind fun _ _ => .pure trivial

theorem keeps_expectProperty : Keeps property expectProperty := by
  refine keeps_expectPropertyName.bind fun result _ => ?_
  refine (keeps_expectMark _).bind fun _ _ => ?_
  refine (keeps_expectString _).bind fun _ _ => ?_
  refine yields_optional keeps_expectType fun type? _ => ?_
  refine (keeps_expectMark _).bind fun _ _ => ?_
  exact yields_optional (keeps_expectLiteral _ _) fun default? _ => .pure trivial

theorem yields_readProperties (h : draft.shader.MadeOf property path) :
    Yields property (fun draft => draft.shader.MadeOf property path) (readProperties draft) := by
  refine yields_take.bind fun keyword _ => ?_
  refine yields_refusing (yields_refuseDuplicate _ keyword) fun _ => ?_
  refine (keeps_expectMark _).bind fun _ _ => ?_
  have hstep : ∀ properties : OrderedMap String Property, True → Keeps property (do
      let declaration ← expectProperty
      if properties.contains declaration.name then
        throw (.duplicate .property declaration.name declaration.position)
      let property ← resolveProperty declaration
      return properties.insert property.name property) := by
    intro properties _
    refine keeps_expectProperty.bind fun declaration _ => ?_
    refine yields_refusing .throw fun _ => ?_
    exact (keeps_resolveProperty declaration).bind fun _ _ => .pure trivial
  refine (yields_foldUntil hstep trivial).bind fun properties _ => ?_
  refine (keeps_expectMark _).bind fun _ _ => .pure ?_
  exact ⟨h.path_eq, h.shared, h.blocks, h.named.techniques, h.named.uniforms, h.named.streams⟩

/-! ### Blocks, techniques and whole shaders -/

theorem yields_readBlock (h : draft.shader.MadeOf property path) :
    Yields property (fun draft => draft.shader.MadeOf property path) (readBlock draft) := by
  refine yields_take.bind fun keyword _ => ?_
  refine (yields_takeIf_identifier).bind fun name? _ => ?_
  refine (keeps_expectMark _).bind fun _ _ => ?_
  refine (yields_expectBody _).bind fun body hbody => ?_
  cases name? with
  | none =>
    refine yields_refusing (yields_refuseDuplicate _ keyword) fun _ => ?_
    refine Yields.record.bind fun _ _ => .pure ?_
    refine ⟨h.path_eq, fun block hblock => ?_, h.blocks, h.named.techniques, h.named.uniforms,
      h.named.streams⟩
    cases hblock
    exact ⟨body, hbody.1, hbody.2, rfl⟩
  | some name =>
    refine yields_refusing (yields_refuseDuplicate _ name) fun _ => ?_
    refine Yields.record.bind fun _ _ => .pure ?_
    refine ⟨h.path_eq, h.shared, fun entry hentry => ?_, h.named.techniques, h.named.uniforms,
      h.named.streams⟩
    rcases OrderedMap.mem_entries_insert hentry with hold | rfl
    · exact h.blocks entry hold
    · exact ⟨body, hbody.1, hbody.2, rfl⟩

/-- Stages of a description have no interface. -/
theorem yields_readStage {stages : OrderedMap Stage BoundStage}
    (h : ∀ binding ∈ stages.values, binding.Named (IsWord property)) :
    Yields property (fun stages => ∀ binding ∈ stages.values, binding.Named (IsWord property))
      (readStage stages) := by
  refine (yields_expectName _).bind fun word _ => ?_
  split
  · exact yields_refuse _ word
  · refine yields_refusing (yields_refuseDuplicate _ word) fun _ => ?_
    refine (keeps_expectMark _).bind fun _ _ => ?_
    refine (keeps_expectReferences _ _).bind fun blocks _ => .pure ?_
    exact OrderedMap.forall_values_insert h (BoundStage.named_of_none _ blocks word.position)

theorem yields_expectPass : Yields property (Pass.Named (IsWord property)) expectPass := by
  refine (keeps_seesKeyword _).bind fun _ _ => ?_
  refine yields_refusing (yields_unexpected _) fun _ => ?_
  refine yields_take.bind fun keyword _ => ?_
  refine (keeps_expectMark _).bind fun _ _ => ?_
  refine (yields_foldUntil (fun _ => yields_readStage)
    OrderedMap.forall_values_empty).bind fun stages hstages => ?_
  refine yields_take.bind fun close _ => ?_
  exact (keeps_requireStages stages close).bind fun _ _ => .pure hstages

theorem yields_readTechnique (h : draft.shader.MadeOf property path) :
    Yields property (fun draft => draft.shader.MadeOf property path) (readTechnique draft) := by
  refine yields_take.bind fun keyword _ => ?_
  refine (yields_expectName _).bind fun name _ => ?_
  refine yields_refusing (yields_refuseDuplicate _ name) fun _ => ?_
  refine (keeps_expectMark _).bind fun _ _ => ?_
  refine (yields_manyUntil yields_expectPass).bind fun passes hpasses => ?_
  refine yields_take.bind fun close _ => ?_
  refine yields_refusing (yields_refuse _ close) fun _ => ?_
  refine (keeps_recordTechnique _).bind fun _ _ => .pure ?_
  refine ⟨h.path_eq, h.shared, h.blocks, ?_, h.named.uniforms, h.named.streams⟩
  exact OrderedMap.forall_values_insert h.named.techniques hpasses

theorem yields_readItem (h : draft.shader.MadeOf property path) :
    Yields property (fun draft => draft.shader.MadeOf property path) (readItem draft) := by
  refine (keeps_seesKeyword _).bind fun _ _ => .ite (fun _ => yields_readProperties h) fun _ => ?_
  refine (keeps_seesKeyword _).bind fun _ _ => .ite (fun _ => yields_readBlock h) fun _ => ?_
  refine (keeps_seesKeyword _).bind fun _ _ => .ite (fun _ => yields_readTechnique h) fun _ => ?_
  exact yields_unexpected _

theorem yields_expectShader :
    Yields property (Shader.MadeOf property path) (expectShader path) := by
  refine (keeps_expectKeyword _).bind fun _ _ => ?_
  refine (keeps_expectMark _).bind fun _ _ => ?_
  have hstart : (⟨.empty path, false⟩ : Draft).shader.MadeOf property path :=
    Shader.madeOf_empty property path
  refine (yields_foldUntil (fun _ => yields_readItem) hstart).bind fun draft hdraft => ?_
  refine yields_take.bind fun close _ => ?_
  refine (keeps_expectMark _).bind fun _ _ => ?_
  exact yields_refusing (yields_refuse _ close) fun _ => .pure hdraft

/-- A description that is read has the bodies and names of its text. -/
theorem madeOf_of_parse {text : String} {shader : Shader}
    (h : (parse path text).outcome = .ok shader) :
    shader.MadeOf (Token.IsFrom path text.toList) path := by
  have hstream : (TokenStream.ofTokens path (Token.scan (some blockRule) path text)).All
      (Token.IsFrom path text.toList) :=
    TokenStream.all_ofTokens Token.isFrom_of_mem_scan fun _ => ⟨nofun, nofun⟩
  exact (yields_expectShader _ hstream).2 shader h

end ShaderAssembly.Description
