import ShaderAssembly.Effect
import ShaderAssembly.Proofs.CodeBodies
import ShaderAssembly.Proofs.ShaderParts

/-!
# What an effect file is made of

The blocks of an effect file are bodies that stand in its expanded text, and the names its stages
spell are names of it. Moving the positions of a shader to the files changes no name.
-/

namespace ShaderAssembly

/-! ### Moving positions keeps names -/

namespace OrderedMap

variable {κ α β : Type} {map : OrderedMap κ α}

/-- What holds of the changed values of a map holds of all values of the changed map. -/
theorem forall_values_mapValues {f : α → β} {P : β → Prop}
    (h : ∀ value ∈ map.values, P (f value)) : ∀ value ∈ (map.mapValues f).values, P value := by
  intro value hvalue
  obtain ⟨entry, hentry, rfl⟩ := List.mem_map.mp hvalue
  obtain ⟨before, hbefore, rfl⟩ := List.mem_map.mp hentry
  exact h before.2 (List.mem_map.mpr ⟨before, hbefore, rfl⟩)

end OrderedMap

section Positions

variable {P : String → Prop} {f : Position → Position}

theorem BoundStage.Named.mapPosition {binding : BoundStage} (h : binding.Named P) :
    (binding.mapPosition f).Named P := by
  intro interface hinterface
  obtain ⟨before, hbefore, rfl⟩ := Option.map_eq_some_iff.mp hinterface
  exact h before hbefore

theorem Technique.Named.mapPosition {technique : Technique} (h : technique.Named P) :
    (technique.mapPosition f).Named P := by
  intro pass hpass
  obtain ⟨before, hbefore, rfl⟩ := List.mem_map.mp hpass
  exact OrderedMap.forall_values_mapValues fun binding hbinding =>
    (h before hbefore binding hbinding).mapPosition

/-- A shader whose positions are moved to the files spells the same names. -/
theorem Shader.Named.locateShader {shader : Shader} (h : shader.Named P) (map : LineMap) :
    (Effect.locateShader map shader).Named P where
  techniques := OrderedMap.forall_values_mapValues fun technique htechnique =>
    (h.techniques technique htechnique).mapPosition
  uniforms := OrderedMap.forall_values_mapValues h.uniforms
  streams := OrderedMap.forall_values_mapValues h.streams

end Positions

namespace Effect

open ShaderAssembly.Parser

variable {property : Token → Prop} {path : SourcePath} {draft : Draft}

/-! ### Values and annotations -/

theorem keeps_expectSampler : Keeps property expectSampler := by
  refine (keeps_expectMark _).bind fun _ _ => ?_
  refine (keeps_expectKeyword _).bind fun _ _ => ?_
  refine (keeps_expectMark _).bind fun _ _ => ?_
  refine (keeps_expectMark _).bind fun _ _ => ?_
  refine (yields_expectName _).bind fun _ _ => ?_
  refine (keeps_expectMark _).bind fun _ _ => ?_
  refine (keeps_expectMark _).bind fun _ _ => ?_
  exact (keeps_expectMark _).bind fun _ _ => .pure trivial

theorem keeps_expectConstant : Keeps property expectConstant := by
  refine (keeps_acceptKeyword _).bind fun _ _ => .ite (fun _ => ?_) fun _ => keeps_expectLiteral _ _
  exact keeps_expectSampler.bind fun _ _ => .pure trivial

theorem keeps_expectControl : Keeps property expectControl := by
  refine (yields_expectName _).bind fun word _ => ?_
  split
  · exact .pure trivial
  · exact keeps_expectBounds.bind fun _ _ => .pure trivial
  · exact yields_refuse _ word

theorem keeps_expectDescription : Keeps property expectDescription := by
  refine (keeps_expectString _).bind fun _ _ => ?_
  refine yields_optional keeps_expectControl fun _ _ => ?_
  exact (keeps_expectMark _).bind fun _ _ => .pure trivial

theorem keeps_expectEntry : Keeps property expectEntry := by
  refine (yields_expectName _).bind fun _ _ => ?_
  refine (yields_expectName _).bind fun _ _ => ?_
  refine yields_optional keeps_expectDescription fun _ _ => ?_
  refine yields_optional keeps_expectConstant fun _ _ => ?_
  exact (keeps_expectMark _).bind fun _ _ => .pure trivial

theorem keeps_acceptAnnotations : Keeps property acceptAnnotations := by
  refine (keeps_accept _).bind fun _ _ => .ite (fun _ => ?_) fun _ => .pure trivial
  refine (yields_manyUntil keeps_expectEntry).bind fun _ _ => ?_
  exact (keeps_expectMark _).bind fun _ _ => .pure trivial

/-! ### Declarations -/

theorem yields_readUniform (h : draft.shader.MadeOf property path) :
    Yields property (fun draft => draft.shader.MadeOf property path) (readUniform draft) := by
  refine yields_take.bind fun _ _ => ?_
  refine (yields_expectName _).bind fun type htype => ?_
  refine (yields_expectName _).bind fun name hname => ?_
  refine yields_refusing (yields_refuseDuplicate _ name) fun _ => ?_
  refine yields_optional (yields_expectName _) fun semantic? _ => ?_
  refine keeps_acceptAnnotations.bind fun annotations _ => ?_
  refine yields_optional keeps_expectConstant fun default? _ => ?_
  refine (keeps_expectMark _).bind fun _ _ => ?_
  refine Yields.record.bind fun _ _ => .pure ?_
  refine ⟨h.path_eq, h.shared, h.blocks, h.named.techniques, ?_, h.named.streams⟩
  exact OrderedMap.forall_values_insert h.named.uniforms ⟨hname, htype⟩

theorem yields_expectField :
    Yields property (fun field => IsWord property field.type ∧ IsWord property field.name)
      expectField := by
  refine (yields_expectName _).bind fun type htype => ?_
  refine (yields_expectName _).bind fun name hname => ?_
  refine (keeps_expectMark _).bind fun _ _ => ?_
  refine (yields_expectName _).bind fun _ _ => ?_
  exact (keeps_expectMark _).bind fun _ _ => .pure ⟨htype, hname⟩

theorem yields_readStream (h : draft.shader.MadeOf property path) :
    Yields property (fun draft => draft.shader.MadeOf property path) (readStream draft) := by
  refine yields_take.bind fun _ _ => ?_
  refine (yields_expectName _).bind fun name _ => ?_
  refine yields_refusing (yields_refuseDuplicate _ name) fun _ => ?_
  refine (keeps_expectMark _).bind fun _ _ => ?_
  refine (yields_manyUntil yields_expectField).bind fun fields hfields => ?_
  refine (keeps_expectMark _).bind fun _ _ => ?_
  refine (keeps_expectMark _).bind fun _ _ => .pure ?_
  refine ⟨h.path_eq, h.shared, h.blocks, h.named.techniques, h.named.uniforms, ?_⟩
  exact OrderedMap.forall_values_insert h.named.streams hfields

theorem yields_readBlock (h : draft.shader.MadeOf property path) :
    Yields property (fun draft => draft.shader.MadeOf property path) (readBlock draft) := by
  refine yields_take.bind fun _ _ => ?_
  refine (yields_expectName _).bind fun name _ => ?_
  refine (keeps_expectMark _).bind fun _ _ => ?_
  refine (yields_expectBody _).bind fun body hbody => ?_
  refine yields_refusing (yields_refuseDuplicate _ name) fun _ => .pure ?_
  refine ⟨h.path_eq, h.shared, fun entry hentry => ?_, h.named.techniques, h.named.uniforms,
    h.named.streams⟩
  rcases OrderedMap.mem_entries_insert hentry with hold | rfl
  · exact h.blocks entry hold
  · exact ⟨body, hbody.1, hbody.2, rfl⟩

theorem yields_expectArgument (direction : Direction) :
    Yields property (StreamArgument.Named (IsWord property)) (expectArgument direction) := by
  refine (keeps_expectKeyword _).bind fun _ _ => ?_
  refine (yields_expectName _).bind fun stream hstream => ?_
  refine yields_takeIf_identifier.bind fun instance? hinstance => .pure ⟨hstream, ?_⟩
  intro name hname
  obtain ⟨token, htoken, rfl⟩ := Option.map_eq_some_iff.mp hname
  exact hinstance token htoken

theorem yields_expectInterface :
    Yields property (fun interface => interface.input.Named (IsWord property) ∧
      interface.output.Named (IsWord property)) expectInterface := by
  refine (keeps_expectMark _).bind fun _ _ => ?_
  refine (yields_expectArgument .input).bind fun input hinput => ?_
  refine (keeps_expectMark _).bind fun _ _ => ?_
  refine (yields_expectArgument .output).bind fun output houtput => ?_
  exact (keeps_expectMark _).bind fun _ _ => .pure ⟨hinput, houtput⟩

theorem yields_readStage {stages : OrderedMap Stage BoundStage}
    (h : ∀ binding ∈ stages.values, binding.Named (IsWord property)) :
    Yields property (fun stages => ∀ binding ∈ stages.values, binding.Named (IsWord property))
      (readStage stages) := by
  refine (yields_expectName _).bind fun word _ => ?_
  split
  · exact yields_refuse _ word
  · refine yields_refusing (yields_refuseDuplicate _ word) fun _ => ?_
    refine yields_expectInterface.bind fun interface hinterface => ?_
    refine (keeps_expectMark _).bind fun _ _ => ?_
    refine (keeps_expectReferences _ _).bind fun blocks _ => ?_
    refine (keeps_expectMark _).bind fun _ _ => .pure ?_
    refine OrderedMap.forall_values_insert h fun other hother => ?_
    cases hother
    exact hinterface

theorem yields_readPass : Yields property (Pass.Named (IsWord property)) readPass := by
  refine yields_take.bind fun keyword _ => ?_
  refine (yields_expectName _).bind fun name _ => ?_
  refine keeps_acceptAnnotations.bind fun annotations _ => ?_
  refine (keeps_expectMark _).bind fun _ _ => ?_
  refine (yields_foldUntil (fun _ => yields_readStage)
    OrderedMap.forall_values_empty).bind fun stages hstages => ?_
  refine yields_take.bind fun close _ => ?_
  exact (keeps_requireStages stages close).bind fun _ _ => .pure hstages

theorem yields_expectPasses :
    Yields property (fun passes => ∀ pass ∈ passes, pass.Named (IsWord property))
      expectPasses := by
  refine (keeps_seesKeyword _).bind fun _ _ => ?_
  refine yields_refusing (yields_unexpected _) fun _ => ?_
  refine yields_manyUntil ((keeps_seesKeyword _).bind fun _ _ => ?_)
  exact .ite (fun _ => yields_readPass) fun _ => yields_unexpected _

theorem yields_readTechnique (h : draft.shader.MadeOf property path) :
    Yields property (fun draft => draft.shader.MadeOf property path) (readTechnique draft) := by
  refine yields_take.bind fun keyword _ => ?_
  refine (yields_expectName _).bind fun name _ => ?_
  refine yields_refusing (yields_refuseDuplicate _ name) fun _ => ?_
  refine keeps_acceptAnnotations.bind fun annotations _ => ?_
  refine (keeps_expectMark _).bind fun _ _ => ?_
  refine yields_expectPasses.bind fun passes hpasses => ?_
  refine (keeps_expectMark _).bind fun _ _ => ?_
  refine (keeps_recordTechnique _).bind fun _ _ => .pure ?_
  refine ⟨h.path_eq, h.shared, h.blocks, ?_, h.named.uniforms, h.named.streams⟩
  exact OrderedMap.forall_values_insert h.named.techniques hpasses

theorem yields_readItem (h : draft.shader.MadeOf property path) :
    Yields property (fun draft => draft.shader.MadeOf property path) (readItem draft) := by
  refine (keeps_seesKeyword _).bind fun _ _ => .ite (fun _ => yields_readUniform h) fun _ => ?_
  refine (keeps_seesKeyword _).bind fun _ _ => .ite (fun _ => yields_readStream h) fun _ => ?_
  refine (keeps_seesKeyword _).bind fun _ _ => .ite (fun _ => yields_readBlock h) fun _ => ?_
  refine (keeps_seesKeyword _).bind fun _ _ => .ite (fun _ => yields_readTechnique h) fun _ => ?_
  exact yields_unexpected _

/-! ### Whole files -/

theorem keeps_warnOfUnknown (annotations : List AnnotationEntry) :
    Keeps property (warnOfUnknown annotations) := by
  refine keeps_forM (fun entry => ?_) annotations
  exact .ite (fun _ => .record) fun _ => .pure trivial

theorem keeps_addProperty (draft : Draft) (properties : OrderedMap String Property)
    (uniform : Uniform) : Keeps property (addProperty draft properties uniform) := by
  refine (keeps_warnOfUnknown _).bind fun _ _ => ?_
  refine .ite (fun _ => .pure trivial) fun _ => ?_
  split
  · exact .pure trivial
  · exact (keeps_resolveProperty _).bind fun _ _ => .pure trivial

theorem yields_expectFile : Yields property (Shader.MadeOf property path) (expectFile path) := by
  have hstart : (⟨.empty path, .empty⟩ : Draft).shader.MadeOf property path :=
    Shader.madeOf_empty property path
  refine (yields_foldUntil (fun _ => yields_readItem) hstart).bind fun draft hdraft => ?_
  refine yields_refusing (yields_unexpected _) fun _ => ?_
  have hproperties : Keeps property
      (draft.shader.uniforms.values.foldlM (addProperty draft) .empty) :=
    yields_foldlM (fun properties uniform _ => keeps_addProperty draft properties uniform) _ trivial
  refine hproperties.bind fun properties _ => .pure ?_
  exact ⟨hdraft.path_eq, hdraft.shared, hdraft.blocks, hdraft.named.techniques,
    hdraft.named.uniforms, hdraft.named.streams⟩

/-- An effect file that is read is a shader with the bodies and names of its expanded text, whose
positions are moved to the files. -/
theorem exists_madeOf_of_parse {source : ExpandedText} {shader : Shader}
    (h : (parse path source).outcome = .ok shader) :
    ∃ read : Shader, read.MadeOf (Token.IsFrom path source.text.toList) path ∧
      shader = locateShader source.map read := by
  have hstream : (TokenStream.ofTokens path (Token.scan (some blockRule) path source.text)).All
      (Token.IsFrom path source.text.toList) :=
    TokenStream.all_ofTokens Token.isFrom_of_mem_scan fun _ => ⟨nofun, nofun⟩
  obtain ⟨read, hread, hshader⟩ := Traced.outcome_bind_eq_ok.mp h
  cases hshader
  have hrun : ((expectFile path).outcomeFrom (TokenStream.ofTokens path
      (Token.scan (some blockRule) path source.text))).mapError
        (·.mapPosition (located source.map)) = .ok read := hread
  cases hfile : (expectFile path).outcomeFrom (TokenStream.ofTokens path
      (Token.scan (some blockRule) path source.text)) with
  | error error =>
    rw [hfile] at hrun
    cases hrun
  | ok other =>
    rw [hfile] at hrun
    cases hrun
    exact ⟨read, (yields_expectFile _ hstream).2 read hfile, rfl⟩

end Effect

end ShaderAssembly
