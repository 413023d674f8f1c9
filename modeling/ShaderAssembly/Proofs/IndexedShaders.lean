import ShaderAssembly.Proofs.DescriptionParts
import ShaderAssembly.Proofs.EffectParts

/-!
# Tables that are indexed by names

A shader that is read from tokens, whatever they are, has every technique, block and stream under
its own name and no name twice, and its passes bind no stage twice. So the key of a stage, which
names a technique, says all about where the stage is bound.
-/

namespace ShaderAssembly

namespace OrderedMap

variable {κ α β : Type} [DecidableEq κ] {map : OrderedMap κ α} {name : α → κ} {key : κ} {value : α}

/-- Whether every value of a map stands under its own name, and no name stands there twice. -/
structure IsIndex (name : α → κ) (map : OrderedMap κ α) : Prop where
  /-- No key stands there twice. -/
  nodup : map.keys.Nodup
  /-- The key of a value is its name. -/
  key_eq : ∀ entry ∈ map.entries, entry.1 = name entry.2

/-- The keys of a map stay distinct when a value is put under one. -/
theorem nodup_keys_insert (h : map.keys.Nodup) : (map.insert key value).keys.Nodup := by
  rw [keys_insert]
  refine List.nodup_append.mpr ⟨h.filter _, List.pairwise_singleton _ key, ?_⟩
  rintro other hother _ hlast rfl
  exact of_decide_eq_true (List.mem_filter.mp hother).2 (List.mem_singleton.mp hlast)

omit [DecidableEq κ] in
theorem nodup_keys_empty : (empty : OrderedMap κ α).keys.Nodup := List.nodup_nil

omit [DecidableEq κ] in
theorem isIndex_empty (name : α → κ) : (empty : OrderedMap κ α).IsIndex name :=
  ⟨nodup_keys_empty, nofun⟩

/-- A value may be put under its own name. -/
theorem IsIndex.insert (h : map.IsIndex name) (value : α) :
    (map.insert (name value) value).IsIndex name := by
  refine ⟨nodup_keys_insert h.nodup, fun entry hentry => ?_⟩
  rcases mem_entries_insert hentry with hold | rfl
  · exact h.key_eq entry hold
  · rfl

omit [DecidableEq κ] in
/-- Changing values but not their names keeps what stands where. -/
theorem IsIndex.mapValues (h : map.IsIndex name) {f : α → β} {named : β → κ}
    (hf : ∀ value, named (f value) = name value) : (map.mapValues f).IsIndex named := by
  refine ⟨?_, fun entry hentry => ?_⟩
  · have hkeys : (map.mapValues f).keys = map.keys := List.map_map
    rw [hkeys]
    exact h.nodup
  · obtain ⟨before, hbefore, rfl⟩ := List.mem_map.mp hentry
    exact (h.key_eq before hbefore).trans (hf before.2).symm

/-- Something is found under a key exactly if a value has that name. -/
theorem IsIndex.exists_get?_iff (h : map.IsIndex name) :
    (∃ value, map.get? key = some value) ↔ ∃ value ∈ map.values, name value = key := by
  constructor
  · rintro ⟨value, hvalue⟩
    obtain ⟨hentry, hmem⟩ := mem_of_get? hvalue
    exact ⟨value, hmem, (h.key_eq _ hentry).symm⟩
  · rintro ⟨value, hvalue, rfl⟩
    obtain ⟨entry, hentry, rfl⟩ := List.mem_map.mp hvalue
    exact exists_get?_of_mem_keys (h.key_eq entry hentry ▸ List.mem_map_of_mem hentry)

omit [DecidableEq κ] in
/-- The names of the values are the keys. -/
theorem IsIndex.map_values (h : map.IsIndex name) : map.values.map name = map.keys := by
  rw [values, keys, List.map_map]
  exact List.map_congr_left fun entry hentry => (h.key_eq entry hentry).symm

end OrderedMap

/-- Whether no pass of a technique binds a stage twice. -/
def Technique.BindsOnce (technique : Technique) : Prop :=
  ∀ pass ∈ technique.passes, pass.stages.keys.Nodup

/-- Whether the techniques, blocks and streams of a shader stand under their names, each name once,
and no pass binds a stage twice. -/
structure Shader.IsIndexed (shader : Shader) : Prop where
  /-- The techniques. -/
  techniques : shader.techniques.IsIndex Technique.name
  /-- The blocks. -/
  blocks : shader.blocks.IsIndex CodeBlock.name
  /-- The streams. -/
  streams : shader.streams.IsIndex AttributeStream.name
  /-- The passes. -/
  bindings : ∀ technique ∈ shader.techniques.values, technique.BindsOnce

namespace Shader

variable {shader : Shader}

/-- A shader that declares nothing is indexed. -/
theorem isIndexed_empty (path : SourcePath) : (Shader.empty path).IsIndexed :=
  ⟨OrderedMap.isIndex_empty _, OrderedMap.isIndex_empty _, OrderedMap.isIndex_empty _, nofun⟩

/-- Declaring a technique under its name. -/
theorem IsIndexed.insertTechnique (h : shader.IsIndexed) (technique : Technique)
    (honce : technique.BindsOnce) :
    { shader with techniques := shader.techniques.insert technique.name technique }.IsIndexed :=
  ⟨h.techniques.insert technique, h.blocks, h.streams,
    OrderedMap.forall_values_insert h.bindings honce⟩

/-- Declaring a block under its name. -/
theorem IsIndexed.insertBlock (h : shader.IsIndexed) (block : CodeBlock) :
    { shader with blocks := shader.blocks.insert block.name block }.IsIndexed :=
  ⟨h.techniques, h.blocks.insert block, h.streams, h.bindings⟩

/-- Declaring a stream under its name. -/
theorem IsIndexed.insertStream (h : shader.IsIndexed) (stream : AttributeStream) :
    { shader with streams := shader.streams.insert stream.name stream }.IsIndexed :=
  ⟨h.techniques, h.blocks, h.streams.insert stream, h.bindings⟩

/-- Moving positions to the files changes no name. -/
theorem IsIndexed.locateShader (h : shader.IsIndexed) (map : LineMap) :
    (Effect.locateShader map shader).IsIndexed where
  techniques := h.techniques.mapValues fun _ => rfl
  blocks := h.blocks.mapValues fun _ => rfl
  streams := h.streams.mapValues fun _ => rfl
  bindings := by
    refine OrderedMap.forall_values_mapValues fun technique htechnique pass hpass => ?_
    obtain ⟨before, hbefore, rfl⟩ := List.mem_map.mp hpass
    have hkeys : (before.mapPosition (Effect.located map)).stages.keys = before.stages.keys :=
      List.map_map
    rw [hkeys]
    exact h.bindings technique htechnique before hbefore

end Shader

open ShaderAssembly.Parser

/-! ### Descriptions -/

namespace Description

variable {property : Token → Prop} {path : SourcePath} {draft : Draft}

theorem readProperties_indexes (h : draft.shader.IsIndexed) :
    Yields property (fun draft => draft.shader.IsIndexed) (readProperties draft) := by
  refine yields_take.bind fun keyword _ => ?_
  refine yields_refusing (yields_refuseDuplicate _ keyword) fun _ => ?_
  refine (keeps_expectMark _).bind fun _ _ => ?_
  have hstep : ∀ properties : OrderedMap String Property, True → Keeps property (do
      let declaration ← expectProperty
      if properties.contains declaration.name then
        throw (.duplicate .property declaration.name declaration.position)
      let property ← resolveProperty declaration
      return properties.insert property.name property) := by
    intro properties _
    refine keeps_expectProperty.bind fun declaration _ => ?_
    refine yields_refusing .throw fun _ => ?_
    exact (keeps_resolveProperty declaration).bind fun _ _ => .pure trivial
  refine (yields_foldUntil hstep trivial).bind fun properties _ => ?_
  exact (keeps_expectMark _).bind fun _ _ =>
    .pure ⟨h.techniques, h.blocks, h.streams, h.bindings⟩

theorem readBlock_indexes (h : draft.shader.IsIndexed) :
    Yields property (fun draft => draft.shader.IsIndexed) (readBlock draft) := by
  refine yields_take.bind fun keyword _ => ?_
  refine (yields_takeIf _).bind fun name? _ => ?_
  refine (keeps_expectMark _).bind fun _ _ => ?_
  refine (yields_expectBody _).bind fun body _ => ?_
  cases name? with
  | none =>
    refine yields_refusing (yields_refuseDuplicate _ keyword) fun _ => ?_
    exact Yields.record.bind fun _ _ => .pure ⟨h.techniques, h.blocks, h.streams, h.bindings⟩
  | some name =>
    refine yields_refusing (yields_refuseDuplicate _ name) fun _ => ?_
    exact Yields.record.bind fun _ _ => .pure (h.insertBlock (.ofBody name.lexeme _ _))

theorem readStage_nodup {stages : OrderedMap Stage BoundStage} (h : stages.keys.Nodup) :
    Yields property (fun stages => stages.keys.Nodup) (readStage stages) := by
  refine (yields_expectName _).bind fun word _ => ?_
  split
  · exact yields_refuse _ word
  · refine yields_refusing (yields_refuseDuplicate _ word) fun _ => ?_
    refine (keeps_expectMark _).bind fun _ _ => ?_
    exact (keeps_expectReferences _ _).bind fun _ _ => .pure (OrderedMap.nodup_keys_insert h)

theorem expectPass_nodup : Yields property (fun pass => pass.stages.keys.Nodup) expectPass := by
  refine (keeps_seesKeyword _).bind fun _ _ => ?_
  refine yields_refusing (yields_unexpected _) fun _ => ?_
  refine yields_take.bind fun keyword _ => ?_
  refine (keeps_expectMark _).bind fun _ _ => ?_
  refine (yields_foldUntil (fun _ => readStage_nodup)
    OrderedMap.nodup_keys_empty).bind fun stages hstages => ?_
  refine yields_take.bind fun close _ => ?_
  exact (keeps_requireStages stages close).bind fun _ _ => .pure hstages

theorem readTechnique_indexes (h : draft.shader.IsIndexed) :
    Yields property (fun draft => draft.shader.IsIndexed) (readTechnique draft) := by
  refine yields_take.bind fun keyword _ => ?_
  refine (yields_expectName _).bind fun name _ => ?_
  refine yields_refusing (yields_refuseDuplicate _ name) fun _ => ?_
  refine (keeps_expectMark _).bind fun _ _ => ?_
  refine (yields_manyUntil expectPass_nodup).bind fun passes hpasses => ?_
  refine yields_take.bind fun close _ => ?_
  refine yields_refusing (yields_refuse _ close) fun _ => ?_
  refine (keeps_recordTechnique _).bind fun _ _ => .pure ?_
  exact h.insertTechnique ⟨name.lexeme, passes, .empty, keyword.position⟩ hpasses

theorem readItem_indexes (h : draft.shader.IsIndexed) :
    Yields property (fun draft => draft.shader.IsIndexed) (readItem draft) := by
  refine (keeps_seesKeyword _).bind fun _ _ => .ite (fun _ => readProperties_indexes h) fun _ => ?_
  refine (keeps_seesKeyword _).bind fun _ _ => .ite (fun _ => readBlock_indexes h) fun _ => ?_
  refine (keeps_seesKeyword _).bind fun _ _ => .ite (fun _ => readTechnique_indexes h) fun _ => ?_
  exact yields_unexpected _

theorem expectShader_indexes : Yields property Shader.IsIndexed (expectShader path) := by
  refine (keeps_expectKeyword _).bind fun _ _ => ?_
  refine (keeps_expectMark _).bind fun _ _ => ?_
  have hstart : (⟨.empty path, false⟩ : Draft).shader.IsIndexed := Shader.isIndexed_empty path
  refine (yields_foldUntil (fun _ => readItem_indexes) hstart).bind fun draft hdraft => ?_
  refine yields_take.bind fun close _ => ?_
  refine (keeps_expectMark _).bind fun _ _ => ?_
  exact yields_refusing (yields_refuse _ close) fun _ => .pure hdraft

/-- A description that is read is indexed, whatever its tokens are. -/
theorem isIndexed_of_ofTokens {tokens : List Token} {shader : Shader}
    (h : (ofTokens path tokens).outcome = .ok shader) : shader.IsIndexed := by
  have hyields : Yields (fun _ => True) Shader.IsIndexed (expectShader path) :=
    expectShader_indexes
  exact (hyields _ (TokenStream.all_ofTokens (fun _ _ => trivial) fun _ => trivial)).2 shader h

end Description

/-! ### Effect files -/

namespace Effect

variable {property : Token → Prop} {path : SourcePath} {draft : Draft}

theorem readUniform_indexes (h : draft.shader.IsIndexed) :
    Yields property (fun draft => draft.shader.IsIndexed) (readUniform draft) := by
  refine yields_take.bind fun _ _ => ?_
  refine (yields_expectName _).bind fun type _ => ?_
  refine (yields_expectName _).bind fun name _ => ?_
  refine yields_refusing (yields_refuseDuplicate _ name) fun _ => ?_
  refine yields_optional (yields_expectName _) fun semantic? _ => ?_
  refine keeps_acceptAnnotations.bind fun annotations _ => ?_
  refine yields_optional keeps_expectConstant fun default? _ => ?_
  refine (keeps_expectMark _).bind fun _ _ => ?_
  exact Yields.record.bind fun _ _ => .pure ⟨h.techniques, h.blocks, h.streams, h.bindings⟩

theorem readStream_indexes (h : draft.shader.IsIndexed) :
    Yields property (fun draft => draft.shader.IsIndexed) (readStream draft) := by
  refine yields_take.bind fun _ _ => ?_
  refine (yields_expectName _).bind fun name _ => ?_
  refine yields_refusing (yields_refuseDuplicate _ name) fun _ => ?_
  refine (keeps_expectMark _).bind fun _ _ => ?_
  refine (yields_manyUntil yields_expectField).bind fun fields _ => ?_
  refine (keeps_expectMark _).bind fun _ _ => ?_
  exact (keeps_expectMark _).bind fun _ _ =>
    .pure (h.insertStream ⟨name.lexeme, fields, name.position⟩)

theorem readBlock_indexes (h : draft.shader.IsIndexed) :
    Yields property (fun draft => draft.shader.IsIndexed) (readBlock draft) := by
  refine yields_take.bind fun _ _ => ?_
  refine (yields_expectName _).bind fun name _ => ?_
  refine (keeps_expectMark _).bind fun _ _ => ?_
  refine (yields_expectBody _).bind fun body _ => ?_
  exact yields_refusing (yields_refuseDuplicate _ name) fun _ =>
    .pure (h.insertBlock (.ofBody name.lexeme _ _))

theorem readStage_nodup {stages : OrderedMap Stage BoundStage} (h : stages.keys.Nodup) :
    Yields property (fun stages => stages.keys.Nodup) (readStage stages) := by
  refine (yields_expectName _).bind fun word _ => ?_
  split
  · exact yields_refuse _ word
  · refine yields_refusing (yields_refuseDuplicate _ word) fun _ => ?_
    refine yields_expectInterface.bind fun interface _ => ?_
    refine (keeps_expectMark _).bind fun _ _ => ?_
    refine (keeps_expectReferences _ _).bind fun blocks _ => ?_
    exact (keeps_expectMark _).bind fun _ _ => .pure (OrderedMap.nodup_keys_insert h)

theorem readPass_nodup : Yields property (fun pass => pass.stages.keys.Nodup) readPass := by
  refine yields_take.bind fun keyword _ => ?_
  refine (yields_expectName _).bind fun name _ => ?_
  refine keeps_acceptAnnotations.bind fun annotations _ => ?_
  refine (keeps_expectMark _).bind fun _ _ => ?_
  refine (yields_foldUntil (fun _ => readStage_nodup)
    OrderedMap.nodup_keys_empty).bind fun stages hstages => ?_
  refine yields_take.bind fun close _ => ?_
  exact (keeps_requireStages stages close).bind fun _ _ => .pure hstages

theorem expectPasses_nodup :
    Yields property (fun passes => ∀ pass ∈ passes, pass.stages.keys.Nodup) expectPasses := by
  refine (keeps_seesKeyword _).bind fun _ _ => ?_
  refine yields_refusing (yields_unexpected _) fun _ => ?_
  refine yields_manyUntil ((keeps_seesKeyword _).bind fun _ _ => ?_)
  exact .ite (fun _ => readPass_nodup) fun _ => yields_unexpected _

theorem readTechnique_indexes (h : draft.shader.IsIndexed) :
    Yields property (fun draft => draft.shader.IsIndexed) (readTechnique draft) := by
  refine yields_take.bind fun keyword _ => ?_
  refine (yields_expectName _).bind fun name _ => ?_
  refine yields_refusing (yields_refuseDuplicate _ name) fun _ => ?_
  refine keeps_acceptAnnotations.bind fun annotations _ => ?_
  refine (keeps_expectMark _).bind fun _ _ => ?_
  refine expectPasses_nodup.bind fun passes hpasses => ?_
  refine (keeps_expectMark _).bind fun _ _ => ?_
  refine (keeps_recordTechnique _).bind fun _ _ => .pure ?_
  exact h.insertTechnique ⟨name.lexeme, passes, _, keyword.position⟩ hpasses

theorem readItem_indexes (h : draft.shader.IsIndexed) :
    Yields property (fun draft => draft.shader.IsIndexed) (readItem draft) := by
  refine (keeps_seesKeyword _).bind fun _ _ => .ite (fun _ => readUniform_indexes h) fun _ => ?_
  refine (keeps_seesKeyword _).bind fun _ _ => .ite (fun _ => readStream_indexes h) fun _ => ?_
  refine (keeps_seesKeyword _).bind fun _ _ => .ite (fun _ => readBlock_indexes h) fun _ => ?_
  refine (keeps_seesKeyword _).bind fun _ _ => .ite (fun _ => readTechnique_indexes h) fun _ => ?_
  exact yields_unexpected _

theorem expectFile_indexes : Yields property Shader.IsIndexed (expectFile path) := by
  have hstart : (⟨.empty path, .empty⟩ : Draft).shader.IsIndexed := Shader.isIndexed_empty path
  refine (yields_foldUntil (fun _ => readItem_indexes) hstart).bind fun draft hdraft => ?_
  refine yields_refusing (yields_unexpected _) fun _ => ?_
  have hproperties : Keeps property
      (draft.shader.uniforms.values.foldlM (addProperty draft) .empty) :=
    yields_foldlM (fun properties uniform _ => keeps_addProperty draft properties uniform) _ trivial
  exact hproperties.bind fun properties _ =>
    .pure ⟨hdraft.techniques, hdraft.blocks, hdraft.streams, hdraft.bindings⟩

/-- An effect file that is read is indexed. -/
theorem isIndexed_of_parse {source : ExpandedText} {shader : Shader}
    (h : (parse path source).outcome = .ok shader) : shader.IsIndexed := by
  obtain ⟨read, hread, hshader⟩ := Traced.outcome_bind_eq_ok.mp h
  cases hshader
  have hrun : ((expectFile path).outcomeFrom (TokenStream.ofTokens path
      (Token.scan (some blockRule) path source.text))).mapError
        (·.mapPosition (located source.map)) = .ok read := hread
  cases hfile : (expectFile path).outcomeFrom (TokenStream.ofTokens path
      (Token.scan (some blockRule) path source.text)) with
  | error error =>
    rw [hfile] at hrun
    cases hrun
  | ok other =>
    rw [hfile] at hrun
    cases hrun
    have hyields : Yields (fun _ => True) Shader.IsIndexed (expectFile path) :=
      expectFile_indexes
    have hindexed := (hyields _ (TokenStream.all_ofTokens (fun _ _ => trivial)
      fun _ => trivial)).2 read hfile
    exact hindexed.locateShader source.map

end Effect

end ShaderAssembly
