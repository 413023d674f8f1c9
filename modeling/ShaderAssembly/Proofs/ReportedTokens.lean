import ShaderAssembly.Proofs.EffectParts
import ShaderAssembly.Proofs.HeededTokens

/-!
# Positions that parsers of effect files report

A parser has no positions of its own. Where it fails, the error is about a token of the stream, and
the positions in what it reads are those of names, keywords and bodies of the stream, never that of
its end. The parser of effect files heeds every watch over its tokens; a property of all tokens of
a stream is such a watch.
-/

namespace ShaderAssembly

/-! ### The positions of a shader -/

section Stands

variable (P : Position → Prop)

/-- Whether the positions of both arguments of a stage satisfy `P`. -/
def StageStreams.Stands (interface : StageStreams) : Prop :=
  P interface.input.position ∧ P interface.output.position

/-- Whether all positions of a binding satisfy `P`. -/
structure BoundStage.Stands (binding : BoundStage) : Prop where
  blocks : ∀ reference ∈ binding.blocks, P reference.position
  interface : ∀ interface ∈ binding.interface?, interface.Stands P
  position : P binding.position

/-- Whether all positions of a pass satisfy `P`. -/
structure Pass.Stands (pass : Pass) : Prop where
  stages : ∀ binding ∈ pass.stages.values, binding.Stands P
  position : P pass.position

/-- Whether all positions of a technique satisfy `P`. -/
structure Technique.Stands (technique : Technique) : Prop where
  passes : ∀ pass ∈ technique.passes, pass.Stands P
  position : P technique.position

/-- Whether all positions of a shader satisfy `P`. -/
structure Shader.Stands (shader : Shader) : Prop where
  properties : ∀ property ∈ shader.properties.values, P property.position
  shared : ∀ block ∈ shader.shared?, P block.position
  blocks : ∀ block ∈ shader.blocks.values, P block.position
  techniques : ∀ technique ∈ shader.techniques.values, technique.Stands P
  uniforms : ∀ uniform ∈ shader.uniforms.values, P uniform.position
  streams : ∀ stream ∈ shader.streams.values, P stream.position

/-- A shader that declares nothing has no positions. -/
theorem Shader.stands_empty (path : SourcePath) : (Shader.empty path).Stands P :=
  ⟨OrderedMap.forall_values_empty, fun _ hblock => (Option.not_mem_none _ hblock).elim,
    OrderedMap.forall_values_empty, OrderedMap.forall_values_empty,
    OrderedMap.forall_values_empty, OrderedMap.forall_values_empty⟩

variable {P} {Q : Position → Prop} {f : Position → Position}

theorem BoundStage.Stands.mapPosition {binding : BoundStage} (h : binding.Stands Q)
    (hf : ∀ position, Q position → P (f position)) : (binding.mapPosition f).Stands P where
  blocks := by
    intro reference hreference
    obtain ⟨before, hbefore, rfl⟩ := List.mem_map.mp hreference
    exact hf _ (h.blocks before hbefore)
  interface := by
    intro interface hinterface
    obtain ⟨before, hbefore, rfl⟩ := Option.map_eq_some_iff.mp hinterface
    exact ⟨hf _ (h.interface before hbefore).1, hf _ (h.interface before hbefore).2⟩
  position := hf _ h.position

theorem Pass.Stands.mapPosition {pass : Pass} (h : pass.Stands Q)
    (hf : ∀ position, Q position → P (f position)) : (pass.mapPosition f).Stands P where
  stages := OrderedMap.forall_values_mapValues fun binding hbinding =>
    (h.stages binding hbinding).mapPosition hf
  position := hf _ h.position

theorem Technique.Stands.mapPosition {technique : Technique} (h : technique.Stands Q)
    (hf : ∀ position, Q position → P (f position)) : (technique.mapPosition f).Stands P where
  passes := by
    intro pass hpass
    obtain ⟨before, hbefore, rfl⟩ := List.mem_map.mp hpass
    exact (h.passes before hbefore).mapPosition hf
  position := hf _ h.position

/-- The positions of a shader that is moved to the files are the moved positions. -/
theorem Shader.Stands.locateShader {shader : Shader} {map : LineMap} (h : shader.Stands Q)
    (hmap : ∀ position, Q position → P (Effect.located map position)) :
    (Effect.locateShader map shader).Stands P where
  properties := OrderedMap.forall_values_mapValues fun property hproperty =>
    hmap _ (h.properties property hproperty)
  shared := by
    intro block hblock
    obtain ⟨before, hbefore, rfl⟩ := Option.map_eq_some_iff.mp hblock
    exact hmap _ (h.shared before hbefore)
  blocks := OrderedMap.forall_values_mapValues fun block hblock => hmap _ (h.blocks block hblock)
  techniques := OrderedMap.forall_values_mapValues fun technique htechnique =>
    (h.techniques technique htechnique).mapPosition hmap
  uniforms := OrderedMap.forall_values_mapValues fun uniform huniform =>
    hmap _ (h.uniforms uniform huniform)
  streams := OrderedMap.forall_values_mapValues fun stream hstream =>
    hmap _ (h.streams stream hstream)

end Stands

/-- Whether an error is about a token with a property. -/
def Error.IsAbout (property : Token → Prop) (error : Error) : Prop :=
  ∃ token, property token ∧ error.position? = some token.position

/-- The watch over streams whose tokens have a property. -/
def Watch.ofTokens (property : Token → Prop) : Watch where
  covers stream := stream.All property
  knows := property
  admits error := error.IsAbout property
  take _ h _ := ⟨h.next, h.rest⟩
  refuse stream h expected := ⟨stream.next, h.next, stream.next.position?_refused expected⟩
  about token h _ hposition := ⟨token, h, hposition⟩

namespace Parser

/-- Whether on streams whose tokens have a property a parser gives what satisfies `Q`, or fails
with an error about a token with the property; the tokens that are left have it, too. -/
structure Reports {α : Type} (property : Token → Prop) (Q : α → Prop) (parser : Parser α) :
    Prop where
  /-- What is given. -/
  yields : Yields property Q parser
  /-- What an error is about. -/
  fails : ∀ stream : TokenStream, stream.All property → ∀ error,
    parser.outcomeFrom stream = .error error → error.IsAbout property

/-- A property of tokens is one that a parser can heed. -/
theorem Heeds.reports {α : Type} {property : Token → Prop} {Q : α → Prop} {parser : Parser α}
    (h : Heeds (.ofTokens property) Q parser) (hkeeps : Keeps property parser) :
    Reports property Q parser where
  yields stream hstream := ⟨(hkeeps stream hstream).1, fun value hvalue =>
    ((h stream hstream).gives value _ ⟨hvalue, rfl⟩).1⟩
  fails stream hstream := (h stream hstream).fails

end Parser

/-! ### Effect files -/

namespace Effect

open ShaderAssembly.Parser

variable {watch : Watch} {draft : Draft}

theorem obeys_expectSampler : Obeys watch expectSampler := by
  refine (obeys_expectMark rfl).bind fun _ _ => ?_
  refine (heeds_expectKeyword _).bind fun _ _ => ?_
  refine (obeys_expectMark rfl).bind fun _ _ => ?_
  refine (obeys_expectMark rfl).bind fun _ _ => ?_
  refine (heeds_expectName _).bind fun _ _ => ?_
  refine (obeys_expectMark rfl).bind fun _ _ => ?_
  refine (obeys_expectMark rfl).bind fun _ _ => ?_
  exact (obeys_expectMark rfl).bind fun _ _ => .pure trivial

theorem obeys_expectConstant : Obeys watch expectConstant := by
  refine (obeys_acceptKeyword _).bind fun _ _ => .ite ?_ (obeys_expectLiteral rfl rfl _)
  exact obeys_expectSampler.bind fun _ _ => .pure trivial

theorem obeys_expectControl : Obeys watch expectControl := by
  refine (heeds_expectName _).bind fun word hword => ?_
  split
  · exact .pure trivial
  · exact obeys_expectBounds.bind fun _ _ => .pure trivial
  · exact heeds_refuse _ hword.1

theorem obeys_expectDescription : Obeys watch expectDescription := by
  refine (obeys_expectString _).bind fun _ _ => ?_
  refine heeds_optional rfl obeys_expectControl fun _ => ?_
  exact (obeys_expectMark rfl).bind fun _ _ => .pure trivial

theorem obeys_expectEntry : Obeys watch expectEntry := by
  refine (heeds_expectName _).bind fun _ _ => ?_
  refine (heeds_expectName _).bind fun _ _ => ?_
  refine heeds_optional rfl obeys_expectDescription fun _ => ?_
  refine heeds_optional rfl obeys_expectConstant fun _ => ?_
  exact (obeys_expectMark rfl).bind fun _ _ => .pure trivial

theorem obeys_acceptAnnotations : Obeys watch acceptAnnotations := by
  refine (obeys_accept rfl).bind fun _ _ => .ite ?_ (.pure trivial)
  refine (heeds_manyUntil obeys_expectEntry).bind fun _ _ => ?_
  exact (obeys_expectMark rfl).bind fun _ _ => .pure trivial

/-- Whether a draft is read from tokens that are known. -/
abbrev HeedsDraft (watch : Watch) (parser : Parser Draft) : Prop :=
  Heeds watch (fun draft => draft.shader.Stands (Position.Marks watch.knows)) parser

theorem heeds_uniform (h : draft.shader.Stands (Position.Marks watch.knows))
    {other : Parser Draft} (hother : HeedsDraft watch other) :
    HeedsDraft watch (do if ← seesKeyword "uniform" then readUniform draft else other) := by
  refine heeds_keyword (fun _ _ => ?_) hother
  refine (heeds_expectName _).bind fun type _ => ?_
  refine (heeds_expectName _).bind fun name hname => ?_
  refine .refusing (heeds_refuseDuplicate _ hname.1) ?_
  refine heeds_optional rfl (heeds_expectName _) fun semantic? => ?_
  refine obeys_acceptAnnotations.bind fun annotations _ => ?_
  refine heeds_optional rfl obeys_expectConstant fun default? => ?_
  refine (obeys_expectMark rfl).bind fun _ _ => ?_
  refine Heeds.record.bind fun _ _ => .pure ?_
  exact ⟨h.properties, h.shared, h.blocks, h.techniques,
    OrderedMap.forall_values_insert h.uniforms hname.2, h.streams⟩

theorem obeys_expectField : Obeys watch expectField := by
  refine (heeds_expectName _).bind fun _ _ => ?_
  refine (heeds_expectName _).bind fun _ _ => ?_
  refine (obeys_expectMark rfl).bind fun _ _ => ?_
  refine (heeds_expectName _).bind fun _ _ => ?_
  exact (obeys_expectMark rfl).bind fun _ _ => .pure trivial

theorem heeds_stream (h : draft.shader.Stands (Position.Marks watch.knows))
    {other : Parser Draft} (hother : HeedsDraft watch other) :
    HeedsDraft watch (do if ← seesKeyword "attribute" then readStream draft else other) := by
  refine heeds_keyword (fun _ _ => ?_) hother
  refine (heeds_expectName _).bind fun name hname => ?_
  refine .refusing (heeds_refuseDuplicate _ hname.1) ?_
  refine (obeys_expectMark rfl).bind fun _ _ => ?_
  refine (heeds_manyUntil obeys_expectField).bind fun _ _ => ?_
  refine (obeys_expectMark rfl).bind fun _ _ => ?_
  refine (obeys_expectMark rfl).bind fun _ _ => .pure ?_
  exact ⟨h.properties, h.shared, h.blocks, h.techniques, h.uniforms,
    OrderedMap.forall_values_insert h.streams hname.2⟩

theorem heeds_block (h : draft.shader.Stands (Position.Marks watch.knows))
    {other : Parser Draft} (hother : HeedsDraft watch other) :
    HeedsDraft watch (do if ← seesKeyword "GLSLShader" then readBlock draft else other) := by
  refine heeds_keyword (fun _ _ => ?_) hother
  refine (heeds_expectName _).bind fun name hname => ?_
  refine (obeys_expectMark rfl).bind fun _ _ => ?_
  refine (heeds_expectBody _).bind fun body hbody => ?_
  refine .refusing (heeds_refuseDuplicate _ hname.1) (.pure ?_)
  exact ⟨h.properties, h.shared, OrderedMap.forall_values_insert h.blocks hbody, h.techniques,
    h.uniforms, h.streams⟩

theorem heeds_expectArgument (direction : Direction) :
    Heeds watch (fun argument => argument.position.Marks watch.knows)
      (expectArgument direction) := by
  refine (heeds_expectKeyword _).bind fun _ _ => ?_
  refine (heeds_expectName _).bind fun stream hstream => ?_
  exact (heeds_takeIf rfl).bind fun _ _ => .pure hstream.2

theorem heeds_expectInterface :
    Heeds watch (StageStreams.Stands (Position.Marks watch.knows)) expectInterface := by
  refine (obeys_expectMark rfl).bind fun _ _ => ?_
  refine (heeds_expectArgument .input).bind fun input hinput => ?_
  refine (obeys_expectMark rfl).bind fun _ _ => ?_
  refine (heeds_expectArgument .output).bind fun output houtput => ?_
  exact (obeys_expectMark rfl).bind fun _ _ => .pure ⟨hinput, houtput⟩

theorem heeds_readStage {stages : OrderedMap Stage BoundStage}
    (h : ∀ binding ∈ stages.values, binding.Stands (Position.Marks watch.knows)) :
    Heeds watch (fun stages => ∀ binding ∈ stages.values,
      binding.Stands (Position.Marks watch.knows)) (readStage stages) := by
  refine (heeds_expectName _).bind fun word hword => ?_
  split
  · exact heeds_refuse _ hword.1
  · refine .refusing (heeds_refuseDuplicate _ hword.1) ?_
    refine heeds_expectInterface.bind fun interface hinterface => ?_
    refine (obeys_expectMark rfl).bind fun _ _ => ?_
    refine (heeds_expectReferences rfl rfl _).bind fun blocks hblocks => ?_
    refine (obeys_expectMark rfl).bind fun _ _ => .pure ?_
    refine OrderedMap.forall_values_insert h ⟨hblocks, fun other hother => ?_, hword.2⟩
    cases hother
    exact hinterface

theorem heeds_expectPasses :
    Heeds watch (fun passes => ∀ pass ∈ passes, pass.Stands (Position.Marks watch.knows))
      expectPasses := by
  refine (obeys_seesKeyword _).bind fun _ _ => ?_
  refine .refusing (heeds_unexpected _) ?_
  refine heeds_manyUntil (heeds_keyword (fun keyword hkeyword => ?_) (heeds_unexpected _))
  refine (heeds_expectName _).bind fun name _ => ?_
  refine obeys_acceptAnnotations.bind fun annotations _ => ?_
  refine (obeys_expectMark rfl).bind fun _ _ => ?_
  refine (heeds_foldUntil (fun _ => heeds_readStage) OrderedMap.forall_values_empty).closing
    (stopsAt_foldUntil _) rfl fun stages hstages close hclose => ?_
  exact (obeys_requireStages stages hclose).bind fun _ _ => .pure ⟨hstages, hkeyword.2⟩

theorem heeds_technique (h : draft.shader.Stands (Position.Marks watch.knows))
    {other : Parser Draft} (hother : HeedsDraft watch other) :
    HeedsDraft watch (do if ← seesKeyword "technique" then readTechnique draft else other) := by
  refine heeds_keyword (fun keyword hkeyword => ?_) hother
  refine (heeds_expectName _).bind fun name hname => ?_
  refine .refusing (heeds_refuseDuplicate _ hname.1) ?_
  refine obeys_acceptAnnotations.bind fun annotations _ => ?_
  refine (obeys_expectMark rfl).bind fun _ _ => ?_
  refine heeds_expectPasses.bind fun passes hpasses => ?_
  refine (obeys_expectMark rfl).bind fun _ _ => ?_
  refine Heeds.record.bind fun _ _ => .pure ?_
  exact ⟨h.properties, h.shared, h.blocks,
    OrderedMap.forall_values_insert h.techniques ⟨hpasses, hkeyword.2⟩, h.uniforms, h.streams⟩

theorem heeds_readItem (h : draft.shader.Stands (Position.Marks watch.knows)) :
    HeedsDraft watch (readItem draft) :=
  heeds_uniform h (heeds_stream h (heeds_block h (heeds_technique h (heeds_unexpected _))))

theorem obeys_warnOfUnknown (annotations : List AnnotationEntry) :
    Obeys watch (warnOfUnknown annotations) :=
  obeys_forM (fun _ => .ite .record (.pure trivial)) annotations

theorem propertyOf?_position {uniform : Uniform} {annotations : List AnnotationEntry}
    {declaration : PropertyDeclaration} (h : propertyOf? uniform annotations = some declaration) :
    declaration.position = uniform.position := by
  obtain ⟨type, -, rfl⟩ := Option.map_eq_some_iff.mp h
  rfl

theorem heeds_addProperty {properties : OrderedMap String Property} {uniform : Uniform}
    (huniform : uniform.position.Marks watch.knows)
    (hproperties : ∀ other ∈ properties.values, other.position.Marks watch.knows) :
    Heeds watch (fun properties => ∀ other ∈ properties.values,
      other.position.Marks watch.knows) (addProperty draft properties uniform) := by
  refine (obeys_warnOfUnknown _).bind fun _ _ => .ite (.pure hproperties) ?_
  split
  · exact .pure hproperties
  · rename_i declaration hdeclaration
    rw [← propertyOf?_position hdeclaration] at huniform
    refine (heeds_resolveProperty huniform).bind fun resolved hresolved => .pure ?_
    exact OrderedMap.forall_values_insert hproperties hresolved

/-- Reading an effect file gives a shader with the positions of known tokens once the end of the
file stands next. -/
theorem heeds_expectFile (path : SourcePath) :
    Heeds watch (fun shader => shader.Stands (Position.Marks watch.knows) ∧
      ∃ stream, watch.covers stream ∧ stream.next.kind = .endOfFile) (expectFile path) := by
  have hstart : (⟨.empty path, .empty⟩ : Draft).shader.Stands (Position.Marks watch.knows) :=
    Shader.stands_empty _ path
  refine ((heeds_foldUntil (fun _ => heeds_readItem) hstart).stopping
    (stopsAt_foldUntil _)).bind fun draft ⟨hdraft, hend⟩ => ?_
  refine .refusing (heeds_unexpected _) ?_
  refine (heeds_foldlM (fun _ uniform huniform => heeds_addProperty
    (hdraft.uniforms uniform huniform)) OrderedMap.forall_values_empty).bind
      fun properties hproperties => .pure ⟨?_, hend⟩
  exact ⟨hproperties, hdraft.shared, hdraft.blocks, hdraft.techniques, hdraft.uniforms,
    hdraft.streams⟩

/-- Reading an effect file gives a shader with the positions of tokens, or an error about one. -/
theorem reports_expectFile {property : Token → Prop} (path : SourcePath) :
    Reports property (Shader.Stands (Position.Marks property)) (expectFile path) :=
  ((heeds_expectFile path).mono fun _ h => h.1).reports yields_expectFile.keeps

end Effect

end ShaderAssembly
