import ShaderAssembly.Compiler
import ShaderAssembly.Proofs.EffectParts
import ShaderAssembly.Proofs.LinkedOutlines
import ShaderAssembly.Proofs.WrittenEffects
import ShaderAssembly.Sources.Memory

/-!
# The dialects agree

The same blocks and techniques can be written as a shader description or as an effect file. The
two are read in different ways: of a description the code of each block is expanded by itself, of
an effect file the whole text before any of it is read. If there is nothing to expand, both read
shaders that present the outline they were written from, and so link to the same stages.
-/

namespace ShaderAssembly

open ShaderAssembly.Grammar

/-! ### Descriptions -/

namespace Description

/-- A description says nothing of streams. -/
theorem IsTechnique.interface?_eq_none {tokens : List Token} {technique : Technique}
    (h : IsTechnique tokens technique) :
    ∀ pass ∈ technique.passes, ∀ binding ∈ pass.stages.values, binding.interface? = none := by
  cases h with
  | technique hkeyword hname hopening hpasses hsome hclosing =>
    intro pass hpass binding hbinding
    obtain ⟨passTokens, -, hpass⟩ := hpasses.exists_of_mem hpass
    cases hpass with
    | pass _ _ hbindings _ =>
      obtain ⟨entry, hentry, rfl⟩ := List.mem_map.mp hbinding
      obtain ⟨bindingTokens, -, hentry⟩ := hbindings.exists_of_mem hentry
      cases hentry
      rfl

/-- No stage of a shader that is described has streams. -/
theorem Declares.interface?_eq_none {path : SourcePath} {tokens : List Token} {items : List Item}
    {shader : Shader} (h : Declares path items shader) (hitems : IsDescription tokens items) :
    ∀ technique ∈ shader.techniques.values, ∀ pass ∈ technique.passes,
      ∀ binding ∈ pass.stages.values, binding.interface? = none := by
  intro technique htechnique
  rw [h.values_techniques] at htechnique
  obtain ⟨part, -, hpart⟩ := hitems.exists_isTechnique htechnique
  exact hpart.interface?_eq_none

/-- The description of an outline is read as a shader that presents it. -/
theorem exists_parse_presents (path : SourcePath) {outline : Outline} (h : outline.IsWritable) :
    ∃ shader, (parse path (text outline)).outcome = .ok shader ∧ shader.Presents outline := by
  obtain ⟨shared, named, techniques, hdescription, hshared, hnamed, htechniques⟩ :=
    exists_isDescription_of_spelled h (Word.map_spelled_scan (isLegible_words h) path)
  have hsome : (writtenItems shared named techniques).filterMap Item.technique? ≠ [] := by
    rw [filterMap_technique?_writtenItems]
    rintro rfl
    exact h.techniques htechniques.symm
  obtain ⟨shader, hshader, hdeclares⟩ : ∃ shader, (parse path (text outline)).outcome = .ok shader ∧
      Declares path (writtenItems shared named techniques) shader :=
    exists_ofTokens_of_isDescription hdescription
      (consistent_writtenItems h hshared hnamed htechniques) hsome
  have hnames : ∀ entry ∈ shader.blocks.entries, entry.2.name = entry.1 := by
    rw [hdeclares.blocks]
    exact fun _ => CodeBlock.name_eq_of_mem
  have hplain := hdeclares.interface?_eq_none hdescription
  have houtline : shader.outline = outline := hdeclares.outline_eq hshared hnamed htechniques
  refine ⟨shader, hshader, ⟨houtline, hnames, ?_, ?_⟩⟩
  · rw [hdeclares.uniforms]
    rfl
  · intro technique htechnique pass hpass binding hbinding interface hinterface
    rw [hplain technique htechnique pass hpass binding hbinding] at hinterface
    cases hinterface

end Description

/-! ### Moving positions -/

/-- Moving positions does not change what a pass binds. -/
theorem Pass.outline_mapPosition (f : Position → Position) (pass : Pass) :
    (pass.mapPosition f).outline = pass.outline := by
  have hblocks : ∀ binding : BoundStage, (binding.mapPosition f).blocks.map BlockReference.name =
      binding.blocks.map BlockReference.name := fun _ => List.map_map
  simp only [Pass.outline, Pass.mapPosition, OrderedMap.mapValues, List.map_map,
    Function.comp_def, hblocks]

/-- Moving positions does not change the outline of a technique. -/
theorem Technique.outline_mapPosition (f : Position → Position) (technique : Technique) :
    (technique.mapPosition f).outline = technique.outline := by
  simp only [Technique.outline, Technique.mapPosition, List.map_map, Function.comp_def,
    Pass.outline_mapPosition]

/-- A stream that is found is found with its position moved, too. -/
theorem Effect.resolveStream_locateShader (map : LineMap) {shader : Shader}
    {argument : StreamArgument} {stream : AttributeStream}
    (h : Linking.resolveStream shader argument = .ok stream) :
    Linking.resolveStream (locateShader map shader) (argument.mapPosition (located map)) =
      .ok (stream.mapPosition (located map)) := by
  have hfound : shader.streams.get? argument.stream = some stream := by
    unfold Linking.resolveStream at h
    split at h
    · rename_i found hfound
      cases h
      exact hfound
    · cases h
  have hmoved : (locateShader map shader).streams.get? argument.stream =
      some (stream.mapPosition (located map)) := by
    show (shader.streams.mapValues _).get? argument.stream = _
    rw [OrderedMap.get?_mapValues, hfound]
    rfl
  show Linking.resolveStream (locateShader map shader) ⟨_, argument.stream, _, _⟩ = _
  rw [Linking.resolveStream, hmoved]

/-- The lines for the streams of a stage have no positions. -/
theorem Effect.interfaceLines_locateShader (map : LineMap) {shader : Shader}
    {interface : StageStreams} {lines : List String}
    (h : Linking.interfaceLines shader interface = .ok lines) :
    Linking.interfaceLines (locateShader map shader) (interface.mapPosition (located map)) =
      .ok lines := by
  obtain ⟨input, hinput, h⟩ := Except.bind_eq_ok.mp h
  obtain ⟨output, houtput, h⟩ := Except.bind_eq_ok.mp h
  refine Except.bind_eq_ok.mpr ⟨_, resolveStream_locateShader map hinput, ?_⟩
  exact Except.bind_eq_ok.mpr ⟨_, resolveStream_locateShader map houtput, h⟩

/-- Moving the positions of a shader does not change its outline. -/
theorem Effect.outline_locateShader (map : LineMap) (shader : Shader) :
    (locateShader map shader).outline = shader.outline := by
  simp only [Shader.outline, locateShader, OrderedMap.mapValues, List.map_map, Option.map_map,
    Function.comp_def, Technique.outline_mapPosition]
  rfl

/-- Moving the positions of a shader changes nothing that gets into the stages. -/
theorem Shader.Presents.located {shader : Shader} {outline : Outline}
    (h : shader.Presents outline) (map : LineMap) :
    (Effect.locateShader map shader).Presents outline where
  outline_eq := (Effect.outline_locateShader map shader).trans h.outline_eq
  names := by
    intro entry hentry
    obtain ⟨written, hwritten, rfl⟩ := List.mem_map.mp hentry
    exact h.names written hwritten
  uniforms := by
    have hnone : shader.uniforms.entries = [] := List.map_eq_nil_iff.mp h.uniforms
    simp [Effect.locateShader, OrderedMap.values, OrderedMap.mapValues, hnone]
  interfaces := by
    refine OrderedMap.forall_values_mapValues fun technique htechnique moved hmoved => ?_
    obtain ⟨pass, hpass, rfl⟩ := List.mem_map.mp hmoved
    refine OrderedMap.forall_values_mapValues fun binding hbinding interface hinterface => ?_
    obtain ⟨streams, hstreams, rfl⟩ := Option.map_eq_some_iff.mp hinterface
    exact Effect.interfaceLines_locateShader map
      (h.interfaces technique htechnique pass hpass binding hbinding streams hstreams)

/-! ### Effect files -/

/-- A stream without fields needs no lines where it is used by its name alone. -/
theorem Linking.interfaceLines_eq_nil {shader : Shader} {name : String} {stream : AttributeStream}
    {interface : StageStreams} (hstream : shader.streams.get? name = some stream)
    (hfields : stream.fields = []) (hinput : interface.input.IsPlain name)
    (houtput : interface.output.IsPlain name) : interfaceLines shader interface = .ok [] := by
  have hresolve : ∀ argument : StreamArgument, argument.IsPlain name →
      resolveStream shader argument = .ok stream := by
    intro argument hargument
    rw [resolveStream, hargument.1, hstream]
  have hlines : ∀ argument : StreamArgument, argument.IsPlain name →
      streamLines argument stream = [] := by
    intro argument hargument
    rw [streamLines, hargument.2, hfields, List.map_nil]
  rw [interfaceLines, hresolve _ hinput, hresolve _ houtput]
  show Except.ok (streamLines interface.input stream ++ streamLines interface.output stream) = _
  rw [hlines _ hinput, hlines _ houtput, List.append_nil]

namespace Effect

variable {outline : Outline} {path : SourcePath}

/-- What is declared by an effect file that is written for an outline without shared code presents
the outline. -/
theorem AreWrittenFor.presents {stream : AttributeStream} {named : List CodeBlock}
    {techniques : List Technique} {declared : Shader}
    (hwritten : AreWrittenFor outline stream named techniques) (hclosed : outline.IsClosed)
    (hdeclares : Declares path (writtenItems stream named techniques) declared) :
    declared.Presents outline where
  outline_eq := by
    rw [Shader.outline, hdeclares.shared, hdeclares.blocks, hdeclares.techniques,
      filterMap_block?_writtenItems, filterMap_technique?_writtenItems, List.map_map,
      List.map_map]
    show Outline.mk none (named.map fun block => (block.name, block.body))
      (techniques.map Technique.outline) = outline
    rw [hwritten.blocks, hwritten.outlines, ← hclosed.shared]
  names := by
    rw [hdeclares.blocks]
    exact fun _ => CodeBlock.name_eq_of_mem
  uniforms := by
    rw [OrderedMap.values, hdeclares.uniforms, filterMap_uniform?_writtenItems]
    rfl
  interfaces := by
    have hentries : declared.streams.entries = [(streamName, stream)] := by
      rw [hdeclares.streams, filterMap_stream?_writtenItems, List.map_singleton, hwritten.name]
    have hstream : declared.streams.get? streamName = some stream := by
      rw [OrderedMap.get?, hentries]
      rfl
    intro technique htechnique pass hpass binding hbinding interface hinterface
    have hmem : technique ∈ techniques := by
      rw [OrderedMap.values, hdeclares.techniques, filterMap_technique?_writtenItems] at htechnique
      simpa using htechnique
    have hplain := hwritten.usesOnly technique hmem pass hpass binding hbinding
      interface hinterface
    exact Linking.interfaceLines_eq_nil hstream hwritten.fields hplain.1 hplain.2

/-- The effect file of an outline without shared code is read as a shader that presents it, and
the code is as it was written, wherever its lines come from. -/
theorem exists_parse_presents (path : SourcePath) (h : outline.IsWritable)
    (hclosed : outline.IsClosed) {source : ExpandedText} (hsource : source.text = text outline) :
    ∃ shader, (parse path source).outcome = .ok shader ∧ shader.Presents outline ∧
      shader.KeepsCode := by
  obtain ⟨stream, named, techniques, declared, hwritten, hdeclared, hdeclares⟩ :=
    exists_declares_of_isWritable path h
  have hparse : (parse path source).outcome = .ok (locateShader source.map declared) := by
    rw [← hsource] at hdeclared
    exact parse_eq_ok.mpr ⟨declared, hdeclared, rfl⟩
  have hkept : (locateShader source.map declared).KeepsCode := by
    intro entry hentry
    obtain ⟨block, -, rfl⟩ := List.mem_map.mp hentry
    rfl
  exact ⟨_, hparse, (hwritten.presents hclosed hdeclares).located source.map, hkept⟩

end Effect

/-! ### Expanding code without include lines -/

/-- Whether a block is another one, expanded to the code that was written. -/
def CodeBlock.IsKept (entry expanded : String × CodeBlock) : Prop :=
  ∃ source : ExpandedText,
    expanded = (entry.1, entry.2.withExpansion source) ∧ source.text = entry.2.body

/-- Expanding blocks to the code that was written changes nothing that gets into the stages. -/
theorem Shader.Presents.expanded {shader : Shader} {outline : Outline}
    {blocks : List (String × CodeBlock)} (h : shader.Presents outline)
    (hblocks : List.Forall₂ CodeBlock.IsKept shader.blocks.entries blocks) :
    ({ shader with blocks := ⟨blocks⟩ } : Shader).Presents outline ∧
      ({ shader with blocks := ⟨blocks⟩ } : Shader).KeepsCode := by
  have hbodies : blocks.map (fun entry => (entry.1, entry.2.body)) =
      shader.blocks.entries.map fun entry => (entry.1, entry.2.body) := by
    refine map_eq_of_forall₂ (hblocks.imp fun entry expanded hkept => ?_)
    obtain ⟨source, rfl, -⟩ := hkept
    rfl
  have houtline : ({ shader with blocks := ⟨blocks⟩ } : Shader).outline = shader.outline :=
    congrArg (Outline.mk _ · _) hbodies
  have hnames : ∀ entry ∈ blocks, entry.2.name = entry.1 := by
    intro entry hentry
    obtain ⟨written, hwritten, source, rfl, -⟩ := exists_of_mem_right hblocks hentry
    exact h.names written hwritten
  refine ⟨⟨houtline.trans h.outline_eq, hnames, h.uniforms, h.interfaces⟩, ?_⟩
  intro entry hentry
  obtain ⟨written, -, source, rfl, htext⟩ := exists_of_mem_right hblocks hentry
  exact htext

namespace Compiler

open ShaderAssembly.Include (IsOrdinary)

variable {σ : Type} {outline : Outline} {root : String}

section Expansion

variable (compiler : Compiler σ) (state : σ)

/-- A block without include lines is expanded to the code that was written. -/
theorem exists_expandBlock_of_ordinary (path : SourcePath) (graph : IncludeGraph)
    {block : CodeBlock} (h : IsOrdinary block.body.toList) :
    ∃ source after, (compiler.expandBlock path graph block).outcomeFrom state =
      .ok (block.withExpansion source, after) ∧ source.text = block.body := by
  obtain ⟨again, hagain, htext, -⟩ := Include.outcomeFrom_expandText_of_ordinary h
    compiler.provider path block.position.line ⟨state, [path]⟩
  have hopen : (Include.withOpen [path] (Include.expandText compiler.provider path block.body
      block.position.line)).outcomeFrom state = .ok again := by
    rw [Include.outcomeFrom_withOpen, hagain]
  exact ⟨again.source, _, (Action.outcomeFrom_bind_of_ok hopen _).trans rfl, htext⟩

/-- Blocks without include lines are expanded to the code that was written. -/
theorem exists_expandEntries_of_ordinary (path : SourcePath) (graph : IncludeGraph)
    {entries : List (String × CodeBlock)}
    (h : ∀ entry ∈ entries, IsOrdinary entry.2.body.toList) :
    ∃ blocks after, (compiler.expandEntries path graph entries).outcomeFrom state =
      .ok (blocks, after) ∧ List.Forall₂ CodeBlock.IsKept entries blocks := by
  -- Each block starts from the graph and the state that the one before it leaves.
  induction entries generalizing graph state with
  | nil => exact ⟨[], graph, rfl, .nil⟩
  | cons entry rest ih =>
    rw [List.forall_mem_cons] at h
    obtain ⟨source, middle, hfirst, htext⟩ :=
      exists_expandBlock_of_ordinary compiler state path graph h.1
    obtain ⟨blocks, after, hrest, hkept⟩ :=
      ih ((compiler.expandBlock path graph entry.2).stateFrom state) middle h.2
    refine ⟨(entry.1, entry.2.withExpansion source) :: blocks, after, ?_,
      .cons ⟨source, rfl, htext⟩ hkept⟩
    rw [expandEntries, Action.outcomeFrom_bind_of_ok hfirst]
    dsimp only
    rw [Action.outcomeFrom_bind_of_ok hrest]
    rfl

/-- Nothing that was written for an outline without include lines changes when it is expanded. -/
theorem exists_expandBlocks_of_presents {shader : Shader} (graph : IncludeGraph)
    (hclosed : outline.IsClosed)
    (hordinary : ∀ block ∈ outline.blocks, IsOrdinary block.2.toList)
    (hpresents : shader.Presents outline) :
    ∃ parsed, (compiler.expandBlocks ⟨shader, graph⟩).outcomeFrom state = .ok parsed ∧
      parsed.shader.Presents outline ∧ parsed.shader.KeepsCode := by
  have hentries : ∀ entry ∈ shader.blocks.entries, IsOrdinary entry.2.body.toList := by
    intro entry hentry
    have hmem : (entry.1, entry.2.body) ∈ shader.outline.blocks :=
      List.mem_map.mpr ⟨entry, hentry, rfl⟩
    rw [hpresents.outline_eq] at hmem
    exact hordinary _ hmem
  obtain ⟨blocks, after, hblocks, hkept⟩ := exists_expandEntries_of_ordinary
    compiler state shader.path graph hentries
  have hshared : shader.shared? = none := hpresents.shared hclosed
  have hexpand : (compiler.expandBlocks ⟨shader, graph⟩).outcomeFrom state =
      .ok ⟨{ shader with blocks := ⟨blocks⟩ }, after⟩ := by
    unfold expandBlocks
    simp only [hshared]
    refine (Action.outcomeFrom_bind_of_ok (Action.outcomeFrom_pure _ _) _).trans ?_
    refine (Action.outcomeFrom_bind_of_ok hblocks _).trans ?_
    rw [← hshared]
    rfl
  exact ⟨_, hexpand, hpresents.expanded hkept⟩

end Expansion

/-! ### Compiling what is written -/

section Reading

variable {compiler : Compiler σ} {state : σ}

/-- A description is read as a shader that presents the outline it was written from. -/
theorem exists_parse_of_description (h : outline.IsWritable) (hclosed : outline.IsClosed)
    (hordinary : ∀ block ∈ outline.blocks, IsOrdinary block.2.toList)
    (hdialect : Dialect.ofPath (.rooted root) = .description)
    (hread : (compiler.provider.read (.rooted root)).outcomeFrom state =
      .ok (Description.text outline)) :
    ∃ parsed, (compiler.parse root).outcomeFrom state = .ok parsed ∧
      parsed.shader.Presents outline ∧ parsed.shader.KeepsCode := by
  have htext : (compiler.provider.readFile (.rooted root)).outcomeFrom state =
      .ok (Description.text outline) := by
    rw [Provider.readFile, Action.outcomeFrom_mapError, hread]
    rfl
  obtain ⟨shader, hshader, hpresents⟩ := Description.exists_parse_presents (.rooted root) h
  obtain ⟨parsed, hexpand, hparsed⟩ := exists_expandBlocks_of_presents compiler
    ((compiler.provider.readFile (.rooted root)).stateFrom state)
    ((IncludeGraph.ofRoot (.rooted root)).addTexts [⟨.rooted root, Description.text outline⟩])
    hclosed hordinary hpresents
  have hdescription : (compiler.parseDescription (.rooted root)).outcomeFrom state =
      .ok parsed := by
    unfold parseDescription
    refine (Action.outcomeFrom_bind_of_ok htext _).trans ?_
    exact (Action.outcomeFrom_liftM_bind_of_ok hshader _ _).trans hexpand
  have hparse : (compiler.parse root).outcomeFrom state = .ok parsed := by
    unfold parse
    simp only [hdialect]
    exact (Action.outcomeFrom_bind_of_ok hdescription _).trans rfl
  exact ⟨parsed, hparse, hparsed⟩

/-- An effect file is read as a shader that presents the outline it was written from. -/
theorem exists_parse_of_effect (h : outline.IsWritable) (hclosed : outline.IsClosed)
    (hordinary : ∀ block ∈ outline.blocks, IsOrdinary block.2.toList)
    (hdialect : Dialect.ofPath (.rooted root) = .effect)
    (hread : (compiler.provider.read (.rooted root)).outcomeFrom state =
      .ok (Effect.text outline)) :
    ∃ parsed, (compiler.parse root).outcomeFrom state = .ok parsed ∧
      parsed.shader.Presents outline ∧ parsed.shader.KeepsCode := by
  obtain ⟨again, hagain, htext, -⟩ := Include.outcomeFrom_expandFile_of_ordinary
    (Effect.isOrdinary_text h hordinary) hread []
  have hopen : (Include.withOpen [] (Include.expandFile compiler.provider
      (.rooted root))).outcomeFrom state = .ok again := by
    rw [Include.outcomeFrom_withOpen, hagain]
  obtain ⟨shader, hshader, hpresents⟩ :=
    Effect.exists_parse_presents (.rooted root) h hclosed htext
  have heffect : (compiler.parseEffect (.rooted root)).outcomeFrom state =
      .ok ⟨shader, recordExpansion (.ofRoot (.rooted root)) again⟩ := by
    unfold parseEffect
    refine (Action.outcomeFrom_bind_of_ok hopen _).trans ?_
    exact (Action.outcomeFrom_liftM_bind_of_ok hshader _ _).trans rfl
  have hparse : (compiler.parse root).outcomeFrom state =
      .ok ⟨shader, recordExpansion (.ofRoot (.rooted root)) again⟩ := by
    unfold parse
    simp only [hdialect]
    exact (Action.outcomeFrom_bind_of_ok heffect _).trans rfl
  exact ⟨_, hparse, hpresents⟩

/-- A shader that presents a closed outline is compiled to the stages of the outline. -/
theorem exists_compile_of_presents {parsed : ParsedShader} (hclosed : outline.IsClosed)
    (hparsed : (compiler.parse root).outcomeFrom state = .ok parsed)
    (hpresents : parsed.shader.Presents outline) (hkept : parsed.shader.KeepsCode) :
    ∃ compilation, (compiler.compile root).outcomeFrom state = .ok compilation ∧
      compilation.stages.map (fun entry => (entry.1, entry.2.blocks)) = outline.boundStages ∧
        (compiler.settings.lineMarkers = .none →
          compilation.stages.sources = outline.stages compiler.settings) := by
  obtain ⟨stages, hlink, hstages⟩ :=
    Linking.exists_link_of_presents hpresents hkept hclosed compiler.settings
  have hcompile : (compiler.compile root).outcomeFrom state =
      .ok ⟨parsed.shader, stages, parsed.dependencies⟩ := by
    unfold compile
    refine (Action.outcomeFrom_bind_of_ok hparsed _).trans ?_
    exact (Action.outcomeFrom_liftM_bind_of_ok hlink _ _).trans rfl
  exact ⟨_, hcompile, hstages⟩

end Reading

/-- The dialects agree. Distinct blocks of code without include lines, and techniques whose stages
refer to them, can be written as a description and as an effect file: both compile, whatever the
files are read from, and they have the same stages in the same order, made of the same blocks.
Without markers the sources are the same, too. -/
theorem dialects_agree {τ : Type} (first : Provider σ) (second : Provider τ) (settings : Settings)
    {outline : Outline} (h : outline.IsWritable) (hclosed : outline.IsClosed)
    (hordinary : ∀ block ∈ outline.blocks, IsOrdinary block.2.toList)
    {description effect : String} {left : σ} {right : τ}
    (hdescription : Dialect.ofPath (.rooted description) = .description)
    (heffect : Dialect.ofPath (.rooted effect) = .effect)
    (hleft : (first.read (.rooted description)).outcomeFrom left =
      .ok (Description.text outline))
    (hright : (second.read (.rooted effect)).outcomeFrom right = .ok (Effect.text outline)) :
    ∃ described effected,
      (compile ⟨first, settings⟩ description).outcomeFrom left = .ok described ∧
      (compile ⟨second, settings⟩ effect).outcomeFrom right = .ok effected ∧
      described.stages.map (fun entry => (entry.1, entry.2.blocks)) = outline.boundStages ∧
      effected.stages.map (fun entry => (entry.1, entry.2.blocks)) = outline.boundStages ∧
      (settings.lineMarkers = .none →
        described.stages.sources = outline.stages settings ∧
          effected.stages.sources = described.stages.sources) := by
  -- Both shaders present the outline, so each has the stages of the outline.
  obtain ⟨parsed, hparsed, hpresents, hkept⟩ : ∃ parsed,
      (parse ⟨first, settings⟩ description).outcomeFrom left = .ok parsed ∧
        parsed.shader.Presents outline ∧ parsed.shader.KeepsCode :=
    exists_parse_of_description h hclosed hordinary hdescription hleft
  obtain ⟨described, hdescribed, hkeys, hsources⟩ :=
    exists_compile_of_presents hclosed hparsed hpresents hkept
  obtain ⟨parsed, hparsed, hpresents, hkept⟩ : ∃ parsed,
      (parse ⟨second, settings⟩ effect).outcomeFrom right = .ok parsed ∧
        parsed.shader.Presents outline ∧ parsed.shader.KeepsCode :=
    exists_parse_of_effect h hclosed hordinary heffect hright
  obtain ⟨effected, heffected, heffectKeys, heffectSources⟩ :=
    exists_compile_of_presents hclosed hparsed hpresents hkept
  exact ⟨described, effected, hdescribed, heffected, hkeys, heffectKeys, fun hmarkers =>
    ⟨hsources hmarkers, (heffectSources hmarkers).trans (hsources hmarkers).symm⟩⟩

/-- Code with a version, a comment that does not end and names that are keywords. -/
def keywordOutline : Outline where
  shared? := none
  blocks := [("GLSL", "#version 420\nvoid main() { { } /* }"), ("technique", "")]
  techniques := [⟨"pass", [[(.fragment, ["technique", "GLSL"]), (.vertex, ["GLSL", "GLSL"])]]⟩]

theorem dialects_agree_on_keywords :
    let files := MemorySources.ofFiles [(⟨"/a.shader"⟩, Description.text keywordOutline),
      (⟨"/a.ogsfx"⟩, Effect.text keywordOutline)]
    let compiler : Compiler MemorySources :=
      ⟨MemorySources.provider, { Settings.standard with lineMarkers := .none }⟩
    ∃ described effected, (compiler.compile "a.shader").outcomeFrom files = .ok described ∧
      (compiler.compile "a.ogsfx").outcomeFrom files = .ok effected ∧
      effected.stages.map (fun entry => (entry.1, entry.2.blocks)) =
        [(⟨"pass", 0, .vertex⟩, ["GLSL", "GLSL"]),
          (⟨"pass", 0, .fragment⟩, ["technique", "GLSL"])] ∧
      effected.stages.sources = described.stages.sources := by
  intro files compiler
  have htechnique : TechniqueOutline.IsWritable
      ⟨"pass", [[(.fragment, ["technique", "GLSL"]), (.vertex, ["GLSL", "GLSL"])]]⟩ :=
    ⟨by decide, by decide, by decide, by decide⟩
  have hwritable : keywordOutline.IsWritable :=
    ⟨nofun, by decide, by decide, by decide, by decide,
      by simpa [keywordOutline] using htechnique⟩
  have hclosed : keywordOutline.IsClosed := ⟨rfl, by decide⟩
  have hleft : (MemorySources.provider.read (.rooted "a.shader")).outcomeFrom files =
      .ok (Description.text keywordOutline) := rfl
  have hright : (MemorySources.provider.read (.rooted "a.ogsfx")).outcomeFrom files =
      .ok (Effect.text keywordOutline) := rfl
  obtain ⟨described, effected, hdescribed, heffected, -, hkeys, hsources⟩ :=
    dialects_agree MemorySources.provider MemorySources.provider compiler.settings hwritable
      hclosed (by decide) (by decide) (by decide) hleft hright
  exact ⟨described, effected, hdescribed, heffected, hkeys, (hsources rfl).2⟩

end Compiler

end ShaderAssembly
