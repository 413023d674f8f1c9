import ShaderAssembly.Proofs.LinkedLines
import ShaderAssembly.Proofs.PlacedShaders
import ShaderAssembly.Proofs.Traceability

/-!
# The code in linked stages

The shader alone decides what its stages are put together from: for each of them its blocks, and
the lines that declare its streams. The settings only say how that is written. So the code of a
stage is the same however its lines are marked: all lines of its blocks in order, none of them
lost, repeated or joined to another one.
-/

namespace ShaderAssembly

/-! ### Two views of a source -/

/-- The lines of the source that come from blocks, in order. -/
def LinkedStage.locatedLines (stage : LinkedStage) : List (List Char) :=
  (Text.lines stage.source.toList).zipIdx.filterMap fun (line, index) =>
    (stage.locate (index + 1)).map fun _ => line

/-- Whether a line of a stage is a marker. -/
def StageLine.isMarker : StageLine → Bool
  | .marker _ => true
  | _ => false

/-- The source without the lines that are markers. -/
def LinkedStage.unmarkedSource (stage : LinkedStage) : String :=
  String.ofList ((((Text.lines stage.source.toList).zip stage.lines).filter fun (_, line) =>
    !line.isMarker).flatMap Prod.fst)

namespace LinkedStage

variable {stage : LinkedStage}

/-- If the lines of a stage are those of its source, the lines that come from blocks are found
without counting. -/
theorem locatedLines_eq
    (h : Text.lines stage.source.toList = stage.lines.map fun line => Text.terminated line.text) :
    stage.locatedLines = stage.lines.filterMap fun line =>
      line.origin?.map fun _ => Text.terminated line.text := by
  rw [locatedLines, h, List.zipIdx_map, List.filterMap_map]
  have hlocate : ∀ entry ∈ stage.lines.zipIdx,
      (stage.locate (entry.2 + 1)).map (fun _ => Text.terminated entry.1.text) =
        entry.1.origin?.map fun _ => Text.terminated entry.1.text := by
    intro entry hentry
    have hline : stage.lines[entry.2]? = some entry.1 := List.mem_zipIdx_iff_getElem?.mp hentry
    have heq : stage.locate (entry.2 + 1) = stage.lines[entry.2]?.bind StageLine.origin? := rfl
    rw [heq, hline, Option.bind_some]
  rw [← List.zipIdx_map_fst 0 stage.lines, List.filterMap_map, List.zipIdx_map_fst]
  exact List.filterMap_congr hlocate

/-- If the lines of a stage are those of its source, the source without markers is that of the other
lines. -/
theorem unmarkedSource_eq
    (h : Text.lines stage.source.toList = stage.lines.map fun line => Text.terminated line.text) :
    stage.unmarkedSource = String.ofList
      ((stage.lines.filter fun line => !line.isMarker).flatMap fun line =>
        Text.terminated line.text) := by
  have hzip : (stage.lines.map fun line => Text.terminated line.text).zip stage.lines =
      stage.lines.map fun line => (Text.terminated line.text, line) := by
    have hid : stage.lines = stage.lines.map id := (List.map_id _).symm
    nth_rewrite 2 [hid]
    exact List.zip_map'
  rw [unmarkedSource, h, hzip, List.filter_map, List.flatMap_map]
  rfl

end LinkedStage

namespace Linking

/-! ### What stages are put together from -/

/-- What all stages of a shader are put together from. -/
def linkedParts (shader : Shader) : Except Error (List (StageKey × StageParts)) :=
  (boundStages shader).mapM fun bound => (stageParts shader bound.2).map fun parts =>
    (bound.1, parts)

section Parts

variable {shader : Shader} {root : SourcePath}

/-- A stage is linked by putting its parts together. -/
theorem linkStage_eq (settings : Settings) (shader : Shader) (binding : BoundStage) :
    linkStage settings shader binding =
      (stageParts shader binding).map fun parts => parts.assemble settings shader := by
  unfold linkStage
  cases stageParts shader binding with
  | error error => rfl
  | ok parts => rfl

/-- What is done to each result of a list may be done to the list of the results. -/
theorem mapM_map {ε α β γ : Type} (f : α → Except ε β) (g : β → γ) (items : List α) :
    (items.mapM fun item => (f item).map g) = (items.mapM f).map fun results =>
      results.map g := by
  induction items with
  | nil => rfl
  | cons item rest ih =>
    rw [List.mapM_cons, List.mapM_cons, ih]
    cases f item with
    | error error => rfl
    | ok result =>
      cases rest.mapM f with
      | error error => rfl
      | ok results => rfl

/-- A shader is linked by putting the parts of its stages together. -/
theorem outcome_link (settings : Settings) (shader : Shader) :
    (link settings shader).outcome = (linkedParts shader).map fun all =>
      all.map fun entry => (entry.1, entry.2.assemble settings shader) := by
  have hbound : ∀ bound : StageKey × BoundStage, (linkBound settings shader bound).outcome =
      ((stageParts shader bound.2).map fun parts => (bound.1, parts)).map fun entry =>
        (entry.1, entry.2.assemble settings shader) := by
    intro bound
    rw [linkBound, Traced.outcome_bind]
    have hstage : (liftM (linkStage settings shader bound.2) : Traced Error LinkedStage).outcome =
        linkStage settings shader bound.2 := rfl
    rw [hstage, linkStage_eq]
    cases stageParts shader bound.2 with
    | error error => rfl
    | ok parts => rfl
  rw [link, Traced.outcome_mapM, linkedParts, ← mapM_map]
  exact congrArg (fun f => (boundStages shader).mapM f) (funext hbound)

/-- Whether parts are those of a stage that is bound: the shared block, if there is one, and the
blocks that the stage refers to, in order, and declarations without foreign characters. -/
structure StageParts.AreFor (shader : Shader) (root : SourcePath) (binding : BoundStage)
    (parts : StageParts) : Prop where
  /-- The blocks. -/
  blocks : ∃ referenced, parts.blocks = shader.shared?.toList ++ referenced ∧
    List.Forall₂ (fun reference block => resolveBlock shader reference = .ok block ∧
      block.name = reference.name) binding.blocks referenced
  /-- The lines of the blocks have places. -/
  placed : ∀ block ∈ parts.blocks, block.IsPlaced root
  /-- The declarations. -/
  interface : ∀ c, IsForeign c → ∀ line ∈ parts.interface, c ∉ line.toList

/-- The block that a reference names has its name and is placed. -/
theorem isPlaced_of_resolveBlock (h : shader.IsPlaced root) {reference : BlockReference}
    {block : CodeBlock} (hblock : resolveBlock shader reference = .ok block) :
    block.name = reference.name ∧ block.IsPlaced root := by
  unfold resolveBlock at hblock
  split at hblock
  · rename_i found hfound
    cases hblock
    exact h.blocks _ (OrderedMap.mem_of_get? hfound).1
  · cases hblock

/-- The parts of a stage that is bound in a placed shader. -/
theorem areFor_of_stageParts (h : shader.IsPlaced root) {key : StageKey} {binding : BoundStage}
    (hbound : (key, binding) ∈ boundStages shader) {parts : StageParts}
    (hparts : stageParts shader binding = .ok parts) : parts.AreFor shader root binding := by
  obtain ⟨referenced, hreferenced, hparts⟩ := Except.bind_eq_ok.mp hparts
  have hresolved := Except.forall₂_of_mapM hreferenced
  have hblocks : ∀ block ∈ shader.shared?.toList ++ referenced, block.IsPlaced root := by
    intro block hblock
    rcases List.mem_append.mp hblock with hshared | hblock
    · exact (h.shared block (Option.mem_toList.mp hshared)).2
    · obtain ⟨reference, -, hreference⟩ := exists_of_mem_right hresolved hblock
      exact (isPlaced_of_resolveBlock h hreference).2
  have hnames := hresolved.imp fun _ _ hblock =>
    And.intro hblock (isPlaced_of_resolveBlock h hblock).1
  cases hstreams : binding.interface? with
  | none =>
    rw [hstreams] at hparts
    cases hparts
    exact ⟨⟨referenced, rfl, hnames⟩, hblocks, fun _ _ => nofun⟩
  | some streams =>
    rw [hstreams] at hparts
    obtain ⟨interface, hinterface, hparts⟩ := Except.bind_eq_ok.mp hparts
    cases hparts
    refine ⟨⟨referenced, rfl, hnames⟩, hblocks, fun c hc => ?_⟩
    have hnamed := h.named.not_mem (c := c) (by rcases hc with rfl | rfl <;> decide)
    have harguments := named_of_mem_boundStages hnamed hbound streams hstreams
    exact not_mem_interfaceLines hc hinterface hnamed harguments.1 harguments.2

/-- The parts of all stages of a placed shader are those of stages that are bound. -/
theorem exists_areFor_of_linkedParts (h : shader.IsPlaced root)
    {all : List (StageKey × StageParts)} (hall : linkedParts shader = .ok all) :
    ∀ entry ∈ all, ∃ binding, (entry.1, binding) ∈ boundStages shader ∧
      entry.2.AreFor shader root binding := by
  intro entry hentry
  obtain ⟨bound, hbound, hmade⟩ := exists_of_mem_right (Except.forall₂_of_mapM hall) hentry
  obtain ⟨parts, hparts, rfl⟩ := exists_of_map_eq_ok hmade
  exact ⟨bound.2, hbound, areFor_of_stageParts h hbound hparts⟩

/-- Every linked stage is put together from the parts of a stage that is bound. -/
theorem exists_parts_of_link {settings : Settings} {stages : LinkedStages}
    (h : shader.IsPlaced root) (hok : (link settings shader).outcome = .ok stages) :
    ∀ entry ∈ stages, ∃ binding parts, (entry.1, binding) ∈ boundStages shader ∧
      StageParts.AreFor shader root binding parts ∧
        entry.2 = parts.assemble settings shader := by
  rw [outcome_link] at hok
  obtain ⟨all, hall, rfl⟩ := exists_of_map_eq_ok hok
  intro entry hentry
  obtain ⟨⟨key, parts⟩, hparts, rfl⟩ := List.mem_map.mp hentry
  obtain ⟨binding, hbound, hfor⟩ := exists_areFor_of_linkedParts h hall _ hparts
  exact ⟨binding, parts, hbound, hfor, rfl⟩

/-- What is seen of linked stages is what is seen of their parts when they are put together. -/
theorem map_outcome_link {α : Type} (h : shader.IsPlaced root) {settings : Settings}
    {view : StageKey × LinkedStage → α} {seen : StageKey × StageParts → α}
    (hview : ∀ key binding parts, (key, binding) ∈ boundStages shader →
      StageParts.AreFor shader root binding parts →
        view (key, parts.assemble settings shader) = seen (key, parts)) :
    (link settings shader).outcome.map (List.map view) =
      (linkedParts shader).map (List.map seen) := by
  rw [outcome_link]
  cases hall : linkedParts shader with
  | error error => rfl
  | ok all =>
    refine congrArg Except.ok ?_
    rw [List.map_map]
    refine List.map_congr_left fun entry hentry => ?_
    obtain ⟨binding, hbound, hfor⟩ := exists_areFor_of_linkedParts h hall entry hentry
    exact hview entry.1 binding entry.2 hbound hfor

end Parts

/-! ### The code of a stage -/

section Code

variable {settings : Settings} {shader : Shader} {root : SourcePath} {binding : BoundStage}
  {parts : StageParts}

/-- What a source has for a line of a block: an empty line for a version declaration, and otherwise
the line, ended. -/
def shownLine (line : List Char) : List Char :=
  if Version.isDeclaration (Text.dropLineEnd line) then ['\n'] else Text.terminated line

/-- What is kept of a line is shown when it is ended. -/
theorem terminated_keptText (line : List Char) :
    Text.terminated (keptText line) = shownLine line := by
  unfold keptText shownLine
  split
  · rfl
  · rfl

/-- The lines of a stage are the lines of its source, if the settings are on single lines and no
marker quotes a path that is not. -/
theorem StageParts.AreFor.lines_source (h : parts.AreFor shader root binding)
    (hshader : shader.IsPlaced root) (hversion : '\n' ∉ settings.defaultVersion.toList)
    (hdefines : ∀ entry ∈ settings.defines.entries,
      '\n' ∉ entry.1.toList ∧ '\n' ∉ entry.2.toList)
    (hroot : settings.lineMarkers = .quoted → '\n' ∉ root.text.toList) :
    Text.lines (parts.assemble settings shader).source.toList =
      (parts.assemble settings shader).lines.map fun line => Text.terminated line.text := by
  have hpreamble : ∀ line ∈ preamble settings shader parts.blocks parts.interface,
      '\n' ∉ line.toList :=
    not_mem_preamble hversion hdefines (hshader.named.not_mem (by decide))
      (h.interface _ (.inl rfl))
  refine lines_source_assemble hpreamble fun block hblock index line hline origin hlocate
    hquoted => ?_
  obtain ⟨other, hother, -, hplain⟩ := (h.placed block hblock).origin index line hline
  rw [hother] at hlocate
  cases hlocate
  exact hplain (hroot hquoted)

/-- The lines of a stage that come from blocks are all lines of its blocks. -/
theorem StageParts.AreFor.locatedLines_eq (h : parts.AreFor shader root binding)
    (hsource : Text.lines (parts.assemble settings shader).source.toList =
      (parts.assemble settings shader).lines.map fun line => Text.terminated line.text) :
    (parts.assemble settings shader).locatedLines =
      (parts.blocks.flatMap (·.expanded.lines)).map shownLine := by
  have hcode : (parts.assemble settings shader).lines.filterMap (fun line =>
        line.origin?.map fun _ => Text.terminated line.text) =
      ((parts.assemble settings shader).lines.filter StageLine.isCode).filterMap fun line =>
        line.origin?.map fun _ => Text.terminated line.text := by
    rw [List.filterMap_filter]
    refine List.filterMap_congr fun line _ => ?_
    cases line with
    | generated text => rfl
    | marker text => rfl
    | code text block origin? => rfl
  have hlocated : ∀ line ∈ parts.blocks.flatMap codeLines,
      (line.written.origin?.map fun _ => Text.terminated line.written.text) =
        some (shownLine line.text) := by
    intro line hline
    obtain ⟨block, hblock, hmem⟩ := List.mem_flatMap.mp hline
    obtain ⟨index, hindex, horigin⟩ := exists_line_of_mem_codeLines hmem
    obtain ⟨origin, hlocate, -⟩ := (h.placed block hblock).origin index line.text hindex
    rw [hlocate] at horigin
    rw [CodeLine.written, horigin, ← terminated_keptText]
    rfl
  rw [LinkedStage.locatedLines_eq hsource, hcode]
  show ((Linking.assemble settings shader parts.blocks parts.interface).lines.filter
    StageLine.isCode).filterMap _ = _
  rw [filter_assemble, List.filterMap_map, ← map_text_codeLines, List.map_map,
    ← List.filterMap_eq_map]
  exact List.filterMap_congr hlocated

/-- Without its markers, what is written for code is its lines. -/
theorem filter_isMarker_writeCode (style : LineMarkers) (expected : Option Origin)
    (files : List SourcePath) (lines : List CodeLine) :
    (writeCode style expected files lines).1.filter (fun line => !line.isMarker) =
      lines.map CodeLine.written := by
  rw [← filter_writeCode style expected files lines]
  refine List.filter_congr fun line hline => ?_
  obtain ⟨code, -, rfl | ⟨origin, -, known, hmarker⟩⟩ := of_mem_writeCode hline
  · rfl
  · obtain ⟨text, rfl⟩ := exists_text_of_mem_marker hmarker
    rfl

/-- Without its markers, a stage with numeric markers is the stage without markers. -/
theorem filter_assemble_numeric (settings : Settings) (shader : Shader) (parts : StageParts) :
    (parts.assemble { settings with lineMarkers := .numeric } shader).lines.filter
        (fun line => !line.isMarker) =
      (parts.assemble { settings with lineMarkers := .none } shader).lines := by
  show (((preamble { settings with lineMarkers := .numeric } shader parts.blocks
      parts.interface).map fun line => StageLine.generated line.toList) ++
    (writeCode .numeric none [] (parts.blocks.flatMap codeLines)).1).filter _ =
      ((preamble { settings with lineMarkers := .none } shader parts.blocks
        parts.interface).map fun line => StageLine.generated line.toList) ++
      (writeCode .none none [] (parts.blocks.flatMap codeLines)).1
  rw [List.filter_append, filter_isMarker_writeCode, writeCode_none]
  congr 1
  refine List.filter_eq_self.mpr fun line hline => ?_
  obtain ⟨text, -, rfl⟩ := List.mem_map.mp hline
  rfl

end Code

/-- Whether linked stages have the code of their blocks, all of it and in order, however their lines
are marked. -/
structure KeepsCode (settings : Settings) (shader : Shader) : Prop where
  /-- The lines that come from blocks are those of the shared block, if there is one, and of the
  blocks that the stage refers to. The blocks are listed in that order. -/
  code : ∀ style stages, (link { settings with lineMarkers := style } shader).outcome = .ok stages →
    ∀ entry ∈ stages, ∃ binding referenced, (entry.1, binding) ∈ boundStages shader ∧
      List.Forall₂ (fun reference block => resolveBlock shader reference = .ok block ∧
        block.name = reference.name) binding.blocks referenced ∧
      entry.2.locatedLines =
        ((shader.shared?.toList ++ referenced).flatMap (·.expanded.lines)).map shownLine ∧
      entry.2.blocks = shader.shared?.toList.map (fun _ => CodeBlock.sharedName) ++
        binding.blocks.map BlockReference.name
  /-- Whether stages are linked, and with which code, does not depend on the markers. -/
  styles : ∀ style other,
    (link { settings with lineMarkers := style } shader).outcome.map (List.map fun entry =>
        (entry.1, entry.2.locatedLines, entry.2.blocks)) =
      (link { settings with lineMarkers := other } shader).outcome.map (List.map fun entry =>
        (entry.1, entry.2.locatedLines, entry.2.blocks))
  /-- The sources without markers are those with numeric markers, less the markers. -/
  unmarked :
    (link { settings with lineMarkers := .numeric } shader).outcome.map (List.map fun entry =>
        (entry.1, entry.2.unmarkedSource)) =
      (link { settings with lineMarkers := .none } shader).outcome.map (List.map fun entry =>
        (entry.1, entry.2.source))

end Linking

namespace Compiler

variable {σ : Type} {compiler : Compiler σ} {root : String} {state : σ} {parsed : ParsedShader}

open Linking

/-- However the stages of a shader that has been read are linked, they have all code of their
blocks in order, if neither the path of the shader nor the settings have line feeds. -/
theorem keepsCode_of_parse (h : (compiler.parse root).outcomeFrom state = .ok parsed)
    (hroot : '\n' ∉ root.toList) {settings : Settings}
    (hversion : '\n' ∉ settings.defaultVersion.toList)
    (hdefines : ∀ entry ∈ settings.defines.entries,
      '\n' ∉ entry.1.toList ∧ '\n' ∉ entry.2.toList) :
    KeepsCode settings parsed.shader := by
  have hplaced := isPlaced_of_parse h
  have hplain := SourcePath.not_mem_rooted hroot
  have hsource : ∀ style, ∀ {binding : BoundStage} {parts : StageParts},
      parts.AreFor parsed.shader (.rooted root) binding →
        Text.lines (parts.assemble { settings with lineMarkers := style }
            parsed.shader).source.toList =
          (parts.assemble { settings with lineMarkers := style } parsed.shader).lines.map
            fun line => Text.terminated line.text :=
    fun style _ _ hfor => hfor.lines_source hplaced hversion hdefines fun _ => hplain
  have hcode : ∀ style, (link { settings with lineMarkers := style } parsed.shader).outcome.map
      (List.map fun entry => (entry.1, entry.2.locatedLines, entry.2.blocks)) =
        (linkedParts parsed.shader).map (List.map fun entry =>
          (entry.1, (entry.2.blocks.flatMap (·.expanded.lines)).map shownLine,
            entry.2.blocks.map CodeBlock.name)) := by
    intro style
    refine map_outcome_link hplaced fun key binding parts _ hfor => ?_
    dsimp only
    rw [hfor.locatedLines_eq (hsource style hfor)]
    rfl
  refine ⟨fun style stages hok entry hentry => ?_, fun style other => ?_, ?_⟩
  · obtain ⟨binding, parts, hbound, hfor, hstage⟩ := exists_parts_of_link hplaced hok entry hentry
    obtain ⟨referenced, hblocks, hreferenced⟩ := hfor.blocks
    refine ⟨binding, referenced, hbound, hreferenced, ?_, ?_⟩
    · rw [hstage, hfor.locatedLines_eq (hsource style hfor), hblocks]
    · have hnames : referenced.map CodeBlock.name = binding.blocks.map BlockReference.name :=
        map_eq_of_forall₂ (hreferenced.imp fun _ _ hblock => hblock.2)
      have hshared : parsed.shader.shared?.toList.map CodeBlock.name =
          parsed.shader.shared?.toList.map fun _ => CodeBlock.sharedName :=
        List.map_congr_left fun block hblock =>
          (hplaced.shared block (Option.mem_toList.mp hblock)).1
      rw [hstage, ← hnames, ← hshared, ← List.map_append, ← hblocks]
      rfl
  · rw [hcode style, hcode other]
  · have hnone : (link { settings with lineMarkers := .none } parsed.shader).outcome.map
        (List.map fun entry => (entry.1, entry.2.source)) =
          (linkedParts parsed.shader).map (List.map fun entry =>
            (entry.1, (entry.2.assemble { settings with lineMarkers := .none }
              parsed.shader).source)) := map_outcome_link hplaced fun _ _ _ _ _ => rfl
    rw [hnone]
    refine map_outcome_link hplaced fun key binding parts _ hfor => ?_
    dsimp only
    rw [LinkedStage.unmarkedSource_eq (hsource .numeric hfor), filter_assemble_numeric]
    rfl

/-- A stage that refers twice to a block whose included file changes between two reads. -/
theorem keepsCode_of_parse_changing_header :
    let text := r"Shader { GLSL {#version 420" ++ "\n" ++
      r"} GLSL A {" ++ "\n#include \"b.glsl\"\n#include \"b.glsl\"\n" ++
      r"} Technique T { Pass { Vertex = (A, A) Fragment = A } } }"
    let sources := (MemorySources.ofFiles [(⟨"/a.shader"⟩, text),
      (⟨"/b.glsl"⟩, "int b;")]).schedule ⟨⟨"/b.glsl"⟩, ⟨"/b.glsl"⟩, "int c;"⟩
    ∃ parsed, (parse ⟨MemorySources.provider, .standard⟩ "a.shader").outcomeFrom sources =
        .ok parsed ∧
      (link .standard parsed.shader).outcome.toOption.any (fun stages =>
        stages.map (fun entry => (entry.2.locatedLines.map String.ofList, entry.2.blocks)) =
          [(["\n", "\n", "int b;\n", "int c;\n", "\n", "int b;\n", "int c;\n"],
              ["<shared>", "A", "A"]),
            (["\n", "\n", "int b;\n", "int c;\n"], ["<shared>", "A"])]) = true ∧
      KeepsCode .standard parsed.shader := by
  intro text sources
  have hrun : ((parse ⟨MemorySources.provider, .standard⟩ "a.shader").outcomeFrom
      sources).toOption.any (fun parsed =>
        (link .standard parsed.shader).outcome.toOption.any fun stages =>
          stages.map (fun entry => (entry.2.locatedLines.map String.ofList, entry.2.blocks)) =
            [(["\n", "\n", "int b;\n", "int c;\n", "\n", "int b;\n", "int c;\n"],
                ["<shared>", "A", "A"]),
              (["\n", "\n", "int b;\n", "int c;\n"], ["<shared>", "A"])]) = true := by
    decide +kernel
  obtain ⟨parsed, hparsed, hlines⟩ := exists_of_toOption_any hrun
  exact ⟨parsed, hparsed, hlines,
    keepsCode_of_parse hparsed (by decide) (by decide) (by decide)⟩

end Compiler

end ShaderAssembly
