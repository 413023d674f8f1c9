import ShaderAssembly.Proofs.LinkedLines
import ShaderAssembly.Proofs.WrittenShaders

/-!
# Stages of an outline

The stages of a shader are decided by its outline if the shader has nothing else that gets into
them: no shared code, no uniforms, and no streams with fields. Such a shader always links if its
stages only refer to its own blocks. The keys of the stages and the names of their blocks are those
of the outline, and without markers the sources are, too: where the lines come from and what the
positions are does not show.
-/

namespace ShaderAssembly

/-! ### What an outline says of the stages -/

namespace Outline

/-- The stages that are bound, in the order of techniques, passes and the pipeline, with the names
of their blocks. -/
def boundStages (outline : Outline) : List (StageKey × List String) :=
  outline.techniques.flatMap fun technique =>
    technique.passes.zipIdx.flatMap fun (pass, index) =>
      Stage.all.filterMap fun slot =>
        ((⟨pass⟩ : OrderedMap Stage (List String)).get? slot).map fun names =>
          (⟨technique.name, index, slot⟩, names)

/-- The code of the block with a name. -/
def code (outline : Outline) (name : String) : String :=
  ((⟨outline.blocks⟩ : OrderedMap String String).get? name).getD ""

/-- Whether every stage only refers to blocks of the outline, and no code belongs to every stage. -/
structure IsClosed (outline : Outline) : Prop where
  /-- No code belongs to every stage. -/
  shared : outline.shared? = none
  /-- There is a block for every reference. -/
  references : ∀ technique ∈ outline.techniques, ∀ pass ∈ technique.passes,
    ∀ binding ∈ pass, ∀ name ∈ binding.2, name ∈ outline.blocks.map Prod.fst

end Outline

namespace Linking

/-- The source that codes make without markers: the version that is declared first in them or else
that of the settings, the macros, and the lines of the codes. -/
def plainSource (settings : Settings) (codes : List String) : String :=
  let lines := codes.flatMap fun code => Text.lines code.toList
  let version := (lines.findSome? fun line =>
    (Version.declared? (Text.bareLine line)).map String.ofList).getD settings.defaultVersion
  let defines := settings.defines.entries.map fun entry => s!"#define {entry.1} {entry.2}"
  let generated := (Version.declaration version :: defines).map String.toList
  String.ofList ((generated ++ lines.map keptText).flatMap Text.terminated)

end Linking

/-- The stages of an outline without markers: their keys, sources and the names of their blocks. -/
def Outline.stages (outline : Outline) (settings : Settings) :
    List (StageKey × String × List String) :=
  outline.boundStages.map fun bound =>
    (bound.1, Linking.plainSource settings (bound.2.map outline.code), bound.2)

/-- The keys of compiled stages with their sources and the names of their blocks. -/
def LinkedStages.sources (stages : LinkedStages) : List (StageKey × String × List String) :=
  stages.map fun entry => (entry.1, entry.2.source, entry.2.blocks)

/-! ### Shaders that have an outline and nothing else -/

/-- Whether nothing in a shader gets into its stages but an outline. -/
structure Shader.Presents (shader : Shader) (outline : Outline) : Prop where
  /-- The shader has the outline. -/
  outline_eq : shader.outline = outline
  /-- Every block stands under its name. -/
  names : ∀ entry ∈ shader.blocks.entries, entry.2.name = entry.1
  /-- There are no uniforms. -/
  uniforms : shader.uniforms.values = []
  /-- No stage has lines for its streams. -/
  interfaces : ∀ technique ∈ shader.techniques.values, ∀ pass ∈ technique.passes,
    ∀ binding ∈ pass.stages.values, ∀ interface ∈ binding.interface?,
      Linking.interfaceLines shader interface = .ok []

/-- Whether the code of every named block is as it was written. -/
def Shader.KeepsCode (shader : Shader) : Prop :=
  ∀ entry ∈ shader.blocks.entries, entry.2.expanded.text = entry.2.body

/-- Blocks that are entered under their names stand under them. -/
theorem CodeBlock.name_eq_of_mem {named : List CodeBlock} {entry : String × CodeBlock}
    (h : entry ∈ named.map fun block => (block.name, block)) : entry.2.name = entry.1 := by
  obtain ⟨block, -, rfl⟩ := List.mem_map.mp h
  rfl

namespace Shader.Presents

variable {shader : Shader} {outline : Outline}

theorem shared (h : shader.Presents outline) (hclosed : outline.IsClosed) :
    shader.shared? = none := by
  have hnone : shader.shared?.map CodeBlock.body = none :=
    (congrArg Outline.shared? h.outline_eq).trans hclosed.shared
  exact Option.map_eq_none_iff.mp hnone

theorem blocks (h : shader.Presents outline) (hkept : shader.KeepsCode) :
    shader.blocks.mapValues (·.expanded.text) = ⟨outline.blocks⟩ := by
  rw [← h.outline_eq]
  exact congrArg OrderedMap.mk (List.map_congr_left fun entry hentry =>
    congrArg (entry.1, ·) (hkept entry hentry))

theorem techniques (h : shader.Presents outline) :
    shader.techniques.values.map Technique.outline = outline.techniques := by
  rw [← h.outline_eq]
  exact List.map_map

end Shader.Presents

namespace Linking

variable {shader : Shader} {outline : Outline} {settings : Settings}

/-- The stages that are bound are those of the outline. -/
theorem map_boundStages (shader : Shader) :
    (boundStages shader).map (fun bound =>
      (bound.1, bound.2.blocks.map BlockReference.name)) = shader.outline.boundStages := by
  -- A pass keeps its index and its stages their order, so only the values in the map differ.
  have hpass : ∀ pass : Pass, (⟨pass.outline⟩ : OrderedMap Stage (List String)) =
      pass.stages.mapValues fun binding => binding.blocks.map BlockReference.name := fun _ => rfl
  have htechniques : shader.outline.techniques =
      shader.techniques.values.map Technique.outline := by
    rw [OrderedMap.values, List.map_map]
    rfl
  simp only [Outline.boundStages, boundStages, htechniques, List.flatMap_map, List.map_flatMap,
    Technique.outline, List.zipIdx_map, Prod.map_fst, Prod.map_snd, id, hpass,
    OrderedMap.get?_mapValues, List.map_filterMap, Option.map_map, Function.comp_def]

/-- What is bound to a stage only refers to blocks of the outline. -/
theorem name_mem_of_mem_boundStages (h : shader.Presents outline) (hclosed : outline.IsClosed)
    {key : StageKey} {binding : BoundStage} (hbound : (key, binding) ∈ boundStages shader) :
    ∀ reference ∈ binding.blocks, reference.name ∈ outline.blocks.map Prod.fst := by
  obtain ⟨technique, htechnique, pass, hpass, hfound⟩ := exists_of_mem_boundStages hbound
  have htechniques : technique.outline ∈ outline.techniques :=
    h.techniques ▸ List.mem_map_of_mem htechnique
  have hpasses : pass.outline ∈ technique.outline.passes := List.mem_map_of_mem hpass
  have hbinding : (key.slot, binding.blocks.map BlockReference.name) ∈ pass.outline :=
    List.mem_map.mpr ⟨_, (OrderedMap.mem_of_get? hfound).1, rfl⟩
  exact fun reference hreference => hclosed.references _ htechniques _ hpasses _ hbinding _
    (List.mem_map_of_mem hreference)

/-- A name of the outline is that of a block with the code that the outline has under it. -/
theorem exists_resolveBlock_of_mem (h : shader.Presents outline) (hkept : shader.KeepsCode)
    {reference : BlockReference} (hmem : reference.name ∈ outline.blocks.map Prod.fst) :
    ∃ block, resolveBlock shader reference = .ok block ∧ block.name = reference.name ∧
      block.expanded.text = outline.code reference.name := by
  have hkey : reference.name ∈ shader.blocks.keys := by
    rw [← h.outline_eq] at hmem
    simpa [Shader.outline, OrderedMap.keys] using hmem
  obtain ⟨block, hblock⟩ := OrderedMap.exists_get?_of_mem_keys hkey
  have hname : block.name = reference.name := h.names _ (OrderedMap.mem_of_get? hblock).1
  have hcode : outline.code reference.name = block.expanded.text := by
    rw [Outline.code, ← h.blocks hkept, OrderedMap.get?_mapValues, hblock]
    rfl
  exact ⟨block, by rw [resolveBlock, hblock], hname, hcode.symm⟩

/-- Without markers and uniforms, the code of the blocks decides the source of a stage. -/
theorem source_assemble (hmarkers : settings.lineMarkers = .none)
    (huniforms : shader.uniforms.values = []) (blocks : List CodeBlock) :
    (assemble settings shader blocks []).source =
      plainSource settings (blocks.map (·.expanded.text)) := by
  have hpreamble : preamble settings shader blocks [] =
      Version.declaration ((declaredVersion? blocks).getD settings.defaultVersion) ::
        settings.defines.entries.map fun entry => s!"#define {entry.1} {entry.2}" := by
    simp [preamble, hmarkers, huniforms]
  have hlines : ((blocks.map (·.expanded.text)).flatMap fun code => Text.lines code.toList) =
      blocks.flatMap (·.expanded.lines) := List.flatMap_map ..
  rw [LinkedStage.source_eq, texts_assemble hmarkers, hpreamble, plainSource, hlines]
  rfl

/-- What is bound to a stage links. The stage has the blocks it refers to, and without markers its
source is what their code makes. -/
theorem exists_linkStage_of_presents (h : shader.Presents outline) (hkept : shader.KeepsCode)
    (hclosed : outline.IsClosed) (settings : Settings) {key : StageKey} {binding : BoundStage}
    (hbound : (key, binding) ∈ boundStages shader) :
    ∃ stage, linkStage settings shader binding = .ok stage ∧
      stage.blocks = binding.blocks.map BlockReference.name ∧
        (settings.lineMarkers = .none → stage.source =
          plainSource settings ((binding.blocks.map BlockReference.name).map outline.code)) := by
  have hnames := name_mem_of_mem_boundStages h hclosed hbound
  obtain ⟨referenced, hreferenced, hblocks⟩ := Except.exists_mapM_eq_ok
    fun reference hreference => exists_resolveBlock_of_mem h hkept (hnames reference hreference)
  have hnames : referenced.map CodeBlock.name = binding.blocks.map BlockReference.name :=
    map_eq_of_forall₂ (hblocks.imp fun _ _ hblock => hblock.1)
  have hcodes : referenced.map (·.expanded.text) =
      (binding.blocks.map BlockReference.name).map outline.code := by
    rw [List.map_map]
    exact map_eq_of_forall₂ (hblocks.imp fun _ _ hblock => hblock.2)
  have hlink : linkStage settings shader binding =
      .ok (assemble settings shader referenced []) := by
    obtain ⟨technique, htechnique, pass, hpass, hfound⟩ := exists_of_mem_boundStages hbound
    have hinterfaces := h.interfaces technique htechnique pass hpass binding
      (OrderedMap.mem_of_get? hfound).2
    rw [linkStage, stageParts, hreferenced, h.shared hclosed]
    cases hinterface : binding.interface? with
    | none => rfl
    | some interface =>
      have hnone := hinterfaces interface hinterface
      simp only [hnone]
      rfl
  refine ⟨_, hlink, hnames, fun hmarkers => ?_⟩
  rw [source_assemble hmarkers h.uniforms, hcodes]

/-- A shader that has a closed outline and nothing else links. The stages are those that the
outline binds, and without markers the outline decides their sources. -/
theorem exists_link_of_presents (h : shader.Presents outline) (hkept : shader.KeepsCode)
    (hclosed : outline.IsClosed) (settings : Settings) :
    ∃ stages, (link settings shader).outcome = .ok stages ∧
      stages.map (fun entry => (entry.1, entry.2.blocks)) = outline.boundStages ∧
        (settings.lineMarkers = .none → stages.sources = outline.stages settings) := by
  have hbound : ∀ bound ∈ boundStages shader, ∃ entry,
      (linkBound settings shader bound).outcome = .ok entry ∧
        (entry.1, entry.2.blocks) = (bound.1, bound.2.blocks.map BlockReference.name) ∧
          (settings.lineMarkers = .none → entry.2.source = plainSource settings
            ((bound.2.blocks.map BlockReference.name).map outline.code)) := by
    intro bound hbound
    obtain ⟨stage, hstage, hblocks, hsource⟩ :=
      exists_linkStage_of_presents h hkept hclosed settings hbound
    have hentry : (linkBound settings shader bound).outcome = .ok (bound.1, stage) :=
      Traced.outcome_bind_eq_ok.mpr ⟨stage, hstage,
        Traced.outcome_bind_eq_ok.mpr ⟨(), rfl, rfl⟩⟩
    exact ⟨(bound.1, stage), hentry, by rw [hblocks], hsource⟩
  obtain ⟨stages, hstages, hall⟩ := Except.exists_mapM_eq_ok hbound
  have hlink : (link settings shader).outcome = .ok stages := by
    rw [link, Traced.outcome_mapM]
    exact hstages
  have hkeys : stages.map (fun entry => (entry.1, entry.2.blocks)) = outline.boundStages := by
    rw [← h.outline_eq, ← map_boundStages]
    exact map_eq_of_forall₂ (hall.imp fun _ _ hentry => hentry.1)
  refine ⟨stages, hlink, hkeys, fun hmarkers => ?_⟩
  rw [Outline.stages, ← hkeys, List.map_map]
  refine List.map_congr_left fun entry hentry => ?_
  obtain ⟨bound, -, hblocks, hsource⟩ := exists_of_mem_right hall hentry
  have hnames : entry.2.blocks = bound.2.blocks.map BlockReference.name :=
    congrArg Prod.snd hblocks
  rw [hsource hmarkers, ← hnames]
  rfl

end Linking

end ShaderAssembly
