import ShaderAssembly.Proofs.LinkedLines
import ShaderAssembly.Proofs.TracedShaders
import ShaderAssembly.Sources.Memory

/-!
# Tracing compiled stages

A compiler reports errors by the lines of the source of a stage. The source knows for each of its
lines whether it comes from a block, and if so, from which line of which file. Here that is
compared with the files: what a line of the source shows is part of the line that it is traced
to, and all of it unless a brace of the block stands there.
-/

namespace ShaderAssembly

/-- Whether a line of a source shows a line of a block: as it is, up to the line feed at its end,
or as an empty line if it declares a version. -/
def Shows (shown line : List Char) : Prop :=
  if Version.isDeclaration (Text.dropLineEnd line) then shown = ['\n']
  else Text.unended shown = Text.unended line

/-- Whether the source of a stage is a preamble and the lines of blocks in order, with markers
between them, and each line of a block is traced to the line of one of some files that it stands
in. -/
structure LinkedStage.IsTraceable (contents : Contents) (files : List SourcePath)
    (preamble : List String) (blocks : List CodeBlock) (stage : LinkedStage) : Prop where
  /-- The lines of the stage are those of its source. -/
  source : Text.lines stage.source.toList = stage.lines.map fun line => Text.terminated line.text
  /-- All lines behind the preamble are lines of blocks or markers. -/
  layout : ∃ code,
    stage.lines = (preamble.map fun line => .generated line.toList) ++ code ∧
      ∀ line ∈ code, line.isCode = true ∨ ∃ text, line = .marker ("#line ".toList ++ text)
  /-- All lines of the blocks are there. -/
  complete : stage.lines.countP StageLine.isCode = (blockLines blocks).length
  /-- Other lines come from no file, and neither do numbers that no line has. -/
  unlocated : ∀ number, (number = 0 ∨ stage.lines.length < number ∨
    ∃ line, stage.lines[number - 1]? = some line ∧ line.isCode = false) →
      stage.locate number = none
  /-- The lines of blocks are located, and show what stands there. -/
  located : ∀ index line, stage.lines[index]? = some line → line.isCode = true →
    ∃ block place text shown origin,
      (blockLines blocks)[(stage.lines.take index).countP StageLine.isCode]? =
          some (block, place) ∧
        block.expanded.lines[place]? = some text ∧
        (Text.lines stage.source.toList)[index]? = some shown ∧ Shows shown text ∧
        stage.locate (index + 1) = some ⟨origin.file, origin.line, block.name⟩ ∧
        origin.file ∈ files ∧ StandsIn contents block place text origin

/-- What stands in a source for a line of a block shows the line. -/
theorem shows_keptText (line : List Char) :
    Shows (Text.terminated (Linking.keptText line)) line := by
  unfold Shows Linking.keptText
  split
  · rfl
  · exact Text.unended_terminated line

/-- A number that no line of a block has is located nowhere. -/
theorem LinkedStage.locate_eq_none {stage : LinkedStage} {number : Nat}
    (h : number = 0 ∨ stage.lines.length < number ∨
      ∃ line, stage.lines[number - 1]? = some line ∧ line.isCode = false) :
    stage.locate number = none := by
  cases number with
  | zero => rfl
  | succ index =>
    rw [Nat.add_sub_cancel] at h
    show stage.lines[index]?.bind StageLine.origin? = none
    rcases h with hzero | hlength | ⟨line, hline, hcode⟩
    · cases hzero
    · rw [List.getElem?_eq_none (by omega), Option.bind_none]
    · rw [hline, Option.bind_some]
      cases line with
      | generated text => rfl
      | marker text => rfl
      | code text block origin? => cases hcode

namespace Linking

variable {contents : Contents} {settings : Settings}

/-- A stage that is put together from traced blocks is traceable. -/
theorem isTraceable_assemble {files : List SourcePath} {shader : Shader}
    {blocks : List CodeBlock} {interface : List String}
    (hpreamble : ∀ line ∈ preamble settings shader blocks interface, '\n' ∉ line.toList)
    (hblocks : ∀ block ∈ blocks, block.IsTraced contents files) :
    (assemble settings shader blocks interface).IsTraceable contents files
      (preamble settings shader blocks interface) blocks := by
  have hsource := lines_source_assemble hpreamble fun block hblock index line hline origin
      hlocate _ => by
    obtain ⟨other, hother, -, hplain, -⟩ := (hblocks block hblock).origin index line hline
    rw [hother] at hlocate
    cases hlocate
    exact hplain
  refine ⟨hsource, exists_lines_eq_of_assemble settings shader blocks interface,
    countP_assemble settings shader blocks interface, fun _ => LinkedStage.locate_eq_none,
    fun index line hline hcode => ?_⟩
  obtain ⟨block, place, text, hentry, htext, rfl⟩ := getElem?_assemble hline hcode
  have hmem : block ∈ blocks := by
    obtain ⟨other, hother, hplace⟩ := List.mem_flatMap.mp (List.mem_of_getElem? hentry)
    obtain ⟨_, -, heq⟩ := List.mem_map.mp hplace
    cases heq
    exact hother
  obtain ⟨origin, hlocate, hfile, -, hstands⟩ := (hblocks block hmem).origin place text htext
  refine ⟨block, place, text, Text.terminated (keptText text), origin, hentry, htext, ?_,
    shows_keptText text, ?_, hfile, hstands⟩
  · rw [hsource, List.getElem?_map, hline]
    rfl
  · show (assemble settings shader blocks interface).lines[index]?.bind StageLine.origin? = _
    rw [hline, hlocate]
    rfl

/-- The streams of a stage that a pass binds have names on one line. -/
theorem named_of_mem_boundStages {shader : Shader} {P : String → Prop} (h : shader.Named P)
    {key : StageKey} {binding : BoundStage} (hbound : (key, binding) ∈ boundStages shader) :
    binding.Named P := by
  obtain ⟨technique, htechnique, pass, hpass, hfound⟩ := exists_of_mem_boundStages hbound
  exact h.techniques technique htechnique pass hpass binding (OrderedMap.mem_of_get? hfound).2

end Linking

namespace Compiler

variable {σ : Type} {compiler : Compiler σ} {state : σ} {contents : Contents}

/-- If a shader is compiled over files that do not change, and neither its path nor the settings
have line feeds, then every stage is traceable to the dependencies of the shader. Its blocks are
the shared one, if there is one, and those that the stage refers to. -/
theorem isTraceable_of_compile (h : compiler.provider.Serves state contents) {root : String}
    (hroot : '\n' ∉ root.toList) (hversion : '\n' ∉ compiler.settings.defaultVersion.toList)
    (hdefines : ∀ entry ∈ compiler.settings.defines.entries,
      '\n' ∉ entry.1.toList ∧ '\n' ∉ entry.2.toList) {compilation : Compilation}
    (hok : (compiler.compile root).outcomeFrom state = .ok compilation) :
    ∀ entry ∈ compilation.stages, ∃ binding referenced interface,
      (entry.1, binding) ∈ Linking.boundStages compilation.shader ∧
        List.Forall₂ (fun reference block =>
            Linking.resolveBlock compilation.shader reference = .ok block ∧
              block.name = reference.name)
          binding.blocks referenced ∧
        (∀ block ∈ compilation.shader.shared?, block.name = CodeBlock.sharedName) ∧
        entry.2.IsTraceable contents compilation.dependencies.dependencies
          (Linking.preamble compiler.settings compilation.shader
            (compilation.shader.shared?.toList ++ referenced) interface)
          (compilation.shader.shared?.toList ++ referenced) := by
  have hcompiles := compiles_of_compile h hok
  have hplain := SourcePath.not_mem_rooted hroot
  have htraced := hcompiles.parses.isTraced (SourcePath.isRooted_rooted root) hplain
  intro entry hentry
  obtain ⟨binding, hbound, hlink⟩ := Linking.exists_linkStage_of_link hcompiles.links entry hentry
  obtain ⟨referenced, interface, hreferenced, hinterface, hstage⟩ :=
    Linking.exists_assemble_of_linkStage hlink
  have hresolved : ∀ {reference : BlockReference} {block : CodeBlock},
      Linking.resolveBlock compilation.shader reference = .ok block →
        block.name = reference.name ∧
          block.IsTraced contents compilation.dependencies.dependencies := by
    intro reference block hblock
    unfold Linking.resolveBlock at hblock
    split at hblock
    · rename_i found hfound
      cases hblock
      exact htraced.blocks _ (OrderedMap.mem_of_get? hfound).1
    · cases hblock
  have hsingle : ∀ line ∈ interface, '\n' ∉ line.toList := by
    rcases hinterface with rfl | ⟨streams, hstreams, hlines⟩
    · exact nofun
    · have hnamed := Linking.named_of_mem_boundStages htraced.named hbound streams hstreams
      exact Linking.not_mem_interfaceLines (.inl rfl) hlines htraced.named hnamed.1 hnamed.2
  refine ⟨binding, referenced, interface, hbound, ?_, fun block hblock =>
    (htraced.shared block hblock).1, ?_⟩
  · exact hreferenced.imp fun _ _ hblock => ⟨hblock, (hresolved hblock).1⟩
  · rw [hstage]
    refine Linking.isTraceable_assemble
      (Linking.not_mem_preamble hversion hdefines htraced.named hsingle) fun block hblock => ?_
    rcases List.mem_append.mp hblock with hshared | hblock
    · exact (htraced.shared block (Option.mem_toList.mp hshared)).2
    · obtain ⟨reference, -, hreference⟩ := exists_of_mem_right hreferenced hblock
      exact (hresolved hreference).2

/-- A stage with a block that it refers to twice, one line of which is a line of another file. -/
theorem isTraceable_of_compile_twice :
    let text := r"Shader { GLSL {#version 420" ++ "\n" ++
      r"} GLSL A {" ++ "\n#include \"b.glsl\"\n" ++
      r"} Technique T { Pass { Vertex = (A, A) Fragment = A } } }"
    let files := MemorySources.ofFiles [(⟨"/a.shader"⟩, text), (⟨"/b.glsl"⟩, "int b;")]
    ∃ compilation,
      (compile ⟨MemorySources.provider, .standard⟩ "a.shader").outcomeFrom files =
          .ok compilation ∧
        (compilation.stages.map fun entry => entry.2.locate 10) =
          [some ⟨⟨"/b.glsl"⟩, 1, "A"⟩, none] ∧
        ∀ entry ∈ compilation.stages, ∃ preamble blocks,
          entry.2.IsTraceable files.contents compilation.dependencies.dependencies preamble
            blocks := by
  intro text files
  have hsome : ∃ compilation,
      (compile ⟨MemorySources.provider, .standard⟩ "a.shader").outcomeFrom files =
        .ok compilation := by
    have hok : ((compile ⟨MemorySources.provider, .standard⟩ "a.shader").outcomeFrom
        files).toOption.isSome = true := by decide +kernel
    cases houtcome : (compile ⟨MemorySources.provider, .standard⟩ "a.shader").outcomeFrom files with
    | error error =>
      rw [houtcome] at hok
      cases hok
    | ok compilation => exact ⟨compilation, rfl⟩
  have hlocate : ∀ compilation ∈ ((compile ⟨MemorySources.provider, .standard⟩
      "a.shader").outcomeFrom files).toOption,
        (compilation.stages.map fun entry => entry.2.locate 10) =
          [some ⟨⟨"/b.glsl"⟩, 1, "A"⟩, none] := by decide +kernel
  obtain ⟨compilation, hok⟩ := hsome
  refine ⟨compilation, hok, hlocate compilation (by rw [hok]; rfl), fun entry hentry => ?_⟩
  obtain ⟨binding, referenced, interface, -, -, -, htraceable⟩ :=
    isTraceable_of_compile (MemorySources.serves rfl) (by decide) (by decide)
      (by decide) hok entry hentry
  exact ⟨_, _, htraceable⟩

end Compiler

end ShaderAssembly
