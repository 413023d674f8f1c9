import ShaderAssembly.Proofs.BlockOrigins
import ShaderAssembly.Proofs.CompileRules
import ShaderAssembly.Proofs.DescriptionParts
import ShaderAssembly.Proofs.EffectParts

/-!
# Shaders whose blocks are traced

Every line of every block of a shader that has been read comes from a dependency of the shader.
The graph of include lines only grows while blocks are expanded one after the other, so the files
that a block leads to are dependencies at the end, too.
-/

namespace ShaderAssembly

/-- Whether the blocks of a shader that has been read have the names they go by and lines from its
dependencies, and the names in its preambles stand on one line. -/
structure ParsedShader.IsTraced (contents : Contents) (parsed : ParsedShader) : Prop where
  /-- The shared block. -/
  shared : ∀ block ∈ parsed.shader.shared?, block.name = CodeBlock.sharedName ∧
    block.IsTraced contents parsed.dependencies.dependencies
  /-- The other blocks. -/
  blocks : ∀ entry ∈ parsed.shader.blocks.entries, entry.2.name = entry.1 ∧
    entry.2.IsTraced contents parsed.dependencies.dependencies
  /-- The names. -/
  named : parsed.shader.Named fun word => '\n' ∉ word.toList

/-- Names that words satisfy are names that their tokens satisfy. -/
theorem Shader.Named.mono {P Q : String → Prop} {shader : Shader} (h : shader.Named P)
    (himp : ∀ word, P word → Q word) : shader.Named Q := by
  have hargument : ∀ argument : StreamArgument, argument.Named P → argument.Named Q :=
    fun argument hargument =>
      ⟨himp _ hargument.1, fun name hname => himp _ (hargument.2 name hname)⟩
  refine ⟨fun technique htechnique pass hpass binding hbinding interface hinterface => ?_,
    fun uniform huniform => ?_, fun stream hstream field hfield => ?_⟩
  · have hnamed := h.techniques technique htechnique pass hpass binding hbinding interface
      hinterface
    exact ⟨hargument _ hnamed.1, hargument _ hnamed.2⟩
  · have hnamed := h.uniforms uniform huniform
    exact ⟨himp _ hnamed.1, himp _ hnamed.2⟩
  · have hnamed := h.streams stream hstream field hfield
    exact ⟨himp _ hnamed.1, himp _ hnamed.2⟩

/-- The names of a text have only characters of names. -/
theorem Shader.Named.continuesName {path : SourcePath} {text : List Char} {shader : Shader}
    (h : shader.Named (IsWord (Token.IsFrom path text))) :
    shader.Named fun word => ∀ c ∈ word.toList, Piece.continuesName c = true := by
  refine h.mono fun word hword => ?_
  obtain ⟨token, htoken, hkind, rfl⟩ := hword
  exact htoken.name hkind

/-- Names do not have characters that no name has, such as line feeds. -/
theorem Shader.Named.not_mem {shader : Shader}
    (h : shader.Named fun word => ∀ c ∈ word.toList, Piece.continuesName c = true) {c : Char}
    (hc : Piece.continuesName c = false) : shader.Named fun word => c ∉ word.toList :=
  h.mono fun word hword hmem => by
    have hcontinues := hword c hmem
    rw [hc] at hcontinues
    cases hcontinues

/-! ### Include lines -/

/-- Whether all include lines of a graph lead from rooted files to rooted files. -/
def IncludeGraph.LinksRooted (graph : IncludeGraph) : Prop :=
  ∀ edge ∈ graph.edges, edge.includer.IsRooted ∧ edge.included.IsRooted

/-- Whether a graph has the root and the include lines of another one, and only such lines more as
lead from rooted files to rooted files. -/
structure IncludeGraph.Grows (graph after : IncludeGraph) : Prop where
  /-- The root stays. -/
  root : after.root = graph.root
  /-- The include lines stay. -/
  edges : graph.edges ⊆ after.edges
  /-- New include lines lead from rooted files to rooted files. -/
  rooted : graph.LinksRooted → after.LinksRooted

namespace IncludeGraph.Grows

theorem refl (graph : IncludeGraph) : graph.Grows graph := ⟨rfl, fun _ hmem => hmem, id⟩

theorem trans {first second third : IncludeGraph} (h : first.Grows second)
    (hnext : second.Grows third) : first.Grows third :=
  ⟨hnext.root.trans h.root, fun _ hmem => hnext.edges (h.edges hmem),
    fun hrooted => hnext.rooted (h.rooted hrooted)⟩

end IncludeGraph.Grows

namespace Compiler

section Blocks

variable {contents : Contents} {path : SourcePath} {graph after : IncludeGraph}

/-- Recording an expansion adds its include lines. -/
theorem grows_recordExpansion {expansion : Include.Expansion}
    (h : ∀ edge ∈ expansion.edges, edge.includer.IsRooted ∧ edge.included.IsRooted) :
    graph.Grows (recordExpansion graph expansion) := by
  have hedges : (recordExpansion graph expansion).edges = graph.edges ++ expansion.edges := rfl
  refine ⟨rfl, ?_, fun hgraph edge hedge => ?_⟩
  · rw [hedges]
    exact List.subset_append_left _ _
  · rw [hedges] at hedge
    rcases List.mem_append.mp hedge with hold | hnew
    · exact hgraph edge hold
    · exact h edge hnew

theorem BlockExpands.grows {block expanded : CodeBlock}
    (h : BlockExpands contents path graph block expanded after) (hpath : path.IsRooted) :
    graph.Grows after := by
  cases h with
  | intro h => exact grows_recordExpansion (h.unfolds.isRooted_of_mem_edges hpath)

theorem SharedExpands.grows {shared? expanded? : Option CodeBlock}
    (h : SharedExpands contents path graph shared? expanded? after) (hpath : path.IsRooted) :
    graph.Grows after := by
  cases h with
  | none => exact .refl graph
  | some h => exact h.grows hpath

theorem EntriesExpand.grows {entries expanded : List (String × CodeBlock)}
    (h : EntriesExpand contents path graph entries expanded after) (hpath : path.IsRooted) :
    graph.Grows after := by
  induction h with
  | nil => exact .refl _
  | cons hblock _ ih => exact (hblock.grows hpath).trans ih

/-- A block of a description is traced once it is expanded. -/
theorem BlockExpands.isTraced {text name : String} {block expanded : CodeBlock}
    {files : List SourcePath} (h : BlockExpands contents path graph block expanded after)
    (hblock : IsBlock (Token.IsFrom path text.toList) name block)
    (hread : contents path = .ok text) (hpath : path.IsRooted) (hplain : '\n' ∉ path.text.toList)
    (hself : path ∈ files)
    (hfiles : ∀ edge ∈ after.edges, edge.includer ∈ files → edge.included ∈ files) :
    expanded.name = name ∧ expanded.IsTraced contents files := by
  cases h with
  | intro h =>
    obtain ⟨token, htoken, hkind, rfl⟩ := hblock
    obtain ⟨place, hstands, hposition⟩ := htoken.body hkind
    refine ⟨rfl, isTraced_withExpansion hread hpath hplain hstands hposition h hself ?_⟩
    exact fun edge hedge => hfiles edge (List.mem_append_right _ hedge)

/-- All named blocks of a description are traced once they are expanded. -/
theorem EntriesExpand.isTraced {text : String} {entries expanded : List (String × CodeBlock)}
    {files : List SourcePath} (h : EntriesExpand contents path graph entries expanded after)
    (hentries : ∀ entry ∈ entries, IsBlock (Token.IsFrom path text.toList) entry.1 entry.2)
    (hread : contents path = .ok text) (hpath : path.IsRooted) (hplain : '\n' ∉ path.text.toList)
    (hself : path ∈ files)
    (hfiles : ∀ edge ∈ after.edges, edge.includer ∈ files → edge.included ∈ files) :
    ∀ entry ∈ expanded, entry.2.name = entry.1 ∧ entry.2.IsTraced contents files := by
  induction h with
  | nil => exact nofun
  | @cons graph middle last name block expanded rest others hblock hrest ih =>
    intro entry hentry
    rcases List.mem_cons.mp hentry with rfl | hentry
    · have hedges := (hrest.grows hpath).edges
      exact hblock.isTraced (hentries (name, block) (List.mem_cons_self ..)) hread hpath hplain
        hself fun edge hedge => hfiles edge (hedges hedge)
    · exact ih (fun other hother => hentries other (List.mem_cons_of_mem _ hother)) hfiles entry
        hentry

end Blocks

section Files

variable {contents : Contents} {path : SourcePath} {parsed : ParsedShader}

/-- The dependencies of a graph that starts with a file have the file and everything that one of
them includes. -/
theorem dependencies_of_grows {start last : IncludeGraph} (h : start.Grows last)
    (hroot : start.root = path) (hstart : start.edges = []) (hpath : path.IsRooted) :
    path ∈ last.dependencies ∧ ∀ edge ∈ last.edges, edge.includer ∈ last.dependencies →
      edge.included ∈ last.dependencies := by
  have hlast : last.root = path := h.root.trans hroot
  have hrooted : last.LinksRooted := by
    refine h.rooted fun edge hedge => ?_
    rw [hstart] at hedge
    cases hedge
  have hspec := IncludeGraph.dependencies_spec (hlast ▸ hpath) hrooted
  rw [hlast] at hspec
  exact hspec

/-- A description that is read is traced. -/
theorem DescriptionParses.isTraced (h : DescriptionParses contents path parsed)
    (hpath : path.IsRooted) (hplain : '\n' ∉ path.text.toList) : parsed.IsTraced contents := by
  cases h with
  | @intro text shader shared? blocks middle graph hread hparse hshared hblocks =>
    have hmade := Description.madeOf_of_parse hparse
    rw [hmade.path_eq] at hshared hblocks
    have hgrows := (hshared.grows hpath).trans (hblocks.grows hpath)
    obtain ⟨hself, hclosed⟩ := dependencies_of_grows hgrows rfl rfl hpath
    refine ⟨fun block hblock => ?_, ?_, ?_⟩
    · have hmem : shared? = some block := hblock
      subst hmem
      generalize hbefore : shader.shared? = before at hshared
      cases hshared with
      | some hexpands =>
        have hedges := (hblocks.grows hpath).edges
        exact hexpands.isTraced (hmade.shared _ hbefore) hread hpath hplain hself
          fun edge hedge => hclosed edge (hedges hedge)
    · exact hblocks.isTraced hmade.blocks hread hpath hplain hself hclosed
    · have hnamed := hmade.named.continuesName.not_mem (c := '\n') (by decide)
      exact ⟨hnamed.techniques, hnamed.uniforms, hnamed.streams⟩

/-- An effect file that is read is traced. -/
theorem EffectParses.isTraced (h : EffectParses contents path parsed)
    (hpath : path.IsRooted) (hplain : '\n' ∉ path.text.toList) : parsed.IsTraced contents := by
  cases h with
  | @intro text inner shader hread hexpands hparse =>
    obtain ⟨read, hmade, rfl⟩ := Effect.exists_madeOf_of_parse hparse
    have hgrows : (IncludeGraph.ofRoot path).Grows (recordExpansion (.ofRoot path)
        { inner.expansion with contents := ⟨path, text⟩ :: inner.contents }) :=
      grows_recordExpansion (hexpands.unfolds.isRooted_of_mem_edges hpath)
    obtain ⟨hself, hclosed⟩ := dependencies_of_grows hgrows rfl rfl hpath
    have hblock : ∀ name block, IsBlock (Token.IsFrom path inner.source.text.toList) name block →
        (Effect.locateBlock inner.source.map block).name = name ∧
          (Effect.locateBlock inner.source.map block).IsTraced contents
            (recordExpansion (.ofRoot path) { inner.expansion with
              contents := ⟨path, text⟩ :: inner.contents }).dependencies := by
      rintro name block ⟨token, htoken, hkind, rfl⟩
      obtain ⟨place, hstands, hposition⟩ := htoken.body hkind
      exact ⟨rfl, isTraced_locateBlock hread hpath hplain hexpands hstands hposition hself hclosed⟩
    refine ⟨fun block hmem => ?_, fun entry hmem => ?_, ?_⟩
    · obtain ⟨before, hbefore, rfl⟩ := Option.map_eq_some_iff.mp hmem
      exact hblock _ before (hmade.shared before hbefore)
    · obtain ⟨before, hbefore, rfl⟩ := List.mem_map.mp hmem
      exact hblock _ before.2 (hmade.blocks before hbefore)
    · exact (hmade.named.locateShader _).continuesName.not_mem (by decide)

/-- A file that is read in its dialect is traced. -/
theorem Parses.isTraced (h : Parses contents path parsed) (hpath : path.IsRooted)
    (hplain : '\n' ∉ path.text.toList) : parsed.IsTraced contents := by
  unfold Parses at h
  cases hdialect : Dialect.ofPath path with
  | description =>
    rw [hdialect] at h
    exact h.isTraced hpath hplain
  | effect =>
    rw [hdialect] at h
    exact h.isTraced hpath hplain

end Files

end Compiler

end ShaderAssembly
