import ShaderAssembly.Proofs.IncludeWalks
import ShaderAssembly.Proofs.RecordedFiles
import ShaderAssembly.Proofs.TracedShaders

/-!
# Include graphs that say what was read

The graph of a compile has two accounts of its files: the texts that were read, and the include
lines that lead to them. Over files that do not change both are accurate. Every recorded text is
the one that stands in its file, and the files with recorded texts are exactly those that can be
reached from the root. So a notice about changed files, which is judged by the include lines,
matters exactly if it names a file that was read.
-/

namespace ShaderAssembly

open Include (Edge Expands Fragment FileText)

namespace IncludeGraph

/-- Whether a graph says of some files what was read of them, starting at a path. -/
structure IsAccurate (contents : Contents) (path : SourcePath) (graph : IncludeGraph) : Prop where
  /-- The graph has the path as its root. -/
  root : graph.root = path
  /-- The root has been read. -/
  self : path ∈ graph.paths
  /-- Files whose texts are recorded have canonical paths. -/
  rooted : graph.IsRooted
  /-- Include lines join files with canonical paths. -/
  linksRooted : graph.LinksRooted
  /-- A recorded text is what stands in its file. -/
  texts : ∀ file ∈ graph.contents, contents file.path = .ok file.text
  /-- Whatever include lines pass on from the path reaches all files whose texts are recorded. -/
  reached : ∀ property : SourcePath → Prop, property path →
    (∀ edge ∈ graph.edges, property edge.includer → property edge.included) →
      ∀ file ∈ graph.paths, property file
  /-- Included files have been read. -/
  included : ∀ edge ∈ graph.edges, edge.included ∈ graph.paths

end IncludeGraph

section Expansions

variable {contents : Contents} {openFiles : List SourcePath} {file : SourcePath} {number : Nat}
  {lines : List (List Char)} {fragment : Fragment}

/-- Whatever include lines pass on from a file reaches all files that its expansion reads. -/
theorem Include.Expands.of_mem_contents
    (h : Expands contents openFiles file number lines fragment) {property : SourcePath → Prop}
    (hfile : property file)
    (hedges : ∀ edge ∈ fragment.edges, property edge.includer → property edge.included) :
    ∀ read ∈ fragment.contents, property read.path := by
  intro read hread
  have hpath : read.path ∈ fragment.contents.map FileText.path := List.mem_map_of_mem hread
  rw [h.unfolds.paths_eq] at hpath
  obtain ⟨edge, hedge, heq⟩ := List.mem_map.mp hpath
  exact heq ▸ h.unfolds.walk.passes_on hfile hedges edge hedge

/-- The files that include lines of an expansion name are files that it reads. -/
theorem Include.Expands.included_mem_paths
    (h : Expands contents openFiles file number lines fragment) :
    ∀ edge ∈ fragment.edges, edge.included ∈ fragment.contents.map FileText.path := by
  intro edge hedge
  rw [h.unfolds.paths_eq]
  exact List.mem_map_of_mem hedge

end Expansions

namespace Compiler

variable {contents : Contents} {path : SourcePath} {graph after : IncludeGraph}

/-- The graph of a file whose includes have not been expanded yet is accurate. -/
theorem isAccurate_addTexts_ofRoot (hpath : path.IsRooted) {text : String}
    (hread : contents path = .ok text) :
    ((IncludeGraph.ofRoot path).addTexts [⟨path, text⟩]).IsAccurate contents path := by
  have hspec := addTexts_ofRoot_spec hpath text
  refine ⟨rfl, hspec.2, hspec.1, nofun, ?_, fun property hself _ file hfile => ?_, nofun⟩
  · intro file hfile
    rcases IncludeGraph.mem_foldl_recordText hfile with hnone | hfile
    · cases hnone
    · obtain rfl := List.mem_singleton.mp hfile
      exact hread
  · obtain ⟨read, hread, rfl⟩ := List.mem_map.mp hfile
    rcases IncludeGraph.mem_foldl_recordText hread with hnone | hread
    · cases hnone
    · obtain rfl := List.mem_singleton.mp hread
      exact hself

/-- Recording the expansion of a text of the root keeps a graph accurate. -/
theorem isAccurate_recordExpansion (hgraph : graph.IsAccurate contents path)
    (hpath : path.IsRooted) {openFiles : List SourcePath} {number : Nat} {text : List Char}
    {fragment : Fragment}
    (h : Expands contents openFiles path number (Text.lines text) fragment) :
    (recordExpansion graph fragment.expansion).IsAccurate contents path := by
  have hspec := recordExpansion_spec hgraph.rooted fragment.expansion fun read hread =>
    (h.contents_of_mem read hread).2.1
  have hgrows : graph.Grows (recordExpansion graph fragment.expansion) :=
    grows_recordExpansion (h.unfolds.isRooted_of_mem_edges hpath)
  refine ⟨hgrows.root.trans hgraph.root, hspec.2.1 hgraph.self, hspec.1,
    hgrows.rooted hgraph.linksRooted, fun file hfile => ?_,
    fun property hself hedges file hfile => ?_, fun edge hedge => ?_⟩
  · rcases IncludeGraph.mem_foldl_recordText hfile with hold | hnew
    · exact hgraph.texts file hold
    · exact (h.contents_of_mem file hnew).2.2
  · obtain ⟨read, hread, rfl⟩ := List.mem_map.mp hfile
    rcases IncludeGraph.mem_foldl_recordText hread with hold | hnew
    · exact hgraph.reached property hself
        (fun edge hedge => hedges edge (List.mem_append_left _ hedge)) read.path
        (List.mem_map_of_mem hold)
    · exact h.of_mem_contents hself
        (fun edge hedge => hedges edge (List.mem_append_right _ hedge)) read hnew
  · rcases List.mem_append.mp hedge with hold | hnew
    · exact hspec.2.1 (hgraph.included edge hold)
    · exact hspec.2.2 (h.included_mem_paths edge hnew)

/-- Expanding a block keeps a graph accurate. -/
theorem BlockExpands.isAccurate {block expanded : CodeBlock}
    (h : BlockExpands contents path graph block expanded after)
    (hgraph : graph.IsAccurate contents path) (hpath : path.IsRooted) :
    after.IsAccurate contents path := by
  cases h with
  | intro h => exact isAccurate_recordExpansion hgraph hpath h

/-- Expanding the shared block keeps a graph accurate. -/
theorem SharedExpands.isAccurate {shared? expanded? : Option CodeBlock}
    (h : SharedExpands contents path graph shared? expanded? after)
    (hgraph : graph.IsAccurate contents path) (hpath : path.IsRooted) :
    after.IsAccurate contents path := by
  cases h with
  | none => exact hgraph
  | some h => exact h.isAccurate hgraph hpath

/-- Expanding named blocks keeps a graph accurate. -/
theorem EntriesExpand.isAccurate {entries expanded : List (String × CodeBlock)}
    (h : EntriesExpand contents path graph entries expanded after)
    (hgraph : graph.IsAccurate contents path) (hpath : path.IsRooted) :
    after.IsAccurate contents path := by
  induction h with
  | nil => exact hgraph
  | cons hblock _ ih => exact ih (hblock.isAccurate hgraph hpath)

/-- The graph of a shader that has been read is accurate. -/
theorem Parses.isAccurate {parsed : ParsedShader} (h : Parses contents path parsed)
    (hpath : path.IsRooted) : parsed.dependencies.IsAccurate contents path := by
  unfold Parses at h
  cases hdialect : Dialect.ofPath path with
  | description =>
    rw [hdialect] at h
    cases h with
    | @intro text shader shared? blocks middle graph hread hparse hshared hblocks =>
      rw [(Description.madeOf_of_parse hparse).path_eq] at hshared hblocks
      have hstart := isAccurate_addTexts_ofRoot hpath hread
      exact hblocks.isAccurate (hshared.isAccurate hstart hpath) hpath
  | effect =>
    rw [hdialect] at h
    cases h with
    | intro hread hexpands _ =>
      exact isAccurate_recordExpansion (isAccurate_addTexts_ofRoot hpath hread) hpath hexpands

namespace Compiles

variable {settings : Settings} {compilation : Compilation}

/-- The graph of a compilation is accurate. -/
theorem isAccurate (h : Compiles contents settings path compilation) (hpath : path.IsRooted) :
    compilation.dependencies.IsAccurate contents path := h.parses.isAccurate hpath

/-- The dependencies of a compilation are the files whose texts it was made from. -/
theorem mem_dependencies_iff (h : Compiles contents settings path compilation)
    (hpath : path.IsRooted) {file : SourcePath} :
    file ∈ compilation.dependencies.dependencies ↔ file ∈ compilation.dependencies.paths := by
  have hgraph := h.isAccurate hpath
  have hroot := hgraph.root
  constructor
  · intro hfile
    rcases IncludeGraph.mem_visit hfile with hnone | hself | ⟨edge, hedge, rfl⟩
    · cases hnone
    · obtain rfl := List.mem_singleton.mp hself
      rw [hroot]
      exact hgraph.self
    · exact hgraph.included edge hedge
  · intro hfile
    have hspec := IncludeGraph.dependencies_spec (hroot ▸ hpath) hgraph.linksRooted
    rw [hroot] at hspec
    exact hgraph.reached (· ∈ compilation.dependencies.dependencies) hspec.1 hspec.2 file hfile

/-- The dependencies of a compilation have canonical paths. -/
theorem isRooted_of_mem_dependencies (h : Compiles contents settings path compilation)
    (hpath : path.IsRooted) : ∀ file ∈ compilation.dependencies.dependencies, file.IsRooted :=
  fun file hfile => (h.isAccurate hpath).rooted file ((h.mem_dependencies_iff hpath).mp hfile)

/-- A file with a canonical path is found among the dependencies exactly if the compilation was
made from it. -/
theorem any_same_iff (h : Compiles contents settings path compilation) (hpath : path.IsRooted)
    {file : SourcePath} (hfile : file.IsRooted) :
    compilation.dependencies.dependencies.any (·.same file) = true ↔
      file ∈ compilation.dependencies.paths := by
  rw [← h.mem_dependencies_iff hpath]
  exact SourcePath.any_same_iff_mem (h.isRooted_of_mem_dependencies hpath) hfile

/-- A compilation has to be made again if one of the changed files is one it was made from. -/
theorem reachesAny_of_mem (h : Compiles contents settings path compilation)
    (hpath : path.IsRooted) {changed : List SourcePath} {file : SourcePath}
    (hchanged : file ∈ changed) (hfile : file.IsRooted)
    (hmem : file ∈ compilation.dependencies.paths) :
    compilation.dependencies.reachesAny changed = true :=
  List.any_eq_true.mpr ⟨file, hchanged, (h.any_same_iff hpath hfile).mpr hmem⟩

/-- After a change of one file a compilation has to be made again exactly if it was made from that
file. -/
theorem reachesAny_singleton_iff (h : Compiles contents settings path compilation)
    (hpath : path.IsRooted) {file : SourcePath} (hfile : file.IsRooted) :
    compilation.dependencies.reachesAny [file] = true ↔
      file ∈ compilation.dependencies.paths := by
  rw [IncludeGraph.reachesAny_singleton_iff (h.isRooted_of_mem_dependencies hpath) hfile,
    h.mem_dependencies_iff hpath]

end Compiles

end Compiler

end ShaderAssembly
