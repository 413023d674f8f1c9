import ShaderAssembly.CompilationCache
import ShaderAssembly.Proofs.DescriptionParts
import ShaderAssembly.Proofs.ReadLogs

/-!
# One account of what was read

The graph of a shader says twice which files it was made from: by the texts that are recorded, and
by the include lines that lead from file to file. Kept compilations are dropped by the first
account, live shaders are compiled again by the second one. Both name the files that were read, even
if files change meanwhile and every read of a file gives another text. Over files at rest they name
them in the same order, too.

The texts are read in the order of a walk along the include lines, block after block. Where a file
that is included twice has changed in between, the walk goes on from it to other files the second
time. The edges still lead to all of them, though a search along them takes another way.
-/

namespace ShaderAssembly

open Include (Edge Fragment FileText Unfolds Walk)

variable {σ : Type}

/-- Whether a text of a file was read whose include lines name some files. -/
def Include.NamedIn (texts : List FileText) (file : SourcePath) (named : List SourcePath) : Prop :=
  ∃ text, ⟨file, text⟩ ∈ texts ∧ named = targets file (Text.lines text.toList)

/-! ### Records -/

/-- Whether a graph records exactly some texts that were read, first that of the file at a path and
then those of the files that a walk from there goes to. -/
structure IncludeGraph.IsRecordOf (path : SourcePath) (texts : List FileText)
    (graph : IncludeGraph) : Prop where
  /-- The graph has the path as its root. -/
  root : graph.root = path
  /-- The first text of every file is recorded. -/
  contents : graph.contents = texts.foldl recordText []
  /-- After the root, the files at the ends of the edges have been read one after the other. -/
  reads : texts.map FileText.path = path :: graph.edges.map Edge.included
  /-- The edges are a walk from file to file by the texts that were read. -/
  walk : ∃ named, Walk (Include.NamedIn texts) [path] path named graph.edges

/-- Whether a graph that records some texts becomes one that records further texts, too. -/
def IncludeGraph.Records (path : SourcePath) (graph : IncludeGraph) (more : List FileText)
    (after : IncludeGraph) : Prop :=
  ∀ texts, graph.IsRecordOf path texts → after.IsRecordOf path (texts ++ more)

namespace IncludeGraph

variable {path : SourcePath} {texts : List FileText} {graph : IncludeGraph}

/-- Before includes are expanded the graph of a file records its text. -/
theorem isRecordOf_addTexts_ofRoot (path : SourcePath) (text : String) :
    ((ofRoot path).addTexts [⟨path, text⟩]).IsRecordOf path [⟨path, text⟩] :=
  ⟨rfl, rfl, rfl, [], .done⟩

/-- Recording nothing leaves a graph as it is. -/
theorem Records.refl (path : SourcePath) (graph : IncludeGraph) : graph.Records path [] graph := by
  intro texts h
  rwa [List.append_nil]

/-- Texts are recorded one after the other. -/
theorem Records.trans {more others : List FileText} {middle after : IncludeGraph}
    (h : graph.Records path more middle) (hrest : middle.Records path others after) :
    graph.Records path (more ++ others) after := by
  intro texts htexts
  rw [← List.append_assoc]
  exact hrest _ (h texts htexts)

/-- Recording the expansion of a text of the root records what it has read. -/
theorem records_recordExpansion (graph : IncludeGraph) {number : Nat} {lines : List (List Char)}
    {fragment : Fragment}
    (h : Unfolds fragment.HasText [path] path number lines fragment) :
    graph.Records path fragment.contents (Compiler.recordExpansion graph fragment.expansion) := by
  intro texts hgraph
  obtain ⟨named, hwalk⟩ := hgraph.walk
  have hbefore : Walk (Include.NamedIn (texts ++ fragment.contents)) [path] path named
      graph.edges := hwalk.mono fun _ _ ⟨text, htext, hnamed⟩ =>
    ⟨text, List.mem_append_left _ htext, hnamed⟩
  have hafter : Walk (Include.NamedIn (texts ++ fragment.contents)) [path] path
      (Include.targets path lines) fragment.edges := h.walk.mono fun _ _ ⟨text, htext, hnamed⟩ =>
    ⟨text, List.mem_append_right _ htext, hnamed⟩
  refine ⟨hgraph.root, ?_, ?_, _, hbefore.append hafter⟩
  · rw [List.foldl_append, ← hgraph.contents]
    rfl
  · rw [List.map_append, hgraph.reads, h.paths_eq, List.cons_append, ← List.map_append]
    rfl

namespace IsRecordOf

variable (h : graph.IsRecordOf path texts) (hpath : path.IsRooted)
include h

/-- The files with recorded texts are those that were read, each at its first read. -/
theorem paths_eq : graph.paths = (texts.map FileText.path).foldl addNew [] := by
  rw [paths, h.contents, map_path_foldl_recordText]
  rfl

include hpath

/-- Only files with canonical paths are read. -/
theorem isRooted_of_mem : ∀ path ∈ texts.map FileText.path, path.IsRooted := by
  obtain ⟨named, hwalk⟩ := h.walk
  rw [h.reads]
  exact List.forall_mem_cons.mpr ⟨hpath, hwalk.included_rooted⟩

/-- The files with recorded texts are those that were read. -/
theorem mem_paths_iff {file : SourcePath} :
    file ∈ graph.paths ↔ file ∈ texts.map FileText.path := by
  have hnone : ∀ other ∈ ([] : List SourcePath), other.IsRooted := nofun
  rw [h.paths_eq, mem_foldl_addNew hnone (h.isRooted_of_mem hpath)]
  simp only [List.not_mem_nil, false_or]

/-- The dependencies are the files that were read. -/
theorem mem_dependencies_iff {file : SourcePath} :
    file ∈ graph.dependencies ↔ file ∈ texts.map FileText.path := by
  obtain ⟨named, hwalk⟩ := h.walk
  obtain rfl := h.root
  rw [h.reads, hwalk.mem_dependencies_iff hpath]

/-- If all texts of a file that were read are the same, the dependencies have the order of the files
with recorded texts. -/
theorem dependencies_eq {contents : Contents} (hcontents : contents.HasTexts texts) :
    graph.dependencies = graph.paths := by
  obtain ⟨named, hwalk⟩ := h.walk
  have hnames : ∀ path inside other, Include.NamedIn texts path inside →
      Include.NamedIn texts path other → other = inside := by
    rintro path inside other ⟨text, htext, rfl⟩ ⟨again, hagain, rfl⟩
    obtain rfl : text = again :=
      Except.ok.inj ((hcontents ⟨path, text⟩ htext).symm.trans (hcontents ⟨path, again⟩ hagain))
    rfl
  obtain rfl := h.root
  rw [h.paths_eq, h.reads, hwalk.dependencies_eq hpath hnames]

/-- News of a file matters exactly if the file has a recorded text. -/
theorem reachesAny_singleton_iff {file : SourcePath} (hfile : file.IsRooted) :
    graph.reachesAny [file] = true ↔ file ∈ graph.paths := by
  have hgraph : ∀ other ∈ graph.dependencies, other.IsRooted := fun other hother =>
    h.isRooted_of_mem hpath other ((h.mem_dependencies_iff hpath).mp hother)
  rw [IncludeGraph.reachesAny_singleton_iff hgraph hfile, h.mem_dependencies_iff hpath,
    h.mem_paths_iff hpath]

/-- A file with a canonical path is found among the recorded ones exactly if it is one of them. -/
theorem any_same_iff {file : SourcePath} (hfile : file.IsRooted) :
    graph.contents.any (·.path.same file) = true ↔ file ∈ graph.paths := by
  refine any_same_iff_mem (fun read hread => ?_) hfile
  exact h.isRooted_of_mem hpath _ ((h.mem_paths_iff hpath).mp (List.mem_map_of_mem hread))

end IsRecordOf

end IncludeGraph

/-! ### Shaders are read with a record -/

namespace Compiler

variable {provider : Provider σ} {settings : Settings}

/-- A block that is expanded is recorded with what it reads. -/
theorem expandBlock_adds (path : SourcePath) (graph : IncludeGraph) (block : CodeBlock) :
    Action.Adds (expandBlock ⟨provider.logging, settings⟩ path graph block) fun more result =>
      graph.Records path more result.2 := by
  refine (Include.expandText_adds provider [path] path block.body block.position.line).bind
    fun expansion => .of_pure ?_
  rintro _ ⟨fragment, rfl, rfl, hunfolds⟩
  rw [List.append_nil]
  exact graph.records_recordExpansion hunfolds

/-- Named blocks that are expanded are recorded with what they read. -/
theorem expandEntries_adds (path : SourcePath) (graph : IncludeGraph)
    (entries : List (String × CodeBlock)) :
    Action.Adds (expandEntries ⟨provider.logging, settings⟩ path graph entries)
      fun more result => graph.Records path more result.2 := by
  induction entries generalizing graph with
  | nil => exact .of_pure (.refl path graph)
  | cons entry rest ih =>
    obtain ⟨name, block⟩ := entry
    unfold expandEntries
    refine (expandBlock_adds path graph block).bind fun expanded => ?_
    refine (ih expanded.2).bind fun others => .of_pure fun more hmore texts htexts => ?_
    rw [List.append_nil]
    exact htexts.trans hmore

/-- The blocks of a shader that are expanded are recorded with what they read. -/
theorem expandBlocks_adds (parsed : ParsedShader) :
    Action.Adds (expandBlocks ⟨provider.logging, settings⟩ parsed) fun more result =>
      parsed.dependencies.Records parsed.shader.path more result.dependencies := by
  have hentries : ∀ shared : Option CodeBlock × IncludeGraph, Action.Adds
      (do
        let made ← expandEntries ⟨provider.logging, settings⟩ parsed.shader.path
          shared.2 parsed.shader.blocks.entries
        return (⟨{ parsed.shader with shared? := shared.1, blocks := ⟨made.1⟩ }, made.2⟩ :
          ParsedShader))
      fun more result => shared.2.Records parsed.shader.path more result.dependencies := by
    intro shared
    refine (expandEntries_adds _ _ _).bind fun blocks => .of_pure fun more hmore => ?_
    rwa [List.append_nil]
  unfold expandBlocks
  cases parsed.shader.shared? with
  | none =>
    have hnone : Action.Adds
        (pure (none, parsed.dependencies) : Action (Logged σ) Error (Option CodeBlock × _))
        fun more shared => parsed.dependencies.Records parsed.shader.path more shared.2 :=
      .of_pure (.refl _ _)
    exact hnone.bind fun shared => (hentries shared).mono fun _ _ hmore _ hfirst =>
      hfirst.trans hmore
  | some block =>
    refine (expandBlock_adds _ _ _).bind fun expanded => ?_
    have hsome : Action.Adds (pure (some expanded.1, expanded.2) : Action (Logged σ) Error _)
        fun more shared => more = [] ∧ shared.2 = expanded.2 := .of_pure ⟨rfl, rfl⟩
    refine hsome.bind fun shared => (hentries shared).mono ?_
    rintro more result hmore _ ⟨rfl, hshared⟩ texts hfirst
    rw [List.nil_append]
    exact hfirst.trans (hshared ▸ hmore)

/-- The graph of a description that is read records the texts that were read. -/
theorem parseDescription_adds (path : SourcePath) :
    Action.Adds (parseDescription ⟨provider.logging, settings⟩ path) fun texts parsed =>
      parsed.dependencies.IsRecordOf path texts := by
  unfold parseDescription
  refine (provider.adds_readFile path).bind fun text => ?_
  refine (Action.adds_liftM _).bind fun shader => ?_
  refine (expandBlocks_adds _).mono ?_
  rintro more parsed hmore _ ⟨rfl, hshader⟩ _ rfl
  rw [(Description.madeOf_of_parse hshader).path_eq] at hmore
  exact hmore _ (IncludeGraph.isRecordOf_addTexts_ofRoot path text)

/-- The graph of an effect file that is read records the texts that were read. -/
theorem parseEffect_adds (path : SourcePath) :
    Action.Adds (parseEffect ⟨provider.logging, settings⟩ path) fun texts parsed =>
      parsed.dependencies.IsRecordOf path texts := by
  unfold parseEffect
  refine (Include.expandFile_adds provider path).bind fun fragment => ?_
  refine (Action.adds_liftM _).bind fun shader => .of_pure ?_
  rintro _ ⟨rfl, -⟩ _ ⟨rfl, text, inner, hunfolds, rfl⟩
  rw [List.append_nil, List.append_nil]
  exact IncludeGraph.records_recordExpansion _ hunfolds _
    (IncludeGraph.isRecordOf_addTexts_ofRoot path text)

/-- The graph of a file that is read records the texts that were read. -/
theorem parse_adds (root : String) :
    Action.Adds (parse ⟨provider.logging, settings⟩ root) fun texts parsed =>
      parsed.dependencies.IsRecordOf (.rooted root) texts := by
  have hrecord : ∀ parsed : ParsedShader, Action.Adds
      (do
        Action.record .debug s!"Parsed {parsed.shader.summary}"
        return parsed : Action (Logged σ) Error ParsedShader)
      fun more result => more = [] ∧ result = parsed := by
    intro parsed
    refine (Action.adds_record _ _).bind fun _ => .of_pure ?_
    rintro _ rfl
    exact ⟨rfl, rfl⟩
  have hkeep : ∀ action : Action (Logged σ) Error ParsedShader,
      (Action.Adds action fun texts parsed =>
        parsed.dependencies.IsRecordOf (.rooted root) texts) →
      Action.Adds (do
        let parsed ← action
        Action.record .debug s!"Parsed {parsed.shader.summary}"
        return parsed) fun texts parsed =>
          parsed.dependencies.IsRecordOf (.rooted root) texts := by
    intro action haction
    refine haction.bind fun parsed => (hrecord parsed).mono ?_
    rintro _ _ ⟨rfl, rfl⟩ texts htexts
    rwa [List.append_nil]
  unfold parse
  dsimp only
  cases Dialect.ofPath (.rooted root) with
  | description => exact hkeep _ (parseDescription_adds _)
  | effect => exact hkeep _ (parseEffect_adds _)

/-! ### Both accounts -/

/-- The texts that are read while a shader is parsed, in order, including those that are read
again. -/
def textsParsed (compiler : Compiler σ) (root : String) (state : σ) : List FileText :=
  ((parse ⟨compiler.provider.logging, compiler.settings⟩ root).stateFrom ⟨state, []⟩).texts

section Parsed

variable {compiler : Compiler σ} {root : String} {state : σ} {parsed : ParsedShader}

/-- A parse gives the same with and without a log. -/
theorem outcomeFrom_parse_logging (compiler : Compiler σ) (root : String) (state : σ)
    (texts : List FileText) :
    (parse ⟨compiler.provider.logging, compiler.settings⟩ root).outcomeFrom ⟨state, texts⟩ =
      (compiler.parse root).outcomeFrom state :=
  (matches_parse compiler.provider.matches_read_logging
    (Include.matches_expandText_logging compiler.provider) root state ⟨state, texts⟩ rfl).1.symm

/-- The graph of a shader records the texts that were read while it was parsed. -/
theorem isRecordOf_textsParsed (h : (compiler.parse root).outcomeFrom state = .ok parsed) :
    parsed.dependencies.IsRecordOf (.rooted root) (compiler.textsParsed root state) := by
  rw [← outcomeFrom_parse_logging compiler root state []] at h
  obtain ⟨texts, htexts, hrecord⟩ := parse_adds root _ _ h
  rwa [textsParsed, htexts, List.nil_append]

/-- Over files at rest all texts that are read while a shader is parsed are theirs. -/
theorem hasTexts_textsParsed (compiler : Compiler σ) (root : String) {contents : Contents}
    (hserves : compiler.provider.Serves state contents) :
    contents.HasTexts (compiler.textsParsed root state) :=
  (hserves.hasTexts_of_reaches
    (reaches_parse ⟨state, []⟩ ⟨compiler.provider.logging, compiler.settings⟩ root)).2

/-- A shader that is compiled has been parsed before. -/
theorem exists_parse_of_compile {compilation : Compilation}
    (h : (compiler.compile root).outcomeFrom state = .ok compilation) :
    ∃ parsed, (compiler.parse root).outcomeFrom state = .ok parsed ∧
      compilation.dependencies = parsed.dependencies := by
  obtain ⟨parsed, hparsed, h⟩ := Action.outcomeFrom_bind_eq_ok.mp h
  obtain ⟨stages, -, h⟩ := Action.outcomeFrom_bind_eq_ok.mp h
  cases h
  exact ⟨parsed, hparsed, rfl⟩

/-- Whether a graph names the files that were read while a shader was parsed, by both of its
accounts. -/
structure NamesReads (compiler : Compiler σ) (root : String) (state : σ)
    (graph : IncludeGraph) : Prop where
  /-- The files with recorded texts are those that were read. -/
  paths : ∀ file, file ∈ graph.paths ↔
    file ∈ (compiler.textsParsed root state).map FileText.path
  /-- The dependencies are those that were read. -/
  dependencies : ∀ file, file ∈ graph.dependencies ↔
    file ∈ (compiler.textsParsed root state).map FileText.path
  /-- If the shader is compiled, it has the graph, and a cache that keeps it drops it with a file
  exactly if news of the file matters. -/
  forgotten : ∀ compilation, (compiler.compile root).outcomeFrom state = .ok compilation →
    compilation.dependencies = graph ∧
      ∀ cache : CompilationCache, ∀ entry ∈ cache.entries.entries, entry.2.value = compilation →
        ∀ file : SourcePath, file.IsRooted →
          (entry ∉ (cache.forget file.text).entries.entries ↔ graph.reachesAny [file] = true)
  /-- If all texts that were read are those of files that do not change, both accounts have one
  order. -/
  order : ∀ contents : Contents, contents.HasTexts (compiler.textsParsed root state) →
    graph.dependencies = graph.paths
  /-- Over a provider that does not change they are. -/
  unchanging : ∀ contents, compiler.provider.Serves state contents →
    contents.HasTexts (compiler.textsParsed root state)

/-- The graph of a shader names the files that were read while it was parsed, even if they changed
meanwhile. -/
theorem parse_namesReads (h : (compiler.parse root).outcomeFrom state = .ok parsed) :
    compiler.NamesReads root state parsed.dependencies := by
  have hrecord := isRecordOf_textsParsed h
  have hroot := SourcePath.isRooted_rooted root
  refine ⟨fun _ => hrecord.mem_paths_iff hroot, fun _ => hrecord.mem_dependencies_iff hroot, ?_,
    fun _ => hrecord.dependencies_eq hroot, fun _ => hasTexts_textsParsed compiler root⟩
  intro compilation hcompile
  obtain ⟨again, hagain, hgraph⟩ := exists_parse_of_compile hcompile
  obtain rfl : parsed = again := Except.ok.inj (h.symm.trans hagain)
  refine ⟨hgraph, fun cache entry hentry hvalue file hfile => ?_⟩
  have huses : CompilationCache.uses entry.2.value (.rooted file.text) = true ↔
      file ∈ parsed.dependencies.paths := by
    rw [CompilationCache.uses, hvalue, hgraph, SourcePath.rooted_text hfile]
    exact hrecord.any_same_iff hroot hfile
  rw [hrecord.reachesAny_singleton_iff hroot hfile, ← huses, CompilationCache.forget,
    List.mem_filter, not_and, Bool.not_eq_true', Bool.not_eq_false]
  exact ⟨fun hdropped => hdropped hentry, fun hused _ => hused⟩

/-- A header is included again after it has come to include another file. The graph names all files
that were read, and because of the change its two accounts differ in their order. -/
theorem parse_namesReads_of_changed_header :
    let compiler : Compiler MemorySources := ⟨MemorySources.provider, .standard⟩
    let includes := "#include \"a.glsl\"\n#include \"c.glsl\"\n#include \"a.glsl\"\n"
    let sources := (MemorySources.ofFiles [(⟨"/s.glsl"⟩, MemorySources.sampleShader includes),
        (⟨"/a.glsl"⟩, "int a;\n"), (⟨"/b.glsl"⟩, "int b;\n"),
        (⟨"/c.glsl"⟩, "int c;\n")]).schedule
      ⟨⟨"/a.glsl"⟩, ⟨"/a.glsl"⟩, "#include \"b.glsl\"\n"⟩
    ∃ parsed, (compiler.parse "/s.glsl").outcomeFrom sources = .ok parsed ∧
      parsed.dependencies.paths = [⟨"/s.glsl"⟩, ⟨"/a.glsl"⟩, ⟨"/c.glsl"⟩, ⟨"/b.glsl"⟩] ∧
      parsed.dependencies.dependencies =
        [⟨"/s.glsl"⟩, ⟨"/a.glsl"⟩, ⟨"/b.glsl"⟩, ⟨"/c.glsl"⟩] ∧
      compiler.NamesReads "/s.glsl" sources parsed.dependencies := by
  intro compiler includes sources
  have hrun : ((compiler.parse "/s.glsl").outcomeFrom sources).toOption.any (fun parsed =>
      decide (parsed.dependencies.paths =
          [⟨"/s.glsl"⟩, ⟨"/a.glsl"⟩, ⟨"/c.glsl"⟩, ⟨"/b.glsl"⟩] ∧
        parsed.dependencies.dependencies =
          [⟨"/s.glsl"⟩, ⟨"/a.glsl"⟩, ⟨"/b.glsl"⟩, ⟨"/c.glsl"⟩])) = true := by decide +kernel
  obtain ⟨parsed, hparsed, hgraph⟩ := exists_of_toOption_any hrun
  obtain ⟨hpaths, hdependencies⟩ := of_decide_eq_true hgraph
  exact ⟨parsed, hparsed, hpaths, hdependencies, parse_namesReads hparsed⟩

end Parsed

end Compiler

end ShaderAssembly
