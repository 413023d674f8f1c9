import Mathlib.Data.List.Perm.Subperm
import ShaderAssembly.Proofs.IncludeGraphs
import ShaderAssembly.Proofs.IncludeRuns

/-!
# The rules of compiling

What a compile comes to is described by rules that know the contents of the files but no provider
and no state. Over files that do not change, a compile that succeeds follows the rules, and what
the rules allow is reached if the limit of the provider counts the recorded files.
-/

namespace ShaderAssembly

open Include (Expands Fragment)

variable {σ : Type}

namespace Compiler

/-- What a block and a graph become when the block is expanded. -/
inductive BlockExpands (contents : Contents) (path : SourcePath) (graph : IncludeGraph)
    (block : CodeBlock) : CodeBlock → IncludeGraph → Prop where
  /-- The code is expanded as a text that stands where the block does. -/
  | intro {fragment : Fragment}
      (h : Expands contents [path] path block.position.line (Text.lines block.body.toList)
        fragment) :
      BlockExpands contents path graph block (block.withExpansion fragment.source)
        (recordExpansion graph fragment.expansion)

/-- What the shared block of a shader becomes. -/
inductive SharedExpands (contents : Contents) (path : SourcePath) (graph : IncludeGraph) :
    Option CodeBlock → Option CodeBlock → IncludeGraph → Prop where
  /-- There is none. -/
  | none : SharedExpands contents path graph none none graph
  /-- It is expanded like any block. -/
  | some {block expanded : CodeBlock} {after : IncludeGraph}
      (h : BlockExpands contents path graph block expanded after) :
      SharedExpands contents path graph (some block) (some expanded) after

/-- What named blocks become, one after the other. -/
inductive EntriesExpand (contents : Contents) (path : SourcePath) : IncludeGraph →
    List (String × CodeBlock) → List (String × CodeBlock) → IncludeGraph → Prop where
  /-- There are none left. -/
  | nil {graph : IncludeGraph} : EntriesExpand contents path graph [] [] graph
  /-- The first one is expanded before the others. -/
  | cons {graph after last : IncludeGraph} {name : String} {block expanded : CodeBlock}
      {rest others : List (String × CodeBlock)}
      (hblock : BlockExpands contents path graph block expanded after)
      (hrest : EntriesExpand contents path after rest others last) :
      EntriesExpand contents path graph ((name, block) :: rest) ((name, expanded) :: others) last

/-- What a shader description is read as. -/
inductive DescriptionParses (contents : Contents) (path : SourcePath) : ParsedShader → Prop where
  /-- The blocks are expanded after the text has been read. -/
  | intro {text : String} {shader : Shader} {shared? : Option CodeBlock}
      {blocks : List (String × CodeBlock)} {middle graph : IncludeGraph}
      (hread : contents path = .ok text)
      (hparse : (Description.parse path text).outcome = .ok shader)
      (hshared : SharedExpands contents shader.path
        ((IncludeGraph.ofRoot path).addTexts [⟨path, text⟩]) shader.shared? shared? middle)
      (hblocks : EntriesExpand contents shader.path middle shader.blocks.entries blocks graph) :
      DescriptionParses contents path ⟨{ shader with shared?, blocks := ⟨blocks⟩ }, graph⟩

/-- What an effect file is read as. -/
inductive EffectParses (contents : Contents) (path : SourcePath) : ParsedShader → Prop where
  /-- The text is expanded before it is read. -/
  | intro {text : String} {inner : Fragment} {shader : Shader}
      (hread : contents path = .ok text)
      (hexpands : Expands contents [path] path 1 (Text.lines text.toList) inner)
      (hparse : (Effect.parse path inner.source).outcome = .ok shader) :
      EffectParses contents path ⟨shader, recordExpansion (.ofRoot path)
        { inner.expansion with contents := ⟨path, text⟩ :: inner.contents }⟩

/-- What a file is read as in its dialect. -/
def Parses (contents : Contents) (path : SourcePath) (parsed : ParsedShader) : Prop :=
  match Dialect.ofPath path with
  | .description => DescriptionParses contents path parsed
  | .effect => EffectParses contents path parsed

/-- What a file is compiled to. -/
structure Compiles (contents : Contents) (settings : Settings) (path : SourcePath)
    (compilation : Compilation) : Prop where
  /-- The shader and the graph are what the file is read as. -/
  parses : Parses contents path ⟨compilation.shader, compilation.dependencies⟩
  /-- The stages are those of the shader. -/
  links : (Linking.link settings compilation.shader).outcome = .ok compilation.stages

/-! ### Runs follow the rules -/

section Runs

variable {compiler : Compiler σ} {contents : Contents} {path : SourcePath} {state : σ}

/-- Expanding a block only reads files. -/
theorem reaches_expandBlock (path : SourcePath) (h : compiler.provider.Serves state contents)
    (graph : IncludeGraph) (block : CodeBlock) :
    compiler.provider.Reaches state ((compiler.expandBlock path graph block).stateFrom state) := by
  obtain ⟨⟨last, hlast, hstate⟩, -⟩ :=
    Include.expandText_follows [path] path block.body block.position.line h
  have hopen : (Include.withOpen [path] (Include.expandText compiler.provider path block.body
      block.position.line)).stateFrom state = last := by
    rw [Include.stateFrom_withOpen, hstate]
  rw [expandBlock, Action.stateFrom_bind_pure, hopen]
  exact hlast

/-- A block that is expanded becomes what the rules say. -/
theorem blockExpands_of_expandBlock (h : compiler.provider.Serves state contents)
    {graph : IncludeGraph} {block : CodeBlock} {result : CodeBlock × IncludeGraph}
    (hok : (compiler.expandBlock path graph block).outcomeFrom state = .ok result) :
    BlockExpands contents path graph block result.1 result.2 := by
  rw [expandBlock, Action.outcomeFrom_bind_eq_ok] at hok
  obtain ⟨expansion, hexpand, hresult⟩ := hok
  cases hresult
  obtain ⟨fragment, rfl, hexpands⟩ := Include.expands_of_expandText h hexpand
  exact .intro hexpands

/-- Named blocks that are expanded become what the rules say. -/
theorem entriesExpand_of_expandEntries (h : compiler.provider.Serves state contents)
    {graph : IncludeGraph} {entries : List (String × CodeBlock)}
    {result : List (String × CodeBlock) × IncludeGraph}
    (hok : (compiler.expandEntries path graph entries).outcomeFrom state = .ok result) :
    EntriesExpand contents path graph entries result.1 result.2 := by
  induction entries generalizing graph state result with
  | nil =>
    cases hok
    exact .nil
  | cons entry rest ih =>
    obtain ⟨name, block⟩ := entry
    rw [expandEntries, Action.outcomeFrom_bind_eq_ok] at hok
    obtain ⟨first, hfirst, hok⟩ := hok
    obtain ⟨others, hothers, hresult⟩ := Action.outcomeFrom_bind_eq_ok.mp hok
    cases hresult
    exact .cons (blockExpands_of_expandBlock h hfirst)
      (ih (h.later (reaches_expandBlock path h graph block)) hothers)

/-- The blocks of a shader that are expanded become what the rules say. -/
theorem expands_of_expandBlocks (h : compiler.provider.Serves state contents)
    {parsed result : ParsedShader}
    (hok : (compiler.expandBlocks parsed).outcomeFrom state = .ok result) :
    ∃ shared? blocks middle graph,
      SharedExpands contents parsed.shader.path parsed.dependencies parsed.shader.shared? shared?
          middle ∧
        EntriesExpand contents parsed.shader.path middle parsed.shader.blocks.entries blocks
          graph ∧
        result = ⟨{ parsed.shader with shared?, blocks := ⟨blocks⟩ }, graph⟩ := by
  unfold expandBlocks at hok
  cases hblock : parsed.shader.shared? with
  | none =>
    rw [hblock] at hok
    obtain ⟨_, hshared, hok⟩ := Action.outcomeFrom_bind_eq_ok.mp hok
    cases hshared
    obtain ⟨⟨blocks, graph⟩, hblocks, hresult⟩ := Action.outcomeFrom_bind_eq_ok.mp hok
    cases hresult
    exact ⟨none, blocks, parsed.dependencies, graph, .none,
      entriesExpand_of_expandEntries h hblocks, rfl⟩
  | some block =>
    rw [hblock] at hok
    have hreaches := reaches_expandBlock parsed.shader.path h parsed.dependencies block
    obtain ⟨⟨expanded, middle⟩, hfirst, hok⟩ := Action.outcomeFrom_bind_eq_ok.mp hok
    obtain ⟨_, hshared, hok⟩ := Action.outcomeFrom_bind_eq_ok.mp hok
    cases hshared
    obtain ⟨⟨blocks, graph⟩, hblocks, hresult⟩ := Action.outcomeFrom_bind_eq_ok.mp hok
    cases hresult
    exact ⟨some expanded, blocks, middle, graph, .some (blockExpands_of_expandBlock h hfirst),
      entriesExpand_of_expandEntries (h.later hreaches) hblocks, rfl⟩

/-- A description that is read is what the rules say. -/
theorem descriptionParses_of_parseDescription (h : compiler.provider.Serves state contents)
    {parsed : ParsedShader}
    (hok : (compiler.parseDescription path).outcomeFrom state = .ok parsed) :
    DescriptionParses contents path parsed := by
  rw [parseDescription, Action.outcomeFrom_bind_eq_ok] at hok
  obtain ⟨text, htext, hok⟩ := hok
  obtain ⟨shader, hshader, hok⟩ := Action.outcomeFrom_bind_eq_ok.mp hok
  rw [h.outcomeFrom_readFile] at htext
  cases hread : contents path with
  | error failure =>
    rw [hread] at htext
    cases htext
  | ok other =>
    rw [hread] at htext
    cases htext
    have hlater : compiler.provider.Reaches state
        ((compiler.provider.readFile path).stateFrom state) := .read path .start
    obtain ⟨shared?, blocks, middle, graph, hshared, hblocks, rfl⟩ :=
      expands_of_expandBlocks (h.later hlater) hok
    exact .intro hread hshader hshared hblocks

/-- An effect file that is read is what the rules say. -/
theorem effectParses_of_parseEffect (h : compiler.provider.Serves state contents)
    {parsed : ParsedShader}
    (hok : (compiler.parseEffect path).outcomeFrom state = .ok parsed) :
    EffectParses contents path parsed := by
  rw [parseEffect, Action.outcomeFrom_bind_eq_ok] at hok
  obtain ⟨expansion, hexpansion, hok⟩ := hok
  obtain ⟨shader, hshader, hresult⟩ := Action.outcomeFrom_bind_eq_ok.mp hok
  cases hresult
  obtain ⟨text, inner, hread, hinner, rfl⟩ := Include.expands_of_expandFile h hexpansion
  exact .intro hread hinner hshader

/-- A file that is read is what the rules say. -/
theorem parses_of_parse (h : compiler.provider.Serves state contents) {root : String}
    {parsed : ParsedShader} (hok : (compiler.parse root).outcomeFrom state = .ok parsed) :
    Parses contents (.rooted root) parsed := by
  unfold parse at hok
  unfold Parses
  cases hdialect : Dialect.ofPath (.rooted root) with
  | description =>
    simp only [hdialect] at hok
    obtain ⟨result, hresult, hok⟩ := Action.outcomeFrom_bind_eq_ok.mp hok
    obtain ⟨-, -, hsame⟩ := Action.outcomeFrom_bind_eq_ok.mp hok
    cases hsame
    exact descriptionParses_of_parseDescription h hresult
  | effect =>
    simp only [hdialect] at hok
    obtain ⟨result, hresult, hok⟩ := Action.outcomeFrom_bind_eq_ok.mp hok
    obtain ⟨-, -, hsame⟩ := Action.outcomeFrom_bind_eq_ok.mp hok
    cases hsame
    exact effectParses_of_parseEffect h hresult

/-- A file that is compiled becomes what the rules say. -/
theorem compiles_of_compile (h : compiler.provider.Serves state contents) {root : String}
    {compilation : Compilation}
    (hok : (compiler.compile root).outcomeFrom state = .ok compilation) :
    Compiles contents compiler.settings (.rooted root) compilation := by
  rw [compile, Action.outcomeFrom_bind_eq_ok] at hok
  obtain ⟨parsed, hparsed, hok⟩ := hok
  obtain ⟨stages, hstages, hok⟩ := Action.outcomeFrom_bind_eq_ok.mp hok
  obtain ⟨-, -, hresult⟩ := Action.outcomeFrom_bind_eq_ok.mp hok
  cases hresult
  exact ⟨parses_of_parse h hparsed, hstages⟩

end Runs

/-! ### Graphs grow -/

section Graphs

variable {contents : Contents} {path : SourcePath} {graph after : IncludeGraph}

/-- Expanding a block keeps the graph rooted and its files recorded. -/
theorem BlockExpands.extends {block expanded : CodeBlock}
    (h : BlockExpands contents path graph block expanded after) (hgraph : graph.IsRooted) :
    after.IsRooted ∧ graph.paths ⊆ after.paths := by
  cases h with
  | @intro fragment h =>
    have hspec := recordExpansion_spec hgraph fragment.expansion fun read hread =>
      (h.contents_of_mem read hread).2.1
    exact ⟨hspec.1, hspec.2.1⟩

/-- Expanding the shared block keeps the graph rooted and its files recorded. -/
theorem SharedExpands.extends {shared? expanded? : Option CodeBlock}
    (h : SharedExpands contents path graph shared? expanded? after) (hgraph : graph.IsRooted) :
    after.IsRooted ∧ graph.paths ⊆ after.paths := by
  cases h with
  | none => exact ⟨hgraph, fun _ hmem => hmem⟩
  | some h => exact h.extends hgraph

/-- Expanding named blocks keeps the graph rooted and its files recorded. -/
theorem EntriesExpand.extends {entries expanded : List (String × CodeBlock)}
    (h : EntriesExpand contents path graph entries expanded after) (hgraph : graph.IsRooted) :
    after.IsRooted ∧ graph.paths ⊆ after.paths := by
  induction h with
  | nil => exact ⟨hgraph, fun _ hmem => hmem⟩
  | cons hblock _ ih =>
    obtain ⟨hmiddle, hsubset⟩ := hblock.extends hgraph
    obtain ⟨hlast, hmore⟩ := ih hmiddle
    exact ⟨hlast, fun _ hmem => hmore (hsubset hmem)⟩

/-- The graph that the expansion of a description starts with records the description. -/
theorem addTexts_ofRoot_spec (hpath : path.IsRooted) (text : String) :
    ((IncludeGraph.ofRoot path).addTexts [⟨path, text⟩]).IsRooted ∧
      path ∈ ((IncludeGraph.ofRoot path).addTexts [⟨path, text⟩]).paths := by
  have hspec := IncludeGraph.addTexts_spec (IncludeGraph.isRooted_ofRoot path)
    [⟨path, text⟩] (by simpa using hpath)
  exact ⟨hspec.1, hspec.2.2 (by simp)⟩

/-- The graph of an effect file records the file and all that its expansion read. -/
theorem recordExpansion_ofRoot_spec (hpath : path.IsRooted) (text : String) {inner : Fragment}
    (hreads : ∀ read ∈ inner.contents, read.path.IsRooted) :
    path :: inner.contents.map Include.FileText.path ⊆ (recordExpansion (.ofRoot path)
      { inner.expansion with contents := ⟨path, text⟩ :: inner.contents }).paths := by
  have hspec := recordExpansion_spec (IncludeGraph.isRooted_ofRoot path)
    { inner.expansion with contents := ⟨path, text⟩ :: inner.contents } (by
      intro read hread
      rcases List.mem_cons.mp hread with rfl | hread
      · exact hpath
      · exact hreads read hread)
  exact hspec.2.2

end Graphs

/-! ### What the rules allow is reached -/

section Completeness

variable {compiler : Compiler σ} {contents : Contents} {path : SourcePath} {state : σ}
  {graph after : IncludeGraph} {recorded : List SourcePath}

/-- A text expands as the rules say if the files that are read are among the recorded ones. -/
theorem outcomeFrom_expandText_of_recorded (hserves : compiler.provider.Serves state contents)
    (hcounts : compiler.provider.Counts state recorded.length) {openFiles : List SourcePath}
    {text : String} {firstLine : Nat} {fragment : Fragment}
    (h : Expands contents openFiles path firstLine (Text.lines text.toList) fragment)
    (hreads : fragment.contents.map Include.FileText.path ⊆ recorded) :
    (Include.expandText compiler.provider path text firstLine).outcomeFrom ⟨state, openFiles⟩ =
      .ok fragment.expansion := by
  refine Include.outcomeFrom_expandText hserves h fun files hnodup hsubset => ?_
  have hlength := (hnodup.subperm fun _ hmem => hreads (hsubset hmem)).length_le
  exact Nat.le_trans hlength (hcounts state .start)

/-- A block is expanded to what the rules say. -/
theorem BlockExpands.outcomeFrom {block expanded : CodeBlock}
    (h : BlockExpands contents path graph block expanded after) (hgraph : graph.IsRooted)
    (hserves : compiler.provider.Serves state contents)
    (hcounts : compiler.provider.Counts state recorded.length)
    (hrecorded : after.paths ⊆ recorded) :
    (compiler.expandBlock path graph block).outcomeFrom state = .ok (expanded, after) := by
  cases h with
  | @intro fragment h =>
    have hspec := recordExpansion_spec hgraph fragment.expansion fun read hread =>
      (h.contents_of_mem read hread).2.1
    have hexpand := outcomeFrom_expandText_of_recorded hserves hcounts h
      fun _ hmem => hrecorded (hspec.2.2 hmem)
    rw [expandBlock, Action.outcomeFrom_bind_pure, Include.outcomeFrom_withOpen, hexpand]
    rfl

/-- Named blocks are expanded to what the rules say. -/
theorem EntriesExpand.outcomeFrom {entries expanded : List (String × CodeBlock)}
    (h : EntriesExpand contents path graph entries expanded after) (hgraph : graph.IsRooted)
    (hserves : compiler.provider.Serves state contents)
    (hcounts : compiler.provider.Counts state recorded.length)
    (hrecorded : after.paths ⊆ recorded) :
    (compiler.expandEntries path graph entries).outcomeFrom state = .ok (expanded, after) := by
  induction h generalizing state with
  | nil => rfl
  | @cons graph middle last name block expanded rest others hblock hrest ih =>
    have hmiddle := hblock.extends hgraph
    have hlast := hrest.extends hmiddle.1
    have hreaches := reaches_expandBlock path hserves graph block
    have hfirst := hblock.outcomeFrom hgraph hserves hcounts fun _ hmem =>
      hrecorded (hlast.2 hmem)
    have hothers := ih hmiddle.1 (hserves.later hreaches) (hcounts.later hreaches) hrecorded
    rw [expandEntries, Action.outcomeFrom_bind_of_ok hfirst]
    dsimp only
    rw [Action.outcomeFrom_bind_of_ok hothers]
    rfl

/-- The blocks of a shader are expanded to what the rules say. -/
theorem outcomeFrom_expandBlocks {shader : Shader} {shared? : Option CodeBlock}
    {blocks : List (String × CodeBlock)} {middle : IncludeGraph}
    (hshared : SharedExpands contents shader.path graph shader.shared? shared? middle)
    (hblocks : EntriesExpand contents shader.path middle shader.blocks.entries blocks after)
    (hgraph : graph.IsRooted) (hserves : compiler.provider.Serves state contents)
    (hcounts : compiler.provider.Counts state recorded.length)
    (hrecorded : after.paths ⊆ recorded) :
    (compiler.expandBlocks ⟨shader, graph⟩).outcomeFrom state =
      .ok ⟨{ shader with shared?, blocks := ⟨blocks⟩ }, after⟩ := by
  have hmiddle := hshared.extends hgraph
  have hlast := hblocks.extends hmiddle.1
  unfold expandBlocks
  generalize hbefore : shader.shared? = before at hshared
  cases hshared with
  | none =>
    have hentries := hblocks.outcomeFrom hmiddle.1 hserves hcounts hrecorded
    refine (Action.outcomeFrom_bind_of_ok (Action.outcomeFrom_pure _ _) _).trans ?_
    exact (Action.outcomeFrom_bind_of_ok hentries _).trans rfl
  | @some block expanded _ hblock =>
    have hfirst := hblock.outcomeFrom hgraph hserves hcounts fun _ hmem =>
      hrecorded (hlast.2 hmem)
    have hreaches := reaches_expandBlock shader.path hserves graph block
    have hentries := hblocks.outcomeFrom hmiddle.1 (hserves.later hreaches)
      (hcounts.later hreaches) hrecorded
    refine (Action.outcomeFrom_bind_of_ok hfirst _).trans ?_
    refine (Action.outcomeFrom_bind_of_ok (Action.outcomeFrom_pure _ _) _).trans ?_
    exact (Action.outcomeFrom_bind_of_ok hentries _).trans rfl

/-- A description is read as the rules say. -/
theorem DescriptionParses.outcomeFrom {parsed : ParsedShader}
    (h : DescriptionParses contents path parsed) (hpath : path.IsRooted)
    (hserves : compiler.provider.Serves state contents)
    (hcounts : compiler.provider.Counts state recorded.length)
    (hrecorded : parsed.dependencies.paths ⊆ recorded) :
    (compiler.parseDescription path).outcomeFrom state = .ok parsed := by
  cases h with
  | @intro text shader shared? blocks middle graph hread hparse hshared hblocks =>
    have hlater : compiler.provider.Reaches state
        ((compiler.provider.readFile path).stateFrom state) := .read path .start
    have hexpand := outcomeFrom_expandBlocks hshared hblocks (addTexts_ofRoot_spec hpath text).1
      (hserves.later hlater) (hcounts.later hlater) hrecorded
    have htext : (compiler.provider.readFile path).outcomeFrom state = .ok text := by
      rw [hserves.outcomeFrom_readFile, hread]
      rfl
    unfold parseDescription
    refine (Action.outcomeFrom_bind_of_ok htext _).trans ?_
    exact (Action.outcomeFrom_liftM_bind_of_ok hparse _ _).trans hexpand

/-- An effect file is read as the rules say. -/
theorem EffectParses.outcomeFrom {parsed : ParsedShader}
    (h : EffectParses contents path parsed) (hpath : path.IsRooted)
    (hserves : compiler.provider.Serves state contents)
    (hcounts : compiler.provider.Counts state recorded.length)
    (hrecorded : parsed.dependencies.paths ⊆ recorded) :
    (compiler.parseEffect path).outcomeFrom state = .ok parsed := by
  cases h with
  | @intro text inner shader hread hexpands hparse =>
    have hlater : compiler.provider.Reaches state
        ((compiler.provider.read path).stateFrom state) := .read path .start
    have hpaths := recordExpansion_ofRoot_spec hpath text fun read hread =>
      (hexpands.contents_of_mem read hread).2.1
    have hinner := outcomeFrom_expandText_of_recorded (hserves.later hlater)
      (hcounts.later hlater) hexpands fun _ hmem =>
        hrecorded (hpaths (List.mem_cons_of_mem _ hmem))
    have hexpand : (Include.withOpen [] (Include.expandFile compiler.provider path)).outcomeFrom
        state = .ok { inner.expansion with contents := ⟨path, text⟩ :: inner.contents } := by
      rw [Include.outcomeFrom_withOpen, Include.outcomeFrom_expandFile_of_ok hserves hread,
        List.nil_append, hinner]
      rfl
    unfold parseEffect
    refine (Action.outcomeFrom_bind_of_ok hexpand _).trans ?_
    exact (Action.outcomeFrom_liftM_bind_of_ok hparse _ _).trans rfl

/-- A file is compiled to what the rules say. -/
theorem Compiles.outcomeFrom {root : String} {compilation : Compilation}
    (h : Compiles contents compiler.settings (.rooted root) compilation)
    (hserves : compiler.provider.Serves state contents)
    (hcounts : compiler.provider.Counts state recorded.length)
    (hrecorded : compilation.dependencies.paths ⊆ recorded) :
    (compiler.compile root).outcomeFrom state = .ok compilation := by
  have hroot := SourcePath.isRooted_rooted root
  have hparse : (compiler.parse root).outcomeFrom state =
      .ok ⟨compilation.shader, compilation.dependencies⟩ := by
    have hparses := h.parses
    unfold Parses at hparses
    unfold parse
    cases hdialect : Dialect.ofPath (.rooted root) with
    | description =>
      rw [hdialect] at hparses
      have hok := hparses.outcomeFrom hroot hserves hcounts hrecorded
      simp only [hdialect]
      exact (Action.outcomeFrom_bind_of_ok hok _).trans rfl
    | effect =>
      rw [hdialect] at hparses
      have hok := hparses.outcomeFrom hroot hserves hcounts hrecorded
      simp only [hdialect]
      exact (Action.outcomeFrom_bind_of_ok hok _).trans rfl
  unfold compile
  refine (Action.outcomeFrom_bind_of_ok hparse _).trans ?_
  exact (Action.outcomeFrom_liftM_bind_of_ok h.links _ _).trans rfl

end Completeness

end Compiler

end ShaderAssembly
