import ShaderAssembly.Proofs.RecordedReads
import ShaderAssembly.Proofs.TracedShaders

/-!
# Shaders whose lines have places

Every line of every block of a shader that has been read is found in the map of the block, under a
canonical path. That needs no contents that the whole shader is about: it also holds of a shader
whose files change while they are read, and a file that is included twice with different texts has
lines from both.
-/

namespace ShaderAssembly

open Include (Fragment Unfolds)

variable {σ : Type}

/-- Whether every line of a block has an origin in a file with a canonical path. That path stands on
one line if the path of the root does. -/
structure CodeBlock.IsPlaced (root : SourcePath) (block : CodeBlock) : Prop where
  /-- The origin of each line. -/
  origin : ∀ index line, block.expanded.lines[index]? = some line →
    ∃ origin, block.expanded.locate (index + 1) = some origin ∧ origin.file.IsRooted ∧
      ('\n' ∉ root.text.toList → '\n' ∉ origin.file.text.toList)

/-- Whether a shader that has been read has blocks with the names they go by and lines that have
places, and its words have only characters of names. -/
structure Shader.IsPlaced (root : SourcePath) (shader : Shader) : Prop where
  /-- The shared block. -/
  shared : ∀ block ∈ shader.shared?, block.name = CodeBlock.sharedName ∧ block.IsPlaced root
  /-- The other blocks. -/
  blocks : ∀ entry ∈ shader.blocks.entries, entry.2.name = entry.1 ∧ entry.2.IsPlaced root
  /-- The words of interfaces, uniforms and streams. -/
  named : shader.Named fun word => ∀ c ∈ word.toList, Piece.continuesName c = true

/-! ### Blocks -/

section Blocks

variable {has : SourcePath → String → Prop} {path : SourcePath} {openFiles : List SourcePath}
  {number : Nat} {fragment : Fragment} {block : CodeBlock}

/-- A body whose includes are expanded has lines that are placed. -/
theorem isPlaced_withExpansion (hpath : path.IsRooted) {text : List Char}
    (h : Unfolds has openFiles path number (Text.lines text) fragment) (block : CodeBlock) :
    (block.withExpansion fragment.source).IsPlaced path := by
  refine ⟨fun index line hline => ?_⟩
  obtain ⟨source, hsource, -, hrooted, hlocate⟩ := h.exists_line_of_source hpath hline
  exact ⟨source.origin, hlocate, hrooted, fun hplain =>
    h.not_mem_of_mem_lines hplain source (List.mem_of_getElem? hsource)⟩

/-- A body that stands in an expanded text has lines that are placed. -/
theorem isPlaced_locateBlock (hpath : path.IsRooted) {text : String}
    (h : Unfolds has openFiles path number (Text.lines text.toList) fragment) {place : Place}
    (hstands : StandsAt fragment.source.text.toList block.body.toList place)
    (hposition : block.position = .ofPlace path place) :
    (Effect.locateBlock fragment.source.map block).IsPlaced path := by
  refine ⟨fun index line hbody => ?_⟩
  have hindex := (List.getElem?_eq_some_iff.mp hbody).1
  obtain ⟨source, hmem, hrooted, hlocate, -⟩ := exists_source_of_standsAt h hpath hstands hbody
  refine ⟨source.origin, ?_, hrooted, fun hplain => h.not_mem_of_mem_lines hplain source hmem⟩
  show (fragment.source.map.slice block.position.line _).locate (index + 1) = _
  rw [hposition, ← hlocate]
  exact locate_slice_of_standsAt h hpath hstands hindex

end Blocks

/-! ### Shaders -/

namespace Compiler

variable {provider : Provider σ} {settings : Settings} {path : SourcePath}

/-- A block has placed lines once it is expanded. -/
theorem expandBlock_places (hpath : path.IsRooted) (graph : IncludeGraph) (block : CodeBlock) :
    Action.Adds (expandBlock ⟨provider.logging, settings⟩ path graph block) fun _ result =>
      result.1.name = block.name ∧ result.1.IsPlaced path := by
  refine (Include.expandText_adds provider [path] path block.body block.position.line).bind_of
    fun _ expansion hexpansion => .of_pure ?_
  obtain ⟨fragment, rfl, -, hunfolds⟩ := hexpansion
  exact ⟨rfl, isPlaced_withExpansion hpath hunfolds block⟩

/-- Named blocks have placed lines once they are expanded. -/
theorem expandEntries_places (hpath : path.IsRooted) (graph : IncludeGraph)
    {entries : List (String × CodeBlock)} (hnames : ∀ entry ∈ entries, entry.2.name = entry.1) :
    Action.Adds (expandEntries ⟨provider.logging, settings⟩ path graph entries) fun _ result =>
      ∀ entry ∈ result.1, entry.2.name = entry.1 ∧ entry.2.IsPlaced path := by
  induction entries generalizing graph with
  | nil => exact .of_pure nofun
  | cons entry rest ih =>
    obtain ⟨name, block⟩ := entry
    obtain ⟨hname, hrest⟩ := List.forall_mem_cons.mp hnames
    unfold expandEntries
    refine (expandBlock_places hpath graph block).bind_of fun _ expanded hexpanded => ?_
    refine (ih expanded.2 hrest).bind_of fun _ others hothers => .of_pure ?_
    exact List.forall_mem_cons.mpr ⟨⟨hexpanded.1.trans hname, hexpanded.2⟩, hothers⟩

/-- A shader that is made of the tokens of a text has placed lines once its includes are
expanded. -/
theorem expandBlocks_places {text : List Char} {parsed : ParsedShader} (hpath : path.IsRooted)
    (h : parsed.shader.MadeOf (Token.IsFrom path text) path) :
    Action.Adds (expandBlocks ⟨provider.logging, settings⟩ parsed) fun _ result =>
      result.shader.IsPlaced path := by
  have hname : ∀ {name : String} {block : CodeBlock},
      IsBlock (Token.IsFrom path text) name block → block.name = name := by
    rintro name block ⟨token, -, -, rfl⟩
    rfl
  obtain rfl := h.path_eq
  have hnamed := h.named.continuesName
  have hentries : ∀ shared : Option CodeBlock × IncludeGraph,
      (∀ block ∈ shared.1, block.name = CodeBlock.sharedName ∧
        block.IsPlaced parsed.shader.path) →
      Action.Adds
        (do
          let made ← expandEntries ⟨provider.logging, settings⟩ parsed.shader.path
            shared.2 parsed.shader.blocks.entries
          return (⟨{ parsed.shader with shared? := shared.1, blocks := ⟨made.1⟩ }, made.2⟩ :
            ParsedShader))
        fun _ result => result.shader.IsPlaced parsed.shader.path := by
    intro shared hshared
    refine (expandEntries_places hpath shared.2 fun entry hentry =>
      hname (h.blocks entry hentry)).bind_of fun _ blocks hblocks => .of_pure ?_
    exact ⟨hshared, hblocks, hnamed.techniques, hnamed.uniforms, hnamed.streams⟩
  unfold expandBlocks
  cases hblock : parsed.shader.shared? with
  | none =>
    have hnone : Action.Adds
        (pure (none, parsed.dependencies) : Action (Logged σ) Error (Option CodeBlock × _))
        fun _ shared => ∀ block ∈ shared.1, block.name = CodeBlock.sharedName ∧
          block.IsPlaced parsed.shader.path := .of_pure nofun
    exact hnone.bind_of fun _ shared => hentries shared
  | some block =>
    refine (expandBlock_places hpath _ block).bind_of fun _ expanded hexpanded => ?_
    have hsome : Action.Adds (pure (some expanded.1, expanded.2) : Action (Logged σ) Error _)
        fun _ shared => ∀ block ∈ shared.1, block.name = CodeBlock.sharedName ∧
          block.IsPlaced parsed.shader.path := by
      refine .of_pure ?_
      rintro _ ⟨⟩
      exact ⟨hexpanded.1.trans (hname (h.shared block hblock)), hexpanded.2⟩
    exact hsome.bind_of fun _ shared => hentries shared

/-- A description that is read has placed lines. -/
theorem parseDescription_places (hpath : path.IsRooted) :
    Action.Adds (parseDescription ⟨provider.logging, settings⟩ path) fun _ parsed =>
      parsed.shader.IsPlaced path := by
  unfold parseDescription
  refine (provider.adds_readFile path).bind_of fun _ text _ => ?_
  refine (Action.adds_liftM _).bind_of fun _ shader hshader => ?_
  exact expandBlocks_places hpath (Description.madeOf_of_parse hshader.2)

/-- An effect file that is read has placed lines. -/
theorem parseEffect_places (hpath : path.IsRooted) :
    Action.Adds (parseEffect ⟨provider.logging, settings⟩ path) fun _ parsed =>
      parsed.shader.IsPlaced path := by
  unfold parseEffect
  refine (Include.expandFile_adds provider path).bind_of fun _ expansion hexpansion => ?_
  refine (Action.adds_liftM _).bind_of fun _ shader hshader => .of_pure ?_
  obtain ⟨-, text, inner, hunfolds, rfl⟩ := hexpansion
  obtain ⟨read, hmade, rfl⟩ := Effect.exists_madeOf_of_parse hshader.2
  have hblock : ∀ name block, IsBlock (Token.IsFrom path inner.source.text.toList) name block →
      (Effect.locateBlock inner.source.map block).name = name ∧
        (Effect.locateBlock inner.source.map block).IsPlaced path := by
    rintro name block ⟨token, htoken, hkind, rfl⟩
    obtain ⟨place, hstands, hposition⟩ := htoken.body hkind
    exact ⟨rfl, isPlaced_locateBlock hpath hunfolds hstands hposition⟩
  refine ⟨fun block hmem => ?_, fun entry hmem => ?_, (hmade.named.locateShader _).continuesName⟩
  · obtain ⟨before, hbefore, rfl⟩ := Option.map_eq_some_iff.mp hmem
    exact hblock _ before (hmade.shared before hbefore)
  · obtain ⟨before, hbefore, rfl⟩ := List.mem_map.mp hmem
    exact hblock _ before.2 (hmade.blocks before hbefore)

/-- A shader that has been read has placed lines, even if files changed meanwhile. -/
theorem isPlaced_of_parse {compiler : Compiler σ} {root : String} {state : σ}
    {parsed : ParsedShader} (h : (compiler.parse root).outcomeFrom state = .ok parsed) :
    parsed.shader.IsPlaced (.rooted root) := by
  have hpath := SourcePath.isRooted_rooted root
  have hparse : Action.Adds (parse ⟨compiler.provider.logging, compiler.settings⟩ root)
      fun _ parsed => parsed.shader.IsPlaced (.rooted root) := by
    unfold parse
    dsimp only
    cases Dialect.ofPath (.rooted root) with
    | description =>
      refine (parseDescription_places hpath).bind_of fun _ parsed hparsed => ?_
      exact (Action.adds_record _ _).bind_of fun _ _ _ => .of_pure hparsed
    | effect =>
      refine (parseEffect_places hpath).bind_of fun _ parsed hparsed => ?_
      exact (Action.adds_record _ _).bind_of fun _ _ _ => .of_pure hparsed
  rw [← outcomeFrom_parse_logging compiler root state []] at h
  obtain ⟨-, -, hplaced⟩ := hparse _ _ h
  exact hplaced

end Compiler

end ShaderAssembly
