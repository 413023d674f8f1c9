import ShaderAssembly.Proofs.AccurateGraphs
import ShaderAssembly.Proofs.CompileOutcomes
import ShaderAssembly.Proofs.ItemTexts
import ShaderAssembly.Proofs.StageCodes

/-!
# The order of declarations does not matter

A description may list its items in any order, as long as its techniques keep theirs. The code of a
block is expanded by itself, and no include leads back to the description, so that the code is the
same wherever the block stands. References are followed by name. So a description compiles in every
order or in none, to the same properties and the same stages, and without markers to the same
sources.
-/

namespace ShaderAssembly

/-! ### Code that stands elsewhere -/

namespace Include

/-- Ending the last line only looks at texts. -/
theorem Fragment.map_text_terminateLast {lines others : List SourceLine}
    (h : others.map SourceLine.text = lines.map SourceLine.text) :
    (terminateLast others).map SourceLine.text = (terminateLast lines).map SourceLine.text := by
  induction lines generalizing others with
  | nil => rw [List.map_eq_nil_iff.mp h]
  | cons line lines ih =>
    obtain ⟨other, rest, rfl, hline, hrest⟩ := List.map_eq_cons_iff.mp h
    cases lines with
    | nil =>
      rw [List.map_eq_nil_iff.mp hrest]
      simp [terminateLast, hline]
    | cons next lines =>
      obtain ⟨other, rest, rfl, -, -⟩ := List.map_eq_cons_iff.mp hrest
      simp only [terminateLast, List.map_cons, hline, ih hrest]

variable {contents other : Contents} {openFiles : List SourcePath} {file : SourcePath}
  {number : Nat} {lines : List (List Char)} {fragment : Fragment}

/-- Lines expand to the same texts wherever they stand in their file, and whatever is in the files
that are open. -/
theorem Expands.exists_elsewhere (h : Expands contents openFiles file number lines fragment)
    (hsame : ∀ path, path.IsRooted → path ∉ openFiles → other path = contents path)
    (place : Nat) :
    ∃ moved, Expands other openFiles file place lines moved ∧
      moved.lines.map SourceLine.text = fragment.lines.map SourceLine.text := by
  induction h generalizing place with
  | done => exact ⟨_, .done, rfl⟩
  | @keep openFiles file number line rest others hline _ ih =>
    obtain ⟨moved, hmoved, htexts⟩ := ih hsame (place + 1)
    exact ⟨_, .keep hline hmoved, congrArg (line :: ·) htexts⟩
  | @replace openFiles file number line rest target text inner others hline hnew hread _ _ ihinner
      ihrest =>
    have hfile := hsame _ (SourcePath.isRooted_resolveInclude file target) hnew
    obtain ⟨included, hincluded, hinner⟩ := ihinner
      (fun path hpath hopen => hsame path hpath fun hmem => hopen (List.mem_append_left _ hmem)) 1
    obtain ⟨moved, hmoved, htexts⟩ := ihrest hsame (place + 1)
    refine ⟨_, .replace hline hnew (hfile.trans hread) hincluded hmoved, ?_⟩
    show (Fragment.terminateLast included.lines ++ moved.lines).map SourceLine.text =
      (Fragment.terminateLast inner.lines ++ others.lines).map SourceLine.text
    rw [List.map_append, List.map_append, Fragment.map_text_terminateLast hinner, htexts]

end Include

namespace Compiler

open Include (Expands)

variable {contents other : Contents} {path : SourcePath} {graph after : IncludeGraph}

/-- What the code of a block in a file expands to, wherever the block stands. -/
def CodeExpands (contents : Contents) (path : SourcePath) (body text : String) : Prop :=
  ∀ number, ∃ fragment, Expands contents [path] path number (Text.lines body.toList) fragment ∧
    fragment.source.text = text

/-- The code of a block that is expanded expands to the same wherever the block stands, and with
any text of its own file. -/
theorem BlockExpands.codeExpands {block expanded : CodeBlock}
    (h : BlockExpands contents path graph block expanded after)
    (hsame : ∀ file, file.IsRooted → file ≠ path → other file = contents file) :
    expanded.name = block.name ∧ CodeExpands other path block.body expanded.expanded.text := by
  obtain ⟨hexpands⟩ := h
  refine ⟨rfl, fun number => ?_⟩
  obtain ⟨moved, hmoved, htexts⟩ := hexpands.exists_elsewhere
    (fun file hfile hopen => hsame file hfile (by simpa using hopen)) number
  have hsource : String.ofList (moved.lines.map SourceLine.text).flatten = _ :=
    congrArg (fun texts => String.ofList texts.flatten) htexts
  exact ⟨moved, hmoved, hsource⟩

/-- A block is expanded to what its code expands to. -/
theorem CodeExpands.exists_blockExpands {block : CodeBlock} {text : String}
    (h : CodeExpands contents path block.body text) (graph : IncludeGraph) :
    ∃ expanded after, BlockExpands contents path graph block expanded after ∧
      expanded.namedCode = (block.name, text) := by
  obtain ⟨fragment, hexpands, htext⟩ := h block.position.line
  exact ⟨_, _, .intro hexpands, congrArg (block.name, ·) htext⟩

/-- If the shared block of a shader is expanded, one with the same code is expanded to the same. -/
theorem SharedExpands.exists_like {shared? expanded? others? : Option CodeBlock}
    (h : SharedExpands contents path graph shared? expanded? after)
    (hsame : ∀ file, file.IsRooted → file ≠ path → other file = contents file)
    (hcode : others?.map (fun block => (block.name, block.body)) =
      shared?.map fun block => (block.name, block.body)) (start : IncludeGraph) :
    ∃ again? last, SharedExpands other path start others? again? last ∧
      again?.map CodeBlock.namedCode = expanded?.map CodeBlock.namedCode := by
  cases h with
  | none =>
    rw [Option.map_eq_none_iff.mp hcode]
    exact ⟨_, _, .none, rfl⟩
  | some h =>
    obtain ⟨block, rfl, hblock⟩ := Option.map_eq_some_iff.mp hcode
    obtain ⟨hname, hbody⟩ := Prod.mk.inj hblock
    obtain ⟨hkept, hexpands⟩ := h.codeExpands hsame
    rw [← hbody] at hexpands
    obtain ⟨again, last, hagain, hnamed⟩ := hexpands.exists_blockExpands start
    refine ⟨_, _, .some hagain, ?_⟩
    rw [Option.map_some, Option.map_some, hnamed, hname, ← hkept]
    rfl

/-- What a named block with a name and a body becomes: the name stays, and the code is expanded. -/
structure EntryExpands (contents : Contents) (path : SourcePath)
    (written expanded : String × String × String) : Prop where
  /-- The entry stays where it is. -/
  key_eq : expanded.1 = written.1
  /-- The block keeps its name. -/
  name_eq : expanded.2.1 = written.2.1
  /-- The code is expanded. -/
  code : CodeExpands contents path written.2.2 expanded.2.2

/-- Named blocks that are expanded become what their names and their code say. -/
theorem EntriesExpand.forall₂ {entries expanded : List (String × CodeBlock)}
    (h : EntriesExpand contents path graph entries expanded after)
    (hsame : ∀ file, file.IsRooted → file ≠ path → other file = contents file) :
    List.Forall₂ (EntryExpands other path)
      (entries.map fun entry => (entry.1, entry.2.name, entry.2.body))
      (expanded.map fun entry => (entry.1, entry.2.namedCode)) := by
  induction h with
  | nil => exact .nil
  | cons hblock _ ih =>
    obtain ⟨hname, hcode⟩ := hblock.codeExpands hsame
    exact .cons ⟨rfl, hname, hcode⟩ ih

/-- Named blocks are expanded to what their names and their code say. -/
theorem exists_entriesExpand {entries : List (String × CodeBlock)}
    {texts : List (String × String × String)}
    (h : List.Forall₂ (EntryExpands contents path)
      (entries.map fun entry => (entry.1, entry.2.name, entry.2.body)) texts)
    (start : IncludeGraph) :
    ∃ expanded last, EntriesExpand contents path start entries expanded last ∧
      expanded.map (fun entry => (entry.1, entry.2.namedCode)) = texts := by
  induction entries generalizing texts start with
  | nil =>
    cases h
    exact ⟨_, _, .nil, rfl⟩
  | cons entry entries ih =>
    obtain ⟨text, texts, hentry, hrest, rfl⟩ := List.forall₂_cons_left_iff.mp h
    obtain ⟨block, middle, hblock, hnamed⟩ := hentry.code.exists_blockExpands start
    obtain ⟨expanded, last, hexpands, rfl⟩ := ih hrest middle
    refine ⟨(entry.1, block) :: expanded, last, .cons hblock hexpands, ?_⟩
    rw [List.map_cons, hnamed]
    refine congrArg (· :: _) ?_
    exact Prod.ext hentry.key_eq.symm (Prod.ext hentry.name_eq.symm rfl)

/-- If named blocks are expanded, blocks with the same names and code in another order are expanded
to the same in another order. -/
theorem EntriesExpand.exists_of_perm {entries expanded others : List (String × CodeBlock)}
    (h : EntriesExpand contents path graph entries expanded after)
    (hsame : ∀ file, file.IsRooted → file ≠ path → other file = contents file)
    (hperm : (others.map fun entry => (entry.1, entry.2.name, entry.2.body)).Perm
      (entries.map fun entry => (entry.1, entry.2.name, entry.2.body))) (start : IncludeGraph) :
    ∃ again last, EntriesExpand other path start others again last ∧
      (again.map fun entry => (entry.1, entry.2.namedCode)).Perm
        (expanded.map fun entry => (entry.1, entry.2.namedCode)) := by
  obtain ⟨texts, htexts, hmoved⟩ := List.perm_comp_forall₂ hperm (h.forall₂ hsame)
  obtain ⟨again, last, hagain, rfl⟩ := exists_entriesExpand htexts start
  exact ⟨again, last, hagain, hmoved⟩

/-- Blocks stay under their keys when they are expanded. -/
theorem EntriesExpand.map_fst {entries expanded : List (String × CodeBlock)}
    (h : EntriesExpand contents path graph entries expanded after) :
    expanded.map Prod.fst = entries.map Prod.fst := by
  induction h with
  | nil => rfl
  | cons _ _ ih => exact congrArg (_ :: ·) ih

/-! ### Descriptions in another order -/

section Descriptions

open Description

/-- A shader that a description declares, its blocks expanded, has nothing but code. -/
theorem hasOnlyCode_of_declares {tokens : List Token} {items : List Item} {shader : Shader}
    (hdescription : IsDescription tokens items) (hdeclares : Declares path items shader)
    (shared? : Option CodeBlock) (blocks : OrderedMap String CodeBlock) :
    ({ shader with shared?, blocks } : Shader).HasOnlyCode where
  uniforms := congrArg OrderedMap.values hdeclares.uniforms
  interfaces := hdeclares.interface?_eq_none hdescription

/-- If a description is read, so is one with the same items in another order, as a shader that
declares the same. -/
theorem exists_parse_rearranged {layout another : Layout path} (horder : layout.Rearranges another)
    {shader : Shader} (hparse : (Description.parse path layout.text).outcome = .ok shader) :
    ∃ read, (Description.parse path another.text).outcome = .ok read ∧
      shader.path = path ∧ shader.DeclaresLike read ∧ shader.blocks.keys.Nodup ∧
        ∀ shared? blocks, ({ shader with shared?, blocks } : Shader).HasOnlyCode ∧
          ({ read with shared?, blocks } : Shader).HasOnlyCode := by
  obtain ⟨items, hitems, htexts⟩ := layout.exists_isDescription
  obtain ⟨others, hothers, hmoved⟩ := another.exists_isDescription
  have hrearranges := horder.items htexts hmoved
  obtain ⟨hconsistent, hsome⟩ := hitems.parse_iff.1.mp ⟨shader, hparse⟩
  have hdeclares := hitems.parse_iff.2 shader hparse
  have hsomeAgain : others.filterMap Item.technique? ≠ [] := by
    have houtlines := hrearranges.outlines
    rw [Item.filterMap_outline?, Item.filterMap_outline?] at houtlines
    intro hnone
    rw [hnone] at houtlines
    exact hsome (List.map_eq_nil_iff.mp houtlines.symm)
  obtain ⟨read, hread⟩ :=
    hothers.parse_iff.1.mpr ⟨hconsistent.of_rearranges hrearranges, hsomeAgain⟩
  have hdeclaresAgain := hothers.parse_iff.2 read hread
  have hkeys : shader.blocks.keys.Nodup := by
    rw [OrderedMap.keys, hdeclares.blocks, List.map_map]
    exact hconsistent.blocks
  exact ⟨read, hread, hdeclares.path_eq,
    hdeclares.like hdeclaresAgain hconsistent hrearranges, hkeys, fun shared? blocks =>
      ⟨hasOnlyCode_of_declares hitems hdeclares shared? blocks,
        hasOnlyCode_of_declares hothers hdeclaresAgain shared? blocks⟩⟩

/-- If a description is read and expanded, so is one with the same items in another order. It has
the same properties, but for positions, and the same code. -/
theorem DescriptionParses.exists_rearranged {layout another : Layout path} {parsed : ParsedShader}
    (h : DescriptionParses contents path parsed) (hread : contents path = .ok layout.text)
    (hagain : other path = .ok another.text) (horder : layout.Rearranges another)
    (hsame : ∀ file, file.IsRooted → file ≠ path → other file = contents file) :
    ∃ moved, DescriptionParses other path moved ∧
      moved.shader.properties.mapValues Property.unplaced =
          parsed.shader.properties.mapValues Property.unplaced ∧
        moved.shader.HasCodeOf parsed.shader ∧
          parsed.shader.HasOnlyCode ∧ moved.shader.HasOnlyCode := by
  cases h with
  | @intro text shader shared? blocks middle graph hcontents hparse hshared hblocks =>
    obtain rfl := Except.ok.inj (hread.symm.trans hcontents)
    obtain ⟨read, hreadAgain, hpath, hlike, hkeys, hplain⟩ :=
      exists_parse_rearranged horder hparse
    rw [hpath] at hshared hblocks
    obtain ⟨sharedAgain?, middleAgain, hsharedAgain, hsharedCode⟩ :=
      hshared.exists_like hsame hlike.shared
        ((IncludeGraph.ofRoot path).addTexts [⟨path, another.text⟩])
    obtain ⟨blocksAgain, graphAgain, hblocksAgain, hperm⟩ :=
      hblocks.exists_of_perm hsame hlike.blocks middleAgain
    have hcode : ∀ name, ((⟨blocksAgain⟩ : OrderedMap String CodeBlock).get? name).map
        CodeBlock.namedCode = ((⟨blocks⟩ : OrderedMap String CodeBlock).get? name).map
          CodeBlock.namedCode := by
      intro name
      rw [← OrderedMap.get?_mapValues, ← OrderedMap.get?_mapValues]
      refine OrderedMap.get?_eq_of_perm hperm ?_
      have hexpanded : (OrderedMap.mapValues CodeBlock.namedCode ⟨blocks⟩).keys =
          blocks.map Prod.fst := List.map_map
      rw [hexpanded, hblocks.map_fst]
      exact hkeys
    have hreadPath : read.path = path := hlike.path_eq.trans hpath
    have hsharedRead : SharedExpands other read.path
        ((IncludeGraph.ofRoot path).addTexts [⟨path, another.text⟩]) read.shared? sharedAgain?
        middleAgain := by
      rw [hreadPath]
      exact hsharedAgain
    have hblocksRead : EntriesExpand other read.path middleAgain read.blocks.entries blocksAgain
        graphAgain := by
      rw [hreadPath]
      exact hblocksAgain
    exact ⟨⟨{ read with shared? := sharedAgain?, blocks := ⟨blocksAgain⟩ }, graphAgain⟩,
      .intro hagain hreadAgain hsharedRead hblocksRead, hlike.properties,
      ⟨hsharedCode, hcode, hlike.techniques⟩, (hplain shared? ⟨blocks⟩).1,
      (hplain sharedAgain? ⟨blocksAgain⟩).2⟩

end Descriptions

/-! ### Compilations in another order -/

section Compilations

open Description

/-- Whether two compilations are the same but for positions and for what the markers in sources
say. -/
structure AgreesWith (settings : Settings) (compilation other : Compilation) : Prop where
  /-- The properties are the same but for positions. -/
  properties : other.shader.properties.mapValues Property.unplaced =
    compilation.shader.properties.mapValues Property.unplaced
  /-- The stages have the same keys and are made of the same blocks. -/
  blocks : other.stages.map (fun entry => (entry.1, entry.2.blocks)) =
    compilation.stages.map fun entry => (entry.1, entry.2.blocks)
  /-- Without markers the sources are the same. -/
  sources : settings.lineMarkers = .none → other.stages.sources = compilation.stages.sources

variable {settings : Settings} {layout another : Layout path} {compilation : Compilation}

/-- If a description is compiled, so is one with the same items in another order, to the same. -/
theorem Compiles.exists_rearranged (h : Compiles contents settings path compilation)
    (hdialect : Dialect.ofPath path = .description) (hread : contents path = .ok layout.text)
    (hagain : other path = .ok another.text) (horder : layout.Rearranges another)
    (hsame : ∀ file, file.IsRooted → file ≠ path → other file = contents file) :
    ∃ moved, Compiles other settings path moved ∧ AgreesWith settings compilation moved := by
  have hparses := h.parses
  rw [Parses, hdialect] at hparses
  obtain ⟨moved, hmoved, hproperties, hcode, hplain, hplainAgain⟩ :=
    hparses.exists_rearranged hread hagain horder hsame
  obtain ⟨stages, hstages, hblocks, hsources⟩ :=
    Linking.exists_link_of_hasCodeOf hcode hplain hplainAgain h.links
  refine ⟨⟨moved.shader, stages, moved.dependencies⟩, ⟨?_, hstages⟩, hproperties, hblocks, hsources⟩
  rw [Parses, hdialect]
  exact hmoved

variable {σ τ : Type} {first : Provider σ} {second : Provider τ} {left : σ} {right : τ}
  {root : String}

/-- If a compile of a description succeeds, so does one of the same items in another order, with the
same result. -/
theorem exists_compile_rearranged {layout another : Layout (.rooted root)}
    (hdialect : Dialect.ofPath (.rooted root) = .description)
    (hleft : first.ServesFinitely left contents) (hright : second.ServesFinitely right other)
    (hread : contents (.rooted root) = .ok layout.text)
    (hagain : other (.rooted root) = .ok another.text) (horder : layout.Rearranges another)
    (hsame : ∀ file, file.IsRooted → file ≠ .rooted root → other file = contents file)
    (hok : (compile ⟨first, settings⟩ root).outcomeFrom left = .ok compilation) :
    ∃ moved, (compile ⟨second, settings⟩ root).outcomeFrom right = .ok moved ∧
      AgreesWith settings compilation moved := by
  have hcompiles : Compiles contents settings (.rooted root) compilation :=
    compiles_of_compile hleft.serves hok
  obtain ⟨moved, hmoved, hagrees⟩ :=
    hcompiles.exists_rearranged hdialect hread hagain horder hsame
  have hrun : Compiles other (Compiler.mk second settings).settings (.rooted root) moved := hmoved
  exact ⟨moved, hrun.outcomeFrom_of_servesFinitely hright, hagrees⟩

/-- The order of declarations does not matter. Over files that do not change, two descriptions that
are put together from the same items, with the techniques in the same order, both fail to compile or
both compile, with the same properties but for positions and with the same stages in the same order,
made of the same blocks. Without markers the sources are the same, too. -/
theorem compile_rearranged (settings : Settings) {layout another : Layout (.rooted root)}
    (hdialect : Dialect.ofPath (.rooted root) = .description)
    (hleft : first.ServesFinitely left contents) (hright : second.ServesFinitely right other)
    (hread : contents (.rooted root) = .ok layout.text)
    (hagain : other (.rooted root) = .ok another.text) (horder : layout.Rearranges another)
    (hsame : ∀ file, file.IsRooted → file ≠ .rooted root → other file = contents file) :
    (∃ error fault, (compile ⟨first, settings⟩ root).outcomeFrom left = .error error ∧
      (compile ⟨second, settings⟩ root).outcomeFrom right = .error fault) ∨
    ∃ compilation moved, (compile ⟨first, settings⟩ root).outcomeFrom left = .ok compilation ∧
      (compile ⟨second, settings⟩ root).outcomeFrom right = .ok moved ∧
        AgreesWith settings compilation moved := by
  cases hok : (compile ⟨first, settings⟩ root).outcomeFrom left with
  | ok compilation =>
    obtain ⟨moved, hmoved, hagrees⟩ := exists_compile_rearranged hdialect hleft hright hread hagain
      horder hsame hok
    exact .inr ⟨compilation, moved, rfl, hmoved, hagrees⟩
  | error error =>
    cases hmoved : (compile ⟨second, settings⟩ root).outcomeFrom right with
    | error fault => exact .inl ⟨error, fault, rfl, rfl⟩
    | ok moved =>
      -- A success of the second compile is one of the first, which is an error.
      obtain ⟨compilation, hcompilation, -⟩ := exists_compile_rearranged hdialect hright hleft
        hagain hread horder.symm (fun file hfile hroot => (hsame file hfile hroot).symm) hmoved
      rw [hok] at hcompilation
      cases hcompilation

/-- A description with some items, each on lines of its own. -/
def sampleLayout (items : List WrittenItem)
    (h : ∀ written ∈ items, readsAsItem ⟨"/a.shader"⟩ written.text = true) :
    Layout (.rooted "a.shader") where
  opening := r"Shader {"
  items := items
  closing := r"} // end"
  opens := ⟨⟨.identifier, "Shader", ⟨⟨"/a.shader"⟩, 1, 1⟩⟩,
    ⟨.openBrace, r"{", ⟨⟨"/a.shader"⟩, 1, 8⟩⟩, ⟨⟨"/a.shader"⟩, 1, 9⟩, by decide +kernel, rfl, rfl⟩
  isItem := fun written hwritten => exists_isItemText (h written hwritten)
  closes := ⟨⟨.closeBrace, r"}", ⟨⟨"/a.shader"⟩, 1, 1⟩⟩, ⟨⟨"/a.shader"⟩, 1, 9⟩,
    by decide +kernel, rfl⟩

/-- Properties, shared code, a block and a technique, in this order. -/
def forwardsLayout : Layout (.rooted "a.shader") :=
  sampleLayout [⟨1, r#"Properties { _a("A", float) = 0.5 }"#⟩,
    ⟨0, r"GLSL {" ++ "\n#include \"b.glsl\"\n" ++ r"}"⟩, ⟨0, "GLSL A {int c;} // code"⟩,
    ⟨2, "Technique T { Pass { Vertex = A Fragment = (A, A) } }"⟩] (by decide +kernel)

/-- The same items the other way round. -/
def backwardsLayout : Layout (.rooted "a.shader") :=
  sampleLayout forwardsLayout.items.reverse (by decide +kernel)

/-- Items in two orders, with different numbers of empty lines between them. -/
theorem compile_rearranged_backwards :
    let settings := { Settings.standard with lineMarkers := .none }
    let compiler : Compiler MemorySources := ⟨MemorySources.provider, settings⟩
    let files := (MemorySources.ofFiles [(⟨"/b.glsl"⟩, "int b;")]).write (.rooted "a.shader")
    ∃ compilation moved,
      (compiler.compile "a.shader").outcomeFrom (files forwardsLayout.text) = .ok compilation ∧
      (compiler.compile "a.shader").outcomeFrom (files backwardsLayout.text) = .ok moved ∧
      compilation.stages.length = 2 ∧ AgreesWith settings compilation moved := by
  intro settings compiler files
  have horder : forwardsLayout.Rearranges backwardsLayout :=
    ⟨List.reverse_perm forwardsLayout.texts, by decide +kernel⟩
  have hsame : ∀ file : SourcePath, file.IsRooted → file ≠ .rooted "a.shader" →
      (files backwardsLayout.text).contents file = (files forwardsLayout.text).contents file := by
    intro file hfile hroot
    exact (MemorySources.contents_write_of_ne _ _ hfile hroot).trans
      (MemorySources.contents_write_of_ne _ _ hfile hroot).symm
  have hrun : ((compiler.compile "a.shader").outcomeFrom (files forwardsLayout.text)).toOption.any
      (fun compilation => compilation.stages.length = 2) = true := by decide +kernel
  obtain ⟨compilation, hcompilation, hstages⟩ := exists_of_toOption_any hrun
  have hread : (files forwardsLayout.text).contents (.rooted "a.shader") =
      .ok forwardsLayout.text := rfl
  have hagain : (files backwardsLayout.text).contents (.rooted "a.shader") =
      .ok backwardsLayout.text := rfl
  obtain ⟨again, moved, hfirst, hmoved, hagrees⟩ := (compile_rearranged settings (by decide)
    (MemorySources.servesFinitely rfl) (MemorySources.servesFinitely rfl) hread hagain horder
    hsame).resolve_left (by
      rintro ⟨error, _, herror, -⟩
      exact nomatch hcompilation.symm.trans herror)
  obtain rfl := Except.ok.inj (hcompilation.symm.trans hfirst)
  exact ⟨compilation, moved, hcompilation, hmoved, of_decide_eq_true hstages, hagrees⟩

end Compilations

end Compiler

end ShaderAssembly
