import ShaderAssembly.Proofs.DescribedShaders
import ShaderAssembly.Proofs.WrittenTokens

/-!
# Shaders that are written as descriptions

An outline has the code blocks and techniques of a shader without positions. It is written as a
description in the usual layout, and if its names are names and the braces of its bodies match, the
description is read as a shader with that outline: whatever stands in a body stays in it.
-/

namespace ShaderAssembly

open ShaderAssembly.Grammar

/-! ### Outlines -/

/-- A technique: its name, and for each pass the names of the blocks that each stage binds. -/
structure TechniqueOutline where
  /-- The name. -/
  name : String
  /-- The passes, each with its stages in order. -/
  passes : List (List (Stage × List String))
  deriving DecidableEq, Repr

/-- The code blocks and techniques of a shader. -/
structure Outline where
  /-- The code that every stage starts with. -/
  shared? : Option String
  /-- The names of the other blocks and their code, in order. -/
  blocks : List (String × String)
  /-- The techniques in order. -/
  techniques : List TechniqueOutline
  deriving DecidableEq, Repr

/-- The stages that a pass binds, with the names of their blocks. -/
def Pass.outline (pass : Pass) : List (Stage × List String) :=
  pass.stages.entries.map fun entry => (entry.1, entry.2.blocks.map BlockReference.name)

/-- The outline of a technique. -/
def Technique.outline (technique : Technique) : TechniqueOutline :=
  ⟨technique.name, technique.passes.map Pass.outline⟩

/-- The outline of a shader. -/
def Shader.outline (shader : Shader) : Outline :=
  ⟨shader.shared?.map CodeBlock.body,
    shader.blocks.entries.map fun entry => (entry.1, entry.2.body),
    shader.techniques.entries.map fun entry => entry.2.outline⟩

/-- Whether a technique can be written and read again. -/
structure TechniqueOutline.IsWritable (technique : TechniqueOutline) : Prop where
  /-- It has a name. -/
  name : Piece.isName technique.name.toList = true
  /-- It has a pass. -/
  passes : technique.passes ≠ []
  /-- No pass binds a stage twice, and each binds those that have to be bound. -/
  stages : ∀ pass ∈ technique.passes, (pass.map Prod.fst).Nodup ∧
    .vertex ∈ pass.map Prod.fst ∧ .fragment ∈ pass.map Prod.fst
  /-- Each stage that is bound is bound to some blocks. -/
  references : ∀ pass ∈ technique.passes, ∀ binding ∈ pass, binding.2 ≠ [] ∧
    ∀ reference ∈ binding.2, Piece.isName reference.toList = true

/-- Whether an outline can be written and read again. -/
structure Outline.IsWritable (outline : Outline) : Prop where
  /-- The braces of the shared code match. -/
  shared : ∀ code ∈ outline.shared?, IsBraced code.toList
  /-- Every other block has a name, and its braces match. -/
  blocks : ∀ block ∈ outline.blocks,
    Piece.isName block.1.toList = true ∧ IsBraced block.2.toList
  /-- No two blocks have one name. -/
  blockNames : (outline.blocks.map Prod.fst).Nodup
  /-- There is a technique. -/
  techniques : outline.techniques ≠ []
  /-- No two techniques have one name. -/
  techniqueNames : (outline.techniques.map TechniqueOutline.name).Nodup
  /-- Every technique can be written. -/
  writable : ∀ technique ∈ outline.techniques, technique.IsWritable

namespace Description

open ShaderAssembly.Parser ShaderAssembly.Word

/-! ### Writing -/

/-- `A, B) `, which is what follows the opening bracket of references. -/
def referenceWords : List String → List Word
  | [] => []
  | [last] => [name last [], mark .closeParen ')' [' ']]
  | first :: others => [name first [], mark .comma ',' [' ']] ++ referenceWords others

/-- `Slot = (A, B) ` -/
def bindingWords (binding : Stage × List String) : List Word :=
  [name binding.1.keyword [' ']] ++ [mark .equal '=' [' ']] ++ [mark .openParen '(' []] ++
    referenceWords binding.2

/-- `Pass { Slot = (A, B) ... } ` -/
def passWords (pass : List (Stage × List String)) : List Word :=
  [name "Pass" [' ']] ++ [mark .openBrace '{' [' ']] ++ pass.flatMap bindingWords ++
    [mark .closeBrace '}' [' ']]

/-- `Technique Name { Pass { ... } ... } ` -/
def techniqueWords (technique : TechniqueOutline) : List Word :=
  [name "Technique" [' ']] ++ [name technique.name [' ']] ++ [mark .openBrace '{' [' ']] ++
    technique.passes.flatMap passWords ++ [mark .closeBrace '}' [' ']]

/-- `Shader { GLSL {code} GLSL Name {code} ... Technique Name { ... } ... }`, with the code of a
block right between its braces, since blanks there are part of it -/
def words (outline : Outline) : List Word :=
  [name "Shader" [' ']] ++ [mark .openBrace '{' [' ']] ++
    outline.shared?.toList.flatMap (block "GLSL" none) ++
    outline.blocks.flatMap (fun entry => block "GLSL" (some entry.1) entry.2) ++
    outline.techniques.flatMap techniqueWords ++ [mark .closeBrace '}' []]

/-- The description that has an outline. -/
def text (outline : Outline) : String := String.ofList (Word.text (words outline))

/-! ### Legibility -/

section Legibility

/-- Where no declaration can start, any name is read as one. -/
theorem readsName_of_isBehind {kind : TokenKind} {name : String} {state : ScanState}
    (hkind : kind.endsDeclaration = false) (h : state.IsBehind kind) :
    ReadsName blockRule name state :=
  ⟨h.head, .inl (ScanState.not_atDeclaration_of_previous h.previous hkind)⟩

theorem leads_referenceWords {references : List String} (hsome : references ≠ [])
    (hnames : ∀ reference ∈ references, Piece.isName reference.toList = true)
    {kind : TokenKind} (hkind : kind.endsDeclaration = false) :
    Leads blockRule (·.IsBehind kind) (referenceWords references) (·.IsBehind .closeParen) := by
  induction references generalizing kind with
  | nil => exact absurd rfl hsome
  | cons first others ih =>
    rw [List.forall_mem_cons] at hnames
    match others with
    | [] =>
      exact leads_name_mark hnames.1 (fun _ => readsName_of_isBehind hkind) rfl isBlank_gap
    | second :: others =>
      have hfirst : Leads blockRule (·.IsBehind kind) [name first [], mark .comma ',' [' ']]
          (·.IsBehind .comma) :=
        leads_name_mark hnames.1 (fun _ => readsName_of_isBehind hkind) rfl isBlank_gap
      exact hfirst.append (ih nofun hnames.2 rfl)

/-- A mark behind another token. -/
theorem leads_next {kind other : TokenKind} {c : Char} {gap : List Char}
    (hmark : Piece.punctuation? c = some kind) (hgap : ∀ c ∈ gap, Text.isBlank c = true) :
    Leads blockRule (·.IsBehind other) [mark kind c gap] (·.IsBehind kind) :=
  leads_mark (fun _ hstate => hstate.head) hmark hgap

/-- The brace that opens a technique or a pass. -/
theorem leads_opening : Leads blockRule (·.IsBehind .identifier)
    [mark .openBrace '{' [' ']] (·.head = .none) :=
  (leads_next rfl isBlank_gap).mono fun _ hstate => hstate.head

/-- The brace that closes a technique or a pass. -/
theorem leads_closing :
    Leads blockRule (·.head = .none) [mark .closeBrace '}' [' ']] (·.head = .none) :=
  (leads_mark (fun _ hhead => hhead) rfl isBlank_gap).mono fun _ hstate => hstate.head

/-- A word of the grammar that is not the keyword of blocks. -/
theorem leads_word {word : String} (hname : Piece.isName word.toList = true)
    (hword : word ≠ "GLSL") :
    Leads blockRule (·.head = .none) [name word [' ']] (·.IsBehind .identifier) :=
  leads_name hname fun _ hhead => ⟨hhead, .inr hword⟩

theorem leads_bindingWords {binding : Stage × List String} (hsome : binding.2 ≠ [])
    (hnames : ∀ reference ∈ binding.2, Piece.isName reference.toList = true) :
    Leads blockRule (·.head = .none) (bindingWords binding) (·.head = .none) := by
  have hslot : Leads blockRule (·.head = .none) [name binding.1.keyword [' ']]
      (·.IsBehind .identifier) := by
    cases binding.1 <;> exact leads_word (by decide) (by decide)
  have hequal : Leads blockRule (·.IsBehind .identifier) [mark .equal '=' [' ']]
      (·.IsBehind .equal) := leads_next rfl isBlank_gap
  have hopening : Leads blockRule (·.IsBehind .equal) [mark .openParen '(' []]
      (·.IsBehind .openParen) := leads_next rfl nofun
  exact ((hslot.append hequal).append hopening).append
    ((leads_referenceWords hsome hnames rfl).mono fun _ hstate => hstate.head)

theorem leads_passWords {pass : List (Stage × List String)}
    (hreferences : ∀ binding ∈ pass, binding.2 ≠ [] ∧
      ∀ reference ∈ binding.2, Piece.isName reference.toList = true) :
    Leads blockRule (·.head = .none) (passWords pass) (·.head = .none) := by
  have hkeyword : Leads blockRule (·.head = .none) [name "Pass" [' ']] (·.IsBehind .identifier) :=
    leads_word (by decide) (by decide)
  have hbindings := Leads.flatMap fun binding hbinding =>
    leads_bindingWords (hreferences binding hbinding).1 (hreferences binding hbinding).2
  exact ((hkeyword.append leads_opening).append hbindings).append leads_closing

theorem leads_techniqueWords {technique : TechniqueOutline} (h : technique.IsWritable) :
    Leads blockRule (·.head = .none) (techniqueWords technique) (·.head = .none) := by
  have hkeyword : Leads blockRule (·.head = .none) [name "Technique" [' ']]
      (·.IsBehind .identifier) := leads_word (by decide) (by decide)
  have hname : Leads blockRule (·.IsBehind .identifier) [name technique.name [' ']]
      (·.IsBehind .identifier) := leads_name h.name fun _ => readsName_of_isBehind rfl
  have hpasses := Leads.flatMap fun pass hpass => leads_passWords (h.references pass hpass)
  exact (((hkeyword.append hname).append leads_opening).append hpasses).append leads_closing

/-- Inside the braces of the shader a declaration can start. -/
theorem leads_inside : Leads blockRule (· = .start)
    ([name "Shader" [' ']] ++ [mark .openBrace '{' [' ']]) (·.IsAtItem blockRule) := by
  rintro _ rest rfl hrest
  refine .name nofun (by decide) isBlank_gap (by rintro _ ⟨⟩; rfl) ?_
  exact .mark (by decide) rfl isBlank_gap (fun hbrace => absurd hbrace (by decide))
    (hrest _ ⟨by decide, by decide⟩)

/-- The words of a description are legible. -/
theorem isLegible_words {outline : Outline} (h : outline.IsWritable) :
    IsLegible (some blockRule) .start (words outline) := by
  have hkeyword : Piece.isName "GLSL".toList = true := by decide
  have hshared : Leads blockRule (·.IsAtItem blockRule)
      (outline.shared?.toList.flatMap (block "GLSL" none)) (·.IsAtItem blockRule) :=
    .flatMap fun code hcode => leads_block hkeyword nofun (h.shared code (by simpa using hcode))
  have hblocks : Leads blockRule (·.IsAtItem blockRule)
      (outline.blocks.flatMap fun entry => block "GLSL" (some entry.1) entry.2)
      (·.head = .none) := by
    refine Leads.mono (.flatMap fun entry hentry => ?_) fun _ hstate => hstate.head
    obtain ⟨hname, hcode⟩ := h.blocks entry hentry
    exact leads_block hkeyword (by rintro _ ⟨⟩; exact hname) hcode
  have htechniques := Leads.flatMap fun technique htechnique =>
    leads_techniqueWords (h.writable technique htechnique)
  have hclosing : Leads blockRule (·.head = .none) [mark .closeBrace '}' []] (·.head = .none) :=
    (leads_mark (fun _ hhead => hhead) rfl (List.forall_mem_nil _)).mono fun _ hstate => hstate.head
  have hwords := (((leads_inside.append hshared).append hblocks).append htechniques).append hclosing
  rw [← List.append_nil (words outline)]
  exact hwords .start [] rfl fun next hhead => .finish (by simp [hhead])

end Legibility

/-! ### Reading -/

section Reading

variable {tokens : List Token}

theorem exists_references_of_spelled {references : List String} (hsome : references ≠ [])
    (h : tokens.map Token.spelled = (referenceWords references).map spelled) :
    ∃ items closing values, tokens = items ++ [closing] ∧
      CommaSeparated IsReference items values ∧ closing.kind = .closeParen ∧
        values.map BlockReference.name = references := by
  induction references generalizing tokens with
  | nil => exact absurd rfl hsome
  | cons first others ih =>
    match others with
    | [] =>
      obtain ⟨name, _, rfl, hname, h⟩ := exists_name_of_spelled h
      obtain ⟨closing, _, rfl, hclosing, h⟩ := exists_mark_of_spelled h
      obtain rfl := List.map_eq_nil_iff.mp h
      obtain ⟨hkind, hlexeme⟩ := isKeyword_iff.mp hname
      have hitems : CommaSeparated IsReference ([name] ++ []) [⟨name.lexeme, name.position⟩] :=
        .items (.name hkind) .nil
      exact ⟨_, closing, _, rfl, hitems, hclosing, congrArg (fun first => [first]) hlexeme⟩
    | second :: others =>
      obtain ⟨name, _, rfl, hname, h⟩ := exists_name_of_spelled h
      obtain ⟨comma, _, rfl, hcomma, h⟩ := exists_mark_of_spelled h
      obtain ⟨items, closing, values, rfl, hitems, hclosing, hvalues⟩ := ih nofun h
      obtain ⟨hkind, hlexeme⟩ := isKeyword_iff.mp hname
      have hitems : CommaSeparated IsReference ([name] ++ (comma :: items))
          (⟨name.lexeme, name.position⟩ :: values) := by
        obtain ⟨hsecond, hmore⟩ := hitems
        exact .items (.name hkind) (.cons (.mark hcomma hsecond) hmore)
      exact ⟨_, closing, _, rfl, hitems, hclosing, congrArg₂ List.cons hlexeme hvalues⟩

theorem exists_binding_of_spelled {binding : Stage × List String} (hsome : binding.2 ≠ [])
    (h : tokens.map Token.spelled = (bindingWords binding).map spelled) :
    ∃ value, IsBinding tokens value ∧
      (value.1, value.2.blocks.map BlockReference.name) = binding := by
  obtain ⟨word, _, rfl, hword, h⟩ := exists_name_of_spelled h
  obtain ⟨equal, _, rfl, hequal, h⟩ := exists_mark_of_spelled h
  obtain ⟨opening, _, rfl, hopening, h⟩ := exists_mark_of_spelled h
  obtain ⟨items, closing, references, rfl, hitems, hclosing, hnames⟩ :=
    exists_references_of_spelled hsome h
  obtain ⟨hkind, hlexeme⟩ := isKeyword_iff.mp hword
  refine ⟨_, .binding hkind (hlexeme ▸ Stage.ofKeyword?_keyword _) hequal
    (.several hopening hitems hclosing), ?_⟩
  rw [hnames]

theorem exists_pass_of_spelled {pass : List (Stage × List String)}
    (hsome : ∀ binding ∈ pass, binding.2 ≠ [])
    (h : tokens.map Token.spelled = (passWords pass).map spelled) :
    ∃ value, IsPass tokens value ∧ value.outline = pass := by
  obtain ⟨keyword, _, rfl, hkeyword, h⟩ := exists_name_of_spelled h
  obtain ⟨opening, _, rfl, hopening, h⟩ := exists_mark_of_spelled h
  obtain ⟨inner, _, rfl, hinner, h⟩ := exists_append_of_spelled h
  obtain ⟨closing, _, rfl, hclosing, h⟩ := exists_mark_of_spelled h
  obtain rfl := List.map_eq_nil_iff.mp h
  obtain ⟨bindings, hbindings, hviews⟩ := exists_many_of_spelled
    (fun binding hbinding _ => exists_binding_of_spelled (hsome binding hbinding)) hinner
  exact ⟨_, .pass hkeyword hopening hbindings hclosing, hviews⟩

theorem exists_technique_of_spelled {technique : TechniqueOutline}
    (hwritable : technique.IsWritable)
    (h : tokens.map Token.spelled = (techniqueWords technique).map spelled) :
    ∃ value, IsTechnique tokens value ∧ value.outline = technique := by
  obtain ⟨keyword, _, rfl, hkeyword, h⟩ := exists_name_of_spelled h
  obtain ⟨name, _, rfl, hname, h⟩ := exists_name_of_spelled h
  obtain ⟨opening, _, rfl, hopening, h⟩ := exists_mark_of_spelled h
  obtain ⟨inner, _, rfl, hinner, h⟩ := exists_append_of_spelled h
  obtain ⟨closing, _, rfl, hclosing, h⟩ := exists_mark_of_spelled h
  obtain rfl := List.map_eq_nil_iff.mp h
  obtain ⟨passes, hpasses, hviews⟩ := exists_many_of_spelled (fun pass hpass _ =>
    exists_pass_of_spelled fun binding hbinding =>
      (hwritable.references pass hpass binding hbinding).1) hinner
  obtain ⟨hkind, hlexeme⟩ := isKeyword_iff.mp hname
  have hsome : passes ≠ [] := by
    rintro rfl
    exact hwritable.passes hviews.symm
  refine ⟨_, .technique hkeyword hkind hopening hpasses hsome hclosing, ?_⟩
  rw [Technique.outline, hviews, hlexeme]

theorem exists_shared_of_spelled {code : String}
    (h : tokens.map Token.spelled = (block "GLSL" none code).map spelled) :
    ∃ value : CodeBlock, IsItem tokens (.shared value) ∧ value.body = code := by
  obtain ⟨keyword, _, rfl, hkeyword, h⟩ := exists_name_of_spelled h
  obtain ⟨opening, text, _, rfl, hopening, hbody, hcode⟩ := exists_body_of_spelled h
  exact ⟨_, .shared hkeyword hopening hbody, hcode⟩

theorem exists_block_of_spelled {entry : String × String}
    (h : tokens.map Token.spelled = (block "GLSL" (some entry.1) entry.2).map spelled) :
    ∃ value : CodeBlock, IsItem tokens (.block value) ∧ (value.name, value.body) = entry := by
  obtain ⟨keyword, _, rfl, hkeyword, h⟩ := exists_name_of_spelled h
  obtain ⟨name, _, rfl, hname, h⟩ := exists_name_of_spelled h
  obtain ⟨opening, text, _, rfl, hopening, hbody, hcode⟩ := exists_body_of_spelled h
  obtain ⟨hkind, hlexeme⟩ := isKeyword_iff.mp hname
  refine ⟨_, .block hkeyword hkind hopening hbody, ?_⟩
  rw [CodeBlock.name_ofBody, hlexeme]
  exact congrArg (entry.1, ·) hcode

end Reading

/-! ### Whole descriptions -/

section Whole

variable {outline : Outline} {tokens : List Token} {shared named : List CodeBlock}
  {techniques : List Technique}

/-- Code blocks and techniques in the order in which they are written. -/
def writtenItems (shared named : List CodeBlock) (techniques : List Technique) : List Item :=
  shared.map .shared ++ named.map .block ++ techniques.map .technique

theorem filterMap_shared?_writtenItems :
    (writtenItems shared named techniques).filterMap Item.shared? = shared := by
  simp [writtenItems, List.filterMap_map, Function.comp_def, Item.shared?]

theorem filterMap_block?_writtenItems :
    (writtenItems shared named techniques).filterMap Item.block? = named := by
  simp [writtenItems, List.filterMap_map, Function.comp_def, Item.block?]

theorem filterMap_technique?_writtenItems :
    (writtenItems shared named techniques).filterMap Item.technique? = techniques := by
  simp [writtenItems, List.filterMap_map, Function.comp_def, Item.technique?]

theorem flatMap_declarations_writtenItems :
    (writtenItems shared named techniques).flatMap Item.declarations = [] := by
  simp [writtenItems, List.flatMap_map, Item.declarations]

theorem countP_isProperties_writtenItems :
    (writtenItems shared named techniques).countP Item.isProperties = 0 := by
  simp [writtenItems, Item.isProperties]

/-- Tokens that are spelled like the words of an outline are a description of its blocks and
techniques. -/
theorem exists_isDescription_of_spelled (h : outline.IsWritable)
    (htokens : tokens.map Token.spelled = (words outline).map spelled ++ [(.endOfFile, "")]) :
    ∃ shared named techniques, IsDescription tokens (writtenItems shared named techniques) ∧
      shared.map CodeBlock.body = outline.shared?.toList ∧
        named.map (fun block => (block.name, block.body)) = outline.blocks ∧
          techniques.map Technique.outline = outline.techniques := by
  obtain ⟨written, _, rfl, hwritten, hends⟩ := List.map_eq_append_iff.mp htokens
  obtain ⟨last, _, rfl, hlast, hnothing⟩ := List.map_eq_cons_iff.mp hends
  obtain rfl := List.map_eq_nil_iff.mp hnothing
  obtain ⟨keyword, _, rfl, hkeyword, hwritten⟩ := exists_name_of_spelled hwritten
  obtain ⟨opening, _, rfl, hopening, hwritten⟩ := exists_mark_of_spelled hwritten
  obtain ⟨items, _, rfl, hitems, hcloses⟩ := exists_append_of_spelled hwritten
  obtain ⟨closing, _, rfl, hclosing, hnothing⟩ := exists_mark_of_spelled hcloses
  obtain rfl := List.map_eq_nil_iff.mp hnothing
  obtain ⟨blockTokens, techniqueTokens, rfl, hblocks, htechniques⟩ :=
    exists_append_of_spelled hitems
  obtain ⟨sharedTokens, namedTokens, rfl, hshared, hnamed⟩ := exists_append_of_spelled hblocks
  obtain ⟨shared, hshared, hsharedView⟩ :=
    exists_many_of_spelled (fun code _ _ => exists_shared_of_spelled) hshared
  obtain ⟨named, hnamed, hnamedView⟩ :=
    exists_many_of_spelled (fun entry _ _ => exists_block_of_spelled) hnamed
  obtain ⟨techniques, htechniques, htechniqueView⟩ := exists_many_of_spelled
    (fun technique htechnique _ => exists_technique_of_spelled (h.writable technique htechnique))
    htechniques
  have hitems : Many IsItem ((sharedTokens ++ namedTokens) ++ techniqueTokens)
      (writtenItems shared named techniques) := by
    have htechniques : Many (fun tokens technique => IsItem tokens (.technique technique))
        techniqueTokens techniques := htechniques.mono fun _ _ => .technique
    exact (hshared.map.append hnamed.map).append htechniques.map
  refine ⟨shared, named, techniques, ?_, hsharedView, hnamedView, htechniqueView⟩
  have hend : last.kind = .endOfFile := congrArg Prod.fst hlast
  simpa using IsDescription.description hkeyword hopening hitems hclosing hend

/-- The passes of a technique with a writable outline are complete. -/
theorem Pass.isComplete_of_isWritable {technique : Technique}
    (h : technique.outline.IsWritable) : ∀ pass ∈ technique.passes, pass.IsComplete := by
  intro pass hpass
  obtain ⟨hnodup, hvertex, hfragment⟩ := h.stages pass.outline (List.mem_map_of_mem hpass)
  have hkeys : pass.outline.map Prod.fst = pass.stages.keys := by
    rw [Pass.outline, List.map_map]
    rfl
  rw [hkeys] at hnodup hvertex hfragment
  exact ⟨hnodup, hvertex, hfragment⟩

/-- Blocks and techniques with a writable outline can stand in one shader. -/
theorem consistent_writtenItems (h : outline.IsWritable)
    (hshared : shared.map CodeBlock.body = outline.shared?.toList)
    (hnamed : named.map (fun block => (block.name, block.body)) = outline.blocks)
    (htechniques : techniques.map Technique.outline = outline.techniques) :
    Consistent (writtenItems shared named techniques) where
  properties := by simp [countP_isProperties_writtenItems]
  declarations := by simp [flatMap_declarations_writtenItems]
  resolves := by simp [flatMap_declarations_writtenItems]
  shared := by
    rw [filterMap_shared?_writtenItems, ← List.length_map, hshared]
    exact Option.length_toList_le
  blocks := by
    have hnames := h.blockNames
    rw [← hnamed, List.map_map] at hnames
    rw [filterMap_block?_writtenItems]
    exact hnames
  techniques := by
    have hnames := h.techniqueNames
    rw [← htechniques, List.map_map] at hnames
    rw [filterMap_technique?_writtenItems]
    exact hnames
  complete := by
    rw [filterMap_technique?_writtenItems]
    intro technique htechnique
    exact Pass.isComplete_of_isWritable
      (h.writable _ (htechniques ▸ List.mem_map_of_mem htechnique))

/-- A shader that blocks and techniques declare has their outline. -/
theorem Declares.outline_eq {path : SourcePath} {shader : Shader}
    (h : Declares path (writtenItems shared named techniques) shader)
    (hshared : shared.map CodeBlock.body = outline.shared?.toList)
    (hnamed : named.map (fun block => (block.name, block.body)) = outline.blocks)
    (htechniques : techniques.map Technique.outline = outline.techniques) :
    shader.outline = outline := by
  have hhead : shared.head?.map CodeBlock.body = outline.shared? := by
    rw [← List.head?_map, hshared, Option.head?_toList]
  rw [Shader.outline, h.shared, h.blocks, h.techniques, filterMap_shared?_writtenItems,
    filterMap_block?_writtenItems, filterMap_technique?_writtenItems, hhead, List.map_map,
    List.map_map]
  exact congrArg₂ (Outline.mk outline.shared?) hnamed htechniques

/-- A writable outline that is written as a description is read again: the shader has exactly its
shared code, its blocks and its techniques, in order, each table under the names. -/
theorem parse_text_has_outline (path : SourcePath) (outline : Outline) (h : outline.IsWritable) :
    ∃ shader, (parse path (text outline)).outcome = .ok shader ∧ shader.outline = outline ∧
      (∀ entry ∈ shader.blocks.entries, entry.1 = entry.2.name) ∧
        ∀ entry ∈ shader.techniques.entries, entry.1 = entry.2.name := by
  obtain ⟨shared, named, techniques, hdescription, hshared, hnamed, htechniques⟩ :=
    exists_isDescription_of_spelled h (map_spelled_scan (isLegible_words h) path)
  have hsome : techniques ≠ [] := by
    rintro rfl
    exact h.techniques htechniques.symm
  obtain ⟨shader, hshader, hdeclares⟩ : ∃ shader, (parse path (text outline)).outcome = .ok shader ∧
      Declares path (writtenItems shared named techniques) shader :=
    exists_ofTokens_of_isDescription hdescription
      (consistent_writtenItems h hshared hnamed htechniques)
      (by rwa [filterMap_technique?_writtenItems])
  refine ⟨shader, hshader, hdeclares.outline_eq hshared hnamed htechniques, ?_, ?_⟩
  · rw [hdeclares.blocks]
    intro entry hentry
    obtain ⟨block, -, rfl⟩ := List.mem_map.mp hentry
    rfl
  · rw [hdeclares.techniques]
    intro entry hentry
    obtain ⟨technique, -, rfl⟩ := List.mem_map.mp hentry
    rfl

/-- An outline whose names are words of the grammar and whose code has comments and strings that do
not end, and what looks like declarations. -/
def trickyOutline : Outline where
  shared? := some "// GLSL X { } \"\n/* Technique"
  blocks := [("GLSL", "void main() { if (1 > 0) { } /* }"), ("Technique", "")]
  techniques := [⟨"Pass", [[(.fragment, ["GLSL", "Technique"]), (.vertex, ["GLSL"])]]⟩]

example : text ⟨none, [("A", "")], [⟨"T", [[(.vertex, ["A", "A"])]]⟩]⟩ =
    "Shader { GLSL A {} Technique T { Pass { Vertex = (A, A) } } }" := by
  decide

theorem parse_text_has_tricky_outline : trickyOutline.IsWritable ∧
    ∃ shader, (parse ⟨"/a.shader"⟩ (text trickyOutline)).outcome = .ok shader ∧
      shader.outline = trickyOutline := by
  have htechnique : TechniqueOutline.IsWritable
      ⟨"Pass", [[(.fragment, ["GLSL", "Technique"]), (.vertex, ["GLSL"])]]⟩ :=
    ⟨by decide, by decide, by decide, by decide⟩
  have hwritable : trickyOutline.IsWritable := by
    refine ⟨?_, by decide, by decide, by decide, by decide, ?_⟩
    · rintro _ ⟨⟩
      decide
    · simpa [trickyOutline] using htechnique
  obtain ⟨shader, hshader, houtline, -⟩ :=
    parse_text_has_outline ⟨"/a.shader"⟩ trickyOutline hwritable
  exact ⟨hwritable, shader, hshader, houtline⟩

end Whole

end Description

end ShaderAssembly
