import ShaderAssembly.Proofs.DescriptionParsers

/-!
# Shaders that are described

A draft is put together from items table by table. So the items of a description make a shader
exactly if they are consistent, and the tables of the shader are those that the items declare. From
this follows what the parser of descriptions accepts: the lists of tokens that the grammar derives
from consistent items, one of them a technique.
-/

namespace ShaderAssembly.Description

open ShaderAssembly.Grammar ShaderAssembly.Parser

/-! ### Tables -/

section Tables

variable {items : List Item} {start draft : Draft}

/-- Whether adding items to a draft gives another one, told table by table. -/
@[mk_iff]
structure Draft.Becomes (start : Draft) (items : List Item) (draft : Draft) : Prop where
  /-- The properties are added one by one. -/
  properties : (items.flatMap Item.declarations).foldlM addProperty? start.shader.properties =
    some draft.shader.properties
  /-- A block of properties is only read where there has been none. -/
  hasProperties : (items.filter Item.isProperties).foldlM
    (fun seen _ => if seen then none else some true) start.hasProperties =
      some draft.hasProperties
  /-- A block without a name is only read where there has been none. -/
  shared : (items.filterMap Item.shared?).foldlM
    (fun shared? block => if shared?.isSome then none else some (some block))
    start.shader.shared? = some draft.shader.shared?
  /-- The blocks with a name are added one by one. -/
  blocks : (items.filterMap Item.block?).foldlM
    (fun blocks block => blocks.insertNew? block.name block) start.shader.blocks =
      some draft.shader.blocks
  /-- The techniques are added one by one. -/
  techniques : (items.filterMap Item.technique?).foldlM
    (fun techniques technique => techniques.insertNew? technique.name technique)
    start.shader.techniques = some draft.shader.techniques
  /-- Every pass is complete. -/
  complete : ∀ technique ∈ items.filterMap Item.technique?,
    ∀ pass ∈ technique.passes, pass.IsComplete
  /-- What items do not declare stays. -/
  others : draft.shader.path = start.shader.path ∧
    draft.shader.uniforms = start.shader.uniforms ∧ draft.shader.streams = start.shader.streams

/-- Without items a draft stays as it is. -/
theorem Draft.becomes_nil : start.Becomes [] draft ↔ start = draft := by
  constructor
  · rintro ⟨hproperties, hseen, hshared, hblocks, htechniques, -, hpath, huniforms, hstreams⟩
    obtain ⟨⟨_, _, _, _, _, _, _⟩, _⟩ := start
    obtain ⟨⟨_, _, _, _, _, _, _⟩, _⟩ := draft
    simp_all
  · rintro rfl
    exact ⟨rfl, rfl, rfl, rfl, rfl, nofun, rfl, rfl, rfl⟩

/-- An item is added before the others. -/
theorem Draft.becomes_cons {item : Item} : start.Becomes (item :: items) draft ↔
    ∃ middle, start.add? item = some middle ∧ middle.Becomes items draft := by
  -- Each kind of item changes one table and leaves the others as they are.
  simp only [Draft.becomes_iff]
  cases item <;>
    simp [Draft.add?, Item.declarations, Item.isProperties, Item.shared?, Item.block?,
      Item.technique?, List.filter_cons, List.filterMap_cons, List.foldlM_append,
      Option.bind_eq_some_iff, -List.mem_filterMap] <;>
    grind

/-- Adding items one after the other is adding them table by table. -/
theorem foldlM_add?_eq_some :
    items.foldlM Draft.add? start = some draft ↔ start.Becomes items draft := by
  induction items generalizing start with
  | nil => simp [Draft.becomes_nil]
  | cons item items ih =>
    rw [List.foldlM_cons, Option.bind_eq_bind, Option.bind_eq_some_iff, Draft.becomes_cons]
    simp only [ih]

/-- Adding properties is adding the entries that they are resolved to. -/
theorem foldlM_addProperty?_iff {declarations : List PropertyDeclaration}
    {properties after : OrderedMap String Property} :
    declarations.foldlM addProperty? properties = some after ↔
      ∃ entries, List.Forall₂ PropertyDeclaration.ResolvesTo declarations entries ∧
        entries.foldlM (fun table entry => table.insertNew? entry.1 entry.2) properties =
          some after := by
  induction declarations generalizing properties with
  | nil => simp
  | cons declaration declarations ih =>
    simp only [List.foldlM_cons, Option.bind_eq_bind, Option.bind_eq_some_iff,
      addProperty?_eq_some, ih, List.forall₂_cons_left_iff]
    constructor
    · rintro ⟨middle, ⟨property, hresolve, hmiddle⟩, entries, hentries, hafter⟩
      refine ⟨(declaration.name, property) :: entries,
        ⟨_, _, ⟨rfl, hresolve⟩, hentries, rfl⟩, ?_⟩
      simpa [List.foldlM_cons, hmiddle] using hafter
    · rintro ⟨_, ⟨entry, entries, ⟨hname, hresolve⟩, hentries, rfl⟩, hafter⟩
      rw [List.foldlM_cons, Option.bind_eq_bind, Option.bind_eq_some_iff] at hafter
      obtain ⟨middle, hmiddle, hafter⟩ := hafter
      exact ⟨middle, ⟨entry.2, hresolve, hname ▸ hmiddle⟩, entries, hentries, hafter⟩

/-- Properties can be added to the empty table if their names are distinct and each gets a type,
and are its entries then. -/
theorem foldlM_addProperty?_eq_some {declarations : List PropertyDeclaration}
    {properties : OrderedMap String Property} :
    declarations.foldlM addProperty? .empty = some properties ↔
      (declarations.map PropertyDeclaration.name).Nodup ∧
        List.Forall₂ PropertyDeclaration.ResolvesTo declarations properties.entries := by
  simp only [foldlM_addProperty?_iff, OrderedMap.foldlM_insertNew?_eq_some]
  constructor
  · rintro ⟨entries, hentries, hnodup, rfl⟩
    exact ⟨PropertyDeclaration.map_fst_of_resolvesTo hentries ▸ hnodup, hentries⟩
  · rintro ⟨hnodup, hentries⟩
    rw [← PropertyDeclaration.map_fst_of_resolvesTo hentries] at hnodup
    exact ⟨properties.entries, hentries, hnodup, rfl⟩

theorem getD_map_some {α : Type} (value? : Option α) : (value?.map some).getD none = value? := by
  cases value? <;> rfl

/-- Items that can be put together are consistent, and the tables are theirs. -/
theorem Draft.Becomes.declares {path : SourcePath}
    (h : Draft.Becomes ⟨.empty path, false⟩ items draft) :
    Consistent items ∧ Declares path items draft.shader := by
  obtain ⟨hdistinct, hproperties⟩ := foldlM_addProperty?_eq_some.mp h.properties
  obtain ⟨hseen, -⟩ := (foldlM_once rfl fun _ => rfl).mp h.hasProperties
  obtain ⟨honce, hshared⟩ := (foldlM_once rfl fun _ => rfl).mp h.shared
  obtain ⟨hblockNames, hblocks⟩ := OrderedMap.foldlM_insertKeyed?_eq_some.mp h.blocks
  obtain ⟨htechniqueNames, htechniques⟩ := OrderedMap.foldlM_insertKeyed?_eq_some.mp h.techniques
  obtain ⟨hpath, huniforms, hstreams⟩ := h.others
  exact ⟨⟨List.countP_eq_length_filter ▸ hseen, hdistinct,
      PropertyDeclaration.exists_resolvesTo_iff.mp ⟨_, hproperties⟩, honce, hblockNames,
      htechniqueNames, h.complete⟩,
    ⟨hpath, hproperties, hshared.trans (getD_map_some _), hblocks, htechniques, huniforms,
      hstreams⟩⟩

/-- Consistent items can be put together. -/
theorem Consistent.becomes (h : Consistent items) (path : SourcePath) :
    ∃ draft, Draft.Becomes ⟨.empty path, false⟩ items draft := by
  obtain ⟨entries, hentries⟩ := PropertyDeclaration.exists_resolvesTo_iff.mpr h.resolves
  let shader : Shader := ⟨path, ⟨entries⟩, (items.filterMap Item.shared?).head?,
    ⟨(items.filterMap Item.block?).map fun block => (block.name, block)⟩,
    ⟨(items.filterMap Item.technique?).map fun technique => (technique.name, technique)⟩,
    .empty, .empty⟩
  exact ⟨⟨shader, _⟩, foldlM_addProperty?_eq_some.mpr ⟨h.declarations, hentries⟩,
    (foldlM_once rfl fun _ => rfl).mpr ⟨List.countP_eq_length_filter ▸ h.properties, rfl⟩,
    (foldlM_once rfl fun _ => rfl).mpr ⟨h.shared, (getD_map_some _).symm⟩,
    OrderedMap.foldlM_insertKeyed?_eq_some.mpr ⟨h.blocks, rfl⟩,
    OrderedMap.foldlM_insertKeyed?_eq_some.mpr ⟨h.techniques, rfl⟩, h.complete, rfl, rfl, rfl⟩

end Tables

/-! ### Whole descriptions -/

section Whole

variable {path : SourcePath} {tokens : List Token} {items : List Item} {shader : Shader}

/-- A shader that is read has the tables of a description that the tokens are. -/
theorem exists_isDescription_of_ofTokens (htokens : EndsOnce tokens)
    (h : (ofTokens path tokens).outcome = .ok shader) :
    ∃ items, IsDescription tokens items ∧ Consistent items ∧
      items.filterMap Item.technique? ≠ [] ∧ Declares path items shader := by
  obtain ⟨pending, last, rfl, hlast, hpending⟩ := htokens
  rw [ofTokens, ofTokens_append hlast] at h
  obtain ⟨items, draft, hitems, hdraft, hsome, rfl⟩ :=
    ensures_expectShader hlast hpending shader _ ⟨h, rfl⟩
  obtain ⟨hconsistent, hdeclares⟩ := (foldlM_add?_eq_some.mp hdraft).declares
  refine ⟨items, hitems, hconsistent, ?_, hdeclares⟩
  rintro hnone
  simp [OrderedMap.isEmpty, hdeclares.techniques, hnone] at hsome

/-- Tokens that are a description are read, if its items can stand in one shader and one of them
is a technique. -/
theorem exists_ofTokens_of_isDescription (hitems : IsDescription tokens items)
    (hconsistent : Consistent items) (hsome : items.filterMap Item.technique? ≠ []) :
    ∃ shader, (ofTokens path tokens).outcome = .ok shader ∧ Declares path items shader := by
  obtain ⟨draft, hdraft⟩ := hconsistent.becomes path
  obtain ⟨-, hdeclares⟩ := hdraft.declares
  refine ⟨draft.shader, ?_, hdeclares⟩
  refine ofTokens_of_isDescription hitems (foldlM_add?_eq_some.mpr hdraft) ?_
  simpa [OrderedMap.isEmpty, hdeclares.techniques] using hsome

/-- The parser accepts exactly its grammar: a list of tokens with the end of the file behind it is
read if it is a description whose items can stand in one shader, one of them a technique, and then
the tables of the shader list what the items declare, in written order. -/
theorem ofTokens_accepts_grammar (path : SourcePath) (tokens : List Token)
    (htokens : EndsOnce tokens) :
    ((∃ shader, (ofTokens path tokens).outcome = .ok shader) ↔
      ∃ items, IsDescription tokens items ∧ Consistent items ∧
        items.filterMap Item.technique? ≠ []) ∧
    ∀ shader, (ofTokens path tokens).outcome = .ok shader →
      ∃ items, IsDescription tokens items ∧ Consistent items ∧ Declares path items shader := by
  refine ⟨⟨?_, ?_⟩, fun shader hshader => ?_⟩
  · rintro ⟨shader, hshader⟩
    obtain ⟨items, hitems, hconsistent, hsome, -⟩ :=
      exists_isDescription_of_ofTokens htokens hshader
    exact ⟨items, hitems, hconsistent, hsome⟩
  · rintro ⟨items, hitems, hconsistent, hsome⟩
    obtain ⟨shader, hshader, -⟩ := exists_ofTokens_of_isDescription hitems hconsistent hsome
    exact ⟨shader, hshader⟩
  · obtain ⟨items, hitems, hconsistent, -, hdeclares⟩ :=
      exists_isDescription_of_ofTokens htokens hshader
    exact ⟨items, hitems, hconsistent, hdeclares⟩

/-- A description of one technique, as a list of tokens. -/
theorem ofTokens_accepts_one_technique :
    let token := fun (kind : TokenKind) (lexeme : String) =>
      (⟨kind, lexeme, ⟨⟨"/a.shader"⟩, 1, 1⟩⟩ : Token)
    let word := token .identifier
    let tokens := [word "Shader", token .openBrace r"{", word "Technique", word "T",
      token .openBrace r"{", word "Pass", token .openBrace r"{", word "Vertex",
      token .equal "=", word "A", word "Fragment", token .equal "=", word "A",
      token .closeBrace r"}", token .closeBrace r"}", token .closeBrace r"}",
      token .endOfFile ""]
    EndsOnce tokens ∧ ∃ shader items, (ofTokens ⟨"/a.shader"⟩ tokens).outcome = .ok shader ∧
      IsDescription tokens items ∧ Consistent items ∧ Declares ⟨"/a.shader"⟩ items shader := by
  intro token word tokens
  have htokens : EndsOnce tokens := ⟨tokens.dropLast, token .endOfFile "", rfl, rfl, by decide⟩
  have hsome : (ofTokens ⟨"/a.shader"⟩ tokens).outcome.toOption.any (fun _ => true) = true := by
    decide +kernel
  obtain ⟨shader, hshader, -⟩ := exists_of_toOption_any hsome
  obtain ⟨items, hitems⟩ := (ofTokens_accepts_grammar _ _ htokens).2 shader hshader
  exact ⟨htokens, shader, items, hshader, hitems⟩

end Whole

end ShaderAssembly.Description
