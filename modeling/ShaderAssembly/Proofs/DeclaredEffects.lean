import ShaderAssembly.Proofs.EffectParsers
import ShaderAssembly.Proofs.PlainPhrases

/-!
# Shaders that effect files declare

A draft is put together from items table by table, and at the end each uniform that can be edited
gives a property. So the items of a file make a shader exactly if they are consistent, and the
tables of the shader are those that the items declare. From this follows what the parser of effect
files accepts: the texts whose tokens the grammar derives from consistent items, one of them a
technique.
-/

namespace ShaderAssembly.Effect

open ShaderAssembly.Grammar ShaderAssembly.Parser

/-! ### Tables -/

section Tables

variable {items : List Item} {start draft : Draft}

/-- Whether adding items to a draft gives another one, told table by table. -/
@[mk_iff]
structure Draft.Becomes (start : Draft) (items : List Item) (draft : Draft) : Prop where
  /-- The uniforms are added one by one. -/
  uniforms : (items.filterMap Item.uniform?).foldlM
    (fun uniforms declared => uniforms.insertNew? declared.1.name declared.1)
    start.shader.uniforms = some draft.shader.uniforms
  /-- The annotations of the uniforms are kept beside them. -/
  annotations : (items.filterMap Item.uniform?).foldl
    (fun annotations declared => annotations.insert declared.1.name declared.2)
    start.annotations = draft.annotations
  /-- The streams are added one by one. -/
  streams : (items.filterMap Item.stream?).foldlM
    (fun streams stream => streams.insertNew? stream.name stream) start.shader.streams =
      some draft.shader.streams
  /-- The blocks are added one by one. -/
  blocks : (items.filterMap Item.block?).foldlM
    (fun blocks block => blocks.insertNew? block.name block) start.shader.blocks =
      some draft.shader.blocks
  /-- The techniques are added one by one. -/
  techniques : (items.filterMap Item.technique?).foldlM
    (fun techniques technique => techniques.insertNew? technique.name technique)
    start.shader.techniques = some draft.shader.techniques
  /-- Every pass is complete. -/
  complete : ∀ technique ∈ items.filterMap Item.technique?,
    ∀ pass ∈ technique.passes, pass.IsComplete
  /-- What items do not declare stays. -/
  others : draft.shader.path = start.shader.path ∧
    draft.shader.properties = start.shader.properties ∧
      draft.shader.shared? = start.shader.shared?

/-- Without items a draft stays as it is. -/
theorem Draft.becomes_nil : start.Becomes [] draft ↔ start = draft := by
  constructor
  · rintro ⟨huniforms, hannotations, hstreams, hblocks, htechniques, -, hpath, hproperties, hshared⟩
    obtain ⟨⟨_, _, _, _, _, _, _⟩, _⟩ := start
    obtain ⟨⟨_, _, _, _, _, _, _⟩, _⟩ := draft
    simp_all
  · rintro rfl
    exact ⟨rfl, rfl, rfl, rfl, rfl, nofun, rfl, rfl, rfl⟩

/-- An item is added before the others. -/
theorem Draft.becomes_cons {item : Item} : start.Becomes (item :: items) draft ↔
    ∃ middle, start.add? item = some middle ∧ middle.Becomes items draft := by
  -- Each kind of item changes one table and leaves the others as they are.
  simp only [Draft.becomes_iff]
  cases item <;>
    simp [Draft.add?, Item.uniform?, Item.stream?, Item.block?, Item.technique?,
      List.filterMap_cons, Option.bind_eq_some_iff, -List.mem_filterMap] <;>
    grind

/-- Adding items one after the other is adding them table by table. -/
theorem foldlM_add?_eq_some :
    items.foldlM Draft.add? start = some draft ↔ start.Becomes items draft := by
  induction items generalizing start with
  | nil => simp [Draft.becomes_nil]
  | cons item items ih =>
    rw [List.foldlM_cons, Option.bind_eq_bind, Option.bind_eq_some_iff, Draft.becomes_cons]
    simp only [ih]

end Tables

/-! ### Properties of uniforms -/

section Properties

variable {draft : Draft} {declared : Uniform × List AnnotationEntry}
  {properties result : OrderedMap String Property} {stream final : TokenStream}

/-- Warnings take no tokens. -/
theorem reads_warnOfUnknown (annotations : List AnnotationEntry) (stream : TokenStream) :
    Reads (warnOfUnknown annotations) stream () stream := by
  unfold warnOfUnknown
  induction annotations with
  | nil => exact reads_pure _ _
  | cons entry annotations ih =>
    refine reads_bind.mpr ⟨(), stream, ?_, ih⟩
    dsimp only
    split
    · exact reads_record _ _ _
    · exact reads_pure _ _

theorem reads_resolveProperty_iff {declaration : PropertyDeclaration} {property : Property} :
    Reads (resolveProperty declaration) stream property final ↔
      declaration.resolve = .ok property ∧ final = stream := by
  constructor
  · intro h
    obtain ⟨hstream, hresolve⟩ := ensures_resolveProperty property final h
    exact ⟨hresolve, hstream⟩
  · rintro ⟨hresolve, rfl⟩
    exact reads_resolveProperty hresolve

theorem reads_pure_iff {α : Type} {value result : α} :
    Reads (pure value : Parser α) stream result final ↔ result = value ∧ final = stream := by
  constructor
  · rintro ⟨⟨⟩, rfl⟩
    exact ⟨rfl, rfl⟩
  · rintro ⟨rfl, rfl⟩
    exact reads_pure _ _

/-- A uniform that is not edited adds no property. -/
theorem reads_addProperty_of_none
    (hdraft : draft.annotations.get? declared.1.name = some declared.2)
    (hnone : editor? declared = none) :
    Reads (addProperty draft properties declared.1) stream result final ↔
      result = properties ∧ final = stream := by
  unfold addProperty editor? at *
  rw [hdraft, Option.getD_some, reads_bind_of_reads (reads_warnOfUnknown _ _)]
  split at hnone
  · rename_i hsemantic
    rw [if_pos hsemantic, reads_pure_iff]
  · rename_i hsemantic
    rw [if_neg hsemantic, hnone, reads_pure_iff]

/-- A uniform that is edited adds its property, if it gets a type. -/
theorem reads_addProperty_of_some {declaration : PropertyDeclaration}
    (hdraft : draft.annotations.get? declared.1.name = some declared.2)
    (hsome : editor? declared = some declaration) :
    Reads (addProperty draft properties declared.1) stream result final ↔
      ∃ property, declaration.resolve = .ok property ∧
        result = properties.insert property.name property ∧ final = stream := by
  unfold addProperty editor? at *
  rw [hdraft, Option.getD_some, reads_bind_of_reads (reads_warnOfUnknown _ _)]
  split at hsome
  · cases hsome
  · rename_i hsemantic
    rw [if_neg hsemantic, hsome, reads_bind]
    simp only [reads_resolveProperty_iff, reads_pure_iff]
    constructor
    · rintro ⟨property, _, ⟨hresolve, rfl⟩, hresult, hfinal⟩
      exact ⟨property, hresolve, hresult, hfinal⟩
    · rintro ⟨property, hresolve, hresult, hfinal⟩
      exact ⟨property, stream, ⟨hresolve, rfl⟩, hresult, hfinal⟩

/-- A property that edits a uniform has its name. -/
theorem name_of_editor? {declaration : PropertyDeclaration}
    (h : editor? declared = some declaration) : declaration.name = declared.1.name := by
  unfold editor? propertyOf? at h
  split at h
  · cases h
  · obtain ⟨type, -, rfl⟩ := Option.map_eq_some_iff.mp h
    rfl

/-- The properties of uniforms whose names are distinct and new are put behind the others. -/
theorem reads_addProperties {uniforms : List (Uniform × List AnnotationEntry)}
    (hdraft : ∀ declared ∈ uniforms, draft.annotations.get? declared.1.name = some declared.2)
    (hdistinct : (uniforms.map (·.1.name)).Nodup)
    (hnew : ∀ declared ∈ uniforms, declared.1.name ∉ properties.keys) :
    Reads ((uniforms.map Prod.fst).foldlM (addProperty draft) properties) stream result final ↔
      final = stream ∧ ∃ entries,
        List.Forall₂ PropertyDeclaration.ResolvesTo (uniforms.filterMap editor?) entries ∧
          result = ⟨properties.entries ++ entries⟩ := by
  induction uniforms generalizing properties with
  | nil =>
    simp only [List.map_nil, List.foldlM_nil, reads_pure_iff, List.filterMap_nil,
      List.forall₂_nil_left_iff, exists_eq_left, List.append_nil, and_comm]
  | cons declared uniforms ih =>
    rw [List.forall_mem_cons] at hdraft hnew
    rw [List.map_cons, List.nodup_cons] at hdistinct
    rw [List.map_cons, List.foldlM_cons, reads_bind, List.filterMap_cons]
    cases heditor : editor? declared with
    | none =>
      simp only [reads_addProperty_of_none hdraft.1 heditor]
      constructor
      · rintro ⟨_, _, ⟨rfl, rfl⟩, hreads⟩
        exact (ih hdraft.2 hdistinct.2 hnew.2).mp hreads
      · intro hresult
        exact ⟨properties, stream, ⟨rfl, rfl⟩, (ih hdraft.2 hdistinct.2 hnew.2).mpr hresult⟩
    | some declaration =>
      simp only [reads_addProperty_of_some hdraft.1 heditor]
      have hname := name_of_editor? heditor
      have hinsert : ∀ {property}, declaration.resolve = .ok property →
          properties.insert property.name property =
            ⟨properties.entries ++ [(declared.1.name, property)]⟩ := fun hresolve => by
        rw [PropertyDeclaration.name_of_resolve hresolve, hname]
        exact congrArg OrderedMap.mk (OrderedMap.entries_insert_of_not_mem hnew.1)
      have hnewer : ∀ property : Property, ∀ other ∈ uniforms, other.1.name ∉
          (⟨properties.entries ++ [(declared.1.name, property)]⟩ : OrderedMap _ _).keys := by
        intro property other hother
        simp only [OrderedMap.keys, List.map_append, List.mem_append, List.map_cons,
          List.map_nil, List.mem_singleton, not_or]
        exact ⟨hnew.2 other hother, fun heq => hdistinct.1 (heq ▸ List.mem_map_of_mem hother)⟩
      simp only [List.forall₂_cons_left_iff]
      constructor
      · rintro ⟨_, _, ⟨property, hresolve, rfl, rfl⟩, hreads⟩
        rw [hinsert hresolve, ih hdraft.2 hdistinct.2 (hnewer property)] at hreads
        obtain ⟨hfinal, entries, hentries, rfl⟩ := hreads
        exact ⟨hfinal, _, ⟨(declared.1.name, property), entries, ⟨hname.symm, hresolve⟩, hentries,
          rfl⟩, by rw [List.append_assoc, List.singleton_append]⟩
      · rintro ⟨hfinal, _, ⟨⟨_, property⟩, entries, ⟨hentry, hresolve⟩, hentries, rfl⟩, rfl⟩
        obtain rfl : _ = declared.1.name := hentry.trans hname
        refine ⟨_, stream, ⟨property, hresolve, (hinsert hresolve).symm, rfl⟩, ?_⟩
        exact (ih hdraft.2 hdistinct.2 (hnewer property)).mpr
          ⟨hfinal, entries, hentries, by rw [List.append_assoc, List.singleton_append]⟩

end Properties

/-! ### Whole files -/

section Whole

variable {path : SourcePath} {items : List Item} {draft : Draft} {last : Token}
  {tokens : List Token} {shader : Shader}

/-- The keys under which annotations are kept are those of the uniforms. -/
theorem get?_annotations {uniforms : List (Uniform × List AnnotationEntry)}
    (hdistinct : (uniforms.map (·.1.name)).Nodup) :
    ∀ declared ∈ uniforms, (uniforms.foldl (fun (map : OrderedMap String _) declared =>
      map.insert declared.1.name declared.2) .empty).get? declared.1.name = some declared.2 := by
  induction uniforms using List.reverseRecOn with
  | nil => exact nofun
  | append_singleton uniforms latest ih =>
    rw [List.map_append, List.nodup_append_comm, List.map_singleton, List.singleton_append,
      List.nodup_cons] at hdistinct
    obtain ⟨hnew, hdistinct⟩ := hdistinct
    intro declared hdeclared
    rw [List.foldl_append, List.foldl_cons, List.foldl_nil]
    rcases List.mem_append.mp hdeclared with hdeclared | hdeclared
    · rw [OrderedMap.get?_insert_of_ne fun heq => hnew (List.mem_map.mpr ⟨_, hdeclared, heq⟩)]
      exact ih hdistinct declared hdeclared
    · obtain rfl := List.mem_singleton.mp hdeclared
      exact OrderedMap.get?_insert_self _ _ _

/-- What a draft of items becomes at the end, if it becomes anything. -/
theorem reads_properties (hitems : Draft.Becomes ⟨.empty path, .empty⟩ items draft)
    {stream final : TokenStream} {properties : OrderedMap String Property} :
    Reads (draft.shader.uniforms.values.foldlM (addProperty draft) .empty) stream properties
        final ↔
      final = stream ∧ List.Forall₂ PropertyDeclaration.ResolvesTo
        ((items.filterMap Item.uniform?).filterMap editor?) properties.entries := by
  obtain ⟨hdistinct, hentries⟩ := OrderedMap.foldlM_insertKeyed?_eq_some.mp hitems.uniforms
  have hvalues : draft.shader.uniforms.values = (items.filterMap Item.uniform?).map Prod.fst := by
    rw [OrderedMap.values, hentries, List.map_map]
    rfl
  rw [hvalues, reads_addProperties (hitems.annotations ▸ get?_annotations hdistinct) hdistinct
    fun _ _ => List.not_mem_nil]
  refine and_congr_right fun _ => ?_
  constructor
  · rintro ⟨entries, hentries, rfl⟩
    exact hentries
  · intro hentries
    exact ⟨properties.entries, hentries, rfl⟩

/-- A draft of items has their tables, whatever properties it is given. -/
theorem Draft.Becomes.declares (h : Draft.Becomes ⟨.empty path, .empty⟩ items draft)
    {properties : OrderedMap String Property}
    (hproperties : List.Forall₂ PropertyDeclaration.ResolvesTo
      ((items.filterMap Item.uniform?).filterMap editor?) properties.entries) :
    Consistent items ∧ Declares path items { draft.shader with properties } := by
  obtain ⟨huniformNames, huniforms⟩ := OrderedMap.foldlM_insertKeyed?_eq_some.mp h.uniforms
  obtain ⟨hstreamNames, hstreams⟩ := OrderedMap.foldlM_insertKeyed?_eq_some.mp h.streams
  obtain ⟨hblockNames, hblocks⟩ := OrderedMap.foldlM_insertKeyed?_eq_some.mp h.blocks
  obtain ⟨htechniqueNames, htechniques⟩ := OrderedMap.foldlM_insertKeyed?_eq_some.mp h.techniques
  obtain ⟨hpath, -, hshared⟩ := h.others
  have hresolves := PropertyDeclaration.exists_resolvesTo_iff.mp ⟨_, hproperties⟩
  exact ⟨⟨huniformNames, hresolves, hstreamNames, hblockNames, htechniqueNames, h.complete⟩,
    ⟨hpath, hproperties, hshared, hblocks, htechniques, huniforms, hstreams⟩⟩

/-- What is read is a list of items that can be put together, one of them a technique, and the
tables are theirs. -/
theorem ensures_expectFile (hlast : last.kind = .endOfFile)
    (htokens : ∀ token ∈ tokens, token.kind ≠ .endOfFile) :
    Ensures (expectFile path) ⟨tokens, last⟩ fun shader _ => ∃ items, Many IsItem tokens items ∧
      Consistent items ∧ items.filterMap Item.technique? ≠ [] ∧ Declares path items shader := by
  have hitems : Ensures (foldUntil .endOfFile readItem ⟨.empty path, .empty⟩) ⟨tokens, last⟩
      fun draft _ => ∃ items, Many IsItem tokens items ∧
        Draft.Becomes ⟨.empty path, .empty⟩ items draft := by
    intro draft after hdraft
    have hstop := stopsAt_foldUntil _ _ draft after hdraft
    obtain ⟨taken, rest, rfl, rfl, items, hmany, hfold⟩ :=
      (recognizes_items _).sound hlast draft after hdraft
    obtain rfl : rest = [] := eq_nil_of_next hstop fun token htoken =>
      htokens token (List.mem_append_right _ htoken)
    exact ⟨items, (List.append_nil taken).symm ▸ hmany, foldlM_add?_eq_some.mp hfold⟩
  refine ensures_bind hitems ?_
  rintro draft after ⟨items, hmany, hbecomes⟩
  refine ensures_refusing ensures_unexpected fun hsome => ?_
  have hproperties : Ensures (draft.shader.uniforms.values.foldlM (addProperty draft) .empty) after
      fun properties _ => List.Forall₂ PropertyDeclaration.ResolvesTo
        ((items.filterMap Item.uniform?).filterMap editor?) properties.entries :=
    fun _ _ hreads => ((reads_properties hbecomes).mp hreads).2
  refine ensures_bind hproperties fun properties _ hproperties => ensures_pure ?_
  obtain ⟨hconsistent, hdeclares⟩ := hbecomes.declares hproperties
  refine ⟨items, hmany, hconsistent, ?_, hdeclares⟩
  rintro hnone
  have htechniques : draft.shader.techniques.entries = [] := by
    rw [hdeclares.techniques, hnone, List.map_nil]
  simp [OrderedMap.isEmpty, htechniques] at hsome

/-- Consistent items can be put together. -/
theorem Consistent.becomes (h : Consistent items) (path : SourcePath) :
    ∃ draft, Draft.Becomes ⟨.empty path, .empty⟩ items draft := by
  let shader : Shader := ⟨path, .empty, none,
    ⟨(items.filterMap Item.block?).map fun block => (block.name, block)⟩,
    ⟨(items.filterMap Item.technique?).map fun technique => (technique.name, technique)⟩,
    ⟨(items.filterMap Item.uniform?).map fun declared => (declared.1.name, declared.1)⟩,
    ⟨(items.filterMap Item.stream?).map fun stream => (stream.name, stream)⟩⟩
  exact ⟨⟨shader, _⟩, OrderedMap.foldlM_insertKeyed?_eq_some.mpr ⟨h.uniforms, rfl⟩, rfl,
    OrderedMap.foldlM_insertKeyed?_eq_some.mpr ⟨h.streams, rfl⟩,
    OrderedMap.foldlM_insertKeyed?_eq_some.mpr ⟨h.blocks, rfl⟩,
    OrderedMap.foldlM_insertKeyed?_eq_some.mpr ⟨h.techniques, rfl⟩, h.complete, rfl, rfl, rfl⟩

/-- Consistent items are read, if one of them is a technique, and the tables are theirs. -/
theorem reads_expectFile (hlast : last.kind = .endOfFile) (hitems : Many IsItem tokens items)
    (hconsistent : Consistent items) (hsome : items.filterMap Item.technique? ≠ []) :
    ∃ shader final, Reads (expectFile path) ⟨tokens, last⟩ shader final ∧
      Declares path items shader := by
  obtain ⟨draft, hbecomes⟩ := hconsistent.becomes path
  obtain ⟨entries, hentries⟩ := PropertyDeclaration.exists_resolvesTo_iff.mpr hconsistent.resolves
  have hproperties : List.Forall₂ PropertyDeclaration.ResolvesTo
      ((items.filterMap Item.uniform?).filterMap editor?)
      (⟨entries⟩ : OrderedMap String Property).entries := hentries
  have hdeclares := (hbecomes.declares hproperties).2
  refine ⟨{ draft.shader with properties := ⟨entries⟩ }, ⟨[], last⟩, ?_, hdeclares⟩
  rw [← List.append_nil tokens]
  refine (recognizes_items _).then hlast ⟨items, hitems, foldlM_add?_eq_some.mpr hbecomes⟩
    hlast ?_
  have htechniques : draft.shader.techniques.entries =
      (items.filterMap Item.technique?).map fun technique => (technique.name, technique) :=
    hdeclares.techniques
  rw [if_neg (by simpa [OrderedMap.isEmpty, htechniques] using hsome)]
  exact (reads_bind_of_reads ((reads_properties hbecomes).mpr ⟨rfl, hentries⟩)).mpr
    (reads_pure _ _)

/-- An effect file is read as its tokens are, and positions are moved to the files after that. -/
theorem outcome_parse (path : SourcePath) (source : ExpandedText) :
    (parse path source).outcome =
      match (expectFile path).outcomeFrom
        (.ofTokens path (Token.scan (some blockRule) path source.text)) with
      | .ok declared => .ok (locateShader source.map declared)
      | .error error => .error (error.mapPosition (located source.map)) := by
  have hparse : (parse path source).outcome = (((expectFile path).outcomeFrom
      (.ofTokens path (Token.scan (some blockRule) path source.text))).mapError
        (·.mapPosition (located source.map))).bind
          fun declared => .ok (locateShader source.map declared) := Traced.outcome_bind _ _
  rw [hparse]
  cases (expectFile path).outcomeFrom
    (.ofTokens path (Token.scan (some blockRule) path source.text)) <;> rfl

/-- The shader that is read is the declared one with its positions moved. -/
theorem parse_eq_ok {source : ExpandedText} : (parse path source).outcome = .ok shader ↔
    ∃ declared, (expectFile path).outcomeFrom
      (.ofTokens path (Token.scan (some blockRule) path source.text)) = .ok declared ∧
        shader = locateShader source.map declared := by
  rw [outcome_parse]
  cases (expectFile path).outcomeFrom
    (.ofTokens path (Token.scan (some blockRule) path source.text)) with
  | error error => simp
  | ok declared => simp [eq_comm]

/-- A file that is read has the tables of items that its tokens are. -/
theorem exists_isFile_of_expectFile {stream : TokenStream}
    (hstream : Token.IsStreamOf tokens stream)
    (h : (expectFile path).outcomeFrom stream = .ok shader) :
    ∃ items, IsFile tokens items ∧ Consistent items ∧ items.filterMap Item.technique? ≠ [] ∧
      Declares path items shader := by
  cases hstream with
  | whole hlast hpending htokens =>
    obtain ⟨items, hitems, hrest⟩ := ensures_expectFile hlast hpending shader _ ⟨h, rfl⟩
    exact ⟨items, htokens ▸ .file hitems hlast, hrest⟩
  | early hlast hpending hfault htokens =>
    -- Items do not end with the error that ends the text early.
    obtain ⟨items, hitems, -⟩ := ensures_expectFile hlast hpending shader _ ⟨h, rfl⟩
    rcases hitems.isClosed IsItem.isClosed with hnil | hclosed
    · simp [htokens] at hnil
    · obtain ⟨final, hfinal, hkind⟩ := hclosed.ends
      rw [htokens, List.getLast?_append, List.getLast?_singleton, Option.some_or,
        Option.some_inj] at hfinal
      rw [← hfinal, hfault] at hkind
      exact hkind.elim nofun nofun

/-- A file of items that can stand together is read, if one of them is a technique, and has their
tables. -/
theorem exists_declares_of_isFile (hitems : IsFile tokens items) (hconsistent : Consistent items)
    (hsome : items.filterMap Item.technique? ≠ []) :
    ∃ shader, (expectFile path).outcomeFrom (.ofTokens path tokens) = .ok shader ∧
      Declares path items shader := by
  obtain ⟨hitems, hlast⟩ := hitems
  obtain ⟨shader, final, hreads, hdeclares⟩ := reads_expectFile hlast hitems hconsistent hsome
  exact ⟨shader, (ofTokens_append hlast).symm ▸ hreads.1, hdeclares⟩

/-- A file of items that can stand together is read, if one of them is a technique. -/
theorem exists_expectFile_of_isFile (hitems : IsFile tokens items) (hconsistent : Consistent items)
    (hsome : items.filterMap Item.technique? ≠ []) :
    ∃ shader, (expectFile path).outcomeFrom (.ofTokens path tokens) = .ok shader := by
  obtain ⟨shader, hshader, -⟩ := exists_declares_of_isFile hitems hconsistent hsome
  exact ⟨shader, hshader⟩

/-- The parser accepts exactly its grammar: a text is read if its tokens are a list of items that
can stand in one file, one of them a technique. Then the tables of the shader list what the items
declare, in written order, with positions moved to the file. -/
theorem parseText_accepts_grammar (path : SourcePath) (text : String) :
    ((∃ shader, (parseText path text).outcome = .ok shader) ↔
      ∃ items, IsFile (Token.scan (some blockRule) path text) items ∧ Consistent items ∧
        items.filterMap Item.technique? ≠ []) ∧
    ∀ shader, (parseText path text).outcome = .ok shader →
      ∃ items declared, IsFile (Token.scan (some blockRule) path text) items ∧
        Consistent items ∧ Declares path items declared ∧
          shader = locateShader (ExpandedText.verbatim text path 1).map declared := by
  have hstream := ScanState.isStreamOf_scan (some blockRule) path text
  refine ⟨⟨?_, ?_⟩, fun shader hshader => ?_⟩
  · rintro ⟨shader, hshader⟩
    obtain ⟨declared, hdeclared, -⟩ := parse_eq_ok.mp hshader
    obtain ⟨items, hitems, hconsistent, hsome, -⟩ := exists_isFile_of_expectFile hstream hdeclared
    exact ⟨items, hitems, hconsistent, hsome⟩
  · rintro ⟨items, hitems, hconsistent, hsome⟩
    obtain ⟨declared, hdeclared⟩ := exists_expectFile_of_isFile hitems hconsistent hsome
    exact ⟨_, parse_eq_ok.mpr ⟨declared, hdeclared, rfl⟩⟩
  · obtain ⟨declared, hdeclared, rfl⟩ := parse_eq_ok.mp hshader
    obtain ⟨items, hitems, hconsistent, -, hdeclares⟩ :=
      exists_isFile_of_expectFile hstream hdeclared
    exact ⟨items, declared, hitems, hconsistent, hdeclares, rfl⟩

end Whole

end ShaderAssembly.Effect
