import ShaderAssembly.Proofs.DescriptionGrammar

/-!
# Parsers of shader descriptions

The parser of each production of the grammar recognizes it. The items of a description are
different: the parser of one item adds it to a draft, which may be impossible, and this is how a
whole description is refused although each of its items is fine.
-/

namespace ShaderAssembly.Description

open ShaderAssembly.Grammar ShaderAssembly.Parser

/-! ### Properties -/

section Properties

theorem recognizes_expectType : Recognizes expectType IsTypeWord where
  sound := by
    intro last tokens hlast
    refine (recognizes_expectName "a property type").ensures hlast ?_
    rintro _ word rest rfl ⟨hword⟩
    split
    · rename_i htype
      exact ensures_pure ⟨_, rest, rfl, rfl, .word hword htype⟩
    · exact ensures_throw
  complete := by
    rintro last _ rest type hlast ⟨hword, htype⟩ -
    refine (recognizes_expectName "a property type").then hlast (.token hword) trivial ?_
    rw [htype]
    exact reads_pure _ _

theorem recognizes_hint :
    Recognizes (do if ← accept .openBracket then expectAttribute else unexpected "a property name")
      IsHint where
  sound := by
    intro last tokens hlast
    refine (tries_accept .openBracket).ensures (by simp [hlast]) ?_ fun _ => ensures_unexpected
    rintro opening _ rfl hopening
    rw [if_pos rfl]
    refine (recognizes_expectName "an attribute").ensures hlast ?_
    rintro _ word _ rfl ⟨hword⟩
    split <;> dsimp only
    · rename_i hlexeme
      refine Recognizes.ensures recognizes_expectBounds hlast ?_
      rintro tokens bounds _ rfl hbounds
      refine (ensures_bind_of_run rfl).mpr (ensures_mark .closeBracket nofun hlast ?_)
      rintro closing rest rfl hclosing
      exact ensures_pure ⟨_, rest, by simp, rfl,
        .range hopening (isKeyword_iff.mpr ⟨hword, hlexeme⟩) hbounds hclosing⟩
    · rename_i hlexeme
      refine (ensures_bind_of_run rfl).mpr (ensures_mark .closeBracket nofun hlast ?_)
      rintro closing rest rfl hclosing
      exact ensures_pure ⟨_, rest, rfl, rfl,
        .toggle hopening (isKeyword_iff.mpr ⟨hword, hlexeme⟩) hclosing⟩
    · rename_i hlexeme
      refine ensures_mark .openParen nofun hlast ?_
      rintro openParen _ rfl hopenParen
      refine (recognizes_expectString "a header").ensures hlast ?_
      rintro _ _ _ rfl ⟨text, ⟨htext⟩, rfl⟩
      refine ensures_mark .closeParen nofun hlast ?_
      rintro closeParen _ rfl hcloseParen
      refine (ensures_bind_of_run rfl).mpr (ensures_mark .closeBracket nofun hlast ?_)
      rintro closing rest rfl hclosing
      exact ensures_pure ⟨_, rest, rfl, rfl, .header hopening (isKeyword_iff.mpr ⟨hword, hlexeme⟩)
        hopenParen htext hcloseParen hclosing⟩
    · exact ensures_throw_bind
  complete := by
    -- Each word is told from the others by its spelling, so that one branch is possible each time.
    rintro last _ rest hint hlast hhint -
    cases hhint with
    | range hopening hword hbounds hclosing =>
      obtain ⟨hword, hlexeme⟩ := isKeyword_iff.mp hword
      simp only [List.cons_append, List.append_assoc, List.nil_append]
      refine (tries_accept .openBracket).thenTake hopening ?_
      rw [if_pos rfl]
      refine (recognizes_expectName "an attribute").thenToken hlast (.token hword) trivial ?_
      split
      case h_1 =>
        refine Recognizes.then recognizes_expectBounds hlast hbounds trivial ?_
        exact (reads_bind_of_run rfl).mpr (thenMark hclosing (reads_pure _ _))
      all_goals simp_all
    | toggle hopening hword hclosing =>
      obtain ⟨hword, hlexeme⟩ := isKeyword_iff.mp hword
      refine (tries_accept .openBracket).thenTake hopening ?_
      rw [if_pos rfl]
      refine (recognizes_expectName "an attribute").thenToken hlast (.token hword) trivial ?_
      split
      case h_2 => exact (reads_bind_of_run rfl).mpr (thenMark hclosing (reads_pure _ _))
      all_goals simp_all
    | header hopening hword hopenParen htext hcloseParen hclosing =>
      obtain ⟨hword, hlexeme⟩ := isKeyword_iff.mp hword
      refine (tries_accept .openBracket).thenTake hopening ?_
      rw [if_pos rfl]
      refine (recognizes_expectName "an attribute").thenToken hlast (.token hword) trivial ?_
      split
      case h_3 =>
        refine thenMark hopenParen ?_
        refine (recognizes_expectString "a header").thenToken hlast ⟨_, .token htext, rfl⟩
          trivial ?_
        refine thenMark hcloseParen ?_
        exact (reads_bind_of_run rfl).mpr (thenMark hclosing (reads_pure _ _))
      all_goals simp_all

theorem startsWith_hint : StartsWith IsHint (·.kind = .openBracket) := by
  rintro _ _ (⟨hopening, -, -, -⟩ | ⟨hopening, -, -⟩ | ⟨hopening, -, -, -, -, -⟩) <;>
    exact ⟨_, _, rfl, hopening⟩

/-- `hint* ident` -/
inductive IsPropertyName : Phrase (List EditorHint × Token)
  | name {tokens : List Token} {hints : List EditorHint} {name : Token}
      (hhints : Many IsHint tokens hints) (hname : name.kind = .identifier) :
      IsPropertyName (tokens ++ [name]) (hints, name)

theorem recognizes_expectPropertyName : Recognizes expectPropertyName IsPropertyName := by
  have hstarts : StartsWith IsHint fun token => token.kind ≠ .identifier ∧ True :=
    startsWith_hint.mono fun opening hopening => ⟨by simp [hopening], trivial⟩
  have hhints := recognizes_manyUntil recognizes_hint hstarts trivial
  constructor
  · intro last tokens hlast
    refine hhints.ensures hlast ?_
    rintro hintTokens hints _ rfl hmany
    refine (recognizes_expectName "a property name").ensures hlast ?_
    rintro _ name rest rfl ⟨hname⟩
    exact ensures_pure ⟨_, rest, by simp, rfl, .name hmany hname⟩
  · rintro last _ rest _ hlast ⟨hmany, hname⟩ -
    simp only [List.append_assoc, List.singleton_append]
    refine hhints.then hlast hmany hname ?_
    refine (recognizes_expectName "a property name").thenToken hlast (.token hname) trivial ?_
    exact reads_pure _ _

theorem recognizes_expectProperty : Recognizes expectProperty IsDeclaration (· ≠ .equal) where
  sound := by
    intro last tokens hlast
    refine Recognizes.ensures recognizes_expectPropertyName hlast ?_
    rintro _ _ _ rfl ⟨hhints, hname⟩
    refine ensures_mark .openParen nofun hlast ?_
    rintro opening _ rfl hopening
    refine (recognizes_expectString "a property label").ensures hlast ?_
    rintro _ _ _ rfl ⟨label, ⟨hlabel⟩, rfl⟩
    refine Recognizes.ensures_optional recognizes_expectType nofun hlast ?_
    rintro typeTokens type? _ rfl htype
    refine ensures_mark .closeParen nofun hlast ?_
    rintro closing _ rfl hclosing
    refine (recognizes_expectLiteral (.inl rfl) "a literal").ensures_optional nofun hlast ?_
    rintro defaultTokens default? rest rfl hdefault
    exact ensures_pure ⟨_, rest, by simp, rfl,
      .declaration hhints hname hopening hlabel htype hclosing hdefault⟩
  complete := by
    rintro last _ rest _ hlast ⟨hhints, hname, hopening, hlabel, htype, hclosing, hdefault⟩ hnext
    simp only [List.cons_append, List.append_assoc]
    rw [← List.singleton_append, ← List.append_assoc]
    refine Recognizes.then recognizes_expectPropertyName hlast (.name hhints hname) trivial ?_
    refine thenMark hopening ?_
    refine (recognizes_expectString "a property label").thenToken hlast ⟨_, .token hlabel, rfl⟩
      trivial ?_
    refine Recognizes.thenOptional recognizes_expectType hlast htype
      (by simp [TokenStream.next, hclosing]) ?_
    refine thenMark hclosing ?_
    refine (recognizes_expectLiteral (.inl rfl) "a literal").thenOptional hlast hdefault hnext ?_
    exact reads_pure _ _

theorem startsWith_declaration :
    StartsWith IsDeclaration fun token => token.kind ≠ .closeBrace ∧ token.kind ≠ .equal := by
  rintro _ _ ⟨hhints, hname, -, -, -, -, -⟩
  cases hhints with
  | nil => exact ⟨_, _, rfl, by simp [hname]⟩
  | cons hfirst hmore =>
    obtain ⟨opening, more, rfl, hopening⟩ := startsWith_hint _ _ hfirst
    exact ⟨opening, _, rfl, by simp [hopening]⟩

end Properties

/-! ### Techniques -/

section Techniques

/-- One more binding of a pass. -/
theorem recognizes_readStage (stages : OrderedMap Stage BoundStage) :
    Recognizes (readStage stages) (fun tokens after => ∃ binding, IsBinding tokens binding ∧
      stages.insertNew? binding.1 binding.2 = some after) where
  sound := by
    intro last tokens hlast
    refine (recognizes_expectName r"a stage slot or `}`").ensures hlast ?_
    rintro _ word _ rfl ⟨hword⟩
    split
    · exact ensures_throw
    · rename_i slot hslot
      refine ensures_refusing ensures_throw fun hnew => ?_
      refine ensures_mark .equal nofun hlast ?_
      rintro equal _ rfl hequal
      refine (recognizes_expectReferences (.inl rfl) "a GLSL block name").ensures hlast ?_
      rintro tokens references rest rfl hreferences
      exact ensures_pure ⟨_, rest, rfl, rfl, _, .binding hword hslot hequal hreferences,
        if_neg hnew⟩
  complete := by
    rintro last _ rest after hlast ⟨_, ⟨hword, hslot, hequal, hreferences⟩, hafter⟩ -
    refine (recognizes_expectName r"a stage slot or `}`").thenToken hlast (.token hword)
      trivial ?_
    rw [hslot]
    obtain ⟨hnew, hafter⟩ := Option.ite_none_left_eq_some.mp hafter
    cases hafter
    dsimp only
    rw [if_neg hnew]
    refine thenMark hequal ?_
    refine (recognizes_expectReferences (.inl rfl) "a GLSL block name").then hlast hreferences
      trivial ?_
    exact reads_pure _ _

/-- The bindings of a pass, whose stages are distinct. -/
theorem recognizes_stages :
    Recognizes (foldUntil .closeBrace readStage .empty) (fun tokens stages =>
      Many IsBinding tokens stages.entries ∧ stages.keys.Nodup) (· = .closeBrace) := by
  refine recognizes_table recognizes_readStage ?_
  rintro _ _ ⟨hword, -, -, -⟩
  exact ⟨_, _, rfl, by simp [hword]⟩

/-- A pass that binds what it has to. -/
theorem recognizes_expectPass :
    Recognizes expectPass (fun tokens pass => IsPass tokens pass ∧ pass.IsComplete) where
  sound := by
    intro last tokens hlast
    rw [expectPass, ensures_bind_of_run (seesKeyword_run "Pass" _)]
    refine ensures_refusing ensures_unexpected fun hsees => ?_
    have hkeyword : (TokenStream.next ⟨tokens, last⟩).isKeyword "Pass" = true := by
      simpa using hsees
    refine ensures_take_bind hlast (kind_ne_of_isKeyword hkeyword) ?_
    rintro keyword _ rfl
    refine ensures_mark .openBrace nofun hlast ?_
    rintro opening _ rfl hopening
    refine Recognizes.ensures_closing recognizes_stages (stopsAt_foldUntil _) nofun hlast ?_
    rintro tokens ⟨bindings⟩ closing rest rfl ⟨hbindings, hnodup⟩ hclosing
    refine ensures_bind ensures_requireStages ?_
    rintro _ _ ⟨rfl, hvertex, hfragment⟩
    exact ensures_pure ⟨_, rest, by simp, rfl,
      .pass hkeyword hopening hbindings hclosing, hnodup, hvertex, hfragment⟩
  complete := by
    rintro last _ rest _ hlast ⟨⟨hkeyword, hopening, hbindings, hclosing⟩, hcomplete⟩ -
    simp only [List.cons_append, List.append_assoc, List.nil_append]
    rw [expectPass, reads_bind_of_run (seesKeyword_run "Pass" _),
      if_neg (by simpa [TokenStream.next] using hkeyword), reads_bind_of_run (take_run _)]
    refine thenMark hopening ?_
    refine Recognizes.then recognizes_stages hlast ⟨hbindings, hcomplete.nodup⟩ hclosing ?_
    rw [reads_bind_of_run (take_run _),
      reads_bind_of_run (requireStages_run hcomplete.vertex hcomplete.fragment)]
    exact reads_pure _ _

theorem recognizes_passes : Recognizes (manyUntil .closeBrace expectPass) (fun tokens passes =>
    Many IsPass tokens passes ∧ ∀ pass ∈ passes, pass.IsComplete) (· = .closeBrace) := by
  refine (recognizes_manyUntil recognizes_expectPass ?_ trivial).congr
    fun _ _ => many_and_iff.symm
  rintro _ _ ⟨⟨hkeyword, -, -, -⟩, -⟩
  exact ⟨_, _, rfl, by simp [(isKeyword_iff.mp hkeyword).1], trivial⟩

end Techniques

/-! ### Drafts -/

section Drafts

/-- Adds a property to a table, if its name is new and it gets a type. -/
def addProperty? (properties : OrderedMap String Property) (declaration : PropertyDeclaration) :
    Option (OrderedMap String Property) :=
  declaration.resolve.toOption.bind fun property => properties.insertNew? property.name property

/-- Adds an item to a draft, if both can stand in one shader. -/
def Draft.add? (draft : Draft) : Item → Option Draft
  | .properties declarations =>
    if draft.hasProperties then none
    else
      (declarations.foldlM addProperty? draft.shader.properties).map fun properties =>
        ⟨{ draft.shader with properties }, true⟩
  | .shared block =>
    if draft.shader.shared?.isSome then none
    else some { draft with shader := { draft.shader with shared? := some block } }
  | .block block =>
    (draft.shader.blocks.insertNew? block.name block).map fun blocks =>
      { draft with shader := { draft.shader with blocks } }
  | .technique technique =>
    if ∀ pass ∈ technique.passes, pass.IsComplete then
      (draft.shader.techniques.insertNew? technique.name technique).map fun techniques =>
        { draft with shader := { draft.shader with techniques } }
    else none

/-- An item that a keyword starts, as the draft that a given one becomes with it. -/
def Draft.Extends (draft : Draft) (word : String) : Phrase Draft := fun tokens after =>
  ∃ item, IsItem tokens item ∧ item.keyword = word ∧ draft.add? item = some after

theorem Draft.startsWith_extends (draft : Draft) (word : String) :
    StartsWith (draft.Extends word) (·.isKeyword word = true) := by
  rintro _ _ ⟨_, hitem, rfl, -⟩
  exact hitem.starts

theorem addProperty?_eq_some {properties after : OrderedMap String Property}
    {declaration : PropertyDeclaration} : addProperty? properties declaration = some after ↔
      ∃ property, declaration.resolve = .ok property ∧
        properties.insertNew? declaration.name property = some after := by
  unfold addProperty?
  cases hresolve : declaration.resolve with
  | error error => simp [Except.toOption]
  | ok property => simp [Except.toOption, PropertyDeclaration.name_of_resolve hresolve]

/-- Reads one more property of a block of them. -/
def readProperty (properties : OrderedMap String Property) :
    Parser (OrderedMap String Property) := do
  let declaration ← expectProperty
  if properties.contains declaration.name then
    throw (.duplicate .property declaration.name declaration.position)
  let property ← resolveProperty declaration
  return properties.insert property.name property

theorem recognizes_readProperty (properties : OrderedMap String Property) :
    Recognizes (readProperty properties) (fun tokens after =>
      ∃ declaration, IsDeclaration tokens declaration ∧
        addProperty? properties declaration = some after) (· ≠ .equal) where
  sound := by
    intro last tokens hlast
    refine Recognizes.ensures recognizes_expectProperty hlast ?_
    rintro tokens declaration rest rfl hdeclaration
    refine ensures_refusing ensures_throw fun hnew => ?_
    refine ensures_bind ensures_resolveProperty ?_
    rintro property _ ⟨rfl, hresolve⟩
    refine ensures_pure ⟨tokens, rest, rfl, rfl, declaration, hdeclaration,
      addProperty?_eq_some.mpr ⟨property, hresolve, ?_⟩⟩
    rw [PropertyDeclaration.name_of_resolve hresolve]
    exact OrderedMap.insertNew?_of_new hnew
  complete := by
    rintro last taken rest after hlast ⟨declaration, hdeclaration, hafter⟩ hfollow
    obtain ⟨property, hresolve, hafter⟩ := addProperty?_eq_some.mp hafter
    obtain ⟨hnew, rfl⟩ := OrderedMap.insertNew?_eq_insert.mp hafter
    refine Recognizes.then recognizes_expectProperty hlast hdeclaration hfollow ?_
    rw [if_neg hnew, reads_bind_of_reads (reads_resolveProperty hresolve),
      PropertyDeclaration.name_of_resolve hresolve]
    exact reads_pure _ _

/-- The properties of a block, put into a table that may have others. -/
theorem recognizes_properties (properties : OrderedMap String Property) :
    Recognizes (foldUntil .closeBrace readProperty properties) (fun tokens after =>
      ∃ declarations, Many IsDeclaration tokens declarations ∧
        declarations.foldlM addProperty? properties = some after) (· = .closeBrace) :=
  recognizes_foldUntil recognizes_readProperty startsWith_declaration nofun properties

theorem recognizes_readProperties (draft : Draft) :
    RecognizesAt "Properties" (readProperties draft) (draft.Extends "Properties") where
  starts := draft.startsWith_extends _
  sound := by
    intro last keyword tokens hlast hkeyword
    refine ensures_take_cons ?_
    refine ensures_refusing ensures_throw fun hnew => ?_
    refine ensures_mark .openBrace nofun hlast ?_
    rintro opening _ rfl hopening
    refine (recognizes_properties draft.shader.properties).ensures hlast ?_
    rintro tokens properties _ rfl ⟨declarations, hdeclarations, hproperties⟩
    refine ensures_mark .closeBrace nofun hlast ?_
    rintro closing rest rfl hclosing
    refine ensures_pure ⟨_, rest, by simp, rfl, _,
      .properties hkeyword hopening hdeclarations hclosing, rfl, ?_⟩
    rw [Draft.add?, if_neg hnew, hproperties]
    rfl
  complete := by
    rintro last _ rest after hlast ⟨_, ⟨⟩ | ⟨⟩ | ⟨⟩ | ⟨⟩, hword, hafter⟩
    case properties hkeyword hopening hdeclarations hclosing =>
      obtain ⟨hnew, hafter⟩ := Option.ite_none_left_eq_some.mp hafter
      obtain ⟨properties, hproperties, rfl⟩ := Option.map_eq_some_iff.mp hafter
      simp only [List.cons_append, List.append_assoc, List.nil_append]
      refine reads_take_cons ?_
      rw [if_neg hnew]
      refine thenMark hopening ?_
      refine (recognizes_properties draft.shader.properties).then hlast
        ⟨_, hdeclarations, hproperties⟩ hclosing ?_
      exact thenMark hclosing (reads_pure _ _)
    all_goals simp [Item.keyword] at hword

theorem recognizes_readBlock (draft : Draft) :
    RecognizesAt "GLSL" (readBlock draft) (draft.Extends "GLSL") where
  starts := draft.startsWith_extends _
  sound := by
    intro last keyword tokens hlast hkeyword
    refine ensures_take_cons ?_
    refine (tries_takeIf .identifier).ensures (by simp [hlast]) ?_ fun _ => ?_
    · rintro name _ rfl hname
      refine ensures_mark .openBrace nofun hlast ?_
      rintro opening _ rfl hopening
      refine (recognizes_expectBody "a GLSL block body").ensures hlast ?_
      rintro tokens body rest rfl hbody
      refine ensures_refusing ensures_throw fun hnew => ?_
      exact (ensures_bind_of_reads (reads_record _ _ _)).mpr (ensures_pure ⟨_, rest, rfl, rfl, _,
        .block hkeyword hname hopening hbody, rfl,
        congrArg (Option.map _) (OrderedMap.insertNew?_of_new hnew)⟩)
    · refine ensures_mark .openBrace nofun hlast ?_
      rintro opening _ rfl hopening
      refine (recognizes_expectBody "a GLSL block body").ensures hlast ?_
      rintro tokens body rest rfl hbody
      refine ensures_refusing ensures_throw fun hnew => ?_
      exact (ensures_bind_of_reads (reads_record _ _ _)).mpr (ensures_pure ⟨_, rest, rfl, rfl, _,
        .shared hkeyword hopening hbody, rfl, if_neg hnew⟩)
  complete := by
    rintro last _ rest after hlast ⟨_, ⟨⟩ | ⟨⟩ | ⟨⟩ | ⟨⟩, hword, hafter⟩
    case shared hkeyword hopening hbody =>
      obtain ⟨hnew, hafter⟩ := Option.ite_none_left_eq_some.mp hafter
      cases hafter
      refine reads_take_cons ?_
      refine (tries_takeIf .identifier).thenLeave (by simp [TokenStream.next, hopening]) ?_
      refine thenMark hopening ?_
      refine (recognizes_expectBody "a GLSL block body").then hlast hbody trivial ?_
      dsimp only
      rw [if_neg hnew]
      exact (reads_bind_of_reads (reads_record _ _ _)).mpr (reads_pure _ _)
    case block hkeyword hname hopening hbody =>
      obtain ⟨blocks, hblocks, rfl⟩ := Option.map_eq_some_iff.mp hafter
      obtain ⟨hnew, rfl⟩ := OrderedMap.insertNew?_eq_insert.mp hblocks
      rw [CodeBlock.name_ofBody] at hnew
      refine reads_take_cons ?_
      refine (tries_takeIf .identifier).thenTake hname ?_
      refine thenMark hopening ?_
      refine (recognizes_expectBody "a GLSL block body").then hlast hbody trivial ?_
      dsimp only
      rw [if_neg hnew]
      exact (reads_bind_of_reads (reads_record _ _ _)).mpr (reads_pure _ _)
    all_goals simp [Item.keyword] at hword

theorem recognizes_readTechnique (draft : Draft) :
    RecognizesAt "Technique" (readTechnique draft) (draft.Extends "Technique") where
  starts := draft.startsWith_extends _
  sound := by
    intro last keyword tokens hlast hkeyword
    refine ensures_take_cons ?_
    refine (recognizes_expectName "a technique name").ensures hlast ?_
    rintro _ name _ rfl ⟨hname⟩
    refine ensures_refusing ensures_throw fun hnew => ?_
    refine ensures_mark .openBrace nofun hlast ?_
    rintro opening _ rfl hopening
    refine Recognizes.ensures_closing recognizes_passes stopsAt_manyUntil nofun hlast ?_
    rintro tokens passes closing rest rfl ⟨hpasses, hcomplete⟩ hclosing
    refine ensures_refusing ensures_throw fun hsome => ?_
    refine (ensures_bind_of_reads (reads_record _ _ _)).mpr (ensures_pure ⟨_, rest, by simp, rfl, _,
      .technique (.technique hkeyword hname hopening hpasses (by simpa using hsome) hclosing),
      rfl, ?_⟩)
    rw [Draft.add?, if_pos hcomplete]
    exact congrArg (Option.map _) (OrderedMap.insertNew?_of_new hnew)
  complete := by
    rintro last _ rest after hlast ⟨_, ⟨⟩ | ⟨⟩ | ⟨⟩ | ⟨htechnique⟩, hword, hafter⟩
    case technique =>
      obtain ⟨hkeyword, hname, hopening, hpasses, hsome, hclosing⟩ := htechnique
      obtain ⟨hcomplete, hafter⟩ := Option.ite_none_right_eq_some.mp hafter
      obtain ⟨techniques, htechniques, rfl⟩ := Option.map_eq_some_iff.mp hafter
      obtain ⟨hnew, rfl⟩ := OrderedMap.insertNew?_eq_insert.mp htechniques
      simp only [List.cons_append, List.append_assoc, List.nil_append]
      refine reads_take_cons ?_
      refine (recognizes_expectName "a technique name").thenToken hlast (.token hname) trivial ?_
      rw [if_neg hnew]
      refine thenMark hopening ?_
      refine Recognizes.then recognizes_passes hlast ⟨hpasses, hcomplete⟩ hclosing ?_
      rw [reads_bind_of_run (take_run _), if_neg (by simpa using hsome)]
      exact (reads_bind_of_reads (reads_record _ _ _)).mpr (reads_pure _ _)
    all_goals simp [Item.keyword] at hword

/-- One more item of a shader. -/
theorem recognizes_readItem (draft : Draft) : Recognizes (readItem draft) (fun tokens after =>
    ∃ item, IsItem tokens item ∧ draft.add? item = some after) := by
  have hother : ∀ {word other : String}, other ≠ word →
      StartsWith (draft.Extends other) (¬ ·.isKeyword word = true) := fun hne =>
    (draft.startsWith_extends _).mono fun _ => not_isKeyword_of_isKeyword hne
  have htechnique := (recognizes_readTechnique draft).orUnexpected
    "`Properties`, `GLSL` or `Technique`"
  have hblock := (recognizes_readBlock draft).orElse htechnique (hother (by decide))
  refine ((recognizes_readProperties draft).orElse hblock
    ((hother (by decide)).or (hother (by decide)))).congr fun tokens after => ?_
  constructor
  · rintro ⟨item, hitem, hafter⟩
    cases item with
    | properties _ => exact .inl ⟨_, hitem, rfl, hafter⟩
    | shared _ => exact .inr (.inl ⟨_, hitem, rfl, hafter⟩)
    | block _ => exact .inr (.inl ⟨_, hitem, rfl, hafter⟩)
    | technique _ => exact .inr (.inr ⟨_, hitem, rfl, hafter⟩)
  · rintro (⟨item, hitem, -, hafter⟩ | ⟨item, hitem, -, hafter⟩ | ⟨item, hitem, -, hafter⟩) <;>
      exact ⟨item, hitem, hafter⟩

theorem recognizes_items (draft : Draft) :
    Recognizes (foldUntil .closeBrace readItem draft) (fun tokens after =>
      ∃ items, Many IsItem tokens items ∧ items.foldlM Draft.add? draft = some after)
      (· = .closeBrace) := by
  refine recognizes_foldUntil recognizes_readItem ?_ trivial draft
  intro tokens item hitem
  obtain ⟨keyword, more, rfl, hkeyword⟩ := hitem.starts
  exact ⟨keyword, more, rfl, by simp [(isKeyword_iff.mp hkeyword).1], trivial⟩

/-- What is read is a description whose items can be put together, one of them a technique. -/
theorem ensures_expectShader {path : SourcePath} {last : Token} {tokens : List Token}
    (hlast : last.kind = .endOfFile) (htokens : ∀ token ∈ tokens, token.kind ≠ .endOfFile) :
    Ensures (expectShader path) ⟨tokens, last⟩ fun shader _ => ∃ items draft,
      IsDescription (tokens ++ [last]) items ∧
        items.foldlM Draft.add? ⟨.empty path, false⟩ = some draft ∧
          draft.shader.techniques.isEmpty = false ∧ shader = draft.shader := by
  refine (recognizes_expectKeyword "Shader").ensures hlast ?_
  rintro _ keyword _ rfl ⟨rfl, hkeyword⟩
  refine ensures_mark .openBrace nofun hlast ?_
  rintro opening _ rfl hopening
  refine (recognizes_items _).ensures_closing (stopsAt_foldUntil _) nofun hlast ?_
  rintro tokens draft closing rest rfl ⟨items, hitems, hdraft⟩ hclosing
  refine ensures_bind ensures_end ?_
  rintro _ _ hend
  refine ensures_refusing ensures_throw fun hsome => ensures_pure ?_
  have hrest : rest = [] := eq_nil_of_next hend fun token htoken => htokens token (by simp [htoken])
  subst hrest
  refine ⟨items, draft, ?_, hdraft, by simpa using hsome, rfl⟩
  simpa using IsDescription.description hkeyword hopening hitems hclosing hlast

/-- A description whose items can be put together is read, if one of them is a technique. -/
theorem ofTokens_of_isDescription {path : SourcePath} {tokens : List Token} {items : List Item}
    {draft : Draft} (h : IsDescription tokens items)
    (hdraft : items.foldlM Draft.add? ⟨.empty path, false⟩ = some draft)
    (hsome : draft.shader.techniques.isEmpty = false) :
    (ofTokens path tokens).outcome = .ok draft.shader := by
  obtain ⟨hkeyword, hopening, hitems, hclosing, hlast⟩ := h
  rename_i keyword opening closing last inner
  have hsplit : keyword :: opening :: (inner ++ [closing, last]) =
      (keyword :: opening :: (inner ++ [closing])) ++ [last] := by simp
  rw [hsplit, ofTokens, ofTokens_append hlast]
  have hreads : Reads (expectShader path) ⟨keyword :: opening :: (inner ++ [closing]), last⟩
      draft.shader ⟨[], last⟩ := by
    refine (recognizes_expectKeyword "Shader").thenToken hlast ⟨rfl, hkeyword⟩ trivial ?_
    refine thenMark hopening ?_
    refine (recognizes_items _).then hlast ⟨items, hitems, hdraft⟩ hclosing ?_
    rw [reads_bind_of_run (take_run _)]
    refine (reads_bind_of_reads (reads_end hlast)).mpr ?_
    rw [if_neg (by simp [hsome])]
    exact reads_pure _ _
  exact hreads.1

end Drafts

end ShaderAssembly.Description
