import ShaderAssembly.Proofs.StageCodes
import ShaderAssembly.Proofs.TypedProperties

/-!
# Properties and annotations

The annotations of a uniform are used twice. The shader keeps them in a table, where the last
annotation of a name counts and a description stands in for a value that is missing. The property
that edits the uniform looks for the first annotation of a name and takes nothing but its value.
So for every list of annotations the first one of a name decides about the label, the title and the
ends of the slider. Where a name is annotated once both come to the same, but for a description
without a value, which only the table has.
-/

namespace ShaderAssembly.Effect

open ShaderAssembly.Grammar

/-! ### Annotations of a name -/

namespace AnnotationEntry

variable {annotations : List AnnotationEntry} {name : String} {literal : Literal}

/-- The annotations of a name. -/
def ofName (annotations : List AnnotationEntry) (name : String) : List AnnotationEntry :=
  annotations.filter (·.name = name)

/-- Whether a name is annotated at most once. -/
def IsUnrepeated (annotations : List AnnotationEntry) (name : String) : Prop :=
  (ofName annotations name).length ≤ 1

/-- Whether the annotations of a name have values, and not a description alone. -/
def AreValued (annotations : List AnnotationEntry) (name : String) : Prop :=
  ∀ entry ∈ ofName annotations name, entry.value? ≠ none

instance (annotations : List AnnotationEntry) (name : String) :
    Decidable (IsUnrepeated annotations name) :=
  inferInstanceAs (Decidable (_ ≤ 1))

instance (annotations : List AnnotationEntry) (name : String) :
    Decidable (AreValued annotations name) :=
  inferInstanceAs (Decidable (∀ entry ∈ ofName annotations name, entry.value? ≠ none))

/-- One more annotation is put into the table if there is something to keep. -/
theorem table_concat (annotations : List AnnotationEntry) (latest : AnnotationEntry) :
    table (annotations ++ [latest]) =
      match latest.literal? with
      | none => table annotations
      | some literal => (table annotations).insert latest.name literal := by
  unfold table OrderedMap.ofList
  rw [List.filterMap_append, List.foldl_append]
  cases hliteral : latest.literal? <;> simp [hliteral]

/-- The table has the last thing to keep of a name. -/
theorem get?_table (annotations : List AnnotationEntry) (name : String) :
    (table annotations).get? name = (ofName annotations name).reverse.findSome? literal? := by
  induction annotations using List.reverseRecOn with
  | nil => rfl
  | append_singleton annotations latest ih =>
    rw [table_concat, ofName, List.filter_append, List.reverse_append]
    by_cases hname : latest.name = name
    · subst hname
      cases hliteral : latest.literal? with
      | none => simpa [hliteral, ofName] using ih
      | some literal => simp [hliteral]
    · cases hliteral : latest.literal? with
      | none => simpa [hname, ofName] using ih
      | some literal =>
        simpa [hname, ofName, OrderedMap.get?_insert_of_ne (Ne.symm hname)] using ih

/-- The value of the first annotation of a name is looked for among those of the name. -/
theorem valueOf?_eq (annotations : List AnnotationEntry) (name : String) :
    valueOf? annotations name = (ofName annotations name).head?.bind value? := by
  rw [ofName, List.head?_filter, valueOf?]

/-- What is kept of an annotation is its value, where it has one. -/
theorem literal?_of_value? {entry : AnnotationEntry} (h : entry.value? ≠ none) :
    entry.literal? = entry.value? := by
  obtain ⟨literal, hliteral⟩ := Option.ne_none_iff_exists'.mp h
  rw [AnnotationEntry.literal?, hliteral]
  rfl

/-- A name that is annotated at most once has no annotation or one. -/
theorem IsUnrepeated.cases (h : IsUnrepeated annotations name) :
    ofName annotations name = [] ∨ ∃ entry, ofName annotations name = [entry] := by
  rcases Nat.le_one_iff_eq_zero_or_eq_one.mp h with hzero | hone
  · exact .inl (List.length_eq_zero_iff.mp hzero)
  · exact .inr (List.length_eq_one_iff.mp hone)

/-- Where a name is annotated once, the value that is looked for is what the table has, unless a
description stands in for it there. -/
theorem valueOf?_eq_some_iff (h : IsUnrepeated annotations name) :
    valueOf? annotations name = some literal ↔
      (table annotations).get? name = some literal ∧ AreValued annotations name := by
  rw [valueOf?_eq, get?_table, AreValued]
  rcases h.cases with hnone | ⟨entry, hentry⟩
  · simp [hnone]
  · rw [hentry]
    cases hvalue : entry.value? with
    | none => simp [hvalue]
    | some value =>
      have hliteral : entry.literal? = some value := by
        rw [literal?_of_value? (by simp [hvalue]), hvalue]
      simp [hvalue, hliteral]

/-- Where a name is annotated once, a number in the table is its value. -/
theorem valueOf?_of_number {number : Number} (h : IsUnrepeated annotations name)
    (hnumber : (table annotations).get? name = some (.number number)) :
    valueOf? annotations name = some (.number number) := by
  refine (valueOf?_eq_some_iff h).mpr ⟨hnumber, fun entry hentry hvalue => ?_⟩
  obtain ⟨other, hother⟩ := h.cases.resolve_left (List.ne_nil_of_mem hentry)
  rw [hother, List.mem_singleton] at hentry
  obtain rfl := hentry
  -- What stands in for a value is a string.
  rw [get?_table, hother] at hnumber
  cases hdescription : entry.description? <;>
    simp [AnnotationEntry.literal?, hvalue, hdescription] at hnumber

/-- The text that is looked for is the string of the first annotation of a name. -/
theorem textOf?_eq_some_iff {text : String} : textOf? annotations name = some text ↔
    valueOf? annotations name = some (.string text) := by
  rw [textOf?, Option.bind_eq_some_iff]
  constructor
  · rintro ⟨literal, hvalue, htext⟩
    cases literal <;> simp only [Literal.string?, reduceCtorEq, Option.some.injEq] at htext
    rw [hvalue, htext]
  · intro hvalue
    exact ⟨_, hvalue, rfl⟩

/-- The end of a slider that is looked for is the number of the first annotation of a name. -/
theorem boundOf?_eq_some_iff {bound : BinaryValue} : boundOf? annotations name = some bound ↔
    ∃ number, valueOf? annotations name = some (.number number) ∧
      number.toBinary32 = bound := by
  rw [boundOf?, Option.map_eq_some_iff]
  constructor
  · intro hbound
    obtain ⟨value, hvalue, rfl⟩ := hbound
    obtain ⟨literal, hliteral, hnumber⟩ := Option.bind_eq_some_iff.mp hvalue
    cases literal <;> simp only [Literal.number?, reduceCtorEq, Option.some.injEq] at hnumber
    exact ⟨_, hliteral, congrArg BinaryFormat.binary32.convert hnumber⟩
  · intro hnumber
    obtain ⟨number, hvalue, rfl⟩ := hnumber
    exact ⟨number.value, by rw [hvalue]; rfl, rfl⟩

/-- The annotation that decides for a name: the first one of the name. -/
def first? (annotations : List AnnotationEntry) (name : String) : Option AnnotationEntry :=
  (ofName annotations name).head?

/-- Whether the annotation that decides for a name has a literal as its value. -/
def Decides (annotations : List AnnotationEntry) (name : String) (literal : Literal) : Prop :=
  ∃ entry, first? annotations name = some entry ∧ entry.value? = some literal

/-- The value that is looked for is that of the annotation that decides. -/
theorem valueOf?_eq_some_iff_decides :
    valueOf? annotations name = some literal ↔ Decides annotations name literal := by
  rw [valueOf?_eq, Option.bind_eq_some_iff]
  rfl

end AnnotationEntry

/-! ### Properties of uniforms -/

/-- Whether a property says what the first annotation of each name says, for any list of
annotations. -/
structure FollowsFirst (uniform : Uniform) (annotations : List AnnotationEntry)
    (property : Property) : Prop where
  /-- The label is the string that decides. -/
  label : ∀ text, AnnotationEntry.Decides annotations "UIName" (.string text) →
    property.label = text
  /-- Without a string that decides, the label is the name. -/
  unlabelled : (∀ text, ¬ AnnotationEntry.Decides annotations "UIName" (.string text)) →
    property.label = uniform.name
  /-- The titles are the strings that decide, so there is at most one. -/
  header : ∀ text, .header text ∈ property.attributes ↔
    AnnotationEntry.Decides annotations "UIGroup" (.string text)
  /-- Numbers that decide for both ends are the ends of the slider. -/
  range : ∀ least greatest, AnnotationEntry.Decides annotations "UIMin" (.number least) →
    AnnotationEntry.Decides annotations "UIMax" (.number greatest) →
      ∀ min max, .range min max ∈ property.attributes ↔
        min = least.toBinary32 ∧ max = greatest.toBinary32
  /-- If there is no number that decides for one of the ends, the slider is that of the first
  annotation that asks for one with its control. -/
  slider : (∀ least greatest, ¬ (AnnotationEntry.Decides annotations "UIMin" (.number least) ∧
      AnnotationEntry.Decides annotations "UIMax" (.number greatest))) →
    ∀ min max, .range min max ∈ property.attributes ↔
      annotations.findSome? AnnotationEntry.slider? = some (min, max)

/-- Whether a table of annotations has a literal under a name, and not because a description stands
in for a value that is missing. -/
structure Keeps (table : OrderedMap String Literal) (annotations : List AnnotationEntry)
    (name : String) (literal : Literal) : Prop where
  /-- The table has the literal. -/
  recorded : table.get? name = some literal
  /-- The literal was written as a value. -/
  valued : AnnotationEntry.AreValued annotations name

/-- Whether a property says what the table of its uniform says, for every name that is annotated
at most once. -/
structure FollowsTable (uniform : Uniform) (annotations : List AnnotationEntry)
    (property : Property) : Prop where
  /-- The label is the string of its annotation. -/
  label : AnnotationEntry.IsUnrepeated annotations "UIName" →
    ∀ text, Keeps uniform.annotations annotations "UIName" (.string text) → property.label = text
  /-- Without a string there the label is the name. -/
  unlabelled : AnnotationEntry.IsUnrepeated annotations "UIName" →
    (∀ text, ¬ Keeps uniform.annotations annotations "UIName" (.string text)) →
      property.label = uniform.name
  /-- There is a title exactly if its annotation is a string, and it is that string. -/
  header : AnnotationEntry.IsUnrepeated annotations "UIGroup" →
    ∀ text, .header text ∈ property.attributes ↔
      Keeps uniform.annotations annotations "UIGroup" (.string text)
  /-- Numbers at both ends are the ends of the slider. -/
  range : AnnotationEntry.IsUnrepeated annotations "UIMin" →
    AnnotationEntry.IsUnrepeated annotations "UIMax" →
      ∀ least greatest, uniform.annotations.get? "UIMin" = some (.number least) →
        uniform.annotations.get? "UIMax" = some (.number greatest) →
          ∀ min max, .range min max ∈ property.attributes ↔
            min = least.toBinary32 ∧ max = greatest.toBinary32

section Follows

variable {uniform : Uniform} {annotations : List AnnotationEntry}
  {declaration : PropertyDeclaration} {property : Property}

/-- Both ends of a slider are looked for first. -/
theorem bounds?_of_numbers {least greatest : Number}
    (hleast : AnnotationEntry.Decides annotations "UIMin" (.number least))
    (hgreatest : AnnotationEntry.Decides annotations "UIMax" (.number greatest)) :
    bounds? annotations = some (least.toBinary32, greatest.toBinary32) := by
  have hmin := AnnotationEntry.boundOf?_eq_some_iff.mpr
    ⟨least, AnnotationEntry.valueOf?_eq_some_iff_decides.mpr hleast, rfl⟩
  have hmax := AnnotationEntry.boundOf?_eq_some_iff.mpr
    ⟨greatest, AnnotationEntry.valueOf?_eq_some_iff_decides.mpr hgreatest, rfl⟩
  rw [bounds?, hmin, hmax]

/-- A slider is looked for among all annotations unless both ends are numbers. -/
theorem bounds?_of_not_numbers
    (h : ∀ least greatest, ¬ (AnnotationEntry.Decides annotations "UIMin" (.number least) ∧
      AnnotationEntry.Decides annotations "UIMax" (.number greatest))) :
    bounds? annotations = annotations.findSome? AnnotationEntry.slider? := by
  unfold bounds?
  dsimp only
  split
  · rename_i hmin hmax
    obtain ⟨least, hleast, -⟩ := AnnotationEntry.boundOf?_eq_some_iff.mp hmin
    obtain ⟨greatest, hgreatest, -⟩ := AnnotationEntry.boundOf?_eq_some_iff.mp hmax
    exact absurd ⟨AnnotationEntry.valueOf?_eq_some_iff_decides.mp hleast,
      AnnotationEntry.valueOf?_eq_some_iff_decides.mp hgreatest⟩ (h least greatest)
  · rfl

/-- What edits a uniform has the label and the advice that its annotations ask for. -/
theorem editor?_eq_some (h : editor? (uniform, annotations) = some declaration) :
    declaration.label = (AnnotationEntry.textOf? annotations "UIName").getD uniform.name ∧
      declaration.attributes =
        ((AnnotationEntry.textOf? annotations "UIGroup").map EditorHint.header).toList ++
          ((bounds? annotations).map fun bounds => EditorHint.range bounds.1 bounds.2).toList := by
  rw [editor?, Option.ite_none_left_eq_some] at h
  obtain ⟨type, -, rfl⟩ := Option.map_eq_some_iff.mp h.2
  exact ⟨rfl, rfl⟩

/-- The property that edits a uniform says what the first annotations say. -/
theorem followsFirst_of_editor? (heditor : editor? (uniform, annotations) = some declaration)
    (hgives : declaration.Gives property) : FollowsFirst uniform annotations property := by
  obtain ⟨hlabel, hattributes⟩ := editor?_eq_some heditor
  have hdecides : ∀ {name text}, AnnotationEntry.textOf? annotations name = some text ↔
      AnnotationEntry.Decides annotations name (.string text) :=
    AnnotationEntry.textOf?_eq_some_iff.trans AnnotationEntry.valueOf?_eq_some_iff_decides
  have hrange : ∀ min max, .range min max ∈ property.attributes ↔
      bounds? annotations = some (min, max) := by
    intro min max
    rw [hgives.attributes, hattributes]
    simp
  constructor
  case label =>
    intro text htext
    rw [hgives.label, hlabel, hdecides.mpr htext]
    rfl
  case unlabelled =>
    intro hnone
    have htext : AnnotationEntry.textOf? annotations "UIName" = none :=
      Option.eq_none_iff_forall_ne_some.mpr fun text h => hnone text (hdecides.mp h)
    rw [hgives.label, hlabel, htext]
    rfl
  case header =>
    intro text
    rw [hgives.attributes, hattributes, ← hdecides]
    simp
  case range =>
    intro least greatest hleast hgreatest min max
    rw [hrange, bounds?_of_numbers hleast hgreatest]
    simp [eq_comm]
  case slider =>
    intro hnone min max
    rw [hrange, bounds?_of_not_numbers hnone]

/-- What the first annotations say is what the table says of names that are annotated once. -/
theorem FollowsFirst.followsTable (h : FollowsFirst uniform annotations property)
    (htable : uniform.annotations = AnnotationEntry.table annotations) :
    FollowsTable uniform annotations property := by
  have hkeeps : ∀ {name literal}, AnnotationEntry.IsUnrepeated annotations name →
      (AnnotationEntry.Decides annotations name literal ↔
        Keeps uniform.annotations annotations name literal) := by
    intro name literal hname
    rw [← AnnotationEntry.valueOf?_eq_some_iff_decides,
      AnnotationEntry.valueOf?_eq_some_iff hname, ← htable]
    exact ⟨fun h => ⟨h.1, h.2⟩, fun h => ⟨h.recorded, h.valued⟩⟩
  have hnumber : ∀ {name number}, AnnotationEntry.IsUnrepeated annotations name →
      uniform.annotations.get? name = some (.number number) →
        AnnotationEntry.Decides annotations name (.number number) := by
    intro name number hname hfound
    rw [htable] at hfound
    exact AnnotationEntry.valueOf?_eq_some_iff_decides.mp
      (AnnotationEntry.valueOf?_of_number hname hfound)
  constructor
  case label => exact fun hname text htext => h.label text ((hkeeps hname).mpr htext)
  case unlabelled =>
    exact fun hname hnone => h.unlabelled fun text htext => hnone text ((hkeeps hname).mp htext)
  case header => exact fun hname text => (h.header text).trans (hkeeps hname)
  case range =>
    exact fun hmin hmax least greatest hleast hgreatest =>
      h.range least greatest (hnumber hmin hleast) (hnumber hmax hgreatest)

end Follows

/-! ### Effect files -/

/-- The table of a uniform in a file is made of its annotations. -/
theorem annotations_of_isFile {tokens : List Token} {items : List Item} {uniform : Uniform}
    {annotations : List AnnotationEntry} (h : IsFile tokens items)
    (huniform : .uniform uniform annotations ∈ items) :
    uniform.annotations = AnnotationEntry.table annotations := by
  obtain ⟨hitems, -⟩ := h
  obtain ⟨part, -, hpart⟩ := hitems.exists_of_mem huniform
  obtain ⟨hwritten⟩ := hpart
  cases hwritten
  rfl

/-- A uniform that is declared is found under its name. -/
theorem Declares.get?_uniforms {path : SourcePath} {items : List Item} {shader : Shader}
    (h : Declares path items shader) (hconsistent : Consistent items) {uniform : Uniform}
    {annotations : List AnnotationEntry} (huniform : .uniform uniform annotations ∈ items) :
    shader.uniforms.get? uniform.name = some uniform := by
  have hkeys : shader.uniforms.keys.Nodup := by
    rw [OrderedMap.keys, h.uniforms, List.map_map]
    exact hconsistent.uniforms
  rw [OrderedMap.get?_eq_some_iff hkeys, h.uniforms]
  exact List.mem_map.mpr
    ⟨(uniform, annotations), List.mem_filterMap.mpr ⟨_, huniform, rfl⟩, rfl⟩

/-- Whether every property of a shader edits the uniform of its name, as a text declares it, and
says what the first annotations of each name say, and what the table of the uniform says. -/
def PropertiesFollowTables (path : SourcePath) (source : ExpandedText) (shader : Shader) : Prop :=
  ∃ items, IsFile (Token.scan (some blockRule) path source.text) items ∧
    ∀ entry ∈ shader.properties.entries, ∃ declared annotations uniform,
      .uniform declared annotations ∈ items ∧
        uniform = declared.mapPosition (located source.map) ∧
          shader.uniforms.get? entry.1 = some uniform ∧
            FollowsFirst uniform annotations entry.2 ∧
              FollowsTable uniform annotations entry.2

/-- The properties of an effect file say what the first annotations of each name say. That is what
the tables of annotations say, wherever a name is annotated at most once. -/
theorem propertiesFollowTables_of_parse {path : SourcePath} {source : ExpandedText}
    {shader : Shader} (h : (parse path source).outcome = .ok shader) :
    PropertiesFollowTables path source shader := by
  obtain ⟨read, hread, rfl⟩ := parse_eq_ok.mp h
  obtain ⟨items, hitems, hconsistent, -, hdeclares⟩ := exists_isFile_of_expectFile
    (ScanState.isStreamOf_scan (some blockRule) path source.text) hread
  refine ⟨items, hitems, fun entry hentry => ?_⟩
  obtain ⟨⟨name, property⟩, hproperty, rfl⟩ := List.mem_map.mp hentry
  obtain ⟨declaration, hdeclaration, hname, hresolve⟩ :=
    exists_of_mem_right hdeclares.properties hproperty
  obtain ⟨⟨declared, annotations⟩, hdeclared, heditor⟩ := List.mem_filterMap.mp hdeclaration
  obtain ⟨item, hitem, huniform⟩ := List.mem_filterMap.mp hdeclared
  obtain rfl : item = .uniform declared annotations := by
    cases item <;> cases huniform
    rfl
  obtain rfl : name = declared.name := hname.trans (name_of_editor? heditor)
  have hfirst := followsFirst_of_editor? heditor (PropertyDeclaration.resolve_eq_ok_iff.mp hresolve)
  have htable := hfirst.followsTable (annotations_of_isFile hitems hitem)
  refine ⟨declared, annotations, _, hitem, rfl, ?_, ?_, ?_⟩
  · rw [locateShader, OrderedMap.get?_mapValues, hdeclares.get?_uniforms hconsistent hitem]
    rfl
  -- Positions matter to neither side.
  · exact ⟨hfirst.label, hfirst.unlabelled, hfirst.header, hfirst.range, hfirst.slider⟩
  · exact ⟨htable.label, htable.unlabelled, htable.header, htable.range⟩

/-- A label, a title and the ends of a slider are annotated once each. -/
theorem propertiesFollowTables_of_slider :
    let effect := "uniform float gRough < string UIName = \"Roughness\"; string UIGroup = " ++
      "\"Surface\"; float UIMin = 0; float UIMax = 1.5; > = 0.5;\n" ++
      "GLSLShader A { }\n" ++
      "technique T { pass p { VertexShader (in a, out b) = A; PixelShader (in b, out c) = A; } }\n"
    let source := ExpandedText.verbatim effect ⟨"/s.ogsfx"⟩ 1
    ∃ shader, (parse ⟨"/s.ogsfx"⟩ source).outcome = .ok shader ∧
      (shader.properties.values.map fun property => (property.label, property.attributes)) =
        [("Roughness", [.header "Surface",
          .range (BinaryFormat.binary32.ofInt 0) (BinaryFormat.binary32.nearest false 3 2)])] ∧
      PropertiesFollowTables ⟨"/s.ogsfx"⟩ source shader := by
  intro effect source
  have hread : (parse ⟨"/s.ogsfx"⟩ source).outcome.toOption.any (fun shader =>
      decide ((shader.properties.values.map fun property => (property.label, property.attributes)) =
        [("Roughness", [.header "Surface", .range (BinaryFormat.binary32.ofInt 0)
          (BinaryFormat.binary32.nearest false 3 2)])])) = true := by
    decide +kernel
  obtain ⟨shader, hshader, hproperties⟩ := exists_of_toOption_any hread
  exact ⟨shader, hshader, of_decide_eq_true hproperties, propertiesFollowTables_of_parse hshader⟩

/-- A label that is written twice is the second one in the table, and the first one in the
property. A title that is a description without a value is in the table only. -/
theorem property_differs_from_table :
    let effect := "uniform float a < string UIName = \"One\"; string UIName = \"Two\"; " ++
      "string UIGroup(\"Surface\"); >;\n" ++
      "GLSLShader A { }\n" ++
      "technique T { pass p { VertexShader (in s, out s) = A; PixelShader (in s, out s) = A; } }\n"
    ∃ shader property uniform,
      (parse ⟨"/s.ogsfx"⟩ (.verbatim effect ⟨"/s.ogsfx"⟩ 1)).outcome = .ok shader ∧
        shader.properties.get? "a" = some property ∧ shader.uniforms.get? "a" = some uniform ∧
          (uniform.annotations.get? "UIName" = some (.string "Two") ∧ property.label ≠ "Two") ∧
            uniform.annotations.get? "UIGroup" = some (.string "Surface") ∧
              .header "Surface" ∉ property.attributes := by
  intro effect
  have hread : (parse ⟨"/s.ogsfx"⟩ (.verbatim effect ⟨"/s.ogsfx"⟩ 1)).outcome.toOption.any
      (fun shader => (shader.properties.get? "a").any fun property =>
        (shader.uniforms.get? "a").any fun uniform =>
          decide ((uniform.annotations.get? "UIName" = some (.string "Two") ∧
            property.label ≠ "Two") ∧ uniform.annotations.get? "UIGroup" =
              some (.string "Surface") ∧ .header "Surface" ∉ property.attributes)) = true := by
    decide +kernel
  obtain ⟨shader, hshader, hfound⟩ := exists_of_toOption_any hread
  obtain ⟨property, hproperty, hfound⟩ := (Option.any_eq_true _ _).mp hfound
  obtain ⟨uniform, huniform, hdiffers⟩ := (Option.any_eq_true _ _).mp hfound
  exact ⟨shader, property, uniform, hshader, hproperty, huniform, of_decide_eq_true hdiffers⟩

end ShaderAssembly.Effect
