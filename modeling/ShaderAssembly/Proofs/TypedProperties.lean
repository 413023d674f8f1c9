import ShaderAssembly.Proofs.BlocksInStep
import ShaderAssembly.Proofs.LinkedLines
import ShaderAssembly.Proofs.WholeNumbers

/-!
# Typed properties

A property has a type that is written or follows from its default, and a default of that type. The
literal of the default fits its type in one way only: a vector takes a tuple of as many numbers as
it has components, an integer takes an integer within bounds or a boolean, a texture takes a name.
Whatever does not fit is refused, and so is a property that has neither a type nor a default that
implies one.

Shader descriptions write the properties as they are. In effect files they edit uniforms, whose
types are always written, and a texture takes its name from an annotation.
-/

namespace ShaderAssembly

/-! ### Values -/

/-- Which lists have as many components as a vector type. -/
inductive PropertyType.Takes {α : Type} : PropertyType → List α → Prop
  | vec2 {x y : α} : Takes .vec2 [x, y]
  | vec3 {x y z : α} : Takes .vec3 [x, y, z]
  | vec4 {x y z w : α} : Takes .vec4 [x, y, z, w]
  | color {red green blue alpha : α} : Takes .color [red, green, blue, alpha]

/-- The components of a list that is as long as a vector type is wide. -/
theorem PropertyType.takes_of_arity? {α : Type} {type : PropertyType} {components : List α}
    (h : type.arity? = some components.length) : type.Takes components := by
  cases type <;> simp only [arity?, Option.some.injEq, reduceCtorEq] at h
  case vec2 =>
    obtain ⟨x, y, rfl⟩ := List.length_eq_two.mp h.symm
    exact .vec2
  case vec3 =>
    obtain ⟨x, y, z, rfl⟩ := List.length_eq_three.mp h.symm
    exact .vec3
  case vec4 =>
    obtain ⟨x, y, z, w, rfl⟩ := List.length_eq_four.mp h.symm
    exact .vec4
  case color =>
    obtain ⟨red, green, blue, alpha, rfl⟩ := List.length_eq_four.mp h.symm
    exact .color

namespace Value

/-- The type that a value belongs to. -/
def type : Value → PropertyType
  | .float _ => .float
  | .int _ => .int
  | .vec2 _ _ => .vec2
  | .vec3 _ _ _ => .vec3
  | .vec4 _ _ _ _ => .vec4
  | .color _ _ _ _ => .color
  | .texture2D _ => .texture2D

/-- The components of a vector in order. -/
def components : Value → List BinaryValue
  | .vec2 x y => [x, y]
  | .vec3 x y z => [x, y, z]
  | .vec4 x y z w => [x, y, z, w]
  | .color red green blue alpha => [red, green, blue, alpha]
  | _ => []

/-- A vector is told by its type and its components. -/
theorem eq_of_components {value other : Value} {arity : Nat}
    (harity : value.type.arity? = some arity) (htype : value.type = other.type)
    (hcomponents : value.components = other.components) : value = other := by
  cases value <;> cases other <;>
    simp_all [Value.type, Value.components, PropertyType.arity?]

end Value

/-! ### Literals that fit a type -/

namespace Literal

/-- Whether a literal writes a value of a type. -/
inductive Writes : PropertyType → Literal → Value → Prop
  /-- As many numbers as a vector has components, each as a value of the 32-bit format. -/
  | vector {type : PropertyType} {components : List Number} {value : Value}
      (harity : type.arity? = some components.length) (htype : value.type = type)
      (hcomponents : value.components = components.map Number.toBinary32) :
      Writes type (.tuple components) value
  /-- A number, however it is written. -/
  | float (number : Number) : Writes .float (.number number) (.float number.toBinary32)
  /-- An integer within bounds. -/
  | int {number : Number} {n : Int} (hfloat : number.isFloat = false)
      (hvalue : number.value.toInt? = some n)
      (hrange : Value.leastInt ≤ n ∧ n ≤ Value.greatestInt) : Writes .int (.number number) (.int n)
  /-- A boolean, as one or zero. -/
  | boolean (value : Bool) : Writes .int (.boolean value) (.int (if value then 1 else 0))
  /-- The name of an image. -/
  | name (name : String) : Writes .texture2D (.string name) (.texture2D name)
  /-- A sampler state, by the name of its texture. -/
  | sampler (texture : String) : Writes .texture2D (.sampler texture) (.texture2D texture)

variable {type : PropertyType} {literal : Literal} {value : Value}

/-- A value that is written is of its type. -/
theorem Writes.type_eq (h : literal.Writes type value) : value.type = type := by
  cases h with
  | vector _ htype _ => exact htype
  | float => rfl
  | int => rfl
  | boolean => rfl
  | name => rfl
  | sampler => rfl

/-- A tuple of the right length is converted component by component. -/
theorem exists_toValue?_tuple {components : List Number}
    (h : type.arity? = some components.length) :
    ∃ value, toValue? type (.tuple components) = some value ∧ value.type = type ∧
      value.components = components.map Number.toBinary32 := by
  cases PropertyType.takes_of_arity? h with
  | vec2 => exact ⟨_, rfl, rfl, rfl⟩
  | vec3 => exact ⟨_, rfl, rfl, rfl⟩
  | vec4 => exact ⟨_, rfl, rfl, rfl⟩
  | color => exact ⟨_, rfl, rfl, rfl⟩

/-- A literal is converted to what it writes, and to nothing if it does not fit. -/
theorem toValue?_eq_some_iff : literal.toValue? type = some value ↔ literal.Writes type value := by
  constructor
  · intro h
    unfold toValue? at h
    split at h
    · cases h
      exact .float _
    · rename_i number
      rw [Option.ite_none_left_eq_some, Bool.not_eq_true] at h
      obtain ⟨n, hn, rfl⟩ := Option.map_eq_some_iff.mp h.2
      obtain ⟨hvalue, hrange⟩ := Value.integer?_eq_some_iff.mp hn
      exact .int h.1 hvalue hrange
    · cases h
      exact .boolean _
    · cases h
      exact .vector rfl rfl rfl
    · cases h
      exact .vector rfl rfl rfl
    · cases h
      exact .vector rfl rfl rfl
    · cases h
      exact .vector rfl rfl rfl
    · cases h
      exact .name _
    · cases h
      exact .sampler _
    · cases h
  · intro h
    cases h with
    | vector harity htype hcomponents =>
      obtain ⟨found, hfound, hfoundType, hfoundComponents⟩ := exists_toValue?_tuple harity
      rw [hfound, Option.some_inj]
      exact Value.eq_of_components (hfoundType ▸ harity) (hfoundType.trans htype.symm)
        (hfoundComponents.trans hcomponents.symm)
    | float => rfl
    | int hfloat hvalue hrange =>
      have hn := Value.integer?_eq_some_iff.mpr ⟨hvalue, hrange⟩
      simp [toValue?, hfloat, hn]
    | boolean => rfl
    | name => rfl
    | sampler => rfl

/-- The integers that a number writes are those that its text writes, within bounds. -/
theorem writes_int_iff {text : String} {number : Number} (h : Number.parse? text = some number) :
    Writes .int (.number number) value ↔
      ∃ n, Number.WritesInteger text n ∧ (Value.leastInt ≤ n ∧ n ≤ Value.greatestInt) ∧
        value = .int n := by
  constructor
  · intro hwrites
    cases hwrites with
    | @int _ n hfloat hvalue hrange =>
      have hn := Value.integer?_eq_some_iff.mpr ⟨hvalue, hrange⟩
      exact ⟨n, ((Number.integer?_iff_writesInteger h n).mp ⟨hfloat, hn⟩).1, hrange, rfl⟩
  · rintro ⟨n, hn, hrange, rfl⟩
    obtain ⟨hfloat, hinteger⟩ := (Number.integer?_iff_writesInteger h n).mpr ⟨hn, hrange⟩
    exact .int hfloat (Value.integer?_eq_some_iff.mp hinteger).1 hrange

/-- A literal that does not fit writes no value. -/
theorem toValue?_eq_none_iff : literal.toValue? type = none ↔
    ∀ value, ¬ literal.Writes type value := by
  simp only [← toValue?_eq_some_iff, Option.eq_none_iff_forall_ne_some, ne_eq]

/-! ### Types that literals imply -/

/-- Whether a literal implies a type. -/
inductive Implies : Literal → PropertyType → Prop
  /-- A number that is written as an integer. -/
  | int {number : Number} (hfloat : number.isFloat = false) : Implies (.number number) .int
  /-- A number that is written as a float. -/
  | float {number : Number} (hfloat : number.isFloat = true) : Implies (.number number) .float
  /-- As many numbers as a vector has components. Colors are always written. -/
  | vector {type : PropertyType} {components : List Number}
      (harity : type.arity? = some components.length) (hcolor : type ≠ .color) :
      Implies (.tuple components) type

/-- Whether a literal is neither a number nor a tuple of the length of a vector. -/
structure ImpliesNothing (literal : Literal) : Prop where
  /-- It is no number. -/
  number : ∀ number, literal ≠ .number number
  /-- A tuple is too short or too long. -/
  tuple : ∀ components, literal = .tuple components →
    components.length < 2 ∨ 4 < components.length

/-- The type that is found for a literal is the one it implies. -/
theorem impliedType?_eq_some_iff : literal.impliedType? = some type ↔ literal.Implies type := by
  constructor
  · intro h
    unfold impliedType? at h
    split at h
    · rename_i number
      cases hfloat : number.isFloat <;> rw [hfloat] at h <;> cases h
      · exact .int hfloat
      · exact .float hfloat
    · cases h
      exact .vector rfl nofun
    · cases h
      exact .vector rfl nofun
    · cases h
      exact .vector rfl nofun
    · cases h
  · intro h
    cases h with
    | int hfloat => simp [impliedType?, hfloat]
    | float hfloat => simp [impliedType?, hfloat]
    | @vector _ components harity hcolor =>
      cases PropertyType.takes_of_arity? harity with
      | vec2 => rfl
      | vec3 => rfl
      | vec4 => rfl
      | color => exact absurd rfl hcolor

/-- No type is found for a literal exactly if it implies none. -/
theorem impliedType?_eq_none_iff : literal.impliedType? = none ↔ literal.ImpliesNothing := by
  simp only [Option.eq_none_iff_forall_ne_some, ne_eq, impliedType?_eq_some_iff]
  constructor
  · refine fun h => ⟨?_, ?_⟩
    · rintro number rfl
      cases hfloat : number.isFloat with
      | false => exact h _ (.int hfloat)
      | true => exact h _ (.float hfloat)
    · rintro components rfl
      by_contra hlength
      obtain htwo | hthree | hfour :
          components.length = 2 ∨ components.length = 3 ∨ components.length = 4 := by omega
      · exact h .vec2 (.vector (congrArg some htwo.symm) nofun)
      · exact h .vec3 (.vector (congrArg some hthree.symm) nofun)
      · exact h .vec4 (.vector (congrArg some hfour.symm) nofun)
  · intro hnothing type h
    cases h with
    | int => exact hnothing.number _ rfl
    | float => exact hnothing.number _ rfl
    | vector harity _ =>
      have hlength := hnothing.tuple _ rfl
      cases PropertyType.takes_of_arity? harity <;> simp at hlength

/-! ### Defaults -/

/-- Whether a default is absent as its literal is, or the value that the literal writes. -/
inductive Defaults (type : PropertyType) : Option Literal → Option Value → Prop
  /-- There is none. -/
  | absent : Defaults type none none
  /-- There is one. -/
  | written {literal : Literal} {value : Value} (h : literal.Writes type value) :
      Defaults type (some literal) (some value)

/-- A default is of its type. -/
theorem Defaults.type_eq {literal? : Option Literal} {value? : Option Value}
    (h : Defaults type literal? value?) : ∀ value, value? = some value → value.type = type := by
  intro value hvalue
  cases h with
  | absent => cases hvalue
  | written hwrites =>
    obtain rfl := Option.some.inj hvalue
    exact hwrites.type_eq

end Literal

/-! ### Declarations -/

namespace PropertyDeclaration

variable {declaration : PropertyDeclaration} {type : PropertyType}

/-- Whether a declared property has a type. -/
inductive HasType (declaration : PropertyDeclaration) (type : PropertyType) : Prop
  /-- The type is written. -/
  | written (htype : declaration.type? = some type)
  /-- The type is implied by the default. -/
  | implied {literal : Literal} (hnone : declaration.type? = none)
      (hdefault : declaration.default? = some literal) (himplies : literal.Implies type)

/-- Whether a property is what a declaration declares. -/
structure Gives (declaration : PropertyDeclaration) (property : Property) : Prop where
  /-- The name. -/
  name : property.name = declaration.name
  /-- The label. -/
  label : property.label = declaration.label
  /-- The type. -/
  type : declaration.HasType property.type
  /-- The default, of that type. -/
  default : Literal.Defaults property.type declaration.default? property.default?
  /-- The advice for editors. -/
  attributes : property.attributes = declaration.attributes
  /-- Where the name stands. -/
  position : property.position = declaration.position

/-- Whether a declaration says neither a type nor a default that implies one. -/
structure IsAmbiguous (declaration : PropertyDeclaration) : Prop where
  /-- No type is written. -/
  type : declaration.type? = none
  /-- The default is absent or implies no type. -/
  default : ∀ literal, declaration.default? = some literal → literal.ImpliesNothing

/-- Whether a declaration has a type that its default does not fit. -/
structure Mismatches (declaration : PropertyDeclaration) (type : PropertyType)
    (literal : Literal) : Prop where
  /-- The default writes no value of the type. -/
  none : ∀ value, ¬ literal.Writes type value
  /-- The type. -/
  type : declaration.HasType type
  /-- The default. -/
  default : declaration.default? = some literal

/-- What a declaration is resolved to. -/
inductive Resolves (declaration : PropertyDeclaration) : Except Error Property → Prop
  /-- A property. -/
  | property {property : Property} (hgives : declaration.Gives property) :
      Resolves declaration (.ok property)
  /-- The error that there is no type. -/
  | ambiguous (hambiguous : declaration.IsAmbiguous) :
      Resolves declaration (.error (.ambiguousDefault declaration.name declaration.position))
  /-- The error that the default does not fit. -/
  | mismatch {type : PropertyType} {literal : Literal}
      (hmismatches : declaration.Mismatches type literal) :
      Resolves declaration
        (.error (.typeMismatch declaration.name type literal.shape declaration.position))

theorem resolvedType?_eq_some_iff : declaration.resolvedType? = some type ↔
    declaration.HasType type := by
  unfold resolvedType?
  constructor
  · intro h
    cases htype : declaration.type? with
    | some written =>
      rw [htype] at h
      obtain rfl := Option.some.inj h
      exact .written htype
    | none =>
      rw [htype] at h
      obtain ⟨literal, hdefault, himplied⟩ := Option.bind_eq_some_iff.mp h
      exact .implied htype hdefault (Literal.impliedType?_eq_some_iff.mp himplied)
  · intro h
    cases h with
    | written htype =>
      rw [htype]
      rfl
    | implied hnone hdefault himplies =>
      rw [hnone, hdefault]
      exact Literal.impliedType?_eq_some_iff.mpr himplies

theorem resolvedType?_eq_none_iff : declaration.resolvedType? = none ↔
    declaration.IsAmbiguous := by
  unfold resolvedType?
  constructor
  · intro h
    cases htype : declaration.type? with
    | some written =>
      rw [htype] at h
      cases h
    | none =>
      rw [htype] at h
      refine ⟨htype, fun literal hliteral => ?_⟩
      rw [hliteral] at h
      exact Literal.impliedType?_eq_none_iff.mp h
  · rintro ⟨htype, hdefault⟩
    rw [htype]
    cases hliteral : declaration.default? with
    | none => rfl
    | some literal => exact Literal.impliedType?_eq_none_iff.mpr (hdefault literal hliteral)

/-- Resolving a declaration comes to one of the three. -/
theorem resolves_resolve (declaration : PropertyDeclaration) :
    declaration.Resolves declaration.resolve := by
  unfold resolve
  cases htype : declaration.resolvedType? with
  | none => exact .ambiguous (resolvedType?_eq_none_iff.mp htype)
  | some type =>
    have hhas := resolvedType?_eq_some_iff.mp htype
    dsimp only
    cases hdefault : declaration.default? with
    | none => exact .property ⟨rfl, rfl, hhas, hdefault ▸ .absent, rfl, rfl⟩
    | some literal =>
      dsimp only
      cases hvalue : literal.toValue? type with
      | none => exact .mismatch ⟨Literal.toValue?_eq_none_iff.mp hvalue, hhas, hdefault⟩
      | some value =>
        refine .property ⟨rfl, rfl, hhas, ?_, rfl, rfl⟩
        rw [hdefault]
        exact .written (Literal.toValue?_eq_some_iff.mp hvalue)

/-- Each of the three is what the declaration is resolved to. -/
theorem Resolves.eq_resolve {outcome : Except Error Property} (h : declaration.Resolves outcome) :
    declaration.resolve = outcome := by
  unfold resolve
  cases h with
  | @property property hgives =>
    obtain ⟨name, label, type, default?, attributes, position⟩ := property
    obtain ⟨rfl, rfl, htype, hdefault, rfl, rfl⟩ := hgives
    rw [resolvedType?_eq_some_iff.mpr htype]
    dsimp only at hdefault ⊢
    generalize declaration.default? = written? at hdefault
    cases hdefault with
    | absent => rfl
    | written hwrites =>
      dsimp only
      rw [Literal.toValue?_eq_some_iff.mpr hwrites]
  | ambiguous hambiguous => rw [resolvedType?_eq_none_iff.mpr hambiguous]
  | mismatch hmismatches =>
    rw [resolvedType?_eq_some_iff.mpr hmismatches.type, hmismatches.default]
    dsimp only
    rw [Literal.toValue?_eq_none_iff.mpr hmismatches.none]

/-- A declaration is resolved to what the rules say and to nothing else. -/
theorem resolve_eq_iff {outcome : Except Error Property} :
    declaration.resolve = outcome ↔ declaration.Resolves outcome :=
  ⟨fun h => h ▸ declaration.resolves_resolve, Resolves.eq_resolve⟩

/-- A declaration gives a property exactly if it is resolved to it. -/
theorem resolve_eq_ok_iff {property : Property} :
    declaration.resolve = .ok property ↔ declaration.Gives property := by
  rw [resolve_eq_iff]
  constructor
  · intro h
    cases h with
    | property hgives => exact hgives
  · exact .property

/-- Whether the errors of a declaration are told apart by its type and its default. -/
structure FailsExactly (declaration : PropertyDeclaration) : Prop where
  /-- There is no type exactly if none is written and the default does not imply one. -/
  ambiguous : ∀ name position,
    declaration.resolve = .error (.ambiguousDefault name position) ↔
      declaration.IsAmbiguous ∧ name = declaration.name ∧ position = declaration.position
  /-- The default is refused exactly if it does not fit the type. -/
  mismatch : ∀ name type shape position,
    declaration.resolve = .error (.typeMismatch name type shape position) ↔
      (∃ literal, declaration.Mismatches type literal ∧ shape = literal.shape) ∧
        name = declaration.name ∧ position = declaration.position
  /-- There are no other errors. -/
  others : ∀ error, declaration.resolve = .error error →
    (∃ name position, error = .ambiguousDefault name position) ∨
      ∃ name type shape position, error = .typeMismatch name type shape position

/-- Every declaration fails exactly where it has to. -/
theorem failsExactly (declaration : PropertyDeclaration) : declaration.FailsExactly where
  ambiguous name position := by
    rw [resolve_eq_iff]
    constructor
    · intro h
      cases h with
      | ambiguous hambiguous => exact ⟨hambiguous, rfl, rfl⟩
    · rintro ⟨hambiguous, rfl, rfl⟩
      exact .ambiguous hambiguous
  mismatch name type shape position := by
    rw [resolve_eq_iff]
    constructor
    · intro h
      cases h with
      | mismatch hmismatches => exact ⟨⟨_, hmismatches, rfl⟩, rfl, rfl⟩
    · rintro ⟨⟨literal, hmismatches, rfl⟩, rfl, rfl⟩
      exact .mismatch hmismatches
  others error herror := by
    have hresolves := resolve_eq_iff.mp herror
    cases hresolves with
    | ambiguous => exact .inl ⟨_, _, rfl⟩
    | mismatch => exact .inr ⟨_, _, _, _, rfl⟩

end PropertyDeclaration

/-! ### Shaders -/

/-- Whether the default of a property is absent or of the type of the property. -/
def Property.IsWellTyped (property : Property) : Prop :=
  ∀ value, property.default? = some value → value.type = property.type

theorem PropertyDeclaration.Gives.isWellTyped {declaration : PropertyDeclaration}
    {property : Property} (h : declaration.Gives property) : property.IsWellTyped :=
  h.default.type_eq

namespace Description

/-- Whether every property of a shader is well typed, and given by a declaration of a text. -/
def HasTypedProperties (path : SourcePath) (text : String) (shader : Shader) : Prop :=
  ∃ items, IsDescription (Token.scan (some blockRule) path text) items ∧
    ∀ entry ∈ shader.properties.entries, entry.2.IsWellTyped ∧
      ∃ declaration ∈ items.flatMap Item.declarations,
        entry.1 = declaration.name ∧ declaration.Gives entry.2

/-- The properties of a description are well typed. -/
theorem hasTypedProperties_of_parse {path : SourcePath} {text : String} {shader : Shader}
    (h : (parse path text).outcome = .ok shader) : HasTypedProperties path text shader := by
  obtain ⟨items, hitems, -, hdeclares⟩ := exists_isDescription_of_expectShader
    (ScanState.isStreamOf_scan (some blockRule) path text) h
  refine ⟨items, hitems, fun entry hentry => ?_⟩
  obtain ⟨declaration, hdeclared, hname, hresolve⟩ :=
    exists_of_mem_right hdeclares.properties hentry
  have hgives := PropertyDeclaration.resolve_eq_ok_iff.mp hresolve
  exact ⟨hgives.isWellTyped, declaration, hdeclared, hname, hgives⟩

end Description

namespace Effect

/-- The literal that writes the default of a property that edits a uniform. A texture takes the
value of its annotation, everything else that of the uniform. -/
def writtenDefault? (declared : Uniform × List AnnotationEntry) (type : PropertyType) :
    Option Literal :=
  if type = .texture2D then AnnotationEntry.valueOf? declared.2 "ResourceName"
  else declared.1.default?

/-- Whether a property edits a uniform. -/
structure Edits (declared : Uniform × List AnnotationEntry) (property : Property) : Prop where
  /-- The engine does not bind the uniform. -/
  semantic : declared.1.semantic? = none
  /-- The type is that of the uniform. -/
  type : propertyType? declared.1 declared.2 = some property.type
  /-- The default, of that type. -/
  default : Literal.Defaults property.type (writtenDefault? declared property.type)
    property.default?

/-- What a declaration that edits a uniform gives edits the uniform. -/
theorem edits_of_gives {declared : Uniform × List AnnotationEntry}
    {declaration : PropertyDeclaration} {property : Property}
    (heditor : editor? declared = some declaration) (hgives : declaration.Gives property) :
    Edits declared property := by
  rw [editor?, Option.ite_none_left_eq_some] at heditor
  obtain ⟨hsemantic, heditor⟩ := heditor
  obtain ⟨type, htype, rfl⟩ := Option.map_eq_some_iff.mp heditor
  have hproperty : property.type = type := by
    cases hgives.type with
    | written hwritten => exact (Option.some.inj hwritten).symm
    | implied hnone => cases hnone
  refine ⟨by simpa using hsemantic, hproperty ▸ htype, ?_⟩
  have hdefault := hgives.default
  rw [hproperty] at hdefault
  rw [writtenDefault?, hproperty]
  exact hdefault

/-- Whether every property of a shader is well typed, and edits a uniform of a text. -/
def HasTypedProperties (path : SourcePath) (source : ExpandedText) (shader : Shader) : Prop :=
  ∃ items, IsFile (Token.scan (some blockRule) path source.text) items ∧
    ∀ entry ∈ shader.properties.entries, entry.2.IsWellTyped ∧
      ∃ declared ∈ items.filterMap Item.uniform?,
        entry.1 = declared.1.name ∧ Edits declared entry.2

/-- The properties of an effect file are well typed. -/
theorem hasTypedProperties_of_parse {path : SourcePath} {source : ExpandedText} {shader : Shader}
    (h : (parse path source).outcome = .ok shader) : HasTypedProperties path source shader := by
  obtain ⟨declared, hdeclared, rfl⟩ := parse_eq_ok.mp h
  obtain ⟨items, hitems, -, -, hdeclares⟩ := exists_isFile_of_expectFile
    (ScanState.isStreamOf_scan (some blockRule) path source.text) hdeclared
  refine ⟨items, hitems, fun entry hentry => ?_⟩
  obtain ⟨before, hbefore, rfl⟩ := List.mem_map.mp hentry
  obtain ⟨declaration, hdeclaration, hname, hresolve⟩ :=
    exists_of_mem_right hdeclares.properties hbefore
  obtain ⟨uniform, huniform, heditor⟩ := List.mem_filterMap.mp hdeclaration
  have hgives := PropertyDeclaration.resolve_eq_ok_iff.mp hresolve
  obtain ⟨hsemantic, htype, hdefault⟩ := edits_of_gives heditor hgives
  exact ⟨hgives.isWellTyped, uniform, huniform, hname.trans (name_of_editor? heditor),
    hsemantic, htype, hdefault⟩

end Effect

/-- Properties are well typed, whichever way they are declared. A declaration fails exactly if it
has no type, or one that its default does not fit. A number fits an integer exactly if it is written
as one within bounds. -/
theorem properties_are_typed (path : SourcePath) :
    (∀ text shader, (Description.parse path text).outcome = .ok shader →
      Description.HasTypedProperties path text shader) ∧
    (∀ source shader, (Effect.parse path source).outcome = .ok shader →
      Effect.HasTypedProperties path source shader) ∧
    (∀ declaration : PropertyDeclaration, declaration.FailsExactly) ∧
    ∀ text number, Number.parse? text = some number →
      ∀ value, Literal.Writes .int (.number number) value ↔
        ∃ n, Number.WritesInteger text n ∧ (Value.leastInt ≤ n ∧ n ≤ Value.greatestInt) ∧
          value = .int n :=
  ⟨fun _ _ => Description.hasTypedProperties_of_parse,
    fun _ _ => Effect.hasTypedProperties_of_parse, PropertyDeclaration.failsExactly,
    fun _ _ hnumber _ => Literal.writes_int_iff hnumber⟩

/-- A color and an integer are declared in a description, and a texture in an effect file. -/
theorem properties_are_typed_in_both_dialects :
    let description :=
      r#"Shader { Properties { _c ("C", color) = (1, 0.5, 0, 1) _n ("N") = -3 } GLSL A { } "# ++
      r"Technique T { Pass { Vertex = A Fragment = A } } }"
    let effect := "uniform texture2D map < string ResourceName = \"white\"; >;\n" ++
      "GLSLShader A { }\n" ++
      "technique T { pass p { VertexShader (in a, out b) = A; PixelShader (in b, out c) = A; } }\n"
    (∃ shader, (Description.parse ⟨"/s.glsl"⟩ description).outcome = .ok shader ∧
      shader.properties.values.map Property.type = [.color, .int] ∧
      Description.HasTypedProperties ⟨"/s.glsl"⟩ description shader) ∧
    ∃ shader, (Effect.parse ⟨"/s.ogsfx"⟩ (.verbatim effect ⟨"/s.ogsfx"⟩ 1)).outcome = .ok shader ∧
      shader.properties.values.map Property.default? = [some (.texture2D "white")] ∧
      Effect.HasTypedProperties ⟨"/s.ogsfx"⟩ (.verbatim effect ⟨"/s.ogsfx"⟩ 1) shader := by
  intro description effect
  have hdescription : (Description.parse ⟨"/s.glsl"⟩ description).outcome.toOption.any
      (fun shader => decide (shader.properties.values.map Property.type = [.color, .int])) =
        true := by
    decide +kernel
  have heffect : (Effect.parse ⟨"/s.ogsfx"⟩
        (.verbatim effect ⟨"/s.ogsfx"⟩ 1)).outcome.toOption.any
      (fun shader => decide (shader.properties.values.map Property.default? =
        [some (.texture2D "white")])) = true := by
    decide +kernel
  obtain ⟨described, hdescribed, htypes⟩ := exists_of_toOption_any hdescription
  obtain ⟨declared, hdeclared, hdefaults⟩ := exists_of_toOption_any heffect
  obtain ⟨hdescriptions, -⟩ := properties_are_typed ⟨"/s.glsl"⟩
  obtain ⟨-, heffects, -⟩ := properties_are_typed ⟨"/s.ogsfx"⟩
  exact ⟨⟨described, hdescribed, of_decide_eq_true htypes,
      hdescriptions description described hdescribed⟩,
    declared, hdeclared, of_decide_eq_true hdefaults,
    heffects (.verbatim effect ⟨"/s.ogsfx"⟩ 1) declared hdeclared⟩

end ShaderAssembly
