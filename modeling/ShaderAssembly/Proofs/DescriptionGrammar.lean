import ShaderAssembly.Description
import ShaderAssembly.Proofs.DeclaredTables

/-!
# The grammar of shader descriptions

Each production of the grammar is a phrase; its docstring writes it in the usual notation. A
description is a list of items, and only some lists of items make a shader: names are declared
once, every pass is complete, and every property gets a type. The tables of the shader list what
the items declare, in written order.
-/

namespace ShaderAssembly.Description

open Grammar

/-! ### Properties -/

/-- `[ Range ( number , number ) ] | [ Toggle ] | [ Header ( string ) ]` -/
inductive IsHint : Phrase EditorHint
  | range {opening word closing : Token} {tokens : List Token}
      {bounds : BinaryValue × BinaryValue} (hopening : opening.kind = .openBracket)
      (hword : word.isKeyword "Range" = true) (hbounds : IsBounds tokens bounds)
      (hclosing : closing.kind = .closeBracket) :
      IsHint (opening :: word :: (tokens ++ [closing])) (.range bounds.1 bounds.2)
  | toggle {opening word closing : Token} (hopening : opening.kind = .openBracket)
      (hword : word.isKeyword "Toggle" = true) (hclosing : closing.kind = .closeBracket) :
      IsHint [opening, word, closing] .toggle
  | header {opening word openParen text closeParen closing : Token}
      (hopening : opening.kind = .openBracket) (hword : word.isKeyword "Header" = true)
      (hopenParen : openParen.kind = .openParen) (htext : text.kind = .string)
      (hcloseParen : closeParen.kind = .closeParen) (hclosing : closing.kind = .closeBracket) :
      IsHint [opening, word, openParen, text, closeParen, closing] (.header text.lexeme)

/-- A keyword of a type. -/
inductive IsTypeWord : Phrase PropertyType
  | word {word : Token} {type : PropertyType} (hword : word.kind = .identifier)
      (htype : PropertyType.ofKeyword? word.lexeme = some type) : IsTypeWord [word] type

/-- `hint* ident ( string [, type] ) [= literal]` -/
inductive IsDeclaration : Phrase PropertyDeclaration
  | declaration {name opening label closing : Token}
      {hintTokens typeTokens defaultTokens : List Token}
      {hints : List EditorHint} {type? : Option PropertyType} {default? : Option Literal}
      (hhints : Many IsHint hintTokens hints) (hname : name.kind = .identifier)
      (hopening : opening.kind = .openParen) (hlabel : label.kind = .string)
      (htype : Optional (After IsTypeWord .comma) typeTokens type?)
      (hclosing : closing.kind = .closeParen)
      (hdefault : Optional (After (IsLiteral .round) .equal) defaultTokens default?) :
      IsDeclaration
        (hintTokens ++ name :: opening :: label :: (typeTokens ++ closing :: defaultTokens))
        ⟨name.lexeme, label.lexeme, type?, default?, hints, name.position⟩

/-! ### Techniques -/

/-- `slot = references` -/
inductive IsBinding : Phrase (Stage × BoundStage)
  | binding {word equal : Token} {tokens : List Token} {slot : Stage}
      {references : List BlockReference} (hword : word.kind = .identifier)
      (hslot : Stage.ofKeyword? word.lexeme = some slot) (hequal : equal.kind = .equal)
      (hreferences : IsReferences .round tokens references) :
      IsBinding (word :: equal :: tokens) (slot, ⟨references, none, word.position⟩)

/-- `Pass { binding* }` -/
inductive IsPass : Phrase Pass
  | pass {keyword opening closing : Token} {tokens : List Token}
      {bindings : List (Stage × BoundStage)} (hkeyword : keyword.isKeyword "Pass" = true)
      (hopening : opening.kind = .openBrace) (hbindings : Many IsBinding tokens bindings)
      (hclosing : closing.kind = .closeBrace) :
      IsPass (keyword :: opening :: (tokens ++ [closing]))
        ⟨none, ⟨bindings⟩, .empty, keyword.position⟩

/-- `Technique ident { pass+ }` -/
inductive IsTechnique : Phrase Technique
  | technique {keyword name opening closing : Token} {tokens : List Token} {passes : List Pass}
      (hkeyword : keyword.isKeyword "Technique" = true) (hname : name.kind = .identifier)
      (hopening : opening.kind = .openBrace) (hpasses : Many IsPass tokens passes)
      (hsome : passes ≠ []) (hclosing : closing.kind = .closeBrace) :
      IsTechnique (keyword :: name :: opening :: (tokens ++ [closing]))
        ⟨name.lexeme, passes, .empty, keyword.position⟩

/-! ### Items -/

/-- What stands right inside the braces of a shader. -/
inductive Item where
  /-- A block of properties. -/
  | properties (declarations : List PropertyDeclaration)
  /-- A block without a name. -/
  | shared (block : CodeBlock)
  /-- A block with a name. -/
  | block (block : CodeBlock)
  /-- A technique. -/
  | technique (technique : Technique)

namespace Item

/-- The keyword that an item starts with. -/
def keyword : Item → String
  | .properties _ => "Properties"
  | .shared _ | .block _ => "GLSL"
  | .technique _ => "Technique"

/-- Whether an item is a block of properties. -/
def isProperties : Item → Bool
  | .properties _ => true
  | _ => false

/-- The properties an item declares. -/
def declarations : Item → List PropertyDeclaration
  | .properties declared => declared
  | _ => []

/-- The block without a name that an item is. -/
def shared? : Item → Option CodeBlock
  | .shared code => some code
  | _ => none

/-- The block with a name that an item is. -/
def block? : Item → Option CodeBlock
  | .block code => some code
  | _ => none

/-- The technique that an item is. -/
def technique? : Item → Option Technique
  | .technique declared => some declared
  | _ => none

end Item

/-- `Properties { declaration* } | GLSL [ident] { body } | technique` -/
inductive IsItem : Phrase Item
  | properties {keyword opening closing : Token} {tokens : List Token}
      {declarations : List PropertyDeclaration} (hkeyword : keyword.isKeyword "Properties" = true)
      (hopening : opening.kind = .openBrace)
      (hdeclarations : Many IsDeclaration tokens declarations)
      (hclosing : closing.kind = .closeBrace) :
      IsItem (keyword :: opening :: (tokens ++ [closing])) (.properties declarations)
  | shared {keyword opening body : Token} {tokens : List Token}
      (hkeyword : keyword.isKeyword "GLSL" = true) (hopening : opening.kind = .openBrace)
      (hbody : IsBody tokens body) :
      IsItem (keyword :: opening :: tokens)
        (.shared (.ofBody CodeBlock.sharedName body.lexeme body.position))
  | block {keyword name opening body : Token} {tokens : List Token}
      (hkeyword : keyword.isKeyword "GLSL" = true) (hname : name.kind = .identifier)
      (hopening : opening.kind = .openBrace) (hbody : IsBody tokens body) :
      IsItem (keyword :: name :: opening :: tokens)
        (.block (.ofBody name.lexeme body.lexeme body.position))
  | technique {tokens : List Token} {technique : Technique}
      (htechnique : IsTechnique tokens technique) : IsItem tokens (.technique technique)

theorem IsItem.starts {tokens : List Token} {item : Item} (h : IsItem tokens item) :
    ∃ token more, tokens = token :: more ∧ token.isKeyword item.keyword = true := by
  cases h with
  | properties hkeyword _ _ _ => exact ⟨_, _, rfl, hkeyword⟩
  | shared hkeyword _ _ => exact ⟨_, _, rfl, hkeyword⟩
  | block hkeyword _ _ _ => exact ⟨_, _, rfl, hkeyword⟩
  | technique htechnique =>
    obtain ⟨hkeyword, -, -, -, -, -⟩ := htechnique
    exact ⟨_, _, rfl, hkeyword⟩

/-- `Shader { item* } end-of-file` -/
inductive IsDescription : Phrase (List Item)
  | description {keyword opening closing last : Token} {tokens : List Token} {items : List Item}
      (hkeyword : keyword.isKeyword "Shader" = true) (hopening : opening.kind = .openBrace)
      (hitems : Many IsItem tokens items) (hclosing : closing.kind = .closeBrace)
      (hlast : last.kind = .endOfFile) :
      IsDescription (keyword :: opening :: (tokens ++ [closing, last])) items

/-- A technique of a description stands there as the grammar says. -/
theorem IsDescription.exists_isTechnique {tokens : List Token} {items : List Item}
    {technique : Technique} (h : IsDescription tokens items)
    (htechnique : technique ∈ items.filterMap Item.technique?) :
    ∃ part, part ⊆ tokens ∧ IsTechnique part technique := by
  cases h with
  | description _ _ hitems _ _ =>
    obtain ⟨item, hitem, hdeclared⟩ := List.mem_filterMap.mp htechnique
    obtain ⟨part, hsubset, hpart⟩ := hitems.exists_of_mem hitem
    cases hpart with
    | technique hpart =>
      obtain rfl := Option.some.inj hdeclared
      exact ⟨part, List.subset_cons_of_subset _ (List.subset_cons_of_subset _
        (List.subset_append_of_subset_left _ hsubset)), hpart⟩
    | _ => cases hdeclared

/-! ### Shaders -/

/-- Whether items can stand in one shader. -/
structure Consistent (items : List Item) : Prop where
  /-- There is at most one block of properties. -/
  properties : items.countP Item.isProperties ≤ 1
  /-- No two properties have one name. -/
  declarations : ((items.flatMap Item.declarations).map PropertyDeclaration.name).Nodup
  /-- Every property has a type that its default fits. -/
  resolves : ∀ declaration ∈ items.flatMap Item.declarations,
    ∃ property, declaration.resolve = .ok property
  /-- There is at most one block without a name. -/
  shared : (items.filterMap Item.shared?).length ≤ 1
  /-- No two blocks have one name. -/
  blocks : ((items.filterMap Item.block?).map CodeBlock.name).Nodup
  /-- No two techniques have one name. -/
  techniques : ((items.filterMap Item.technique?).map Technique.name).Nodup
  /-- Every pass binds each stage at most once, and those that have to be bound. -/
  complete : ∀ technique ∈ items.filterMap Item.technique?,
    ∀ pass ∈ technique.passes, pass.IsComplete

/-- Whether a shader has the tables that items of a file declare. -/
structure Declares (path : SourcePath) (items : List Item) (shader : Shader) : Prop where
  /-- The file. -/
  path_eq : shader.path = path
  /-- The properties, each with the type it is given. -/
  properties : List.Forall₂ PropertyDeclaration.ResolvesTo (items.flatMap Item.declarations)
    shader.properties.entries
  /-- The block without a name. -/
  shared : shader.shared? = (items.filterMap Item.shared?).head?
  /-- The blocks with a name. -/
  blocks : shader.blocks.entries =
    (items.filterMap Item.block?).map fun block => (block.name, block)
  /-- The techniques. -/
  techniques : shader.techniques.entries =
    (items.filterMap Item.technique?).map fun technique => (technique.name, technique)
  /-- A description has no uniforms. -/
  uniforms : shader.uniforms = .empty
  /-- A description has no vertex streams. -/
  streams : shader.streams = .empty

/-- The techniques of a shader are those that items declare. -/
theorem Declares.values_techniques {path : SourcePath} {items : List Item} {shader : Shader}
    (h : Declares path items shader) :
    shader.techniques.values = items.filterMap Item.technique? := by
  rw [OrderedMap.values, h.techniques, List.map_map]
  exact List.map_id _

end ShaderAssembly.Description
