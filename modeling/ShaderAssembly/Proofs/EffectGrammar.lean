import ShaderAssembly.Effect
import ShaderAssembly.Proofs.DeclaredTables

/-!
# The grammar of effect files

Each production of the grammar is a phrase; its docstring writes it in the usual notation. A file
is a list of items, and only some lists of items make a shader: names are declared once for each
kind of item, every pass is complete, and every uniform that can be edited gives a property. The
tables of the shader list what the items declare, in written order.
-/

namespace ShaderAssembly.Effect

open Grammar

/-! ### Constants and annotations -/

/-- `{ Texture = < ident > ; }` -/
inductive IsSampler : Phrase String
  | sampler {opening keyword equal less name greater semicolon closing : Token}
      (hopening : opening.kind = .openBrace) (hkeyword : keyword.isKeyword "Texture" = true)
      (hequal : equal.kind = .equal) (hless : less.kind = .less)
      (hname : name.kind = .identifier) (hgreater : greater.kind = .greater)
      (hsemicolon : semicolon.kind = .semicolon) (hclosing : closing.kind = .closeBrace) :
      IsSampler [opening, keyword, equal, less, name, greater, semicolon, closing] name.lexeme

/-- `true | false | string | number | { number (, number)* } | sampler_state sampler` -/
inductive IsConstant : Phrase Literal
  | sampler {keyword : Token} {tokens : List Token} {texture : String}
      (hkeyword : keyword.isKeyword "sampler_state" = true) (hsampler : IsSampler tokens texture) :
      IsConstant (keyword :: tokens) (.sampler texture)
  | literal {tokens : List Token} {literal : Literal} (hliteral : IsLiteral .curly tokens literal) :
      IsConstant tokens literal

/-- `Color | Range ( number , number )` -/
inductive IsControl : Phrase Control
  | color {word : Token} (hword : word.isKeyword "Color" = true) : IsControl [word] .color
  | range {word : Token} {tokens : List Token} {bounds : BinaryValue × BinaryValue}
      (hword : word.isKeyword "Range" = true) (hbounds : IsBounds tokens bounds) :
      IsControl (word :: tokens) (.range bounds.1 bounds.2)

/-- `string [, control] )`, which is what follows the opening bracket of an annotation. -/
inductive IsAbout : Phrase (String × Option Control)
  | about {text closing : Token} {tokens : List Token} {control? : Option Control}
      (htext : text.kind = .string) (hcontrol : Optional (After IsControl .comma) tokens control?)
      (hclosing : closing.kind = .closeParen) :
      IsAbout (text :: (tokens ++ [closing])) (text.lexeme, control?)

/-- `ident ident [( about] [= constant] ;` -/
inductive IsEntry : Phrase AnnotationEntry
  | entry {type name semicolon : Token} {aboutTokens valueTokens : List Token}
      {about? : Option (String × Option Control)} {value? : Option Literal}
      (htype : type.kind = .identifier) (hname : name.kind = .identifier)
      (habout : Optional (After IsAbout .openParen) aboutTokens about?)
      (hvalue : Optional (After IsConstant .equal) valueTokens value?)
      (hsemicolon : semicolon.kind = .semicolon) :
      IsEntry (type :: name :: (aboutTokens ++ (valueTokens ++ [semicolon])))
        ⟨name.lexeme, about?.map Prod.fst, about?.bind Prod.snd, value?, name.position⟩

/-- `[< entry* >]` -/
inductive IsAnnotations : Phrase (List AnnotationEntry)
  | absent : IsAnnotations [] []
  | entries {less greater : Token} {tokens : List Token} {entries : List AnnotationEntry}
      (hless : less.kind = .less) (hentries : Many IsEntry tokens entries)
      (hgreater : greater.kind = .greater) :
      IsAnnotations (less :: (tokens ++ [greater])) entries

/-! ### Uniforms and streams -/

/-- `uniform ident ident [: ident] annotations [= constant] ;` -/
inductive IsUniform : Phrase (Uniform × List AnnotationEntry)
  | uniform {keyword type name semicolon : Token}
      {semanticTokens annotationTokens defaultTokens : List Token} {semantic? : Option Token}
      {annotations : List AnnotationEntry} {default? : Option Literal}
      (hkeyword : keyword.isKeyword "uniform" = true) (htype : type.kind = .identifier)
      (hname : name.kind = .identifier)
      (hsemantic : Optional (After (Single .identifier) .colon) semanticTokens semantic?)
      (hannotations : IsAnnotations annotationTokens annotations)
      (hdefault : Optional (After IsConstant .equal) defaultTokens default?)
      (hsemicolon : semicolon.kind = .semicolon) :
      IsUniform
        (keyword :: type :: name ::
          (semanticTokens ++ (annotationTokens ++ (defaultTokens ++ [semicolon]))))
        (⟨name.lexeme, type.lexeme, semantic?.map Token.lexeme, default?,
          AnnotationEntry.table annotations, name.position⟩, annotations)

/-- `ident ident : ident ;` -/
inductive IsField : Phrase StreamField
  | field {type name colon semantic semicolon : Token} (htype : type.kind = .identifier)
      (hname : name.kind = .identifier) (hcolon : colon.kind = .colon)
      (hsemantic : semantic.kind = .identifier) (hsemicolon : semicolon.kind = .semicolon) :
      IsField [type, name, colon, semantic, semicolon]
        ⟨type.lexeme, name.lexeme, semantic.lexeme⟩

/-- `attribute ident { field* } ;` -/
inductive IsStream : Phrase AttributeStream
  | stream {keyword name opening closing semicolon : Token} {tokens : List Token}
      {fields : List StreamField} (hkeyword : keyword.isKeyword "attribute" = true)
      (hname : name.kind = .identifier) (hopening : opening.kind = .openBrace)
      (hfields : Many IsField tokens fields) (hclosing : closing.kind = .closeBrace)
      (hsemicolon : semicolon.kind = .semicolon) :
      IsStream (keyword :: name :: opening :: (tokens ++ [closing, semicolon]))
        ⟨name.lexeme, fields, name.position⟩

/-- `GLSLShader ident { body }` -/
inductive IsBlock : Phrase CodeBlock
  | block {keyword name opening body : Token} {tokens : List Token}
      (hkeyword : keyword.isKeyword "GLSLShader" = true) (hname : name.kind = .identifier)
      (hopening : opening.kind = .openBrace) (hbody : IsBody tokens body) :
      IsBlock (keyword :: name :: opening :: tokens)
        (.ofBody name.lexeme body.lexeme body.position)

/-! ### Techniques -/

/-- `in ident [ident]`, and `out ident [ident]`. -/
inductive IsArgument (direction : Direction) : Phrase StreamArgument
  | argument {keyword stream : Token} {tokens : List Token} {instance? : Option Token}
      (hkeyword : keyword.isKeyword direction.keyword = true)
      (hstream : stream.kind = .identifier)
      (hinstance : Optional (Single .identifier) tokens instance?) :
      IsArgument direction (keyword :: stream :: tokens)
        ⟨direction, stream.lexeme, instance?.map Token.lexeme, stream.position⟩

/-- `( in-argument , out-argument )` -/
inductive IsInterface : Phrase StageStreams
  | interface {opening comma closing : Token} {inputTokens outputTokens : List Token}
      {input output : StreamArgument} (hopening : opening.kind = .openParen)
      (hinput : IsArgument .input inputTokens input) (hcomma : comma.kind = .comma)
      (houtput : IsArgument .output outputTokens output) (hclosing : closing.kind = .closeParen) :
      IsInterface (opening :: (inputTokens ++ comma :: (outputTokens ++ [closing])))
        ⟨input, output⟩

/-- `slot interface = references ;` -/
inductive IsBinding : Phrase (Stage × BoundStage)
  | binding {word equal semicolon : Token} {interfaceTokens tokens : List Token} {slot : Stage}
      {interface : StageStreams} {references : List BlockReference}
      (hword : word.kind = .identifier) (hslot : Stage.ofEffectKeyword? word.lexeme = some slot)
      (hinterface : IsInterface interfaceTokens interface) (hequal : equal.kind = .equal)
      (hreferences : IsReferences .curly tokens references)
      (hsemicolon : semicolon.kind = .semicolon) :
      IsBinding (word :: (interfaceTokens ++ equal :: (tokens ++ [semicolon])))
        (slot, ⟨references, some interface, word.position⟩)

/-- `pass ident annotations { binding* }` -/
inductive IsPass : Phrase Pass
  | pass {keyword name opening closing : Token} {annotationTokens tokens : List Token}
      {annotations : List AnnotationEntry} {bindings : List (Stage × BoundStage)}
      (hkeyword : keyword.isKeyword "pass" = true) (hname : name.kind = .identifier)
      (hannotations : IsAnnotations annotationTokens annotations)
      (hopening : opening.kind = .openBrace) (hbindings : Many IsBinding tokens bindings)
      (hclosing : closing.kind = .closeBrace) :
      IsPass (keyword :: name :: (annotationTokens ++ opening :: (tokens ++ [closing])))
        ⟨some name.lexeme, ⟨bindings⟩, AnnotationEntry.table annotations, keyword.position⟩

/-- `technique ident annotations { pass+ }` -/
inductive IsTechnique : Phrase Technique
  | technique {keyword name opening closing : Token} {annotationTokens tokens : List Token}
      {annotations : List AnnotationEntry} {passes : List Pass}
      (hkeyword : keyword.isKeyword "technique" = true) (hname : name.kind = .identifier)
      (hannotations : IsAnnotations annotationTokens annotations)
      (hopening : opening.kind = .openBrace) (hpasses : Many IsPass tokens passes)
      (hsome : passes ≠ []) (hclosing : closing.kind = .closeBrace) :
      IsTechnique (keyword :: name :: (annotationTokens ++ opening :: (tokens ++ [closing])))
        ⟨name.lexeme, passes, AnnotationEntry.table annotations, keyword.position⟩

/-! ### Items -/

/-- What a file declares. -/
inductive Item where
  /-- A uniform and its annotations. -/
  | uniform (uniform : Uniform) (annotations : List AnnotationEntry)
  /-- A vertex stream. -/
  | stream (stream : AttributeStream)
  /-- A code block. -/
  | block (block : CodeBlock)
  /-- A technique. -/
  | technique (technique : Technique)

namespace Item

/-- The keyword that an item starts with. -/
def keyword : Item → String
  | .uniform _ _ => "uniform"
  | .stream _ => "attribute"
  | .block _ => "GLSLShader"
  | .technique _ => "technique"

/-- The uniform that an item is, and its annotations. -/
def uniform? : Item → Option (Uniform × List AnnotationEntry)
  | .uniform declared annotations => some (declared, annotations)
  | _ => none

/-- The vertex stream that an item is. -/
def stream? : Item → Option AttributeStream
  | .stream declared => some declared
  | _ => none

/-- The code block that an item is. -/
def block? : Item → Option CodeBlock
  | .block code => some code
  | _ => none

/-- The technique that an item is. -/
def technique? : Item → Option Technique
  | .technique declared => some declared
  | _ => none

end Item

/-- `uniform | stream | block | technique` -/
inductive IsItem : Phrase Item
  | uniform {tokens : List Token} {uniform : Uniform} {annotations : List AnnotationEntry}
      (huniform : IsUniform tokens (uniform, annotations)) :
      IsItem tokens (.uniform uniform annotations)
  | stream {tokens : List Token} {stream : AttributeStream} (hstream : IsStream tokens stream) :
      IsItem tokens (.stream stream)
  | block {tokens : List Token} {block : CodeBlock} (hblock : IsBlock tokens block) :
      IsItem tokens (.block block)
  | technique {tokens : List Token} {technique : Technique}
      (htechnique : IsTechnique tokens technique) : IsItem tokens (.technique technique)

theorem IsItem.starts {tokens : List Token} {item : Item} (h : IsItem tokens item) :
    ∃ token more, tokens = token :: more ∧ token.isKeyword item.keyword = true := by
  cases h with
  | uniform h =>
    obtain ⟨hkeyword, -, -, -, -, -, -⟩ := h
    exact ⟨_, _, rfl, hkeyword⟩
  | stream h =>
    obtain ⟨hkeyword, -, -, -, -, -⟩ := h
    exact ⟨_, _, rfl, hkeyword⟩
  | block h =>
    obtain ⟨hkeyword, -, -, -⟩ := h
    exact ⟨_, _, rfl, hkeyword⟩
  | technique h =>
    obtain ⟨hkeyword, -, -, -, -, -, -⟩ := h
    exact ⟨_, _, rfl, hkeyword⟩

/-- `item* end-of-file` -/
inductive IsFile : Phrase (List Item)
  | file {last : Token} {tokens : List Token} {items : List Item}
      (hitems : Many IsItem tokens items) (hlast : last.kind = .endOfFile) :
      IsFile (tokens ++ [last]) items

/-- A technique of a file stands there as the grammar says. -/
theorem IsFile.exists_isTechnique {tokens : List Token} {items : List Item}
    {technique : Technique} (h : IsFile tokens items)
    (htechnique : technique ∈ items.filterMap Item.technique?) :
    ∃ part, part ⊆ tokens ∧ IsTechnique part technique := by
  cases h with
  | file hitems _ =>
    obtain ⟨item, hitem, hdeclared⟩ := List.mem_filterMap.mp htechnique
    obtain ⟨part, hsubset, hpart⟩ := hitems.exists_of_mem hitem
    cases hpart with
    | technique hpart =>
      obtain rfl := Option.some.inj hdeclared
      exact ⟨part, List.subset_append_of_subset_left _ hsubset, hpart⟩
    | _ => cases hdeclared

/-! ### Shaders -/

/-- The property that edits a uniform with its annotations; what the engine binds is not
edited. -/
def editor? (declared : Uniform × List AnnotationEntry) : Option PropertyDeclaration :=
  if declared.1.semantic?.isSome then none else propertyOf? declared.1 declared.2

/-- Whether items can stand in one file. -/
structure Consistent (items : List Item) : Prop where
  /-- No two uniforms have one name. -/
  uniforms : ((items.filterMap Item.uniform?).map (·.1.name)).Nodup
  /-- Every uniform that can be edited has a default that fits its type. -/
  resolves : ∀ declaration ∈ (items.filterMap Item.uniform?).filterMap editor?,
    ∃ property, declaration.resolve = .ok property
  /-- No two streams have one name. -/
  streams : ((items.filterMap Item.stream?).map AttributeStream.name).Nodup
  /-- No two blocks have one name. -/
  blocks : ((items.filterMap Item.block?).map CodeBlock.name).Nodup
  /-- No two techniques have one name. -/
  techniques : ((items.filterMap Item.technique?).map Technique.name).Nodup
  /-- Every pass binds each stage at most once, and those that have to be bound. -/
  complete : ∀ technique ∈ items.filterMap Item.technique?,
    ∀ pass ∈ technique.passes, pass.IsComplete

/-- Whether a shader has the tables that items of a file declare. -/
structure Declares (path : SourcePath) (items : List Item) (shader : Shader) : Prop where
  /-- The file. -/
  path_eq : shader.path = path
  /-- The properties of the uniforms that can be edited. -/
  properties : List.Forall₂ PropertyDeclaration.ResolvesTo
    ((items.filterMap Item.uniform?).filterMap editor?) shader.properties.entries
  /-- A file has no block that belongs to every stage. -/
  shared : shader.shared? = none
  /-- The code blocks. -/
  blocks : shader.blocks.entries =
    (items.filterMap Item.block?).map fun block => (block.name, block)
  /-- The techniques. -/
  techniques : shader.techniques.entries =
    (items.filterMap Item.technique?).map fun technique => (technique.name, technique)
  /-- The uniforms. -/
  uniforms : shader.uniforms.entries =
    (items.filterMap Item.uniform?).map fun declared => (declared.1.name, declared.1)
  /-- The vertex streams. -/
  streams : shader.streams.entries =
    (items.filterMap Item.stream?).map fun stream => (stream.name, stream)

/-- The techniques of a shader are those that items declare. -/
theorem Declares.values_techniques {path : SourcePath} {items : List Item} {shader : Shader}
    (h : Declares path items shader) :
    shader.techniques.values = items.filterMap Item.technique? := by
  rw [OrderedMap.values, h.techniques, List.map_map]
  exact List.map_id _

end ShaderAssembly.Effect
