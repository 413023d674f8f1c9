import ShaderAssembly.Proofs.ParserResults

/-!
# The parts of shaders that parsers read

What a stage takes over from a shader are the bodies of its blocks and the names that its preamble
spells: those of uniforms, of the fields of streams, and of the streams in the interfaces of
stages. Here it is said what these parts are, and that the phrases both dialects share leave the
tokens of a stream alone.
-/

namespace ShaderAssembly

/-! ### Parts -/

/-- Whether a word is the text of a name among tokens. -/
def IsWord (property : Token → Prop) (word : String) : Prop :=
  ∃ token, property token ∧ token.kind = .identifier ∧ word = token.lexeme

/-- Whether a block has a name and is made of a body among tokens. -/
def IsBlock (property : Token → Prop) (name : String) (block : CodeBlock) : Prop :=
  ∃ token, property token ∧ token.kind = .body ∧
    block = CodeBlock.ofBody name token.lexeme token.position

/-- Whether the names that a stream argument spells satisfy `P`. -/
def StreamArgument.Named (P : String → Prop) (argument : StreamArgument) : Prop :=
  P argument.stream ∧ ∀ name ∈ argument.instance?, P name

/-- Whether the names that the interface of a stage spells satisfy `P`. -/
def BoundStage.Named (P : String → Prop) (binding : BoundStage) : Prop :=
  ∀ interface ∈ binding.interface?, interface.input.Named P ∧ interface.output.Named P

/-- A stage without an interface spells no names. -/
theorem BoundStage.named_of_none (P : String → Prop) (blocks : List BlockReference)
    (position : Position) : (⟨blocks, none, position⟩ : BoundStage).Named P := by
  intro interface hinterface
  cases hinterface

/-- Whether the names that the interfaces of a pass spell satisfy `P`. -/
def Pass.Named (P : String → Prop) (pass : Pass) : Prop :=
  ∀ binding ∈ pass.stages.values, binding.Named P

/-- Whether the names that the interfaces of a technique spell satisfy `P`. -/
def Technique.Named (P : String → Prop) (technique : Technique) : Prop :=
  ∀ pass ∈ technique.passes, pass.Named P

/-- Whether the names that the declaration of a uniform spells satisfy `P`. -/
def Uniform.Named (P : String → Prop) (uniform : Uniform) : Prop := P uniform.name ∧ P uniform.type

/-- Whether the names that the declarations of a stream's fields spell satisfy `P`. -/
def AttributeStream.Named (P : String → Prop) (stream : AttributeStream) : Prop :=
  ∀ field ∈ stream.fields, P field.type ∧ P field.name

/-- Whether the names that the preambles of a shader's stages spell satisfy `P`. -/
structure Shader.Named (P : String → Prop) (shader : Shader) : Prop where
  /-- The names in the interfaces of stages. -/
  techniques : ∀ technique ∈ shader.techniques.values, technique.Named P
  /-- The names and types of uniforms. -/
  uniforms : ∀ uniform ∈ shader.uniforms.values, uniform.Named P
  /-- The names and types of the fields of streams. -/
  streams : ∀ stream ∈ shader.streams.values, stream.Named P

/-- Whether a shader of a file has the blocks and names that tokens spell. -/
structure Shader.MadeOf (property : Token → Prop) (path : SourcePath) (shader : Shader) : Prop where
  /-- The file. -/
  path_eq : shader.path = path
  /-- The shared block. -/
  shared : ∀ block ∈ shader.shared?, IsBlock property CodeBlock.sharedName block
  /-- The other blocks, each under its name. -/
  blocks : ∀ entry ∈ shader.blocks.entries, IsBlock property entry.1 entry.2
  /-- The names. -/
  named : shader.Named (IsWord property)

/-- A shader that declares nothing is made of any tokens. -/
theorem Shader.madeOf_empty (property : Token → Prop) (path : SourcePath) :
    (Shader.empty path).MadeOf property path :=
  ⟨rfl, nofun, nofun, nofun, nofun, nofun⟩

namespace OrderedMap

variable {κ α : Type}

/-- Whatever is said of the values of a map without entries holds. -/
theorem forall_values_empty {P : α → Prop} :
    ∀ other ∈ (empty : OrderedMap κ α).values, P other := by
  intro other hother
  cases hother

variable [DecidableEq κ] {map : OrderedMap κ α} {key : κ} {value : α}

/-- An entry of a map after an insertion was there before or has been inserted. -/
theorem mem_entries_insert {entry : κ × α} (h : entry ∈ (map.insert key value).entries) :
    entry ∈ map.entries ∨ entry = (key, value) := by
  rcases List.mem_append.mp h with hold | hnew
  · exact .inl ((List.mem_filter.mp hold).1)
  · exact .inr (List.mem_singleton.mp hnew)

/-- What holds of all values of a map and of one that is inserted holds of all values then. -/
theorem forall_values_insert {P : α → Prop} (hmap : ∀ other ∈ map.values, P other)
    (hvalue : P value) : ∀ other ∈ (map.insert key value).values, P other := by
  intro other hother
  obtain ⟨entry, hentry, rfl⟩ := List.mem_map.mp hother
  rcases mem_entries_insert hentry with hold | rfl
  · exact hmap entry.2 (List.mem_map.mpr ⟨entry, hold, rfl⟩)
  · exact hvalue

end OrderedMap

/-! ### Phrases -/

namespace Parser

variable {property : Token → Prop}

/-- A name that is asked for is a word. -/
theorem yields_expectName (expected : String) :
    Yields property (fun token => IsWord property token.lexeme) (expectName expected) :=
  (yields_expect .identifier expected).mono fun token h => ⟨token, h.1, h.2, rfl⟩

/-- A name that may stand next is a word. -/
theorem yields_takeIf_identifier :
    Yields property (fun token? => ∀ token ∈ token?, IsWord property token.lexeme)
      (takeIf .identifier) :=
  (yields_takeIf .identifier).mono fun _ h token htoken =>
    ⟨token, (h token htoken).1, (h token htoken).2, rfl⟩

/-- A body that is asked for is a body of the stream. -/
theorem yields_expectBody (expected : String) :
    Yields property (fun token => property token ∧ token.kind = .body) (expectBody expected) :=
  (yields_expect .body expected).bind fun _ hbody =>
    (keeps_expectMark .closeBrace).bind fun _ _ => .pure hbody

theorem keeps_expectBounds : Keeps property expectBounds := by
  refine (keeps_expectMark _).bind fun _ _ => ?_
  refine keeps_expectNumber.bind fun _ _ => ?_
  refine (keeps_expectMark _).bind fun _ _ => ?_
  refine keeps_expectNumber.bind fun _ _ => ?_
  exact (keeps_expectMark _).bind fun _ _ => .pure trivial

theorem keeps_expectLiteral (brackets : Brackets) (expected : String) :
    Keeps property (expectLiteral brackets expected) := by
  refine keeps_acceptBoolean.bind fun value? _ => ?_
  split
  · exact .pure trivial
  · refine yields_peek.bind fun token _ => ?_
    split
    · exact yields_take.bind fun _ _ => .pure trivial
    · exact keeps_expectNumber.bind fun _ _ => .pure trivial
    · refine .ite (fun _ => ?_) fun _ => yields_unexpected _
      refine yields_take.bind fun _ _ => ?_
      exact (yields_commaSeparated keeps_expectNumber _).bind fun _ _ => .pure trivial

theorem keeps_expectReference (expected : String) : Keeps property (expectReference expected) :=
  (yields_expectName expected).bind fun _ _ => .pure trivial

theorem keeps_expectReferences (brackets : Brackets) (expected : String) :
    Keeps property (expectReferences brackets expected) := by
  refine (keeps_accept _).bind fun _ _ => .ite (fun _ => ?_) fun _ => ?_
  · exact (yields_commaSeparated (keeps_expectReference expected) _).keeps
  · exact (keeps_expectReference expected).bind fun _ _ => .pure trivial

theorem keeps_requireStages (stages : OrderedMap Stage BoundStage) (close : Token) :
    Keeps property (requireStages stages close) := by
  unfold requireStages
  split
  · exact .pure trivial
  · exact yields_refuse _ close

theorem keeps_resolveProperty (declaration : PropertyDeclaration) :
    Keeps property (resolveProperty declaration) := by
  unfold resolveProperty
  split
  · exact .throw
  · exact Yields.record.bind fun _ _ => .pure trivial

theorem keeps_recordTechnique (technique : Technique) :
    Keeps property (recordTechnique technique) := .record

end Parser

end ShaderAssembly
