import ShaderAssembly.Compiler
import ShaderAssembly.Proofs.DescriptionParts
import ShaderAssembly.Proofs.EffectParts

/-!
# Shaders that a compile reads

What a compile works on is what one text declares, in the dialect of its file, with the code of the
blocks expanded. The text may be anything, and so may what a provider gives for the includes.
-/

namespace ShaderAssembly

/-- Whether a shader is what a text declares for a file, in either dialect. -/
def Shader.IsReadFrom (path : SourcePath) (shader : Shader) : Prop :=
  (∃ text, (Description.parse path text).outcome = .ok shader) ∨
    ∃ source, (Effect.parse path source).outcome = .ok shader

/-- A shader that is read has the path of its file. -/
theorem Shader.IsReadFrom.path_eq {path : SourcePath} {shader : Shader}
    (h : shader.IsReadFrom path) : shader.path = path := by
  rcases h with ⟨text, htext⟩ | ⟨source, hsource⟩
  · exact (Description.madeOf_of_parse htext).path_eq
  · obtain ⟨declared, hmade, rfl⟩ := Effect.exists_madeOf_of_parse hsource
    exact hmade.path_eq

namespace Compiler

variable {σ : Type} {compiler : Compiler σ} {root : String} {state : σ} {parsed : ParsedShader}

/-- Expanding the includes of a shader changes its blocks and nothing else. -/
theorem exists_shader_of_expandBlocks {expanded : ParsedShader}
    (h : (expandBlocks compiler parsed).outcomeFrom state = .ok expanded) :
    ∃ shared? blocks, expanded.shader = { parsed.shader with shared?, blocks } := by
  have hentries : ∀ {shared : Option CodeBlock × IncludeGraph} {before : σ},
      (do
        let made ← expandEntries compiler parsed.shader.path shared.2
          parsed.shader.blocks.entries
        return (⟨{ parsed.shader with shared? := shared.1, blocks := ⟨made.1⟩ }, made.2⟩ :
          ParsedShader) : Action σ Error ParsedShader).outcomeFrom before = .ok expanded →
      ∃ shared? blocks, expanded.shader = { parsed.shader with shared?, blocks } := by
    intro shared before hrun
    obtain ⟨made, -, hmade⟩ := Action.outcomeFrom_bind_eq_ok.mp hrun
    cases hmade
    exact ⟨_, _, rfl⟩
  unfold expandBlocks at h
  cases hshared : parsed.shader.shared? with
  | none =>
    rw [hshared] at h
    obtain ⟨shared, -, h⟩ := Action.outcomeFrom_bind_eq_ok.mp h
    exact hentries h
  | some block =>
    rw [hshared] at h
    obtain ⟨block, -, h⟩ := Action.outcomeFrom_bind_eq_ok.mp h
    obtain ⟨shared, -, h⟩ := Action.outcomeFrom_bind_eq_ok.mp h
    exact hentries h

/-- A shader that is parsed is one that is read from its file, but for the code of its blocks. -/
theorem exists_read_of_parse (h : (compiler.parse root).outcomeFrom state = .ok parsed) :
    ∃ read shared? blocks, Shader.IsReadFrom (.rooted root) read ∧
      parsed.shader = { read with shared?, blocks } := by
  unfold parse at h
  dsimp only at h
  cases hdialect : Dialect.ofPath (.rooted root) with
  | description =>
    rw [hdialect] at h
    obtain ⟨made, hmade, h⟩ := Action.outcomeFrom_bind_eq_ok.mp h
    cases h
    obtain ⟨text, -, hmade⟩ := Action.outcomeFrom_bind_eq_ok.mp hmade
    obtain ⟨read, hread, hmade⟩ := Action.outcomeFrom_bind_eq_ok.mp hmade
    rw [Action.outcomeFrom_liftM] at hread
    obtain ⟨shared?, blocks, hshader⟩ := exists_shader_of_expandBlocks hmade
    exact ⟨read, shared?, blocks, .inl ⟨text, hread⟩, hshader⟩
  | effect =>
    rw [hdialect] at h
    obtain ⟨made, hmade, h⟩ := Action.outcomeFrom_bind_eq_ok.mp h
    cases h
    obtain ⟨expansion, -, hmade⟩ := Action.outcomeFrom_bind_eq_ok.mp hmade
    obtain ⟨read, hread, hmade⟩ := Action.outcomeFrom_bind_eq_ok.mp hmade
    cases hmade
    rw [Action.outcomeFrom_liftM] at hread
    exact ⟨read, read.shared?, read.blocks, .inr ⟨expansion.source, hread⟩, rfl⟩

/-- A shader has the canonical path of the file that it is read from. -/
theorem path_of_parse (h : (compiler.parse root).outcomeFrom state = .ok parsed) :
    parsed.shader.path = .rooted root := by
  obtain ⟨read, shared?, blocks, hread, hshader⟩ := exists_read_of_parse h
  rw [hshader]
  exact hread.path_eq

end Compiler

end ShaderAssembly
