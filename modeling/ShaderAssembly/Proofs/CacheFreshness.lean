import ShaderAssembly.Proofs.AccurateGraphs
import ShaderAssembly.Proofs.CacheSteps
import ShaderAssembly.Proofs.CompileOutcomes
import ShaderAssembly.Proofs.ReadLogs

/-!
# Kept compilations are not stale

Files may change at any time: between calls, and while a compile or a look-up reads them. A kept
compilation is given out only if its files read as recorded, and of a file that was read twice the
first text is recorded. As long as a compile that is kept read no two texts of one file, it can have
been made at rest, over contents that have all its texts. Then the texts that are compared are all
that matters, and what is given out is what a new compile would give.

A file that changes between two reads of one compile breaks this. The second text is in the
compilation and not in the record, so once the file has its first text again, the compilation is
given out although no new compile gives it.
-/

namespace ShaderAssembly.CompilationCache

variable {σ : Type}

/-- What the calls of one cache and the changes of files lead to. Every compile that succeeds, and
so is kept, fits, where that can be asked of its root and of the state it starts from. -/
inductive History (compiler : Compiler σ) (fits : String → σ → Prop) : Keeping σ → Prop where
  /-- Nothing is kept, and the files are as they are. -/
  | start (sources : Numbering σ) : History compiler fits ⟨sources, .empty⟩
  /-- The files have changed, and how they will change while they are read, too. -/
  | edit {keeping : Keeping σ} (inner : σ) (h : History compiler fits keeping) :
      History compiler fits ⟨⟨inner, keeping.sources.next⟩, keeping.cache⟩
  /-- A file has been forgotten. -/
  | forget {keeping : Keeping σ} (path : String) (h : History compiler fits keeping) :
      History compiler fits ⟨keeping.sources, keeping.cache.forget path⟩
  /-- A compilation has been obtained, whether that failed or not. -/
  | obtain {keeping : Keeping σ} (root : String) (h : History compiler fits keeping)
      (hfits : (lookUp compiler (.rooted root)).outcomeFrom keeping = .ok none →
        ∀ compilation, (compiler.compile (SourcePath.rooted root).text).outcomeFrom
          ((lookUp compiler (.rooted root)).stateFrom keeping).sources.inner = .ok compilation →
        fits (SourcePath.rooted root).text
          ((lookUp compiler (.rooted root)).stateFrom keeping).sources.inner) :
      History compiler fits ((obtain compiler root).stateFrom keeping)

/-- Whether a compilation can have been made of a file at rest. -/
def IsPossible (settings : Settings) (path : SourcePath) (compilation : Compilation) : Prop :=
  path.IsRooted ∧ ∃ contents, Compiler.Compiles contents settings path compilation

/-- If no kept compile read two texts of one file, all that is kept could have been made at rest. -/
theorem History.satisfies_isPossible {compiler : Compiler σ} {keeping : Keeping σ}
    (h : History compiler compiler.RereadsAgree keeping) :
    keeping.cache.Satisfies (IsPossible compiler.settings) := by
  induction h with
  | start => exact satisfies_empty
  | edit _ _ ih => exact ih
  | forget path _ ih => exact ih.forget path
  | obtain root _ hfits ih =>
    refine ih.obtain fun hnone compilation hcompile => ?_
    have hrooted := SourcePath.isRooted_rooted root
    have hagree := hfits hnone compilation hcompile
    obtain ⟨contents, hcompiles⟩ := Compiler.exists_compiles hcompile hagree
    rw [SourcePath.rooted_text hrooted] at hcompiles
    exact ⟨hrooted, contents, hcompiles⟩

/-- A compilation that could have been made at rest is the one to be made of any contents that have
the recorded texts. -/
theorem IsPossible.compiles {settings : Settings} {path : SourcePath} {compilation : Compilation}
    (h : IsPossible settings path compilation) {contents : Contents}
    (htexts : contents.HasTexts compilation.dependencies.contents) :
    Compiler.Compiles contents settings path compilation := by
  obtain ⟨hpath, old, hold⟩ := h
  refine hold.of_agreeOn hpath fun file hfile => ?_
  obtain ⟨read, hread, rfl⟩ := List.mem_map.mp hfile
  rw [htexts read hread, (hold.isAccurate hpath).texts read hread]

/-- Files may change between calls and during them. If no compile that succeeded read two texts of
one file, then a kept compilation that is given out over files at rest is what a new compile
gives. -/
theorem History.obtain_eq_compile {compiler : Compiler σ} {keeping : Keeping σ}
    (h : History compiler compiler.RereadsAgree keeping) {contents : Contents}
    (hserves : compiler.provider.ServesFinitely keeping.sources.inner contents) {root : String}
    {kept : Numbered Compilation}
    (hfound : (lookUp compiler (.rooted root)).outcomeFrom keeping = .ok (some kept)) :
    (CompilationCache.obtain compiler root).outcomeFrom keeping = .ok kept ∧
      ∀ later, compiler.provider.Reaches keeping.sources.inner later →
        (compiler.compile root).outcomeFrom later = .ok kept.value := by
  refine ⟨(obtain_of_found hfound).1, fun later hlater => ?_⟩
  obtain ⟨-, hlookUp⟩ := lookUp_spec compiler (.rooted root) keeping
  rcases hlookUp with hnone | ⟨found, hentry, hsome⟩
  · rw [hfound] at hnone
    cases hnone
  · rw [hfound] at hsome
    cases hsome
    have htexts := (lookUp_of_serves compiler (.rooted root) hserves.serves).2 kept hfound
    have hcompiles := (h.satisfies_isPossible.of_get? hentry).compiles htexts
    exact hcompiles.outcomeFrom_of_servesFinitely (hserves.later hlater)

/-- A header that changes while another one is read is served as it was read. -/
theorem History.obtain_eq_compile_after_edit :
    let compiler : Compiler MemorySources := ⟨MemorySources.provider, .standard⟩
    let sources := (MemorySources.ofFiles
      [(⟨"/s.glsl"⟩, MemorySources.sampleShader "#include \"h.glsl\"\n#include \"g.glsl\"\n"),
        (⟨"/h.glsl"⟩, "int h;\n"), (⟨"/g.glsl"⟩, "int g1;\n")]).schedule
          ⟨⟨"/h.glsl"⟩, ⟨"/g.glsl"⟩, "int g2;\n"⟩
    let filled := (CompilationCache.obtain compiler "/s.glsl").stateFrom ⟨⟨sources, 0⟩, .empty⟩
    ∃ kept, (CompilationCache.obtain compiler "/s.glsl").outcomeFrom filled = .ok kept ∧
      (compiler.compile "/s.glsl").outcomeFrom filled.sources.inner = .ok kept.value := by
  intro compiler sources filled
  have hrun : filled.sources.inner.scheduled = [] ∧ compiler.RereadsAgree "/s.glsl" sources ∧
      ((lookUp compiler (.rooted "/s.glsl")).outcomeFrom filled).toOption.join.isSome = true := by
    decide +kernel
  obtain ⟨hscheduled, hagree, hsome⟩ := hrun
  have hhistory : History compiler compiler.RereadsAgree filled :=
    .obtain "/s.glsl" (.start ⟨sources, 0⟩) fun _ _ _ => hagree
  cases houtcome : (lookUp compiler (.rooted "/s.glsl")).outcomeFrom filled with
  | error error =>
    rw [houtcome] at hsome
    cases hsome
  | ok found? =>
    rw [houtcome] at hsome
    obtain ⟨kept, rfl⟩ := Option.isSome_iff_exists.mp hsome
    obtain ⟨hobtain, hcompile⟩ :=
      hhistory.obtain_eq_compile (MemorySources.servesFinitely hscheduled) houtcome
    exact ⟨kept, hobtain, hcompile _ .start⟩

/-- A header that is included twice, changes after its first read and then changes back is served
as if it had not changed back. -/
theorem obtain_ne_compile_after_changing_back :
    let compiler : Compiler MemorySources := ⟨MemorySources.provider, .standard⟩
    let sources := (MemorySources.ofFiles
      [(⟨"/s.glsl"⟩, MemorySources.sampleShader "#include \"h.glsl\"\n#include \"h.glsl\"\n"),
        (⟨"/h.glsl"⟩, "int v1;\n")]).schedule ⟨⟨"/h.glsl"⟩, ⟨"/h.glsl"⟩, "int v2;\n"⟩
    let filled := (CompilationCache.obtain compiler "/s.glsl").stateFrom ⟨⟨sources, 0⟩, .empty⟩
    let restored : Keeping MemorySources :=
      ⟨⟨filled.sources.inner.write ⟨"/h.glsl"⟩ "int v1;\n", filled.sources.next⟩, filled.cache⟩
    History compiler (fun _ _ => True) restored ∧
      compiler.provider.ServesFinitely restored.sources.inner restored.sources.inner.contents ∧
        ∃ kept fresh,
          (lookUp compiler (.rooted "/s.glsl")).outcomeFrom restored = .ok (some kept) ∧
          (CompilationCache.obtain compiler "/s.glsl").outcomeFrom restored = .ok kept ∧
          (compiler.compile "/s.glsl").outcomeFrom restored.sources.inner = .ok fresh ∧
          kept.value.stages ≠ fresh.stages := by
  intro compiler sources filled restored
  refine ⟨.edit _ (.obtain "/s.glsl" (.start ⟨sources, 0⟩) fun _ _ _ => trivial),
    MemorySources.servesFinitely (by decide +kernel), ?_⟩
  have hstale : ((lookUp compiler (.rooted "/s.glsl")).outcomeFrom restored).toOption.any
      (fun found => found.any fun kept =>
        ((compiler.compile "/s.glsl").outcomeFrom restored.sources.inner).toOption.any
          fun fresh => kept.value.stages != fresh.stages) = true := by decide +kernel
  obtain ⟨found, hfound, hstale⟩ := exists_of_toOption_any hstale
  obtain ⟨kept, rfl, hstale⟩ := (Option.any_eq_true ..).mp hstale
  obtain ⟨fresh, hfresh, hstale⟩ := exists_of_toOption_any hstale
  exact ⟨kept, fresh, hfound, (obtain_of_found hfound).1, hfresh, bne_iff_ne.mp hstale⟩

end ShaderAssembly.CompilationCache
