import ShaderAssembly.Proofs.CacheSteps
import ShaderAssembly.Proofs.CompileOutcomes

/-!
# Caches that compilers share

A compilation is kept under the path of its file, and whether it is given out depends on the files
alone. The settings it was made with play no part. So compilers with different settings may share a
cache as long as each file is compiled with one of them only; else a call is answered with what an
earlier call for the same file has made with its own settings. An error is never kept, and is that
of the compiler that is asked.
-/

namespace ShaderAssembly

variable {σ : Type}

namespace CompilationCache

/-- A call of a cache that is used with different settings. -/
inductive Call where
  /-- A compilation is asked for. -/
  | obtain (settings : Settings) (root : String)
  /-- A file is forgotten. -/
  | forget (path : String)
  deriving DecidableEq, Repr

/-- What a call leaves. -/
def Call.stateFrom (provider : Provider σ) (keeping : Keeping σ) : Call → Keeping σ
  | .obtain settings root =>
    (CompilationCache.obtain ⟨provider, settings⟩ root).stateFrom keeping
  | .forget path => ⟨keeping.sources, keeping.cache.forget path⟩

/-- Whether one of some calls asks for a file, its own compile of the file, started in a state of
the sources, gives a compilation, and no call after it forgets a file that this was made from. -/
def MadeByOneOf (provider : Provider σ) (start : σ) (calls : List Call) (path : SourcePath)
    (compilation : Compilation) : Prop :=
  ∃ before settings root after, calls = before ++ .obtain settings root :: after ∧
    SourcePath.rooted root = path ∧
    (Compiler.compile ⟨provider, settings⟩ root).outcomeFrom start = .ok compilation ∧
    ∀ name, .forget name ∈ after → uses compilation (.rooted name) = false

section Calls

variable {provider : Provider σ} {contents : Contents} {start : σ} {calls : List Call}

/-- The last call may have made a compilation. -/
theorem madeByOneOf_concat {settings : Settings} {root : String} {compilation : Compilation}
    (h : (Compiler.compile ⟨provider, settings⟩ root).outcomeFrom start = .ok compilation) :
    MadeByOneOf provider start (calls ++ [.obtain settings root]) (.rooted root) compilation :=
  ⟨calls, settings, root, [], rfl, rfl, h, nofun⟩

/-- One more call leaves a compilation if it does not forget a file of it. -/
theorem MadeByOneOf.concat {path : SourcePath} {compilation : Compilation}
    (h : MadeByOneOf provider start calls path compilation) (call : Call)
    (hcall : ∀ name, call = .forget name → uses compilation (.rooted name) = false) :
    MadeByOneOf provider start (calls ++ [call]) path compilation := by
  obtain ⟨before, settings, root, after, rfl, hpath, hcompile, hafter⟩ := h
  refine ⟨before, settings, root, after ++ [call], ?_, hpath, hcompile, fun name hname => ?_⟩
  · rw [List.append_assoc, List.cons_append]
  · rcases List.mem_append.mp hname with hearlier | hlast
    · exact hafter name hearlier
    · exact hcall name (List.mem_singleton.mp hlast).symm

/-- Whether the sources still serve their files, and every kept compilation was made by a call. -/
structure IsSound (provider : Provider σ) (contents : Contents) (start : σ) (calls : List Call)
    (keeping : Keeping σ) : Prop where
  /-- The files are served. -/
  serves : provider.ServesFinitely keeping.sources.inner contents
  /-- What is kept has been made by one of the calls. -/
  kept : keeping.cache.Satisfies (MadeByOneOf provider start calls)

/-- Whatever has been read since, a compile comes to what it came to at the start. -/
theorem compile_eq_of_servesFinitely (compiler : Compiler σ)
    (hstart : compiler.provider.ServesFinitely start contents) {later : σ}
    (hlater : compiler.provider.ServesFinitely later contents) (root : String) :
    (compiler.compile (SourcePath.rooted root).text).outcomeFrom later =
        (compiler.compile root).outcomeFrom start ∧
      compiler.provider.ServesFinitely
        ((compiler.compile (SourcePath.rooted root).text).stateFrom later) contents := by
  rw [compiler.compile_rooted]
  exact Compiler.matches_compile_of_serveAlike compiler.settings root hlater hstart

/-- Obtaining a compilation leaves sources that serve the same files, and gives what is kept or
what the compile comes to. -/
theorem obtain_of_servesFinitely (compiler : Compiler σ)
    (hstart : compiler.provider.ServesFinitely start contents) {keeping : Keeping σ}
    (h : compiler.provider.ServesFinitely keeping.sources.inner contents) (root : String) :
    compiler.provider.ServesFinitely
        ((CompilationCache.obtain compiler root).stateFrom keeping).sources.inner contents ∧
      ((∃ kept, keeping.cache.entries.get? (.rooted root) = some kept ∧
          (CompilationCache.obtain compiler root).outcomeFrom keeping = .ok kept) ∨
        ((CompilationCache.obtain compiler root).outcomeFrom keeping).map Numbered.value =
          (compiler.compile root).outcomeFrom start) := by
  have hlater := h.later (lookUp_of_serves compiler (.rooted root) h.serves).1
  obtain ⟨hcompile, hafter⟩ := compile_eq_of_servesFinitely compiler hstart hlater root
  rcases (lookUp_spec compiler (.rooted root) keeping).2 with hnone | ⟨kept, hentry, hfound⟩
  · obtain ⟨houtcome, hstate⟩ := obtain_of_none hnone
    rw [houtcome, hstate, ← hcompile]
    cases hresult : (compiler.compile (SourcePath.rooted root).text).outcomeFrom
        ((lookUp compiler (.rooted root)).stateFrom keeping).sources.inner with
    | error error =>
      rw [(renew_of_error hresult).1, (renew_of_error hresult).2]
      dsimp only
      exact ⟨hafter, .inr rfl⟩
    | ok compilation =>
      rw [(renew_of_ok hresult).1, (renew_of_ok hresult).2]
      dsimp only
      exact ⟨hafter, .inr rfl⟩
  · obtain ⟨houtcome, hstate⟩ := obtain_of_found hfound
    rw [houtcome, hstate]
    exact ⟨hlater, .inl ⟨kept, hentry, rfl⟩⟩

/-- A call keeps the cache sound. -/
theorem IsSound.stateFrom (hstart : provider.ServesFinitely start contents)
    {keeping : Keeping σ} (h : IsSound provider contents start calls keeping) (call : Call) :
    IsSound provider contents start (calls ++ [call]) (call.stateFrom provider keeping) := by
  cases call with
  | forget path =>
    refine ⟨h.serves, fun entry hentry => ?_⟩
    refine (h.kept.forget path entry hentry).concat (.forget path) fun name hname => ?_
    cases hname
    exact satisfies_forget keeping.cache path entry hentry
  | obtain settings root =>
    have hkept : keeping.cache.Satisfies
        (MadeByOneOf provider start (calls ++ [.obtain settings root])) :=
      fun entry hentry => (h.kept entry hentry).concat _ nofun
    have hlater := h.serves.later
      (lookUp_of_serves ⟨provider, settings⟩ (.rooted root) h.serves.serves).1
    refine ⟨(obtain_of_servesFinitely ⟨provider, settings⟩ hstart h.serves root).1,
      hkept.obtain fun hnone compilation hcompile => ?_⟩
    · rw [(compile_eq_of_servesFinitely ⟨provider, settings⟩ hstart hlater root).1] at hcompile
      exact madeByOneOf_concat hcompile

/-- After any calls a cache that started empty is sound. -/
theorem isSound_foldl {sources : Numbering σ}
    (hserves : provider.ServesFinitely sources.inner contents) (calls : List Call) :
    IsSound provider contents sources.inner calls
      (calls.foldl (Call.stateFrom provider) ⟨sources, .empty⟩) := by
  induction calls using List.reverseRecOn with
  | nil => exact ⟨hserves, satisfies_empty⟩
  | append_singleton calls call ih =>
    rw [List.foldl_concat]
    exact ih.stateFrom hserves call

/-- Compilers with different settings share a cache over files that do not change. An error is that
of the compiler that is asked. A compilation is what that compiler gives, or that of an earlier
call for the same file, unless a file of it has been forgotten since. -/
theorem obtain_after_calls {sources : Numbering σ}
    (hserves : provider.ServesFinitely sources.inner contents) (calls : List Call)
    (settings : Settings) (root : String) :
    let outcome := (CompilationCache.obtain ⟨provider, settings⟩ root).outcomeFrom
      (calls.foldl (Call.stateFrom provider) ⟨sources, .empty⟩)
    (∀ error, outcome = .error error →
      (Compiler.compile ⟨provider, settings⟩ root).outcomeFrom sources.inner = .error error) ∧
    ∀ kept, outcome = .ok kept →
      MadeByOneOf provider sources.inner (calls ++ [.obtain settings root]) (.rooted root)
        kept.value := by
  intro outcome
  have hsound := isSound_foldl hserves calls
  rcases (obtain_of_servesFinitely ⟨provider, settings⟩ hserves hsound.serves root).2 with
    ⟨found, hentry, hfound⟩ | hcompile
  · have houtcome : outcome = .ok found := hfound
    rw [houtcome]
    refine ⟨fun _ => nofun, fun kept hkept => ?_⟩
    cases hkept
    exact (hsound.kept.of_get? hentry).concat _ nofun
  · have hown : outcome.map Numbered.value =
        (Compiler.compile ⟨provider, settings⟩ root).outcomeFrom sources.inner := hcompile
    rw [← hown]
    refine ⟨fun error herror => ?_, fun kept hkept => ?_⟩
    · rw [herror]
      rfl
    · refine madeByOneOf_concat ?_
      rw [← hown, hkept]
      rfl

/-- A shader that is asked for with two settings is given as one of the two compilers makes it. -/
theorem obtain_after_calls_with_two_settings :
    let sources := MemorySources.ofFiles
      [(⟨"/s.glsl"⟩, MemorySources.sampleShader "#include \"h.glsl\"\n"),
        (⟨"/h.glsl"⟩, "int h;\n")]
    let settings := Settings.standard.define "MODE" "1"
    let calls : List Call := [.obtain .standard "/s.glsl", .forget "/g.glsl"]
    let keeping := calls.foldl (Call.stateFrom MemorySources.provider) ⟨⟨sources, 0⟩, .empty⟩
    ∃ kept, (CompilationCache.obtain ⟨MemorySources.provider, settings⟩ "/s.glsl").outcomeFrom
        keeping = .ok kept ∧
      MadeByOneOf MemorySources.provider sources (calls ++ [.obtain settings "/s.glsl"])
        (.rooted "/s.glsl") kept.value := by
  intro sources settings calls keeping
  have hserves : MemorySources.provider.ServesFinitely (Numbering.mk sources 0).inner
      sources.contents := MemorySources.servesFinitely rfl
  have hmade := (obtain_after_calls hserves calls settings "/s.glsl").2
  have hsome : ((CompilationCache.obtain ⟨MemorySources.provider, settings⟩ "/s.glsl").outcomeFrom
      keeping).toOption.any (fun _ => true) = true := by decide +kernel
  obtain ⟨kept, houtcome, -⟩ := exists_of_toOption_any hsome
  exact ⟨kept, houtcome, hmade kept houtcome⟩

/-- A shader that is asked for with two settings is given with the first ones. -/
theorem obtain_ne_compile_with_other_settings :
    let sources := MemorySources.ofFiles
      [(⟨"/s.glsl"⟩, MemorySources.sampleShader "int v1;\n")]
    let provider := MemorySources.provider
    let settings := Settings.standard.define "MODE" "1"
    let keeping := Call.stateFrom provider ⟨⟨sources, 0⟩, .empty⟩ (.obtain .standard "/s.glsl")
    provider.ServesFinitely sources sources.contents ∧
      ∃ kept fresh,
        (CompilationCache.obtain ⟨provider, settings⟩ "/s.glsl").outcomeFrom keeping = .ok kept ∧
        (Compiler.compile ⟨provider, settings⟩ "/s.glsl").outcomeFrom sources = .ok fresh ∧
        kept.value.stages ≠ fresh.stages := by
  intro sources provider settings keeping
  refine ⟨MemorySources.servesFinitely rfl, ?_⟩
  have hstale : ((CompilationCache.obtain ⟨provider, settings⟩ "/s.glsl").outcomeFrom
        keeping).toOption.any
      (fun kept => ((Compiler.compile ⟨provider, settings⟩ "/s.glsl").outcomeFrom
        sources).toOption.any fun fresh => kept.value.stages != fresh.stages) = true := by
    decide +kernel
  obtain ⟨kept, hkept, hstale⟩ := exists_of_toOption_any hstale
  obtain ⟨fresh, hfresh, hstale⟩ := exists_of_toOption_any hstale
  exact ⟨kept, fresh, hkept, hfresh, bne_iff_ne.mp hstale⟩

end Calls

end CompilationCache

end ShaderAssembly
