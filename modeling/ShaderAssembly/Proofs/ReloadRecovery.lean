import ShaderAssembly.Proofs.ReloadSteps

/-!
# Recovery after a failed reload

Files are edited one at a time, and the live shader is told of every edit. While the shader does
not compile, the last good compilation stays active, and with it the list of files whose edits
matter. The root is on that list, and so is every file whose edit has broken the shader. An edit of
one of them that makes the shader compile again is noticed. One of another file, such as a file
that only the broken version includes, is not, and the old compilation stays.
-/

namespace ShaderAssembly.LiveShader

variable {σ : Type}

/-- What edits lead to, each followed by news of the edited file: the edited files with the answers
to the news, the sources and the shader. -/
inductive Watched (compiler : Compiler σ) (root : String) :
    List (SourcePath × Refresh) → Numbering σ → LiveShader → Prop where
  /-- The shader has been loaded from files at rest. -/
  | load {sources : Numbering σ} {shader : LiveShader}
      (hrest : compiler.provider.IsAtRest sources.inner)
      (hload : (load compiler root).outcomeFrom sources = .ok shader) :
      Watched compiler root [] ((load compiler root).stateFrom sources) shader
  /-- One more file has been edited, and the shader has been told of it. -/
  | edit {answers : List (SourcePath × Refresh)} {sources : Numbering σ}
      {shader next : LiveShader} {path : SourcePath} {inner : σ} {answer : Refresh}
      (h : Watched compiler root answers sources shader)
      (hedit : compiler.provider.Edits path sources.inner inner)
      (hanswer : (shader.notify compiler [path]).outcomeFrom ⟨inner, sources.next⟩ =
        .ok (answer, next)) :
      Watched compiler root (answers ++ [(path, answer)])
        ((shader.notify compiler [path]).stateFrom ⟨inner, sources.next⟩) next

section Steps

variable {compiler : Compiler σ} {root : String} {shader next : LiveShader}
  {sources : Numbering σ} {answer : Refresh}

/-- What news of changed files can do to a loaded shader. Only a new active compilation changes it,
and only files that the active compilation was made from are answered with a failure. -/
theorem IsLoaded.notify_spec (h : IsLoaded compiler root shader)
    (hrest : compiler.provider.IsAtRest sources.inner) {changed : List SourcePath}
    (hanswer : (shader.notify compiler changed).outcomeFrom sources = .ok (answer, next)) :
    IsLoaded compiler root next ∧
      compiler.provider.IsAtRest ((shader.notify compiler changed).stateFrom sources).inner ∧
      ((∃ made, answer = .replaced made) ∨ next = shader) ∧
      ∀ error, answer = .failed error → shader.isAffected changed = true := by
  cases haffected : shader.isAffected changed with
  | false =>
    obtain ⟨houtcome, hstate⟩ := notify_of_unaffected compiler sources haffected
    rw [houtcome] at hanswer
    rw [hstate]
    cases hanswer
    exact ⟨h, hrest, .inr rfl, nofun⟩
  | true =>
    have hafter := (compiler.isAtRest_compile hrest shader.root.text).1
    cases hcompile : (compiler.compile shader.root.text).outcomeFrom sources.inner with
    | error error =>
      obtain ⟨houtcome, hstate⟩ := notify_of_error compiler sources haffected hcompile
      rw [houtcome] at hanswer
      rw [hstate]
      dsimp only
      cases hanswer
      exact ⟨h, hafter, .inr rfl, fun _ _ => rfl⟩
    | ok compilation =>
      obtain ⟨houtcome, hstate⟩ := notify_of_ok compiler sources haffected hcompile
      rw [houtcome] at hanswer
      rw [hstate]
      dsimp only
      cases hanswer
      rw [h.compile_root] at hcompile
      have hmade := Compiler.compiles_of_compile hrest.serves hcompile
      exact ⟨⟨h.path, _, hmade⟩, hafter, .inl ⟨_, rfl⟩, nofun⟩

/-- A shader whose edits are watched stays loaded, and its sources at rest. -/
theorem Watched.isLoaded {answers : List (SourcePath × Refresh)}
    (h : Watched compiler root answers sources shader) :
    IsLoaded compiler root shader ∧ compiler.provider.IsAtRest sources.inner := by
  induction h with
  | load hrest hload =>
    obtain ⟨⟨hpath, hmade⟩, hafter, -⟩ := compiles_of_load hrest hload
    exact ⟨⟨hpath, _, hmade⟩, hafter⟩
  | edit _ hedit hanswer ih =>
    obtain ⟨hloaded, hafter, -⟩ := ih.1.notify_spec (by exact hedit.restAfter) hanswer
    exact ⟨hloaded, hafter⟩

/-- The active compilation was made from every file whose edit was answered with a failure since it
became active. -/
theorem Watched.mem_of_failed {answers : List (SourcePath × Refresh)}
    (h : Watched compiler root answers sources shader)
    {earlier later : List (SourcePath × Refresh)} {broken : SourcePath} {error : Error}
    (hanswers : answers = earlier ++ (broken, .failed error) :: later)
    (hlater : ∀ change ∈ later, ∀ made, change.2 ≠ .replaced made) :
    broken ∈ shader.active.value.dependencies.paths := by
  induction h generalizing later with
  | load => exact absurd hanswers (by simp)
  | @edit answers sources shader next path inner answer h hedit hanswer ih =>
    obtain ⟨hloaded, -⟩ := h.isLoaded
    obtain ⟨-, -, hnext, hfailed⟩ := hloaded.notify_spec (by exact hedit.restAfter) hanswer
    -- The failure is the last answer or one before it.
    rcases List.eq_nil_or_concat later with rfl | ⟨middle, last, rfl⟩
    · obtain ⟨-, hlast⟩ := List.append_inj' hanswers rfl
      cases hlast
      rcases hnext with ⟨made, hmade⟩ | rfl
      · cases hmade
      · exact (hloaded.isAffected_iff hedit.rooted).mp (hfailed error rfl)
    · rw [List.concat_eq_append] at hanswers hlater
      rw [← List.cons_append, ← List.append_assoc] at hanswers
      obtain ⟨rfl, hlast⟩ := List.append_inj' hanswers rfl
      cases hlast
      have hkept := hlater (path, answer) (List.mem_append_right _ (List.mem_singleton_self _))
      rcases hnext with ⟨made, hmade⟩ | rfl
      · exact absurd hmade (hkept made)
      · exact ih rfl fun change hchange => hlater change (List.mem_append_left _ hchange)

/-- A shader that compiles is loaded with nothing edited yet. -/
theorem watched_of_compile (sources : Numbering σ)
    (hrest : compiler.provider.IsAtRest sources.inner) {compilation : Compilation}
    (hok : (compiler.compile root).outcomeFrom sources.inner = .ok compilation) :
    Watched compiler root [] ⟨(compiler.compile root).stateFrom sources.inner, sources.next + 1⟩
      ⟨.rooted root, ⟨sources.next, compilation⟩⟩ := by
  obtain ⟨houtcome, hstate⟩ := load_of_ok hok
  rw [← hstate]
  exact .load hrest houtcome

/-- An edit that breaks the shader is answered with a failure if the active compilation was made
from the file. -/
theorem Watched.break {answers : List (SourcePath × Refresh)}
    (h : Watched compiler root answers sources shader) {path : SourcePath} {inner : σ}
    (hedit : compiler.provider.Edits path sources.inner inner)
    (hmem : path ∈ shader.active.value.dependencies.paths) {error : Error}
    (herror : (compiler.compile root).outcomeFrom inner = .error error) :
    Watched compiler root (answers ++ [(path, .failed error)])
      ⟨(compiler.compile root).stateFrom inner, sources.next⟩ shader := by
  have haffected := (h.isLoaded.1.isAffected_iff hedit.rooted).mpr hmem
  rw [← h.isLoaded.1.compile_root] at herror ⊢
  obtain ⟨houtcome, hstate⟩ := notify_of_error compiler ⟨inner, sources.next⟩ haffected herror
  rw [← hstate]
  exact h.edit hedit houtcome

/-- After an edit that was answered with a failure, the next edit that makes the shader compile is
answered with a new active compilation exactly if the last good compilation was made from the
edited file. The root is such a file, and so is the one whose edit was answered with the failure.
The new compilation is what the files compile to. -/
theorem notify_after_failure {earlier later : List (SourcePath × Refresh)} {broken : SourcePath}
    {error : Error}
    (h : Watched compiler root (earlier ++ (broken, .failed error) :: later) sources shader)
    (hlater : ∀ change ∈ later, ∀ made, change.2 ≠ .replaced made) {path : SourcePath} {inner : σ}
    (hedit : compiler.provider.Edits path sources.inner inner) {fresh : Compilation}
    (hfresh : (compiler.compile root).outcomeFrom inner = .ok fresh) :
    let active := shader.active.value.dependencies.paths
    let outcome := (shader.notify compiler [path]).outcomeFrom ⟨inner, sources.next⟩
    let after := ((shader.notify compiler [path]).stateFrom ⟨inner, sources.next⟩).inner
    (path ∈ active → ∃ made, outcome = .ok (.replaced made, { shader with active := made }) ∧
      made.value = fresh ∧ (compiler.compile root).outcomeFrom after = .ok fresh) ∧
    (path ∉ active → outcome = .ok (.unaffected, shader)) ∧
    SourcePath.rooted root ∈ active ∧ broken ∈ active := by
  intro active outcome after
  obtain ⟨hloaded, -⟩ := h.isLoaded
  have haffected := hloaded.isAffected_iff hedit.rooted
  refine ⟨fun hmem => ?_, fun hmem => ?_, hloaded.root_mem, h.mem_of_failed rfl hlater⟩
  · rw [← hloaded.compile_root] at hfresh
    obtain ⟨houtcome, hstate⟩ :=
      notify_of_ok compiler ⟨inner, sources.next⟩ (haffected.mpr hmem) hfresh
    have hafter : after = (compiler.compile shader.root.text).stateFrom inner := by
      simp only [after, hstate]
    rw [hloaded.compile_root] at hafter hfresh
    refine ⟨⟨sources.next, fresh⟩, houtcome, rfl, ?_⟩
    rw [hafter, Compiler.compile_again hedit.restAfter, hfresh]
  · have hunaffected : shader.isAffected [path] = false :=
      Bool.eq_false_iff.mpr fun htrue => hmem (haffected.mp htrue)
    exact (notify_of_unaffected compiler ⟨inner, sources.next⟩ hunaffected).1

end Steps

/-- A shader whose header is removed compiles again once it does not include the header. -/
theorem notify_after_removing_header :
    let compiler : Compiler MemorySources := ⟨MemorySources.provider, .standard⟩
    let before := MemorySources.ofFiles
      [(⟨"/s.glsl"⟩, MemorySources.sampleShader "#include \"h.glsl\"\n"),
        (⟨"/h.glsl"⟩, "int h;\n")]
    let broken := ((compiler.compile "/s.glsl").stateFrom before).remove ⟨"/h.glsl"⟩
    let repaired := ((compiler.compile "/s.glsl").stateFrom broken).write ⟨"/s.glsl"⟩
      (MemorySources.sampleShader "int h;\n")
    ∃ sources shader error fresh made,
      Watched compiler "/s.glsl" [(⟨"/h.glsl"⟩, .failed error)] sources shader ∧
      (compiler.compile "/s.glsl").outcomeFrom repaired = .ok fresh ∧
      (shader.notify compiler [⟨"/s.glsl"⟩]).outcomeFrom ⟨repaired, sources.next⟩ =
        .ok (.replaced made, { shader with active := made }) ∧
      made.value = fresh := by
  intro compiler before broken repaired
  have hrun : ((compiler.compile "/s.glsl").outcomeFrom before).toOption.any
      (fun first => ((compiler.compile "/s.glsl").outcomeFrom repaired).toOption.any
        fun _ => ((compiler.compile "/s.glsl").outcomeFrom broken).toOption.isNone &&
          decide (⟨"/h.glsl"⟩ ∈ first.dependencies.paths ∧
            ⟨"/s.glsl"⟩ ∈ first.dependencies.paths)) = true := by decide +kernel
  obtain ⟨first, hfirst, hrun⟩ := exists_of_toOption_any hrun
  obtain ⟨fresh, hfresh, hrun⟩ := exists_of_toOption_any hrun
  obtain ⟨hnone, hpaths⟩ := Bool.and_eq_true_iff.mp hrun
  obtain ⟨error, herror⟩ := exists_of_toOption_isNone hnone
  obtain ⟨hbroken, hactive⟩ := of_decide_eq_true hpaths
  have hpath : SourcePath.IsRooted ⟨"/s.glsl"⟩ := ⟨"/s.glsl", by decide +kernel⟩
  have hheader : SourcePath.IsRooted ⟨"/h.glsl"⟩ := ⟨"/h.glsl", by decide +kernel⟩
  have hbefore := MemorySources.scheduled_compile (show before.scheduled = [] from rfl)
    .standard "/s.glsl"
  have hremoved := (MemorySources.scheduled_remove _ ⟨"/h.glsl"⟩).trans hbefore
  have hafter := MemorySources.scheduled_compile hremoved .standard "/s.glsl"
  have hloaded := watched_of_compile ⟨before, 0⟩ (MemorySources.isAtRest rfl) hfirst
  have hwatched : Watched compiler "/s.glsl" ([] ++ (⟨"/h.glsl"⟩, .failed error) :: []) _ _ :=
    hloaded.break (MemorySources.edits_remove hbefore hheader) hbroken herror
  obtain ⟨made, houtcome, hmade, -⟩ := (notify_after_failure hwatched nofun
    (MemorySources.edits_write hafter hpath _) hfresh).1 hactive
  exact ⟨_, _, error, fresh, made, hwatched, hfresh, houtcome, hmade⟩

/-- A file that only the broken version includes is not watched: the edit that writes it makes the
shader compile again, and the old compilation stays. -/
theorem notify_unaffected_after_failure :
    let compiler : Compiler MemorySources := ⟨MemorySources.provider, .standard⟩
    let before := MemorySources.ofFiles [(⟨"/s.glsl"⟩, MemorySources.sampleShader "int v1;\n")]
    let broken := ((compiler.compile "/s.glsl").stateFrom before).write ⟨"/s.glsl"⟩
      (MemorySources.sampleShader "#include \"h.glsl\"\n")
    let repaired := ((compiler.compile "/s.glsl").stateFrom broken).write ⟨"/h.glsl"⟩ "int v2;\n"
    ∃ sources shader error fresh,
      Watched compiler "/s.glsl" [(⟨"/s.glsl"⟩, .failed error)] sources shader ∧
      compiler.provider.Edits ⟨"/h.glsl"⟩ sources.inner repaired ∧
      (compiler.compile "/s.glsl").outcomeFrom repaired = .ok fresh ∧
      (shader.notify compiler [⟨"/h.glsl"⟩]).outcomeFrom ⟨repaired, sources.next⟩ =
        .ok (.unaffected, shader) ∧
      shader.active.value.stages ≠ fresh.stages := by
  intro compiler before broken repaired
  have hrun : ((compiler.compile "/s.glsl").outcomeFrom before).toOption.any
      (fun first => ((compiler.compile "/s.glsl").outcomeFrom repaired).toOption.any
        fun fresh => ((compiler.compile "/s.glsl").outcomeFrom broken).toOption.isNone &&
          decide (⟨"/s.glsl"⟩ ∈ first.dependencies.paths ∧
            first.dependencies.reachesAny [⟨"/h.glsl"⟩] = false ∧
              first.stages ≠ fresh.stages)) = true := by decide +kernel
  obtain ⟨first, hfirst, hrun⟩ := exists_of_toOption_any hrun
  obtain ⟨fresh, hfresh, hrun⟩ := exists_of_toOption_any hrun
  obtain ⟨hnone, hpaths⟩ := Bool.and_eq_true_iff.mp hrun
  obtain ⟨error, herror⟩ := exists_of_toOption_isNone hnone
  obtain ⟨hactive, hunaffected, hstages⟩ := of_decide_eq_true hpaths
  have hpath : SourcePath.IsRooted ⟨"/s.glsl"⟩ := ⟨"/s.glsl", by decide +kernel⟩
  have hheader : SourcePath.IsRooted ⟨"/h.glsl"⟩ := ⟨"/h.glsl", by decide +kernel⟩
  have hbefore := MemorySources.scheduled_compile (show before.scheduled = [] from rfl)
    .standard "/s.glsl"
  have hwritten := (MemorySources.scheduled_write _ ⟨"/s.glsl"⟩
    (MemorySources.sampleShader "#include \"h.glsl\"\n")).trans hbefore
  have hafter := MemorySources.scheduled_compile hwritten .standard "/s.glsl"
  have hloaded := watched_of_compile ⟨before, 0⟩ (MemorySources.isAtRest rfl) hfirst
  have hwatched := hloaded.break (MemorySources.edits_write hbefore hpath _) hactive herror
  have hignored : isAffected ⟨.rooted "/s.glsl", ⟨0, first⟩⟩ [⟨"/h.glsl"⟩] = false := hunaffected
  exact ⟨_, _, error, fresh, hwatched, MemorySources.edits_write hafter hheader _, hfresh,
    (notify_of_unaffected compiler _ hignored).1, hstages⟩

end ShaderAssembly.LiveShader
