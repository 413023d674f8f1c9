import ShaderAssembly.Proofs.ReloadSteps

/-!
# Truthful answers to news of changed files

A live shader that is up to date is told which files an edit has changed, added or removed, all at
once. Its answer can be relied on: if it keeps or replaces its compilation, the active one is what
the files now compile to, and if it fails, the files do not compile, for the reason that it gives.
Keeping the compilation is justified because it depends on no file outside of its include graph,
be it there or not.
-/

namespace ShaderAssembly

variable {σ : Type}

/-- Whether a compile has a given result, whichever sources have the given contents. -/
def Compiler.ComesTo (compiler : Compiler σ) (contents : Contents) (root : SourcePath)
    (result : Except Error Compilation) : Prop :=
  ∀ sources, compiler.provider.ServesFinitely sources contents →
    (compiler.compile root.text).outcomeFrom sources = result

/-- What a compile of files at rest comes to, every compile of the same contents does. -/
theorem Compiler.comesTo_outcomeFrom {compiler : Compiler σ} {sources : σ}
    (h : compiler.provider.IsAtRest sources) (root : SourcePath) :
    compiler.ComesTo (compiler.provider.contentsAt sources) root
      ((compiler.compile root.text).outcomeFrom sources) := fun _ hother =>
  (matches_compile_of_serveAlike compiler.settings root.text hother h).1

namespace Contents

/-- Whether the canonical path of every file that is not what it was is among some paths. -/
def ChangedOnly (before : Contents) (changed : List SourcePath) (after : Contents) : Prop :=
  ∀ file, file.IsRooted → after file ≠ before file → ∃ path ∈ changed, file.same path = true

/-- Two edits in a row change what one of them changes. -/
theorem ChangedOnly.append {first second : List SourcePath} {before middle after : Contents}
    (hfirst : before.ChangedOnly first middle) (hsecond : middle.ChangedOnly second after) :
    before.ChangedOnly (first ++ second) after := by
  intro file hfile hdiffers
  by_cases hmiddle : middle file = before file
  · rw [← hmiddle] at hdiffers
    obtain ⟨path, hpath, hsame⟩ := hsecond file hfile hdiffers
    exact ⟨path, List.mem_append_right _ hpath, hsame⟩
  · obtain ⟨path, hpath, hsame⟩ := hfirst file hfile hmiddle
    exact ⟨path, List.mem_append_left _ hpath, hsame⟩

end Contents

/-- An edit of one file changes that file only. -/
theorem Provider.Edits.changedOnly {provider : Provider σ} {path : SourcePath} {before after : σ}
    (h : provider.Edits path before after) :
    (provider.contentsAt before).ChangedOnly [path] (provider.contentsAt after) := by
  intro file hfile hdiffers
  by_cases hpath : file = path
  · exact ⟨path, List.mem_singleton_self _, hpath ▸ beq_self_eq_true _⟩
  · exact absurd (h.others file hfile hpath) hdiffers

namespace LiveShader

variable {compiler : Compiler σ} {shader : LiveShader} {changed : List SourcePath}
  {before after : σ}

/-- Whether an answer to news of changed files, and the shader afterwards, are true of the files
with the given contents. -/
def Answers (shader : LiveShader) (compiler : Compiler σ) (contents : Contents) :
    Refresh → LiveShader → Prop
  | .unaffected, next =>
    next = shader ∧ compiler.ComesTo contents shader.root (.ok next.active.value)
  | .replaced made, next =>
    next = { shader with active := made } ∧
      compiler.ComesTo contents shader.root (.ok next.active.value)
  | .superseded, _ => False
  | .failed error, next => next = shader ∧ compiler.ComesTo contents shader.root (.error error)

/-- News that does not matter leaves out all files that the active compilation was made from. -/
theorem agreeOn_of_unaffected {contents other : Contents} {settings : Settings} {root : SourcePath}
    (hmade : Compiler.Compiles contents settings root shader.active.value) (hroot : root.IsRooted)
    (hchanged : contents.ChangedOnly changed other)
    (hunaffected : shader.isAffected changed = false) :
    contents.AgreeOn shader.active.value.dependencies.paths other := by
  intro file hfile
  by_contra hdiffers
  have hrooted := (hmade.isAccurate hroot).rooted file hfile
  obtain ⟨path, hpath, hsame⟩ := hchanged file hrooted hdiffers
  have hfound : shader.isAffected changed = true :=
    List.any_eq_true.mpr ⟨path, hpath, List.any_eq_true.mpr
      ⟨file, (hmade.mem_dependencies_iff hroot).mpr hfile, hsame⟩⟩
  rw [hunaffected] at hfound
  cases hfound

/-- A compilation that no change matters to is still what the files compile to. -/
theorem comesTo_active_of_unaffected
    (hbefore : compiler.provider.Serves before (compiler.provider.contentsAt before))
    (hactive : (compiler.compile shader.root.text).outcomeFrom before = .ok shader.active.value)
    {contents : Contents}
    (hchanged : (compiler.provider.contentsAt before).ChangedOnly changed contents)
    (hunaffected : shader.isAffected changed = false) :
    compiler.ComesTo contents shader.root (.ok shader.active.value) := by
  intro sources hsources
  have hmade := Compiler.compiles_of_compile hbefore hactive
  have hroot := SourcePath.isRooted_rooted shader.root.text
  have hagree := agreeOn_of_unaffected hmade hroot hchanged hunaffected
  exact (hmade.of_agreeOn hroot hagree).outcomeFrom_of_servesFinitely hsources

/-- A shader that is up to date before an edit answers the truth when it is told of all changed
files after the edit. -/
theorem notify_answers
    (hbefore : compiler.provider.Serves before (compiler.provider.contentsAt before))
    (hactive : (compiler.compile shader.root.text).outcomeFrom before = .ok shader.active.value)
    (hafter : compiler.provider.IsAtRest after)
    (hchanged : (compiler.provider.contentsAt before).ChangedOnly changed
      (compiler.provider.contentsAt after)) (number : Nat) :
    ∃ answer next, (shader.notify compiler changed).outcomeFrom ⟨after, number⟩ =
        .ok (answer, next) ∧
      shader.Answers compiler (compiler.provider.contentsAt after) answer next := by
  cases haffected : shader.isAffected changed with
  | false =>
    exact ⟨_, _, (notify_of_unaffected compiler ⟨after, number⟩ haffected).1, rfl,
      comesTo_active_of_unaffected hbefore hactive hchanged haffected⟩
  | true =>
    have hfresh := Compiler.comesTo_outcomeFrom hafter shader.root
    cases hcompile : (compiler.compile shader.root.text).outcomeFrom after with
    | error error =>
      rw [hcompile] at hfresh
      exact ⟨_, _, (notify_of_error compiler ⟨after, number⟩ haffected hcompile).1, rfl, hfresh⟩
    | ok compilation =>
      rw [hcompile] at hfresh
      exact ⟨_, _, (notify_of_ok compiler ⟨after, number⟩ haffected hcompile).1, rfl, hfresh⟩

/-- An edit removes the header of a shader and adds another file, and news of both arrives. -/
theorem notify_answers_without_header :
    let compiler : Compiler MemorySources := ⟨MemorySources.provider, .standard⟩
    let before := MemorySources.ofFiles [(⟨"/h.glsl"⟩, "int v;\n"),
      (⟨"/s.glsl"⟩, MemorySources.sampleShader "#include \"h.glsl\"\n")]
    let after := (before.remove ⟨"/h.glsl"⟩).write ⟨"/n.glsl"⟩ "int w;\n"
    let changed : List SourcePath := [⟨"/h.glsl"⟩, ⟨"/n.glsl"⟩]
    ∃ (shader next : LiveShader) (answer : Refresh),
      (compiler.compile shader.root.text).outcomeFrom before = .ok shader.active.value ∧
      shader.isAffected changed = true ∧
      (shader.notify compiler changed).outcomeFrom ⟨after, 1⟩ = .ok (answer, next) ∧
      shader.Answers compiler (compiler.provider.contentsAt after) answer next := by
  intro compiler before after changed
  have hcompiles : ((compiler.compile "/s.glsl").outcomeFrom before).toOption.any
      (fun compilation => compilation.dependencies.reachesAny changed) = true := by decide +kernel
  obtain ⟨compilation, hactive, haffected⟩ := exists_of_toOption_any hcompiles
  have hheader : SourcePath.IsRooted ⟨"/h.glsl"⟩ := ⟨"/h.glsl", by decide +kernel⟩
  have hnew : SourcePath.IsRooted ⟨"/n.glsl"⟩ := ⟨"/n.glsl", by decide +kernel⟩
  have hremoved : compiler.provider.Edits ⟨"/h.glsl"⟩ before (before.remove ⟨"/h.glsl"⟩) :=
    MemorySources.edits_remove rfl hheader
  have hadded : compiler.provider.Edits ⟨"/n.glsl"⟩ _ after :=
    MemorySources.edits_write rfl hnew "int w;\n"
  let shader : LiveShader := ⟨⟨"/s.glsl"⟩, ⟨0, compilation⟩⟩
  have hchanged := hremoved.changedOnly.append hadded.changedOnly
  have hshader : (compiler.compile shader.root.text).outcomeFrom before =
      .ok shader.active.value := hactive
  obtain ⟨answer, next, hanswer, htrue⟩ :=
    notify_answers hremoved.restBefore.serves hshader hadded.restAfter hchanged 1
  exact ⟨shader, next, answer, hshader, haffected, hanswer, htrue⟩

end LiveShader

end ShaderAssembly
