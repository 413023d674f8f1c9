import ShaderAssembly.Proofs.ReloadSteps

/-!
# Overlapping reloads

News of changed files may come from many callers at once. Each call takes the active compilation
and looks whether it is affected, compiles, and swaps, and other calls and edits may come between
these steps. A call that finds the active compilation replaced drops its own.

So an edit can be lost. Its own call may be dropped in favour of one that compiled before the edit
but swapped later, or it may look at a compilation that does not use the file while one that does
is still on its way. An edit is announced in time if one of its calls starts when no compilation
made before the edit is still to be swapped in. If all edits are, nothing is lost: once all calls
are finished, the active compilation is what the files compile to.
-/

namespace ShaderAssembly.LiveShader

open Compiler (Compiles)

variable {σ : Type}

/-- How far a call has come. -/
inductive Progress where
  /-- It has not started. -/
  | waiting
  /-- It has taken the active compilation, which is affected. -/
  | taken (expected : Numbered Compilation)
  /-- It has compiled. -/
  | built (expected next : Numbered Compilation)
  /-- It has given its answer. -/
  | finished (answer : Refresh)
  deriving DecidableEq

/-- A live shader among its calls. -/
structure Reloading (σ : Type) where
  /-- The sources. -/
  sources : Numbering σ
  /-- The shader. -/
  shader : LiveShader
  /-- How far the calls have come. -/
  calls : Nat → Progress

/-- What can happen. -/
inductive Event where
  /-- A file is edited. -/
  | edit (path : SourcePath)
  /-- A call with news of some files starts. -/
  | start (call : Nat) (changed : List SourcePath)
  /-- A call compiles. -/
  | build (call : Nat)
  /-- A call swaps, and gives its answer. -/
  | swap (call : Nat) (answer : Refresh)
  deriving DecidableEq

/-- What an event does. All compiles succeed. -/
inductive Step (compiler : Compiler σ) : Reloading σ → Event → Reloading σ → Prop where
  /-- One file changes. -/
  | edit {state : Reloading σ} {path : SourcePath} {inner : σ}
      (hedit : compiler.provider.Edits path state.sources.inner inner) :
      Step compiler state (.edit path) { state with sources := ⟨inner, state.sources.next⟩ }
  /-- A call takes the active compilation, which has to be made again. -/
  | take {state : Reloading σ} {call : Nat} {changed : List SourcePath}
      (hwaiting : state.calls call = .waiting)
      (haffected : state.shader.isAffected changed = true) :
      Step compiler state (.start call changed)
        { state with calls := Function.update state.calls call (.taken state.shader.active) }
  /-- A call finds that the active compilation is not affected, and is finished. -/
  | ignore {state : Reloading σ} {call : Nat} {changed : List SourcePath}
      (hwaiting : state.calls call = .waiting)
      (hunaffected : state.shader.isAffected changed = false) :
      Step compiler state (.start call changed)
        { state with calls := Function.update state.calls call (.finished .unaffected) }
  /-- A call compiles the files as they are. -/
  | build {state : Reloading σ} {call : Nat} {expected next : Numbered Compilation}
      (htaken : state.calls call = .taken expected)
      (hbuild : (build compiler state.shader.root).outcomeFrom state.sources = .ok next) :
      Step compiler state (.build call)
        { state with
          sources := (build compiler state.shader.root).stateFrom state.sources
          calls := Function.update state.calls call (.built expected next) }
  /-- A call makes its compilation the active one, or drops it. -/
  | swap {state : Reloading σ} {call : Nat} {expected next : Numbered Compilation}
      {answer : Refresh} {after : LiveShader} (hbuilt : state.calls call = .built expected next)
      (hswap : (state.shader.replace expected next : Traced Error _).outcome =
        .ok (answer, after)) :
      Step compiler state (.swap call answer)
        { state with
          shader := after
          calls := Function.update state.calls call (.finished answer) }

/-- What events in a row lead to. -/
inductive Run (compiler : Compiler σ) (first : Reloading σ) :
    List Event → Reloading σ → Prop where
  /-- Nothing has happened. -/
  | start : Run compiler first [] first
  /-- One more event has taken place. -/
  | step {events : List Event} {middle last : Reloading σ} {event : Event}
      (h : Run compiler first events middle) (hstep : Step compiler middle event last) :
      Run compiler first (events ++ [event]) last

/-- A shader with calls that have not started. -/
def Reloading.ofLoaded (sources : Numbering σ) (shader : LiveShader) : Reloading σ :=
  ⟨sources, shader, fun _ => .waiting⟩

/-- Whether every call that has started is finished. -/
def Reloading.IsDone (state : Reloading σ) : Prop :=
  ∀ call, state.calls call = .waiting ∨ ∃ answer, state.calls call = .finished answer

/-- Whether every edit is followed by the start of a call with news of the file. -/
def Announced (events : List Event) : Prop :=
  ∀ before path after, events = before ++ .edit path :: after →
    ∃ call changed, .start call changed ∈ after ∧ path ∈ changed

/-- Whether every edit is followed by the start of a call with news of the file after which no
compilation made before the edit becomes active. -/
def AnnouncedInTime (events : List Event) : Prop :=
  ∀ before path after, events = before ++ .edit path :: after →
    ∃ between call changed rest, after = between ++ .start call changed :: rest ∧
      path ∈ changed ∧
      ∀ other next, .build other ∈ before → .swap other (.replaced next) ∉ rest

/-! ### Compilations and the edits after them -/

/-- Whether a compilation was made of files that, apart from edits among the given events, are
still as they were. -/
def MadeBefore (compiler : Compiler σ) (root : String) (now : Contents) (late : List Event)
    (compilation : Compilation) : Prop :=
  ∃ old, Compiles old compiler.settings (.rooted root) compilation ∧
    ∀ file, file.IsRooted → .edit file ∉ late → now file = old file

/-- The events since the active compilation was made, and those since it became active, which it
did at the start or when a call swapped it in. -/
inductive Installed : List Event → List Event → List Event → Prop where
  /-- It has been active from the start. -/
  | loaded {events : List Event} : Installed events events events
  /-- A call has made it and swapped it in. -/
  | swapped {early middle since : List Event} {call : Nat} {next : Numbered Compilation} :
      Installed (early ++ .build call :: (middle ++ .swap call (.replaced next) :: since))
        (middle ++ .swap call (.replaced next) :: since) since

/-- Whether a call has taken the active compilation and not swapped yet. -/
def Reloading.IsPending (state : Reloading σ) (call : Nat) : Prop :=
  ∃ expected, state.shader.active.isSame expected = true ∧
    (state.calls call = .taken expected ∨ ∃ next, state.calls call = .built expected next)

/-- What holds while calls overlap. -/
structure Invariant (compiler : Compiler σ) (root : String) (events : List Event)
    (state : Reloading σ) : Prop where
  /-- The root stays. -/
  path : state.shader.root = .rooted root
  /-- The files stay as they are until the next edit. -/
  rest : compiler.provider.IsAtRest state.sources.inner
  /-- What a call has compiled was right then. -/
  built : ∀ call expected next, state.calls call = .built expected next →
    ∃ early late, events = early ++ .build call :: late ∧
      MadeBefore compiler root (compiler.provider.contentsAt state.sources.inner) late next.value
  /-- The active compilation was right when it was made, and all calls it has been affected by
  since it became active are pending. -/
  active : ∃ late since, Installed events late since ∧
    MadeBefore compiler root (compiler.provider.contentsAt state.sources.inner) late
      state.shader.active.value ∧
    ∀ call changed, .start call changed ∈ since → state.shader.isAffected changed = true →
      state.IsPending call

section Steps

variable {compiler : Compiler σ} {root : String} {state next : Reloading σ} {event : Event}
  {events : List Event}

/-- One more event takes place after a compilation was made. -/
theorem MadeBefore.concat {now later : Contents} {late : List Event} {compilation : Compilation}
    (h : MadeBefore compiler root now late compilation)
    (hlater : ∀ file, file.IsRooted → event ≠ .edit file → later file = now file) :
    MadeBefore compiler root later (late ++ [event]) compilation := by
  obtain ⟨old, hcompiles, hsame⟩ := h
  refine ⟨old, hcompiles, fun file hfile hedit => ?_⟩
  have hlate : .edit file ∉ late := fun hmem => hedit (List.mem_append_left _ hmem)
  have hevent : event ≠ .edit file := fun heq =>
    hedit (List.mem_append_right _ (List.mem_singleton.mpr heq.symm))
  rw [hlater file hfile hevent, hsame file hfile hlate]

/-- One more event takes place after a compilation became active. -/
theorem Installed.concat {late since : List Event} (h : Installed events late since)
    (event : Event) : Installed (events ++ [event]) (late ++ [event]) (since ++ [event]) := by
  cases h with
  | loaded => exact .loaded
  | swapped =>
    simp only [List.append_assoc, List.cons_append]
    exact .swapped

/-- An event leaves files at rest, and changes no file that it does not edit. -/
theorem Step.rest (h : Step compiler state event next)
    (hrest : compiler.provider.IsAtRest state.sources.inner) :
    compiler.provider.IsAtRest next.sources.inner ∧
      ∀ file, file.IsRooted → event ≠ .edit file →
        compiler.provider.contentsAt next.sources.inner file =
          compiler.provider.contentsAt state.sources.inner file := by
  cases h with
  | edit hedit =>
    exact ⟨hedit.restAfter, fun file hfile hne =>
      hedit.others file hfile fun heq => hne (congrArg Event.edit heq.symm)⟩
  | take | ignore | swap => exact ⟨hrest, fun _ _ _ => rfl⟩
  | build _ hbuild =>
    dsimp only
    rw [(compile_of_build hbuild).2]
    obtain ⟨hafter, hcontents⟩ := compiler.isAtRest_compile hrest state.shader.root.text
    exact ⟨hafter, fun file _ _ => congrFun hcontents file⟩

/-- An event leaves the root as it is. -/
theorem Step.root_eq (h : Step compiler state event next) :
    next.shader.root = state.shader.root := by
  cases h with
  | edit | take | ignore | build => rfl
  | @swap _ expected made _ _ _ hswap =>
    rcases replace_cases state.shader expected made with ⟨-, hreplace⟩ | ⟨-, hreplace⟩ <;>
      rw [hreplace] at hswap <;> cases hswap <;> rfl

/-- An event keeps the shader as it is, unless a call makes its compilation the active one. -/
theorem Step.shader_cases (h : Step compiler state event next) :
    (next.shader = state.shader ∧ ∀ call made, event ≠ .swap call (.replaced made)) ∨
      ∃ call expected made, event = .swap call (.replaced made) ∧
        state.calls call = .built expected made ∧ next.shader.active = made := by
  cases h with
  | edit | take | ignore | build => exact .inl ⟨rfl, nofun⟩
  | @swap call expected made _ _ hbuilt hswap =>
    rcases replace_cases state.shader expected made with ⟨-, hreplace⟩ | ⟨-, hreplace⟩
    · rw [hreplace] at hswap
      cases hswap
      exact .inr ⟨call, expected, made, rfl, hbuilt, rfl⟩
    · rw [hreplace] at hswap
      cases hswap
      exact .inl ⟨rfl, nofun⟩

/-- A pending call stays pending while neither it nor the active compilation changes. -/
theorem Reloading.IsPending.of_eq {call : Nat} (h : state.IsPending call)
    (hactive : next.shader.active = state.shader.active)
    (hcall : next.calls call = state.calls call) : next.IsPending call := by
  obtain ⟨expected, hsame, hprogress⟩ := h
  refine ⟨expected, ?_, ?_⟩
  · rwa [hactive]
  · rwa [hcall]

/-- A call that has not started is not pending. -/
theorem Reloading.IsPending.ne_waiting {call : Nat} (h : state.IsPending call) :
    state.calls call ≠ .waiting := by
  obtain ⟨expected, -, htaken | ⟨next, hbuilt⟩⟩ := h
  · rw [htaken]
    exact nofun
  · rw [hbuilt]
    exact nofun

/-- A pending call stays pending until a compilation is swapped in. -/
theorem Reloading.IsPending.of_step {call : Nat} (h : state.IsPending call)
    (hstep : Step compiler state event next)
    (hkeeps : ∀ other made, event ≠ .swap other (.replaced made)) : next.IsPending call := by
  cases hstep with
  | edit => exact h.of_eq rfl rfl
  | @take other _ hwaiting | @ignore other _ hwaiting =>
    have hne : call ≠ other := fun heq => h.ne_waiting (heq ▸ hwaiting)
    exact h.of_eq rfl (Function.update_of_ne hne ..)
  | @build other expected made htaken =>
    by_cases heq : call = other
    · obtain ⟨found, hsame, hprogress⟩ := h
      rw [heq, htaken] at hprogress
      rcases hprogress with hfound | ⟨_, hfound⟩
      · cases hfound
        exact ⟨expected, hsame, .inr ⟨made, by rw [heq]; exact Function.update_self ..⟩⟩
      · cases hfound
    · exact h.of_eq rfl (Function.update_of_ne heq ..)
  | @swap other expected made answer after hbuilt hswap =>
    rcases replace_cases state.shader expected made with
      ⟨hsame, hreplace⟩ | ⟨hsame, hreplace⟩
    · rw [hreplace] at hswap
      cases hswap
      exact absurd rfl (hkeeps other made)
    · rw [hreplace] at hswap
      cases hswap
      -- A call that drops its compilation has taken another one than the active one.
      have hne : call ≠ other := by
        rintro rfl
        obtain ⟨found, hfound, hprogress⟩ := h
        rw [hbuilt] at hprogress
        rcases hprogress with htaken | ⟨_, hfinal⟩
        · cases htaken
        · cases hfinal
          rw [hsame] at hfound
          cases hfound
      exact h.of_eq rfl (Function.update_of_ne hne ..)

/-- A call that starts with news of the active compilation is pending. -/
theorem Step.isPending_of_start {call : Nat} {changed : List SourcePath}
    (h : Step compiler state (.start call changed) next)
    (haffected : state.shader.isAffected changed = true) : next.IsPending call := by
  cases h with
  | take => exact ⟨_, beq_self_eq_true _, .inl (Function.update_self ..)⟩
  | ignore _ hunaffected =>
    rw [haffected] at hunaffected
    cases hunaffected

/-- What a call has compiled was right then, also after one more event. -/
theorem Invariant.built_of_step (h : Invariant compiler root events state)
    (hstep : Step compiler state event next) {call : Nat}
    {expected made : Numbered Compilation} (hcall : next.calls call = .built expected made) :
    ∃ early late, events ++ [event] = early ++ .build call :: late ∧
      MadeBefore compiler root (compiler.provider.contentsAt next.sources.inner) late
        made.value := by
  obtain ⟨-, hcontents⟩ := hstep.rest h.rest
  -- Unless the event is the compile itself, the call has compiled before.
  have hold : state.calls call = .built expected made →
      ∃ early late, events ++ [event] = early ++ .build call :: late ∧
        MadeBefore compiler root (compiler.provider.contentsAt next.sources.inner) late
          made.value := by
    intro hbuilt
    obtain ⟨early, late, hevents, hmade⟩ := h.built call expected made hbuilt
    refine ⟨early, late ++ [event], ?_, hmade.concat hcontents⟩
    rw [hevents, List.append_assoc, List.cons_append]
  cases hstep with
  | edit => exact hold hcall
  | @take other | @ignore other | @swap other =>
    dsimp only at hcall
    by_cases heq : call = other
    · rw [heq, Function.update_self] at hcall
      cases hcall
    · rw [Function.update_of_ne heq] at hcall
      exact hold hcall
  | @build other _ _ _ hbuild =>
    dsimp only at hcall
    by_cases heq : call = other
    · rw [heq, Function.update_self] at hcall
      cases hcall
      have hcompile := (compile_of_build hbuild).1
      rw [h.path, compiler.compile_rooted] at hcompile
      have hmade := Compiler.compiles_of_compile h.rest.serves hcompile
      exact ⟨events, [], by rw [heq], _, hmade, fun file hfile _ => hcontents file hfile nofun⟩
    · rw [Function.update_of_ne heq] at hcall
      exact hold hcall

/-- The active compilation was right when it was made, and the calls it has been affected by are
pending, also after one more event. -/
theorem Invariant.active_of_step (h : Invariant compiler root events state)
    (hstep : Step compiler state event next) :
    ∃ late since, Installed (events ++ [event]) late since ∧
      MadeBefore compiler root (compiler.provider.contentsAt next.sources.inner) late
        next.shader.active.value ∧
      ∀ call changed, .start call changed ∈ since → next.shader.isAffected changed = true →
        next.IsPending call := by
  obtain ⟨-, hcontents⟩ := hstep.rest h.rest
  obtain ⟨late, since, hinstalled, hmade, hpending⟩ := h.active
  rcases hstep.shader_cases with
    ⟨hshader, hkeeps⟩ | ⟨other, expected, made, rfl, hbuilt, hactive⟩
  · rw [hshader]
    refine ⟨_, _, hinstalled.concat event, hmade.concat hcontents,
      fun call changed hstart haffected => ?_⟩
    rcases List.mem_append.mp hstart with hstart | hlast
    · exact (hpending call changed hstart haffected).of_step hstep hkeeps
    · obtain rfl := List.mem_singleton.mp hlast
      exact hstep.isPending_of_start haffected
  · obtain ⟨early, middle, hevents, hnew⟩ := h.built other expected made hbuilt
    rw [hactive, hevents, List.append_assoc, List.cons_append]
    exact ⟨_, [], .swapped, hnew.concat hcontents, nofun⟩

/-- What holds while calls overlap holds after one more event. -/
theorem Invariant.step (h : Invariant compiler root events state)
    (hstep : Step compiler state event next) :
    Invariant compiler root (events ++ [event]) next where
  path := (hstep.root_eq).trans h.path
  rest := (hstep.rest h.rest).1
  built _ _ _ := h.built_of_step hstep
  active := h.active_of_step hstep

end Steps

section Runs

variable {compiler : Compiler σ} {root : String} {sources : Numbering σ} {shader : LiveShader}
  {events : List Event} {last : Reloading σ}

/-- What holds while calls overlap holds when a shader has been loaded. -/
theorem Invariant.ofLoaded (hrest : compiler.provider.IsAtRest sources.inner)
    (hload : (load compiler root).outcomeFrom sources = .ok shader) :
    Invariant compiler root [] (.ofLoaded ((load compiler root).stateFrom sources) shader) := by
  obtain ⟨⟨hpath, hmade⟩, hafter, hcontents⟩ := compiles_of_load hrest hload
  have hsame : ∀ file, file.IsRooted → .edit file ∉ ([] : List Event) → _ :=
    fun file _ _ => congrFun hcontents file
  exact ⟨hpath, hafter, nofun, ⟨[], [], .loaded, ⟨_, hmade, hsame⟩, nofun⟩⟩

/-- What holds while calls overlap holds in every run. -/
theorem Run.invariant (hrest : compiler.provider.IsAtRest sources.inner)
    (hload : (load compiler root).outcomeFrom sources = .ok shader)
    (h : Run compiler (.ofLoaded ((load compiler root).stateFrom sources) shader) events last) :
    Invariant compiler root events last := by
  induction h with
  | start => exact .ofLoaded hrest hload
  | step _ hstep ih => exact ih.step hstep

/-- If two elements of a list differ and the first does not stand after the second, then the second
stands after the first. -/
theorem mem_of_append_eq_append {α : Type} {before after front back : List α} {first second : α}
    (h : before ++ first :: after = front ++ second :: back) (hne : first ≠ second)
    (hback : first ∉ back) : second ∈ after := by
  rcases List.append_eq_append_iff.mp h with ⟨between, -, hrest⟩ | ⟨between, -, hrest⟩
  · cases between with
    | nil => exact absurd (List.cons.inj hrest).1 hne
    | cons head tail =>
      rw [(List.cons.inj hrest).2]
      exact List.mem_append_right _ (List.mem_cons_self ..)
  · cases between with
    | nil => exact absurd (List.cons.inj hrest).1.symm hne
    | cons head tail =>
      refine absurd ?_ hback
      rw [(List.cons.inj hrest).2]
      exact List.mem_append_right _ (List.mem_cons_self ..)

/-- An edit that is announced in time, and came after the active compilation was made, is announced
after that compilation became active. -/
theorem Installed.start_mem {late since : List Event} (h : Installed events late since)
    (htime : AnnouncedInTime events) {file : SourcePath} (hedit : .edit file ∈ late) :
    ∃ call changed, .start call changed ∈ since ∧ file ∈ changed := by
  obtain ⟨before, after, hlate⟩ := List.append_of_mem hedit
  cases h with
  | loaded =>
    obtain ⟨between, call, changed, rest, rfl, hchanged, -⟩ := htime before file after hlate
    refine ⟨call, changed, ?_, hchanged⟩
    rw [hlate]
    simp
  | @swapped early middle since other next =>
    have hevents : early ++ .build other :: (middle ++ .swap other (.replaced next) :: since) =
        (early ++ .build other :: before) ++ .edit file :: after := by
      rw [hlate, List.append_assoc, List.cons_append]
    obtain ⟨between, call, changed, rest, rfl, hchanged, hlost⟩ := htime _ file after hevents
    have hback : Event.swap other (.replaced next) ∉ rest :=
      hlost other next (List.mem_append_right _ (List.mem_cons_self ..))
    have hsplit : middle ++ .swap other (.replaced next) :: since =
        (before ++ .edit file :: between) ++ .start call changed :: rest := by
      rw [hlate, List.append_assoc, List.cons_append]
    exact ⟨call, changed, mem_of_append_eq_append hsplit nofun hback, hchanged⟩

/-- No call is pending once every call that has started is finished. -/
theorem Reloading.IsDone.not_isPending {state : Reloading σ} (h : state.IsDone) (call : Nat) :
    ¬state.IsPending call := by
  rintro ⟨expected, -, hprogress⟩
  rcases h call with hcall | ⟨answer, hcall⟩ <;> rw [hcall] at hprogress <;>
    rcases hprogress with htaken | ⟨_, hbuilt⟩ <;> contradiction

/-- However calls and edits overlap, if all edits are announced in time and all compiles succeed,
then once all calls are finished the active compilation is what the files compile to. -/
theorem Run.compile_eq_active (hrest : compiler.provider.IsAtRest sources.inner)
    (hload : (load compiler root).outcomeFrom sources = .ok shader)
    (h : Run compiler (.ofLoaded ((load compiler root).stateFrom sources) shader) events last)
    (htime : AnnouncedInTime events) (hdone : last.IsDone) :
    (compiler.compile root).outcomeFrom last.sources.inner = .ok last.shader.active.value := by
  have hinvariant := h.invariant hrest hload
  obtain ⟨late, since, hinstalled, ⟨old, hmade, hsame⟩, hpending⟩ := hinvariant.active
  have hroot := SourcePath.isRooted_rooted root
  -- An edit of a file that the compilation was made from would have left a call pending.
  have hkept : ∀ file ∈ last.shader.active.value.dependencies.paths, file.IsRooted →
      .edit file ∉ late := by
    intro file hmem hfile hedit
    obtain ⟨call, changed, hstart, hchanged⟩ := hinstalled.start_mem htime hedit
    have haffected := hmade.reachesAny_of_mem hroot hchanged hfile hmem
    exact hdone.not_isPending call (hpending call changed hstart haffected)
  have hagree : old.AgreeOn last.shader.active.value.dependencies.paths
      (compiler.provider.contentsAt last.sources.inner) := fun file hmem => by
    have hfile := (hmade.isAccurate hroot).rooted file hmem
    exact hsame file hfile (hkept file hmem hfile)
  exact (hmade.of_agreeOn hroot hagree).outcomeFrom_of_servesFinitely hinvariant.rest

end Runs

/-! ### Undisturbed calls -/

section Building

variable {compiler : Compiler σ} {first : Reloading σ} {events : List Event} {inner : σ}
  {next : Nat} {shader : LiveShader} {calls : Nat → Progress} {expected : Numbered Compilation}

/-- A file of the active compilation is edited, and a call with news of it starts. -/
theorem Run.editAndStart (h : Run compiler first events ⟨⟨inner, next⟩, shader, calls⟩)
    (call : Nat) (hwaiting : calls call = .waiting) {path : SourcePath} {edited : σ}
    (hedit : compiler.provider.Edits path inner edited)
    (haffected : shader.isAffected [path] = true) :
    Run compiler first (events ++ [.edit path, .start call [path]])
      ⟨⟨edited, next⟩, shader, Function.update calls call (.taken shader.active)⟩ := by
  have hedited := h.step (.edit hedit)
  have hstarted := hedited.step (.take hwaiting haffected)
  rwa [List.append_assoc] at hstarted

/-- A call that has taken the active compilation compiles the files as they are. -/
theorem Run.build (h : Run compiler first events ⟨⟨inner, next⟩, shader, calls⟩) (call : Nat)
    (htaken : calls call = .taken expected) {made : Compilation}
    (hok : (compiler.compile shader.root.text).outcomeFrom inner = .ok made) :
    Run compiler first (events ++ [.build call])
      ⟨⟨(compiler.compile shader.root.text).stateFrom inner, next + 1⟩, shader,
        Function.update calls call (.built expected ⟨next, made⟩)⟩ := by
  obtain ⟨houtcome, hstate⟩ := build_of_ok compiler ⟨inner, next⟩ hok
  have hbuilt := h.step (.build htaken houtcome)
  rwa [hstate] at hbuilt

/-- The call that finds the compilation it has taken makes its own the active one. -/
theorem Run.replace (h : Run compiler first events ⟨⟨inner, next⟩, shader, calls⟩) (call : Nat)
    {made : Numbered Compilation} (hbuilt : calls call = .built expected made)
    (hsame : shader.active.isSame expected = true) :
    Run compiler first (events ++ [.swap call (.replaced made)])
      ⟨⟨inner, next⟩, { shader with active := made },
        Function.update calls call (.finished (.replaced made))⟩ := by
  rcases replace_cases shader expected made with ⟨-, hreplace⟩ | ⟨hother, -⟩
  · exact h.step (.swap hbuilt hreplace)
  · rw [hsame] at hother
    cases hother

/-- A call that finds another compilation drops its own. -/
theorem Run.drop (h : Run compiler first events ⟨⟨inner, next⟩, shader, calls⟩) (call : Nat)
    {made : Numbered Compilation} (hbuilt : calls call = .built expected made)
    (hother : shader.active.isSame expected = false) :
    Run compiler first (events ++ [.swap call .superseded])
      ⟨⟨inner, next⟩, shader, Function.update calls call (.finished .superseded)⟩ := by
  rcases replace_cases shader expected made with ⟨hsame, -⟩ | ⟨-, hreplace⟩
  · rw [hother] at hsame
    cases hsame
  · exact h.step (.swap hbuilt hreplace)

/-- A call whose steps follow each other at once gives the answer of an undisturbed call. -/
theorem run_of_notify {state : Reloading σ} {call : Nat} {changed : List SourcePath}
    {answer : Refresh} {after : LiveShader}
    (hwaiting : state.calls call = .waiting)
    (hanswer : (state.shader.notify compiler changed).outcomeFrom state.sources =
      .ok (answer, after))
    (hok : ∀ error, answer ≠ .failed error) :
    ∃ steps, (steps = [] ∨ steps = [.build call, .swap call answer]) ∧
      Run compiler state (.start call changed :: steps)
        ⟨(state.shader.notify compiler changed).stateFrom state.sources, after,
          Function.update state.calls call (.finished answer)⟩ := by
  cases haffected : state.shader.isAffected changed with
  | false =>
    obtain ⟨houtcome, hstate⟩ := notify_of_unaffected compiler state.sources haffected
    rw [houtcome] at hanswer
    rw [hstate]
    cases hanswer
    exact ⟨[], .inl rfl, Run.start.step (.ignore hwaiting haffected)⟩
  | true =>
    cases hcompile : (compiler.compile state.shader.root.text).outcomeFrom state.sources.inner with
    | error error =>
      rw [(notify_of_error compiler state.sources haffected hcompile).1] at hanswer
      cases hanswer
      exact absurd rfl (hok error)
    | ok made =>
      obtain ⟨houtcome, hstate⟩ := notify_of_ok compiler state.sources haffected hcompile
      rw [houtcome] at hanswer
      rw [hstate]
      cases hanswer
      have hstarted : Run compiler state [] state := .start
      have htaken := hstarted.step (.take hwaiting haffected)
      have hbuilt := htaken.build call (Function.update_self ..) hcompile
      have hdone := hbuilt.replace call (Function.update_self ..) (beq_self_eq_true _)
      rw [Function.update_idem, Function.update_idem] at hdone
      exact ⟨_, .inr rfl, hdone⟩

end Building

/-! ### Two calls -/

section TwoCalls

variable {compiler : Compiler σ} {root : String} {path : SourcePath} {loaded once twice : σ}
  {number : Nat} {first second third : Compilation}

/-- A file is edited twice, each time with news of it, before a call compiles. Both calls compile
the last version, and the second one drops its own. -/
theorem run_of_late_builds (hedit : compiler.provider.Edits path loaded once)
    (hagain : compiler.provider.Edits path once twice)
    (haffected : first.dependencies.reachesAny [path] = true)
    (hthird : (compiler.compile root).outcomeFrom twice = .ok third) :
    ∃ last, Run compiler (.ofLoaded ⟨loaded, number + 1⟩ ⟨.rooted root, ⟨number, first⟩⟩)
        [.edit path, .start 0 [path], .edit path, .start 1 [path], .build 0, .build 1,
          .swap 0 (.replaced ⟨number + 1, third⟩), .swap 1 .superseded] last ∧
      last.IsDone := by
  rw [← compiler.compile_rooted] at hthird
  have hfourth := Compiler.compile_again hagain.restAfter (SourcePath.rooted root).text
    (SourcePath.rooted root).text
  rw [hthird] at hfourth
  have hloaded : Run compiler (.ofLoaded ⟨loaded, number + 1⟩ ⟨.rooted root, ⟨number, first⟩⟩) []
      ⟨⟨loaded, number + 1⟩, ⟨.rooted root, ⟨number, first⟩⟩, fun _ => .waiting⟩ := .start
  have htaken := (hloaded.editAndStart 0 rfl hedit haffected).editAndStart 1 rfl hagain haffected
  have hbuilt := (htaken.build 0 rfl hthird).build 1 rfl hfourth
  have hreplaced := hbuilt.replace 0 rfl (beq_self_eq_true _)
  have hdropped := hreplaced.drop 1 rfl (beq_false_of_ne (Nat.succ_ne_self number))
  refine ⟨_, hdropped, fun call => ?_⟩
  match call with
  | 0 | 1 => exact .inr ⟨_, rfl⟩
  | _ + 2 => exact .inl rfl

/-- A file is edited between the compile of a call and its swap. The call with news of the edit
takes the same compilation and comes second, so the version before the edit stays. -/
theorem run_of_early_build (hedit : compiler.provider.Edits path loaded once)
    (hsecond : (compiler.compile root).outcomeFrom once = .ok second)
    (hagain : compiler.provider.Edits path ((compiler.compile root).stateFrom once) twice)
    (haffected : first.dependencies.reachesAny [path] = true)
    (hthird : (compiler.compile root).outcomeFrom twice = .ok third) :
    ∃ last, Run compiler (.ofLoaded ⟨loaded, number + 1⟩ ⟨.rooted root, ⟨number, first⟩⟩)
        [.edit path, .start 0 [path], .build 0, .edit path, .start 1 [path], .build 1,
          .swap 0 (.replaced ⟨number + 1, second⟩), .swap 1 .superseded] last ∧
      last.IsDone ∧ last.shader.active.value = second ∧
      (compiler.compile root).outcomeFrom last.sources.inner = .ok third := by
  have hfresh := Compiler.compile_again hagain.restAfter root (SourcePath.rooted root).text
  rw [hthird] at hfresh
  rw [← compiler.compile_rooted] at hsecond hagain hthird
  have hloaded : Run compiler (.ofLoaded ⟨loaded, number + 1⟩ ⟨.rooted root, ⟨number, first⟩⟩) []
      ⟨⟨loaded, number + 1⟩, ⟨.rooted root, ⟨number, first⟩⟩, fun _ => .waiting⟩ := .start
  have hbuilt := (hloaded.editAndStart 0 rfl hedit haffected).build 0 rfl hsecond
  dsimp only at hbuilt
  have hboth := (hbuilt.editAndStart 1 rfl hagain haffected).build 1 rfl hthird
  have hreplaced := hboth.replace 0 rfl (beq_self_eq_true _)
  have hdropped := hreplaced.drop 1 rfl (beq_false_of_ne (Nat.succ_ne_self number))
  refine ⟨_, hdropped, fun call => ?_, rfl, ?_⟩
  · match call with
    | 0 | 1 => exact .inr ⟨_, rfl⟩
    | _ + 2 => exact .inl rfl
  · dsimp only
    exact hfresh

/-- Edits before all compiles are announced in time. -/
theorem announcedInTime_of_late_builds (path : SourcePath) (made : Numbered Compilation) :
    AnnouncedInTime [.edit path, .start 0 [path], .edit path, .start 1 [path], .build 0, .build 1,
      .swap 0 (.replaced made), .swap 1 .superseded] := by
  intro before edited after hevents
  simp only [List.cons_eq_append_iff, List.nil_eq, List.append_eq_nil_iff, List.cons.injEq,
    Event.edit.injEq, reduceCtorEq, false_and, and_false, exists_false, false_or, or_false]
    at hevents
  rcases hevents with ⟨rfl, rfl, rfl⟩ | ⟨_, rfl, _, rfl, rfl, rfl, rfl⟩
  · exact ⟨[], 0, _, _, rfl, List.mem_singleton_self _, nofun⟩
  · refine ⟨[], 1, _, _, rfl, List.mem_singleton_self _, fun other next hbuild => ?_⟩
    simp at hbuild

/-- Both edits are announced if one call has compiled between them. -/
theorem announced_of_early_build (path : SourcePath) (made : Numbered Compilation) :
    Announced [.edit path, .start 0 [path], .build 0, .edit path, .start 1 [path], .build 1,
      .swap 0 (.replaced made), .swap 1 .superseded] := by
  intro before edited after hevents
  simp only [List.cons_eq_append_iff, List.nil_eq, List.append_eq_nil_iff, List.cons.injEq,
    Event.edit.injEq, reduceCtorEq, false_and, and_false, exists_false, false_or, or_false]
    at hevents
  rcases hevents with ⟨rfl, rfl, rfl⟩ | ⟨_, rfl, _, rfl, _, rfl, rfl, rfl, rfl⟩ <;>
    exact ⟨_, _, List.mem_cons_self .., List.mem_singleton_self _⟩

end TwoCalls

/-- Two calls with news of one edit each overlap, and both compile after the second edit. The
active compilation is the last version. -/
theorem compile_eq_active_after_late_builds :
    let compiler : Compiler MemorySources := ⟨MemorySources.provider, .standard⟩
    let file : SourcePath := ⟨"/s.glsl"⟩
    let sources : Numbering MemorySources :=
      ⟨.ofFiles [(file, MemorySources.sampleShader "int v1;\n")], 0⟩
    ∃ shader made last,
      let events : List Event := [.edit file, .start 0 [file], .edit file, .start 1 [file],
        .build 0, .build 1, .swap 0 (.replaced made), .swap 1 .superseded]
      compiler.provider.IsAtRest sources.inner ∧
      (load compiler "/s.glsl").outcomeFrom sources = .ok shader ∧
      Run compiler (.ofLoaded ((load compiler "/s.glsl").stateFrom sources) shader) events last ∧
      AnnouncedInTime events ∧ last.IsDone ∧
      (compiler.compile "/s.glsl").outcomeFrom last.sources.inner =
        .ok last.shader.active.value := by
  intro compiler file sources
  let once := ((compiler.compile "/s.glsl").stateFrom sources.inner).write file
    (MemorySources.sampleShader "int v2;\n")
  let twice := once.write file (MemorySources.sampleShader "int v3;\n")
  have hcompiles : ((compiler.compile "/s.glsl").outcomeFrom sources.inner).toOption.any
      (fun first => ((compiler.compile "/s.glsl").outcomeFrom twice).toOption.any
        fun _ => first.dependencies.reachesAny [file]) = true := by decide +kernel
  obtain ⟨first, hfirst, hcompiles⟩ := exists_of_toOption_any hcompiles
  obtain ⟨third, hthird, haffected⟩ := exists_of_toOption_any hcompiles
  have hrest : compiler.provider.IsAtRest sources.inner := MemorySources.isAtRest rfl
  have hpath : file.IsRooted := ⟨"/s.glsl", by decide +kernel⟩
  have hloaded := MemorySources.scheduled_compile
    (show sources.inner.scheduled = [] from rfl) .standard "/s.glsl"
  have hedit : compiler.provider.Edits file _ once := MemorySources.edits_write hloaded hpath _
  have hedited := (MemorySources.scheduled_write _ file
    (MemorySources.sampleShader "int v2;\n")).trans hloaded
  have hagain : compiler.provider.Edits file once twice :=
    MemorySources.edits_write hedited hpath _
  obtain ⟨hload, hstate⟩ := load_of_ok hfirst
  obtain ⟨last, hrun, hdone⟩ := run_of_late_builds hedit hagain haffected hthird
  rw [← hstate] at hrun
  have htime := announcedInTime_of_late_builds file ⟨1, third⟩
  exact ⟨_, _, last, hrest, hload, hrun, htime, hdone,
    hrun.compile_eq_active hrest hload htime hdone⟩

/-- A call compiles before an edit and swaps after the call with news of the edit has started. The
edit is announced and all calls are finished, and yet the active compilation is the version before
the edit. -/
theorem active_ne_compile_after_early_build :
    let compiler : Compiler MemorySources := ⟨MemorySources.provider, .standard⟩
    let file : SourcePath := ⟨"/s.glsl"⟩
    let sources : Numbering MemorySources :=
      ⟨.ofFiles [(file, MemorySources.sampleShader "int v1;\n")], 0⟩
    ∃ shader made last fresh,
      let events : List Event := [.edit file, .start 0 [file], .build 0, .edit file,
        .start 1 [file], .build 1, .swap 0 (.replaced made), .swap 1 .superseded]
      compiler.provider.IsAtRest sources.inner ∧
      (load compiler "/s.glsl").outcomeFrom sources = .ok shader ∧
      Run compiler (.ofLoaded ((load compiler "/s.glsl").stateFrom sources) shader) events last ∧
      Announced events ∧ last.IsDone ∧
      (compiler.compile "/s.glsl").outcomeFrom last.sources.inner = .ok fresh ∧
      last.shader.active.value.stages ≠ fresh.stages := by
  intro compiler file sources
  let once := ((compiler.compile "/s.glsl").stateFrom sources.inner).write file
    (MemorySources.sampleShader "int v2;\n")
  let twice := ((compiler.compile "/s.glsl").stateFrom once).write file
    (MemorySources.sampleShader "int v3;\n")
  have hcompiles : ((compiler.compile "/s.glsl").outcomeFrom sources.inner).toOption.any
      (fun first => ((compiler.compile "/s.glsl").outcomeFrom once).toOption.any
        fun second => ((compiler.compile "/s.glsl").outcomeFrom twice).toOption.any
          fun third => first.dependencies.reachesAny [file] && second.stages != third.stages) =
        true := by decide +kernel
  obtain ⟨first, hfirst, hcompiles⟩ := exists_of_toOption_any hcompiles
  obtain ⟨second, hsecond, hcompiles⟩ := exists_of_toOption_any hcompiles
  obtain ⟨third, hthird, hcompiles⟩ := exists_of_toOption_any hcompiles
  obtain ⟨haffected, hstages⟩ := Bool.and_eq_true_iff.mp hcompiles
  have hrest : compiler.provider.IsAtRest sources.inner := MemorySources.isAtRest rfl
  have hpath : file.IsRooted := ⟨"/s.glsl", by decide +kernel⟩
  have hloaded := MemorySources.scheduled_compile
    (show sources.inner.scheduled = [] from rfl) .standard "/s.glsl"
  have hedit : compiler.provider.Edits file _ once := MemorySources.edits_write hloaded hpath _
  have hedited := (MemorySources.scheduled_write _ file
    (MemorySources.sampleShader "int v2;\n")).trans hloaded
  have hcompiled := MemorySources.scheduled_compile hedited .standard "/s.glsl"
  have hagain : compiler.provider.Edits file _ twice := MemorySources.edits_write hcompiled hpath _
  obtain ⟨hload, hstate⟩ := load_of_ok hfirst
  obtain ⟨last, hrun, hdone, hactive, hfresh⟩ :=
    run_of_early_build hedit hsecond hagain haffected hthird
  rw [← hstate] at hrun
  refine ⟨_, _, last, third, hrest, hload, hrun, announced_of_early_build file _, hdone, hfresh, ?_⟩
  rw [hactive]
  exact bne_iff_ne.mp hstages

end ShaderAssembly.LiveShader
