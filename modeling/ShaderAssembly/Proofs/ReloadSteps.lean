import ShaderAssembly.LiveShader
import ShaderAssembly.Proofs.AccurateGraphs
import ShaderAssembly.Proofs.CompileOutcomes

/-!
# Steps of a live shader

Sources are at rest while only reads happen, and an edit leads from one rest to another that
differs at one file. A compile at rest leaves the files as they are. What it gives stays right
until a file is edited that it was made from.
-/

namespace ShaderAssembly

variable {σ : Type}

namespace Provider

variable {provider : Provider σ} {state : σ}

/-- What stands at every path in a state. -/
def contentsAt (provider : Provider σ) (state : σ) : Contents := fun path =>
  (provider.read path).outcomeFrom state

/-- Whether the files of a state stay as they are while they are read, and finitely many of them are
reached from any one. -/
def IsAtRest (provider : Provider σ) (state : σ) : Prop :=
  provider.ServesFinitely state (provider.contentsAt state)

/-- The contents that are served are those of the state. -/
theorem ServesFinitely.contentsAt_eq {contents : Contents}
    (h : provider.ServesFinitely state contents) : provider.contentsAt state = contents :=
  funext h.serves.outcomeFrom_read

/-- A state that serves some contents is at rest. -/
theorem ServesFinitely.isAtRest {contents : Contents}
    (h : provider.ServesFinitely state contents) : provider.IsAtRest state := by
  rw [IsAtRest, h.contentsAt_eq]
  exact h

/-- Whether one file with a canonical path is all that differs between two states at rest. -/
structure Edits (provider : Provider σ) (path : SourcePath) (before after : σ) : Prop where
  /-- The path is canonical. -/
  rooted : path.IsRooted
  /-- Nothing happens to the files before. -/
  restBefore : provider.IsAtRest before
  /-- Nothing happens to the files afterwards. -/
  restAfter : provider.IsAtRest after
  /-- All other files stay. -/
  others : ∀ other, other.IsRooted → other ≠ path →
    provider.contentsAt after other = provider.contentsAt before other

end Provider

namespace MemorySources

variable {sources : MemorySources} {path : SourcePath}

/-- Writing a file schedules nothing. -/
theorem scheduled_write (sources : MemorySources) (path : SourcePath) (text : String) :
    (sources.write path text).scheduled = sources.scheduled := rfl

/-- Removing a file schedules nothing. -/
theorem scheduled_remove (sources : MemorySources) (path : SourcePath) :
    (sources.remove path).scheduled = sources.scheduled := rfl

/-- Without scheduled writes, files in memory are at rest. -/
theorem isAtRest (h : sources.scheduled = []) : provider.IsAtRest sources :=
  (servesFinitely h).isAtRest

/-- Files in memory that differ at one path only are edited there. -/
theorem edits_of_get?_eq {after : MemorySources} (hbefore : sources.scheduled = [])
    (hafter : after.scheduled = []) (hpath : path.IsRooted)
    (hdenied : after.denied = sources.denied)
    (hfiles : ∀ other, other ≠ path → after.files.get? other = sources.files.get? other) :
    provider.Edits path sources after := by
  refine ⟨hpath, isAtRest hbefore, isAtRest hafter, fun other hother hne => ?_⟩
  rw [(servesFinitely hbefore).contentsAt_eq, (servesFinitely hafter).contentsAt_eq, contents,
    contents, SourcePath.rooted_text hother, hdenied, hfiles other hne]

/-- A compile of files in memory schedules no writes. -/
theorem scheduled_compile (h : sources.scheduled = []) (settings : Settings) (root : String) :
    ((Compiler.compile ⟨provider, settings⟩ root).stateFrom sources).scheduled = [] := by
  obtain ⟨count, hlater⟩ :=
    eq_of_reaches h (Compiler.reaches_compile sources ⟨provider, settings⟩ root)
  rw [hlater]
  exact h

/-- Writing a file edits it. -/
theorem edits_write (h : sources.scheduled = []) (hpath : path.IsRooted) (text : String) :
    provider.Edits path sources (sources.write path text) :=
  edits_of_get?_eq h h hpath rfl fun _ hne => OrderedMap.get?_insert_of_ne hne

/-- Removing a file edits it. -/
theorem edits_remove (h : sources.scheduled = []) (hpath : path.IsRooted) :
    provider.Edits path sources (sources.remove path) :=
  edits_of_get?_eq h h hpath rfl fun _ hne => OrderedMap.get?_erase_of_ne hne

end MemorySources

/-- A compile at rest leaves the files as they are. -/
theorem Compiler.isAtRest_compile {compiler : Compiler σ} {state : σ}
    (h : compiler.provider.IsAtRest state) (root : String) :
    compiler.provider.IsAtRest ((compiler.compile root).stateFrom state) ∧
      compiler.provider.contentsAt ((compiler.compile root).stateFrom state) =
        compiler.provider.contentsAt state := by
  have hafter := (matches_compile_of_serveAlike compiler.settings root h h).2
  exact ⟨hafter.isAtRest, hafter.contentsAt_eq⟩

/-- A compile at rest does not change what compiles come to. -/
theorem Compiler.compile_again {compiler : Compiler σ} {state : σ}
    (h : compiler.provider.IsAtRest state) (root other : String) :
    (compiler.compile root).outcomeFrom ((compiler.compile other).stateFrom state) =
      (compiler.compile root).outcomeFrom state := by
  have hafter := (matches_compile_of_serveAlike compiler.settings other h h).2
  exact (matches_compile_of_serveAlike compiler.settings root hafter h).1

namespace LiveShader

/-! ### What news of changed files does -/

/-- A file that compiles is built with the next number. -/
theorem build_of_ok (compiler : Compiler σ) (sources : Numbering σ) {path : SourcePath}
    {compilation : Compilation}
    (hok : (compiler.compile path.text).outcomeFrom sources.inner = .ok compilation) :
    (build compiler path).outcomeFrom sources = .ok ⟨sources.next, compilation⟩ ∧
      (build compiler path).stateFrom sources =
        ⟨(compiler.compile path.text).stateFrom sources.inner, sources.next + 1⟩ := by
  rw [build]
  exact Numbering.issue_onInner_of_ok hok

/-- News of changed files, as a step among others that may fail. -/
abbrev notify (shader : LiveShader) (compiler : Compiler σ) (changed : List SourcePath) :
    Action (Numbering σ) Error (Refresh × LiveShader) := shader.refresh compiler changed

section Notify

variable {shader : LiveShader} (compiler : Compiler σ) {changed : List SourcePath}
  (sources : Numbering σ)

/-- News of files that the active compilation was not made from is ignored. -/
theorem notify_of_unaffected (h : shader.isAffected changed = false) :
    (shader.notify compiler changed).outcomeFrom sources = .ok (.unaffected, shader) ∧
      (shader.notify compiler changed).stateFrom sources = sources := by
  unfold notify refresh
  rw [h]
  exact ⟨rfl, rfl⟩

/-- A shader that does not compile keeps its active compilation. -/
theorem notify_of_error (h : shader.isAffected changed = true) {error : Error}
    (herror : (compiler.compile shader.root.text).outcomeFrom sources.inner = .error error) :
    (shader.notify compiler changed).outcomeFrom sources = .ok (.failed error, shader) ∧
      (shader.notify compiler changed).stateFrom sources =
        ⟨(compiler.compile shader.root.text).stateFrom sources.inner, sources.next⟩ := by
  obtain ⟨houtcome, hstate⟩ := Numbering.issue_onInner_of_error herror
  have hbuild : ((build compiler shader.root).attempt : Action _ Error _).outcomeFrom sources =
      .ok (.error error) := by rw [Action.outcomeFrom_attempt, build, houtcome]
  unfold notify refresh
  rw [h, if_pos rfl, Action.outcomeFrom_bind_of_ok hbuild, Action.stateFrom_bind_of_ok hbuild,
    Action.stateFrom_attempt, build, hstate]
  dsimp only
  rw [Action.outcomeFrom_bind_pure, Action.stateFrom_bind_pure, Action.outcomeFrom_record,
    Action.stateFrom_record]
  exact ⟨rfl, rfl⟩

/-- A shader that compiles gets a new active compilation. -/
theorem notify_of_ok (h : shader.isAffected changed = true) {compilation : Compilation}
    (hok : (compiler.compile shader.root.text).outcomeFrom sources.inner = .ok compilation) :
    (shader.notify compiler changed).outcomeFrom sources =
        .ok (.replaced ⟨sources.next, compilation⟩,
          { shader with active := ⟨sources.next, compilation⟩ }) ∧
      (shader.notify compiler changed).stateFrom sources =
        ⟨(compiler.compile shader.root.text).stateFrom sources.inner, sources.next + 1⟩ := by
  obtain ⟨houtcome, hstate⟩ := build_of_ok compiler sources hok
  have hbuild : ((build compiler shader.root).attempt : Action _ Error _).outcomeFrom sources =
      .ok (.ok ⟨sources.next, compilation⟩) := by rw [Action.outcomeFrom_attempt, houtcome]
  have hsame : shader.active.isSame shader.active = true := beq_self_eq_true _
  unfold notify refresh
  rw [h, if_pos rfl, Action.outcomeFrom_bind_of_ok hbuild, Action.stateFrom_bind_of_ok hbuild,
    Action.stateFrom_attempt, hstate]
  dsimp only
  rw [Action.outcomeFrom_liftM, Action.stateFrom_liftM, replace, hsame]
  exact ⟨rfl, rfl⟩

end Notify

/-! ### Loaded shaders -/

/-- Whether a shader has the given root and an active compilation that files at rest once had. -/
structure IsLoaded (compiler : Compiler σ) (root : String) (shader : LiveShader) : Prop where
  /-- The root is the path of the shader. -/
  path : shader.root = .rooted root
  /-- The active compilation can have been made at rest. -/
  made : ∃ contents, Compiler.Compiles contents compiler.settings (.rooted root) shader.active.value

section Steps

variable {compiler : Compiler σ} {root : String} {shader : LiveShader} {sources : Numbering σ}

/-- News of one file matters exactly if the active compilation was made from it. -/
theorem IsLoaded.isAffected_iff (h : IsLoaded compiler root shader) {path : SourcePath}
    (hpath : path.IsRooted) :
    shader.isAffected [path] = true ↔ path ∈ shader.active.value.dependencies.paths := by
  obtain ⟨contents, hcompiles⟩ := h.made
  exact hcompiles.reachesAny_singleton_iff (SourcePath.isRooted_rooted root) hpath

/-- The active compilation was made from the root. -/
theorem IsLoaded.root_mem (h : IsLoaded compiler root shader) :
    SourcePath.rooted root ∈ shader.active.value.dependencies.paths := by
  obtain ⟨contents, hcompiles⟩ := h.made
  exact (hcompiles.isAccurate (SourcePath.isRooted_rooted root)).self

/-- The compile that a shader runs is that of its root. -/
theorem IsLoaded.compile_root (h : IsLoaded compiler root shader) :
    compiler.compile shader.root.text = compiler.compile root := by
  rw [h.path, compiler.compile_rooted]

/-- A build gives the compilation of the file a number. -/
theorem compile_of_build {path : SourcePath} {next : Numbered Compilation}
    (hbuild : (build compiler path).outcomeFrom sources = .ok next) :
    (compiler.compile path.text).outcomeFrom sources.inner = .ok next.value ∧
      ((build compiler path).stateFrom sources).inner =
        (compiler.compile path.text).stateFrom sources.inner := by
  cases hcompile : (compiler.compile path.text).outcomeFrom sources.inner with
  | error error =>
    rw [build, (Numbering.issue_onInner_of_error hcompile).1] at hbuild
    cases hbuild
  | ok compilation =>
    obtain ⟨houtcome, hstate⟩ := build_of_ok compiler sources hcompile
    rw [houtcome] at hbuild
    rw [hstate]
    cases hbuild
    dsimp only
    exact ⟨rfl, rfl⟩

/-- A compilation replaces the active one if that is the expected one, and is dropped else. -/
theorem replace_cases (shader : LiveShader) (expected next : Numbered Compilation) :
    (shader.active.isSame expected = true ∧
      (shader.replace expected next : Traced Error _).outcome =
        .ok (.replaced next, { shader with active := next })) ∨
    (shader.active.isSame expected = false ∧
      (shader.replace expected next : Traced Error _).outcome = .ok (.superseded, shader)) := by
  unfold replace
  cases hsame : shader.active.isSame expected with
  | true => exact .inl ⟨rfl, rfl⟩
  | false => exact .inr ⟨rfl, rfl⟩

/-- A shader that compiles can be loaded. -/
theorem load_of_ok {compilation : Compilation}
    (hok : (compiler.compile root).outcomeFrom sources.inner = .ok compilation) :
    (load compiler root).outcomeFrom sources =
        .ok ⟨.rooted root, ⟨sources.next, compilation⟩⟩ ∧
      (load compiler root).stateFrom sources =
        ⟨(compiler.compile root).stateFrom sources.inner, sources.next + 1⟩ := by
  rw [← compiler.compile_rooted] at hok ⊢
  obtain ⟨houtcome, hstate⟩ := build_of_ok compiler sources hok
  unfold load
  dsimp only
  rw [Action.outcomeFrom_bind_pure, Action.stateFrom_bind_pure, houtcome, hstate]
  exact ⟨rfl, rfl⟩

/-- A shader that has been loaded has the first compilation, with the next number. -/
theorem load_eq_ok (hload : (load compiler root).outcomeFrom sources = .ok shader) :
    ∃ compilation, (compiler.compile root).outcomeFrom sources.inner = .ok compilation ∧
      shader = ⟨.rooted root, ⟨sources.next, compilation⟩⟩ ∧
      (load compiler root).stateFrom sources =
        ⟨(compiler.compile root).stateFrom sources.inner, sources.next + 1⟩ := by
  cases hcompile : (compiler.compile root).outcomeFrom sources.inner with
  | error error =>
    rw [← compiler.compile_rooted] at hcompile
    unfold load at hload
    dsimp only at hload
    rw [Action.outcomeFrom_bind_pure, build, (Numbering.issue_onInner_of_error hcompile).1] at hload
    cases hload
  | ok compilation =>
    obtain ⟨houtcome, hstate⟩ := load_of_ok hcompile
    rw [houtcome] at hload
    exact ⟨compilation, rfl, (Except.ok.inj hload).symm, hstate⟩

/-- A shader that has been loaded has the compilation of the files, which stay as they are. -/
theorem compiles_of_load (hrest : compiler.provider.IsAtRest sources.inner)
    (hload : (load compiler root).outcomeFrom sources = .ok shader) :
    (shader.root = .rooted root ∧
      Compiler.Compiles (compiler.provider.contentsAt sources.inner) compiler.settings
        (.rooted root) shader.active.value) ∧
    compiler.provider.IsAtRest ((load compiler root).stateFrom sources).inner ∧
      compiler.provider.contentsAt ((load compiler root).stateFrom sources).inner =
        compiler.provider.contentsAt sources.inner := by
  obtain ⟨compilation, hcompile, rfl, hstate⟩ := load_eq_ok hload
  rw [hstate]
  have hmade := Compiler.compiles_of_compile hrest.serves hcompile
  exact ⟨⟨rfl, hmade⟩, compiler.isAtRest_compile hrest root⟩

end Steps

end LiveShader

end ShaderAssembly
