import Mathlib.Data.List.Basic
import ShaderAssembly.CompilationCache
import ShaderAssembly.Proofs.UnchangingSources

/-!
# Steps of a cache

What is kept changes in two ways only: compilations are dropped when a file is forgotten, and one
is put in place when it has just been made. Looking one up reads files and leaves the cache as it
is. So a property of kept compilations that new ones have is one that all of them have.
-/

namespace ShaderAssembly

open Include (FileText)

variable {σ ε α : Type}

namespace CompilationCache

variable {provider : Provider σ} {contents : Contents}

/-! ### Comparing files with recorded texts -/

/-- Files that read as recorded are compared to the end, and reading stops at the first one that
does not. -/
theorem allRead_cons (provider : Provider σ) (file : FileText) (rest : List FileText) (state : σ) :
    ((allRead provider (file :: rest) : Action σ Error Bool).outcomeFrom state =
      if (provider.read file.path).outcomeFrom state = .ok file.text then
        (allRead provider rest : Action σ Error Bool).outcomeFrom
          ((provider.read file.path).stateFrom state)
      else .ok false) ∧
    (allRead provider (file :: rest) : Action σ Error Bool).stateFrom state =
      if (provider.read file.path).outcomeFrom state = .ok file.text then
        (allRead provider rest : Action σ Error Bool).stateFrom
          ((provider.read file.path).stateFrom state)
      else (provider.read file.path).stateFrom state := by
  have hattempt : ((provider.read file.path).attempt : Action σ Error _).outcomeFrom state =
      .ok ((provider.read file.path).outcomeFrom state) := rfl
  rw [allRead, Action.outcomeFrom_bind_of_ok hattempt, Action.stateFrom_bind_of_ok hattempt,
    Action.stateFrom_attempt]
  cases (provider.read file.path).outcomeFrom state with
  | error failure => simp
  | ok text => by_cases htext : text = file.text <;> simp [htext]

/-- The comparison always has an answer. -/
theorem exists_allRead (provider : Provider σ) (files : List FileText) (state : σ) :
    ∃ same, (allRead provider files : Action σ Error Bool).outcomeFrom state = .ok same := by
  induction files generalizing state with
  | nil => exact ⟨true, rfl⟩
  | cons file rest ih =>
    rw [(allRead_cons provider file rest state).1]
    by_cases hread : (provider.read file.path).outcomeFrom state = .ok file.text
    · rw [if_pos hread]
      exact ih _
    · exact ⟨false, if_neg hread⟩

/-- Over files that do not change the comparison finds out whether they have the recorded texts. -/
theorem allRead_of_serves (files : List FileText) {state : σ}
    (hserves : provider.Serves state contents) :
    ((allRead provider files : Action σ Error Bool).outcomeFrom state = .ok true →
      ∀ file ∈ files, contents file.path = .ok file.text) ∧
    provider.Reaches state ((allRead provider files : Action σ Error Bool).stateFrom state) := by
  induction files generalizing state with
  | nil => exact ⟨fun _ => nofun, .start⟩
  | cons file rest ih =>
    have hstep : provider.Reaches state ((provider.read file.path).stateFrom state) :=
      .read file.path .start
    obtain ⟨hrest, hreaches⟩ := ih (hserves.later hstep)
    rw [(allRead_cons provider file rest state).1, (allRead_cons provider file rest state).2]
    by_cases hread : (provider.read file.path).outcomeFrom state = .ok file.text
    · rw [if_pos hread, if_pos hread]
      refine ⟨fun hsame other hother => ?_, hstep.trans hreaches⟩
      rcases List.mem_cons.mp hother with rfl | hother
      · rw [← hserves.outcomeFrom_read, hread]
      · exact hrest hsame other hother
    · rw [if_neg hread, if_neg hread]
      exact ⟨nofun, hstep⟩

/-! ### Looking up -/

/-- The kept compilation of a file, looked up by a computation that may compile afterwards. -/
abbrev lookUp (compiler : Compiler σ) (path : SourcePath) :
    Action (Keeping σ) Error (Option (Numbered Compilation)) := current? compiler path

section LookUp

variable (compiler : Compiler σ) {path : SourcePath} {keeping : Keeping σ}

/-- Where nothing is kept, nothing is read. -/
theorem lookUp_of_none (h : keeping.cache.entries.get? path = none) :
    (lookUp compiler path).outcomeFrom keeping = .ok none ∧
      (lookUp compiler path).stateFrom keeping = keeping := by
  unfold lookUp current?
  rw [Action.outcomeFrom_bind_of_ok (Action.outcomeFrom_get _),
    Action.stateFrom_bind_of_ok (Action.outcomeFrom_get _), Action.stateFrom_get, h]
  exact ⟨rfl, rfl⟩

/-- A kept compilation is found if its files read as recorded. -/
theorem lookUp_of_some {kept : Numbered Compilation}
    (h : keeping.cache.entries.get? path = some kept) :
    (lookUp compiler path).outcomeFrom keeping =
        ((isCurrent compiler.provider kept.value : Action σ Error Bool).outcomeFrom
          keeping.sources.inner).map (fun same => if same then some kept else none) ∧
      (lookUp compiler path).stateFrom keeping =
        ⟨⟨(isCurrent compiler.provider kept.value : Action σ Error Bool).stateFrom
          keeping.sources.inner, keeping.sources.next⟩, keeping.cache⟩ := by
  unfold lookUp current?
  rw [Action.outcomeFrom_bind_of_ok (Action.outcomeFrom_get _),
    Action.stateFrom_bind_of_ok (Action.outcomeFrom_get _), Action.stateFrom_get, h]
  exact ⟨Action.outcomeFrom_bind_pure _ _ _, Action.stateFrom_bind_pure _ _ _⟩

/-- Looking up leaves the cache and the numbers as they are, and finds a kept compilation or
none. -/
theorem lookUp_spec (path : SourcePath) (keeping : Keeping σ) :
    (∃ inner, (lookUp compiler path).stateFrom keeping =
      ⟨⟨inner, keeping.sources.next⟩, keeping.cache⟩) ∧
    ((lookUp compiler path).outcomeFrom keeping = .ok none ∨
      ∃ kept, keeping.cache.entries.get? path = some kept ∧
        (lookUp compiler path).outcomeFrom keeping = .ok (some kept)) := by
  cases hentry : keeping.cache.entries.get? path with
  | none =>
    obtain ⟨houtcome, hstate⟩ := lookUp_of_none compiler hentry
    exact ⟨⟨keeping.sources.inner, hstate⟩, .inl houtcome⟩
  | some kept =>
    obtain ⟨houtcome, hstate⟩ := lookUp_of_some compiler hentry
    refine ⟨⟨_, hstate⟩, ?_⟩
    obtain ⟨same, hsame⟩ := exists_allRead compiler.provider kept.value.dependencies.contents
      keeping.sources.inner
    rw [houtcome, isCurrent, hsame]
    cases same with
    | false => exact .inl rfl
    | true => exact .inr ⟨kept, rfl, rfl⟩

/-- Over files that do not change, what is found has been made from the texts in its files. -/
theorem lookUp_of_serves (path : SourcePath)
    (hserves : compiler.provider.Serves keeping.sources.inner contents) :
    compiler.provider.Reaches keeping.sources.inner
        ((lookUp compiler path).stateFrom keeping).sources.inner ∧
      ∀ kept, (lookUp compiler path).outcomeFrom keeping = .ok (some kept) →
        ∀ file ∈ kept.value.dependencies.contents, contents file.path = .ok file.text := by
  cases hentry : keeping.cache.entries.get? path with
  | none =>
    obtain ⟨houtcome, hstate⟩ := lookUp_of_none compiler hentry
    rw [houtcome, hstate]
    exact ⟨.start, nofun⟩
  | some kept =>
    obtain ⟨houtcome, hstate⟩ := lookUp_of_some compiler hentry
    obtain ⟨htexts, hreaches⟩ := allRead_of_serves kept.value.dependencies.contents hserves
    obtain ⟨same, hsame⟩ := exists_allRead compiler.provider kept.value.dependencies.contents
      keeping.sources.inner
    rw [houtcome, hstate, isCurrent, hsame]
    refine ⟨hreaches, fun found hfound => ?_⟩
    cases same with
    | false => cases hfound
    | true =>
      cases hfound
      exact htexts hsame

end LookUp

/-! ### Obtaining a compilation -/

section Obtain

variable {compiler : Compiler σ} {root : String} {keeping : Keeping σ}

/-- A compilation that is found is given out. -/
theorem obtain_of_found {kept : Numbered Compilation}
    (h : (lookUp compiler (.rooted root)).outcomeFrom keeping = .ok (some kept)) :
    (obtain compiler root).outcomeFrom keeping = .ok kept ∧
      (obtain compiler root).stateFrom keeping =
        (lookUp compiler (.rooted root)).stateFrom keeping := by
  unfold obtain
  dsimp only
  rw [Action.outcomeFrom_bind_of_ok h, Action.stateFrom_bind_of_ok h]
  exact ⟨rfl, rfl⟩

@[simp]
theorem outcomeFrom_onSources (action : Action (Numbering σ) ε α) (keeping : Keeping σ) :
    (onSources action).outcomeFrom keeping = action.outcomeFrom keeping.sources := rfl

@[simp]
theorem stateFrom_onSources (action : Action (Numbering σ) ε α) (keeping : Keeping σ) :
    (onSources action).stateFrom keeping =
      ⟨action.stateFrom keeping.sources, keeping.cache⟩ := rfl

/-- Where none is found, obtaining a compilation is making a new one. -/
theorem obtain_of_none (h : (lookUp compiler (.rooted root)).outcomeFrom keeping = .ok none) :
    (obtain compiler root).outcomeFrom keeping =
        (renew compiler (.rooted root)).outcomeFrom
          ((lookUp compiler (.rooted root)).stateFrom keeping) ∧
      (obtain compiler root).stateFrom keeping =
        (renew compiler (.rooted root)).stateFrom
          ((lookUp compiler (.rooted root)).stateFrom keeping) := by
  unfold obtain
  dsimp only
  rw [Action.outcomeFrom_bind_of_ok h, Action.stateFrom_bind_of_ok h]
  exact ⟨Action.outcomeFrom_bind_of_ok (Action.outcomeFrom_record _ _ _) _,
    Action.stateFrom_bind_of_ok (Action.outcomeFrom_record _ _ _) _⟩

/-- A compile that fails leaves what is kept as it is. -/
theorem renew_of_error {path : SourcePath} {error : Error}
    (h : (compiler.compile path.text).outcomeFrom keeping.sources.inner = .error error) :
    (renew compiler path).outcomeFrom keeping = .error error ∧
      (renew compiler path).stateFrom keeping =
        ⟨⟨(compiler.compile path.text).stateFrom keeping.sources.inner, keeping.sources.next⟩,
          keeping.cache⟩ := by
  obtain ⟨houtcome, hstate⟩ := Numbering.issue_onInner_of_error h
  rw [← outcomeFrom_onSources] at houtcome
  unfold renew
  rw [Action.outcomeFrom_bind_of_error houtcome, Action.stateFrom_bind_of_error houtcome,
    stateFrom_onSources, hstate]
  exact ⟨rfl, rfl⟩

/-- A compilation that has been made is kept under its path. -/
theorem renew_of_ok {path : SourcePath} {compilation : Compilation}
    (h : (compiler.compile path.text).outcomeFrom keeping.sources.inner = .ok compilation) :
    (renew compiler path).outcomeFrom keeping = .ok ⟨keeping.sources.next, compilation⟩ ∧
      (renew compiler path).stateFrom keeping =
        ⟨⟨(compiler.compile path.text).stateFrom keeping.sources.inner,
          keeping.sources.next + 1⟩,
          keeping.cache.keep path ⟨keeping.sources.next, compilation⟩⟩ := by
  obtain ⟨houtcome, hstate⟩ := Numbering.issue_onInner_of_ok h
  rw [← outcomeFrom_onSources] at houtcome
  unfold renew
  rw [Action.outcomeFrom_bind_of_ok houtcome, Action.stateFrom_bind_of_ok houtcome,
    stateFrom_onSources, hstate]
  exact ⟨rfl, rfl⟩

end Obtain

/-! ### Properties of what is kept -/

/-- Whether all kept compilations have a property together with the paths they are kept under. -/
def Satisfies (cache : CompilationCache) (property : SourcePath → Compilation → Prop) : Prop :=
  ∀ entry ∈ cache.entries.entries, property entry.1 entry.2.value

section Satisfies

variable {property : SourcePath → Compilation → Prop} {cache : CompilationCache}

theorem satisfies_empty : empty.Satisfies property := nofun

/-- A compilation that is found has the property. -/
theorem Satisfies.of_get? (h : cache.Satisfies property) {path : SourcePath}
    {kept : Numbered Compilation} (hkept : cache.entries.get? path = some kept) :
    property path kept.value := h (path, kept) (OrderedMap.mem_of_get? hkept).1

/-- Forgetting a file only drops compilations. -/
theorem Satisfies.forget (h : cache.Satisfies property) (path : String) :
    (cache.forget path).Satisfies property :=
  fun entry hentry => h entry (List.mem_filter.mp hentry).1

/-- What is still kept when a file has been forgotten was not made from it. -/
theorem satisfies_forget (cache : CompilationCache) (path : String) :
    (cache.forget path).Satisfies fun _ compilation => uses compilation (.rooted path) = false :=
  fun _ hentry => by simpa using (List.mem_filter.mp hentry).2

/-- A compilation that is kept replaces the one that was kept under its path. -/
theorem Satisfies.keep (h : cache.Satisfies property) {path : SourcePath}
    {compilation : Numbered Compilation} (hnew : property path compilation.value) :
    (cache.keep path compilation).Satisfies property := by
  intro entry hentry
  rcases List.mem_append.mp hentry with hold | hentry
  · exact h entry (List.mem_filter.mp hold).1
  · obtain rfl := List.mem_singleton.mp hentry
    exact hnew

/-- Obtaining a compilation keeps a property that new compilations have. -/
theorem Satisfies.obtain {compiler : Compiler σ} {root : String} {keeping : Keeping σ}
    (h : keeping.cache.Satisfies property)
    (hnew : (lookUp compiler (.rooted root)).outcomeFrom keeping = .ok none →
      ∀ compilation, (compiler.compile (SourcePath.rooted root).text).outcomeFrom
          ((lookUp compiler (.rooted root)).stateFrom keeping).sources.inner = .ok compilation →
        property (.rooted root) compilation) :
    ((CompilationCache.obtain compiler root).stateFrom keeping).cache.Satisfies property := by
  obtain ⟨⟨inner, hstate⟩, hfound⟩ := lookUp_spec compiler (.rooted root) keeping
  rcases hfound with hnone | ⟨kept, -, hkept⟩
  · rw [(obtain_of_none hnone).2]
    cases hcompile : (compiler.compile (SourcePath.rooted root).text).outcomeFrom
        ((lookUp compiler (.rooted root)).stateFrom keeping).sources.inner with
    | error error =>
      rw [(renew_of_error hcompile).2, hstate]
      exact h
    | ok compilation =>
      rw [(renew_of_ok hcompile).2, hstate]
      exact h.keep (hnew hnone compilation hcompile)
  · rw [(obtain_of_found hkept).2, hstate]
    exact h

end Satisfies

end CompilationCache

end ShaderAssembly
