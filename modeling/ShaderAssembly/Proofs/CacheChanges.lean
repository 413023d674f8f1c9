import ShaderAssembly.Proofs.CacheSteps
import ShaderAssembly.Proofs.IndexedShaders
import ShaderAssembly.Proofs.ReadShaders
import ShaderAssembly.Proofs.RecordedReads

/-!
# What a call of a cache changes

A call of a cache is about one file. A call that is answered from the cache and a call that fails
change nothing, though an older compilation of the file may be kept that is not current any more. A
call that compiles replaces the compilation of its file, and forgetting a file drops the
compilations that were made from it. Whatever else is kept stays.

This rests on what has come into a cache. All compilations are kept under canonical paths, by which
every spelling of a file finds the same one, and have recorded canonical paths. So files may change
at any time, every call may come with a compiler of its own, and a call that has run beside others
may put its compilation in place when they have gone on.
-/

namespace ShaderAssembly

variable {σ : Type}

namespace CompilationCache

/-! ### What is kept -/

/-- Whether a compilation is filed where calls for its file look for it, and whether they can tell
which files it was made from. -/
structure IsFiled (path : SourcePath) (compilation : Compilation) : Prop where
  /-- It is kept under the path of its shader. -/
  path_eq : path = compilation.shader.path
  /-- The path is canonical. -/
  rooted : path.IsRooted
  /-- The files it was made from have canonical paths, too. -/
  recorded : ∀ file ∈ compilation.dependencies.paths, file.IsRooted

/-- A new compilation is filed under the canonical path of its file. -/
theorem isFiled_of_compile {compiler : Compiler σ} {root : String} {state : σ}
    {compilation : Compilation}
    (h : (compiler.compile root).outcomeFrom state = .ok compilation) :
    IsFiled (.rooted root) compilation := by
  have hroot := SourcePath.isRooted_rooted root
  obtain ⟨parsed, hparsed, h⟩ := Action.outcomeFrom_bind_eq_ok.mp h
  obtain ⟨stages, -, h⟩ := Action.outcomeFrom_bind_eq_ok.mp h
  cases h
  have hrecord := Compiler.isRecordOf_textsParsed hparsed
  refine ⟨(Compiler.path_of_parse hparsed).symm, hroot, fun file hfile => ?_⟩
  exact hrecord.isRooted_of_mem hroot file ((hrecord.mem_paths_iff hroot).mp hfile)

/-- A file is used exactly if its canonical path is recorded. -/
theorem IsFiled.uses_iff {path : SourcePath} {compilation : Compilation}
    (h : IsFiled path compilation) (file : String) :
    uses compilation (.rooted file) = true ↔
      .rooted file ∈ compilation.dependencies.paths :=
  IncludeGraph.any_same_iff_mem (fun _ hread => h.recorded _ (List.mem_map_of_mem hread))
    (SourcePath.isRooted_rooted file)

/-! ### One call -/

section Call

variable {compiler : Compiler σ} {root : String} {keeping : Keeping σ}

/-- Whether a compilation is kept for a file and all its files still read as recorded. -/
def Hits (compiler : Compiler σ) (root : String) (keeping : Keeping σ)
    (kept : Numbered Compilation) : Prop :=
  keeping.cache.entries.get? (.rooted root) = some kept ∧
    (isCurrent compiler.provider kept.value : Action σ Error Bool).outcomeFrom
      keeping.sources.inner = .ok true

/-- What is found is a hit. -/
theorem lookUp_eq_some_iff {kept : Numbered Compilation} :
    (lookUp compiler (.rooted root)).outcomeFrom keeping = .ok (some kept) ↔
      Hits compiler root keeping kept := by
  cases hentry : keeping.cache.entries.get? (.rooted root) with
  | none => simp [(lookUp_of_none compiler hentry).1, Hits, hentry]
  | some found =>
    obtain ⟨same, hsame⟩ := exists_allRead compiler.provider found.value.dependencies.contents
      keeping.sources.inner
    rw [(lookUp_of_some compiler hentry).1, Hits, hentry, Option.some_inj, isCurrent, hsame]
    constructor
    · intro hfound
      cases same with
      | false => cases hfound
      | true =>
        cases hfound
        exact ⟨rfl, hsame⟩
    · rintro ⟨rfl, hcurrent⟩
      obtain rfl : same = true := Except.ok.inj (hsame.symm.trans hcurrent)
      rfl

/-- What a call gives and leaves. -/
inductive Obtains (compiler : Compiler σ) (root : String) (keeping : Keeping σ) :
    Except Error (Numbered Compilation) → Keeping σ → Prop where
  /-- It is a hit. -/
  | hit {kept : Numbered Compilation} {inner : σ} (hhit : Hits compiler root keeping kept) :
      Obtains compiler root keeping (.ok kept)
        ⟨⟨inner, keeping.sources.next⟩, keeping.cache⟩
  /-- It is no hit, and the compile fails. -/
  | failure {error : Error} {inner : σ} (hnone : ∀ kept, ¬ Hits compiler root keeping kept) :
      Obtains compiler root keeping (.error error)
        ⟨⟨inner, keeping.sources.next⟩, keeping.cache⟩
  /-- It is no hit, and there is a new compilation. -/
  | made {compilation : Compilation} {before inner : σ}
      (hnone : ∀ kept, ¬ Hits compiler root keeping kept)
      (hcompile : (compiler.compile (SourcePath.rooted root).text).outcomeFrom before =
        .ok compilation) :
      Obtains compiler root keeping (.ok ⟨keeping.sources.next, compilation⟩)
        ⟨⟨inner, keeping.sources.next + 1⟩,
          keeping.cache.keep (.rooted root) ⟨keeping.sources.next, compilation⟩⟩

/-- There is no other way. -/
theorem obtains_obtain (compiler : Compiler σ) (root : String) (keeping : Keeping σ) :
    Obtains compiler root keeping ((obtain compiler root).outcomeFrom keeping)
      ((obtain compiler root).stateFrom keeping) := by
  obtain ⟨⟨inner, hstate⟩, hfound⟩ := lookUp_spec compiler (.rooted root) keeping
  rcases hfound with hnone | ⟨kept, -, hkept⟩
  · have hmiss : ∀ kept, ¬ Hits compiler root keeping kept := fun kept hhit => by
      rw [lookUp_eq_some_iff.mpr hhit] at hnone
      cases hnone
    rw [(obtain_of_none hnone).1, (obtain_of_none hnone).2]
    cases hcompile : (compiler.compile (SourcePath.rooted root).text).outcomeFrom
        ((lookUp compiler (.rooted root)).stateFrom keeping).sources.inner with
    | error error =>
      rw [(renew_of_error hcompile).1, (renew_of_error hcompile).2, hstate]
      exact .failure hmiss
    | ok compilation =>
      rw [(renew_of_ok hcompile).1, (renew_of_ok hcompile).2, hstate]
      exact .made hmiss hcompile
  · rw [(obtain_of_found hkept).1, (obtain_of_found hkept).2, hstate]
    exact .hit (lookUp_eq_some_iff.mp hkept)

variable {outcome : Except Error (Numbered Compilation)} {after : Keeping σ}

/-- A call that fails changes nothing. -/
theorem Obtains.of_error {error : Error}
    (h : Obtains compiler root keeping (.error error) after) : after.cache = keeping.cache := by
  cases h
  rfl

/-- A hit is given out, and nothing changes. -/
theorem Obtains.of_hits (h : Obtains compiler root keeping outcome after)
    {kept : Numbered Compilation} (hhit : Hits compiler root keeping kept) :
    outcome = .ok kept ∧ after.cache = keeping.cache := by
  cases h with
  | hit hfound =>
    obtain rfl := Option.some.inj (hfound.1.symm.trans hhit.1)
    exact ⟨rfl, rfl⟩
  | failure hnone => exact absurd hhit (hnone kept)
  | made hnone => exact absurd hhit (hnone kept)

/-- What is given out without a hit is new, and kept. -/
theorem Obtains.of_not_hits {given : Numbered Compilation}
    (h : Obtains compiler root keeping (.ok given) after)
    (hnone : ∀ kept, ¬ Hits compiler root keeping kept) :
    given.number = keeping.sources.next ∧
      after.cache = keeping.cache.keep (.rooted root) given := by
  cases h with
  | hit hfound => exact absurd hfound (hnone given)
  | made => exact ⟨rfl, rfl⟩

end Call

/-! ### All calls -/

/-- What calls of one cache lead to, whatever compilers they come with. -/
inductive Arises : Keeping σ → Prop where
  /-- Nothing is kept. -/
  | start (sources : Numbering σ) : Arises ⟨sources, .empty⟩
  /-- The files have changed, and how they will change while they are read, too. -/
  | edit {keeping : Keeping σ} (inner : σ) (h : Arises keeping) :
      Arises ⟨⟨inner, keeping.sources.next⟩, keeping.cache⟩
  /-- A file has been forgotten. -/
  | invalidate {keeping : Keeping σ} (path : String) (h : Arises keeping) :
      Arises ⟨keeping.sources, (keeping.cache.invalidate path).2⟩
  /-- A compilation has been obtained, whether that failed or not. -/
  | obtain {keeping : Keeping σ} (compiler : Compiler σ) (root : String) (h : Arises keeping) :
      Arises ((obtain compiler root).stateFrom keeping)
  /-- A call that has run beside others puts in place what it has compiled before. -/
  | finish {keeping : Keeping σ} {compiler : Compiler σ} {root : String} {before : σ}
      {made : Numbered Compilation} (h : Arises keeping)
      (hcompile : (compiler.compile (SourcePath.rooted root).text).outcomeFrom before =
        .ok made.value)
      (hnumber : made.number < keeping.sources.next) :
      Arises ⟨keeping.sources, keeping.cache.keep (.rooted root) made⟩

/-- Whether a cache has at most one compilation under a path, all of them filed, with numbers that
have been given out. -/
structure IsTidy (keeping : Keeping σ) : Prop where
  /-- No path comes twice. -/
  nodup : keeping.cache.entries.keys.Nodup
  /-- All compilations are filed. -/
  filed : keeping.cache.Satisfies IsFiled
  /-- All have been given numbers. -/
  numbered : ∀ entry ∈ keeping.cache.entries.entries, entry.2.number < keeping.sources.next

section Tidy

variable {keeping : Keeping σ} {sources : Numbering σ}

/-- A cache stays tidy while numbers are given out. -/
theorem IsTidy.later (h : IsTidy keeping) (hnext : keeping.sources.next ≤ sources.next) :
    IsTidy ⟨sources, keeping.cache⟩ :=
  ⟨h.nodup, h.filed, fun entry hentry => (h.numbered entry hentry).trans_le hnext⟩

/-- A cache stays tidy when a file is forgotten. -/
theorem IsTidy.forget (h : IsTidy keeping) (path : String) :
    IsTidy ⟨keeping.sources, keeping.cache.forget path⟩ := by
  refine ⟨?_, h.filed.forget path, fun entry hentry => ?_⟩
  · exact h.nodup.sublist (List.filter_sublist.map Prod.fst)
  · exact h.numbered entry (List.mem_filter.mp hentry).1

/-- A cache stays tidy when a compilation is kept that some call has made. -/
theorem IsTidy.keep (h : IsTidy keeping) {compiler : Compiler σ} {root : String} {before : σ}
    {made : Numbered Compilation}
    (hcompile : (compiler.compile (SourcePath.rooted root).text).outcomeFrom before =
      .ok made.value) (hnumber : made.number < keeping.sources.next) :
    IsTidy ⟨keeping.sources, keeping.cache.keep (.rooted root) made⟩ := by
  have hfiled := isFiled_of_compile hcompile
  rw [SourcePath.rooted_text (SourcePath.isRooted_rooted root)] at hfiled
  refine ⟨OrderedMap.nodup_keys_insert h.nodup, h.filed.keep hfiled, fun entry hentry => ?_⟩
  rcases OrderedMap.mem_entries_insert hentry with hold | rfl
  · exact h.numbered entry hold
  · exact hnumber

/-- A call leaves a tidy cache tidy. -/
theorem IsTidy.obtains (h : IsTidy keeping) {compiler : Compiler σ} {root : String}
    {outcome : Except Error (Numbered Compilation)} {after : Keeping σ}
    (hcall : Obtains compiler root keeping outcome after) : IsTidy after := by
  cases hcall with
  | hit _ => exact h.later le_rfl
  | failure _ => exact h.later le_rfl
  | made _ hcompile =>
    exact (h.later (Nat.le_succ _)).keep hcompile (Nat.lt_succ_self _)

/-- All that calls lead to is tidy. -/
theorem Arises.isTidy (h : Arises keeping) : IsTidy keeping := by
  induction h with
  | start sources => exact ⟨List.nodup_nil, satisfies_empty, nofun⟩
  | edit _ _ ih => exact ih.later le_rfl
  | invalidate path _ ih => exact ih.forget path
  | obtain compiler root _ ih => exact ih.obtains (obtains_obtain compiler root _)
  | finish _ hcompile hnumber ih => exact ih.keep hcompile hnumber

end Tidy

/-- How many compilations are dropped is how many were made from the file. -/
theorem fst_invalidate (cache : CompilationCache) (path : String) :
    (cache.invalidate path).1 =
      cache.entries.entries.countP fun entry => uses entry.2.value (.rooted path) := by
  have hsplit := List.length_eq_countP_add_countP
    (fun entry : SourcePath × Numbered Compilation => uses entry.2.value (.rooted path))
    (l := cache.entries.entries)
  have hleft : (cache.forget path).size = cache.entries.entries.countP fun entry =>
      !uses entry.2.value (.rooted path) := List.countP_eq_length_filter.symm
  simp only [decide_not, Bool.decide_eq_true] at hsplit
  rw [invalidate, hleft, size, OrderedMap.size, hsplit, Nat.add_sub_cancel]

/-- Whether the calls of a cache change only what they are about. -/
structure ChangesItsOwn (keeping : Keeping σ) : Prop where
  /-- Every compilation is kept under the path of its shader, which is canonical, and there is only
  one under a path. -/
  keys : keeping.cache.entries.IsIndex (fun kept => kept.value.shader.path) ∧
    ∀ path ∈ keeping.cache.entries.keys, path.IsRooted
  /-- A call that fails changes nothing. -/
  failure : ∀ compiler root error,
    (CompilationCache.obtain compiler root).outcomeFrom keeping = .error error →
      ((CompilationCache.obtain compiler root).stateFrom keeping).cache = keeping.cache
  /-- A hit is given out as it is kept, and changes nothing. -/
  hit : ∀ compiler root kept, Hits compiler root keeping kept →
    (CompilationCache.obtain compiler root).outcomeFrom keeping = .ok kept ∧
      ((CompilationCache.obtain compiler root).stateFrom keeping).cache = keeping.cache
  /-- What is given out without a hit is a new compilation, which is then the one that is kept for
  the file. What is kept under other paths stays. -/
  made : ∀ compiler root given, (∀ kept, ¬ Hits compiler root keeping kept) →
    (CompilationCache.obtain compiler root).outcomeFrom keeping = .ok given →
      let after := ((CompilationCache.obtain compiler root).stateFrom keeping).cache.entries
      (∀ entry ∈ keeping.cache.entries.entries, entry.2.number ≠ given.number) ∧
        after.get? (.rooted root) = some given ∧
        ∀ other, other ≠ .rooted root → after.get? other = keeping.cache.entries.get? other
  /-- Forgetting a file drops the compilations that have recorded it as read, and tells how many
  these are. All others stay. -/
  invalidated : ∀ path,
    (∀ entry, entry ∈ (keeping.cache.invalidate path).2.entries.entries ↔
      entry ∈ keeping.cache.entries.entries ∧
        .rooted path ∉ entry.2.value.dependencies.paths) ∧
    (keeping.cache.invalidate path).1 = keeping.cache.entries.entries.countP fun entry =>
      .rooted path ∈ entry.2.value.dependencies.paths

/-- Whatever has happened to a cache and to the files, a call changes only what it is about. -/
theorem Arises.changesItsOwn {keeping : Keeping σ} (h : Arises keeping) :
    ChangesItsOwn keeping := by
  have htidy := h.isTidy
  have huses : ∀ path, ∀ entry ∈ keeping.cache.entries.entries,
      (uses entry.2.value (.rooted path) = true ↔
        .rooted path ∈ entry.2.value.dependencies.paths) :=
    fun path entry hentry => (htidy.filed entry hentry).uses_iff path
  refine ⟨⟨⟨htidy.nodup, fun entry hentry => (htidy.filed entry hentry).path_eq⟩, ?_⟩, ?_, ?_, ?_,
    fun path => ⟨fun entry => ?_, ?_⟩⟩
  · exact List.forall_mem_map.mpr fun entry hentry => (htidy.filed entry hentry).rooted
  · intro compiler root error herror
    have hcall := obtains_obtain compiler root keeping
    rw [herror] at hcall
    exact hcall.of_error
  · intro compiler root kept hhit
    exact (obtains_obtain compiler root keeping).of_hits hhit
  · intro compiler root given hnone hgiven
    have hcall := obtains_obtain compiler root keeping
    rw [hgiven] at hcall
    obtain ⟨hnumber, hafter⟩ := hcall.of_not_hits hnone
    dsimp only
    rw [hafter]
    refine ⟨fun entry hentry => ?_, OrderedMap.get?_insert_self _ _ _, fun other hother =>
      OrderedMap.get?_insert_of_ne hother⟩
    rw [hnumber]
    exact (htidy.numbered entry hentry).ne
  · have hstays : entry ∈ (keeping.cache.invalidate path).2.entries.entries ↔
        entry ∈ keeping.cache.entries.entries ∧
          (!uses entry.2.value (.rooted path)) = true := List.mem_filter
    rw [hstays]
    refine and_congr_right fun hentry => ?_
    rw [← huses path entry hentry, Bool.not_eq_true', Bool.not_eq_true]
  · rw [fst_invalidate]
    refine List.countP_congr fun entry hentry => ?_
    rw [huses path entry hentry, decide_eq_true_iff]

/-- A header is broken after a shader was compiled with it. A call that spells the shader in another
way fails, and the older compilation stays until the header is forgotten. -/
theorem Arises.changesItsOwn_of_broken_header :
    let compiler : Compiler MemorySources := ⟨MemorySources.provider, .standard⟩
    let sources := MemorySources.ofFiles
      [(⟨"/s.glsl"⟩, MemorySources.sampleShader "#include \"h.glsl\"\n"),
        (⟨"/h.glsl"⟩, "int h;\n")]
    let filled := (CompilationCache.obtain compiler "/s.glsl").stateFrom ⟨⟨sources, 0⟩, .empty⟩
    let broken : Keeping MemorySources :=
      ⟨⟨filled.sources.inner.write ⟨"/h.glsl"⟩ "#include \"missing.glsl\"\n",
        filled.sources.next⟩, filled.cache⟩
    ChangesItsOwn broken ∧ broken.cache.size = 1 ∧ (broken.cache.invalidate "h.glsl").1 = 1 ∧
      ∃ error, (CompilationCache.obtain compiler "d/../s.glsl").outcomeFrom broken =
          .error error ∧
        ((CompilationCache.obtain compiler "d/../s.glsl").stateFrom broken).cache =
          filled.cache := by
  intro compiler sources filled broken
  have hbroken : Arises broken := .edit _ (.obtain compiler "/s.glsl" (.start ⟨sources, 0⟩))
  have hchanges := hbroken.changesItsOwn
  have hrun : broken.cache.size = 1 ∧ (broken.cache.invalidate "h.glsl").1 = 1 ∧
      ((CompilationCache.obtain compiler "d/../s.glsl").outcomeFrom broken).toOption.isNone =
        true := by
    decide +kernel
  obtain ⟨hsize, hdropped, hnone⟩ := hrun
  obtain ⟨error, herror⟩ := exists_of_toOption_isNone hnone
  exact ⟨hchanges, hsize, hdropped, error, herror, hchanges.failure _ _ _ herror⟩

end CompilationCache

end ShaderAssembly
