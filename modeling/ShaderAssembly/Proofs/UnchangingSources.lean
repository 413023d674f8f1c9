import ShaderAssembly.Proofs.Actions
import ShaderAssembly.Proofs.RootedPaths
import ShaderAssembly.Sources.Memory

/-!
# Sources that do not change

A provider may change its state with every read. Its files are unchanging from a state on if the
result of a read depends on the path alone, whichever files were read before. Files in memory are
unchanging unless writes are scheduled.
-/

namespace ShaderAssembly

variable {σ : Type}

/-- What stands at every path: a text, or why there is none. -/
abbrev Contents : Type := SourcePath → Except ReadFailure String

namespace Provider

/-- The states that reads lead to from a given one. -/
inductive Reaches (provider : Provider σ) (start : σ) : σ → Prop where
  /-- Nothing has been read. -/
  | start : Reaches provider start start
  /-- One more file has been read, whether that failed or not. -/
  | read {state : σ} (path : SourcePath) (h : Reaches provider start state) :
      Reaches provider start ((provider.read path).stateFrom state)

/-- Reading on from a state that reads lead to is reading on from the start. -/
theorem Reaches.trans {provider : Provider σ} {first second third : σ}
    (hfirst : provider.Reaches first second) (hsecond : provider.Reaches second third) :
    provider.Reaches first third := by
  induction hsecond with
  | start => exact hfirst
  | read path _ ih => exact .read path ih

/-- From a state on, every read gives what the contents say, whatever was read before. -/
def Serves (provider : Provider σ) (state : σ) (contents : Contents) : Prop :=
  ∀ later, provider.Reaches state later →
    ∀ path, (provider.read path).outcomeFrom later = contents path

namespace Serves

variable {provider : Provider σ} {state : σ} {contents : Contents}

/-- A read gives what the contents say. -/
theorem outcomeFrom_read (h : provider.Serves state contents) (path : SourcePath) :
    (provider.read path).outcomeFrom state = contents path := h state .start path

/-- The contents stay the same while files are read. -/
theorem later (h : provider.Serves state contents) {after : σ}
    (hafter : provider.Reaches state after) : provider.Serves after contents :=
  fun last hlast => h last (hafter.trans hlast)

/-- Reading a file on behalf of a compile fails exactly when the file cannot be read. -/
theorem outcomeFrom_readFile (h : provider.Serves state contents) (path : SourcePath) :
    (provider.readFile path).outcomeFrom state =
      (contents path).mapError (Error.unreadable path) := by
  rw [readFile, Action.outcomeFrom_mapError, h.outcomeFrom_read]

end Serves

/-- Whether the limit of a provider is at least a number, whatever is read. -/
def Counts (provider : Provider σ) (state : σ) (number : Nat) : Prop :=
  ∀ later, provider.Reaches state later → number ≤ provider.fileLimit later

/-- The limit stays while files are read. -/
theorem Counts.later {provider : Provider σ} {state : σ} {number : Nat}
    (h : provider.Counts state number) {after : σ} (hafter : provider.Reaches state after) :
    provider.Counts after number :=
  fun last hlast => h last (hafter.trans hlast)

end Provider

namespace MemorySources

/-- What stands at every path of files in memory. -/
def contents (sources : MemorySources) : Contents := fun asked =>
  let path := SourcePath.rooted asked.text
  if path ∈ sources.denied then .error ⟨.permissionDenied, "denied"⟩
  else
    match sources.files.get? path with
    | some file => .ok file.text
    | none => .error (.missing asked)

/-- Writing a file changes what stands there only. -/
theorem contents_write_of_ne (sources : MemorySources) {path file : SourcePath} (text : String)
    (hfile : file.IsRooted) (hne : file ≠ path) :
    (sources.write path text).contents file = sources.contents file := by
  have hfound : (sources.write path text).files.get? file = sources.files.get? file :=
    OrderedMap.get?_insert_of_ne hne
  simp only [contents, SourcePath.rooted_text hfile, hfound]
  rfl

/-- Without scheduled writes a read only counts itself. -/
theorem read_of_unscheduled {sources : MemorySources} (h : sources.scheduled = [])
    (asked : SourcePath) :
    (read asked).outcomeFrom sources = sources.contents asked ∧
      (read asked).stateFrom sources = { sources with reads := sources.reads + 1 } := by
  have hdone : ({ sources with reads := sources.reads + 1 }).afterRead
      (SourcePath.rooted asked.text) = { sources with reads := sources.reads + 1 } := by
    simp [afterRead, h]
  unfold read file contents
  by_cases hdenied : SourcePath.rooted asked.text ∈ sources.denied
  · simp [Action.outcomeFrom_bind, Action.stateFrom_bind, Except.bind, hdenied]
  · cases hfile : sources.files.get? (SourcePath.rooted asked.text) with
    | none => simp [Action.outcomeFrom_bind, Action.stateFrom_bind, Except.bind, hdenied, hfile]
    | some found =>
      simp [Action.outcomeFrom_bind, Action.stateFrom_bind, Except.bind, hdenied, hfile, hdone]

/-- Without scheduled writes all that changes is the number of reads. -/
theorem eq_of_reaches {sources later : MemorySources} (h : sources.scheduled = [])
    (hlater : provider.Reaches sources later) :
    ∃ count, later = { sources with reads := count } := by
  induction hlater with
  | start => exact ⟨sources.reads, rfl⟩
  | read path _ ih =>
    obtain ⟨count, rfl⟩ := ih
    exact ⟨count + 1, (read_of_unscheduled (by exact h) path).2⟩

/-- Without scheduled writes the limit stays the number of files. -/
theorem counts {sources : MemorySources} (h : sources.scheduled = []) {number : Nat}
    (hnumber : number ≤ sources.files.size) : provider.Counts sources number := by
  intro later hlater
  obtain ⟨count, rfl⟩ := eq_of_reaches h hlater
  exact Nat.le_trans hnumber (Nat.le_add_right _ _)

/-- Files in memory without scheduled writes do not change. -/
theorem serves {sources : MemorySources} (h : sources.scheduled = []) :
    provider.Serves sources sources.contents := by
  intro later hlater path
  obtain ⟨count, rfl⟩ := eq_of_reaches h hlater
  exact (read_of_unscheduled (by exact h) path).1

/-- Only files that were written can be read. -/
theorem mem_keys_of_contents {sources : MemorySources} {path : SourcePath} (hpath : path.IsRooted)
    {text : String} (h : sources.contents path = .ok text) : path ∈ sources.files.keys := by
  unfold contents at h
  rw [SourcePath.rooted_text hpath] at h
  by_cases hdenied : path ∈ sources.denied
  · simp [hdenied] at h
  · cases hfile : sources.files.get? path with
    | none => simp [hdenied, hfile] at h
    | some found => exact List.mem_map.mpr ⟨_, (OrderedMap.mem_of_get? hfile).1, rfl⟩

/-- The text of a small shader, whose one block has the given lines. -/
def sampleShader (lines : String) : String :=
  r"Shader { GLSL A {" ++ "\n" ++ lines ++
    r"} Technique T { Pass { Vertex = A Fragment = A } } }"

end MemorySources

end ShaderAssembly
