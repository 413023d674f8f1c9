import ShaderAssembly.Compiler
import ShaderAssembly.Proofs.IncludeRuns

/-!
# Runs that match

A compile sees of a provider only what its reads give. So two runs over different providers, or
over one provider in different states, give the same result as long as their reads do. Here this
is said of actions: two actions match if related states lead to the same result and to related
states. If the reads and the expansions of two providers match, so do their compiles.
-/

namespace ShaderAssembly

variable {σ τ ε ε' α β : Type} {related : σ → τ → Prop}

namespace Action

/-- Whether two actions give the same result from related states, and leave related states. -/
def Matches (related : σ → τ → Prop) (first : Action σ ε α) (second : Action τ ε α) : Prop :=
  ∀ left right, related left right →
    first.outcomeFrom left = second.outcomeFrom right ∧
      related (first.stateFrom left) (second.stateFrom right)

theorem matches_pure (value : α) :
    Matches related (pure value : Action σ ε α) (pure value : Action τ ε α) :=
  fun _ _ h => ⟨rfl, h⟩

theorem matches_throw (error : ε) :
    Matches related (throw error : Action σ ε α) (throw error : Action τ ε α) :=
  fun _ _ h => ⟨rfl, h⟩

theorem matches_record (level : Level) (message : String) :
    Matches related (record level message : Action σ ε Unit)
      (record level message : Action τ ε Unit) :=
  fun _ _ h => ⟨rfl, h⟩

theorem matches_liftM (traced : Traced ε α) :
    Matches related (liftM traced : Action σ ε α) (liftM traced : Action τ ε α) :=
  fun _ _ h => ⟨rfl, h⟩

/-- Actions in a row match if the first ones match, and then the second ones after every value. -/
theorem Matches.bind {first : Action σ ε α} {second : Action τ ε α} {next : α → Action σ ε β}
    {after : α → Action τ ε β} (h : Matches related first second)
    (hnext : ∀ value, Matches related (next value) (after value)) :
    Matches related (first >>= next) (second >>= after) := by
  intro left right hrelated
  obtain ⟨houtcome, hstate⟩ := h left right hrelated
  cases hresult : second.outcomeFrom right with
  | error error =>
    rw [hresult] at houtcome
    rw [outcomeFrom_bind_of_error houtcome, outcomeFrom_bind_of_error hresult,
      stateFrom_bind_of_error houtcome, stateFrom_bind_of_error hresult]
    exact ⟨rfl, hstate⟩
  | ok value =>
    rw [hresult] at houtcome
    rw [outcomeFrom_bind_of_ok houtcome, outcomeFrom_bind_of_ok hresult,
      stateFrom_bind_of_ok houtcome, stateFrom_bind_of_ok hresult]
    exact hnext value _ _ hstate

theorem Matches.mapError {first : Action σ ε α} {second : Action τ ε α}
    (h : Matches related first second) (f : ε → ε') :
    Matches related (first.mapError f) (second.mapError f) := by
  intro left right hrelated
  obtain ⟨houtcome, hstate⟩ := h left right hrelated
  exact ⟨congrArg (Except.mapError f) houtcome, hstate⟩

end Action

open ShaderAssembly.Action

namespace Include

variable {first : Provider σ} {second : Provider τ}

/-! ### Expansions -/

section Expansions

/-- Whether two states of an expansion have related providers and the same open files. -/
def Expanding.Related (related : σ → τ → Prop) (left : Expanding σ) (right : Expanding τ) : Prop :=
  related left.sources right.sources ∧ left.openFiles = right.openFiles

/-- What is done on the providers matches while files are open. -/
theorem Expanding.matches_onSources {left : Action σ Error α} {right : Action τ Error α}
    (h : Matches related left right) :
    Matches (Expanding.Related related) (onSources left) (onSources right) := by
  intro before after hrelated
  obtain ⟨houtcome, hstate⟩ := h _ _ hrelated.1
  exact ⟨houtcome, hstate, hrelated.2⟩

/-- What is done with one more file open matches. -/
theorem Expanding.matches_during {left : Action (Expanding σ) Error α}
    {right : Action (Expanding τ) Error α} (h : Matches (Expanding.Related related) left right)
    (file : SourcePath) :
    Matches (Expanding.Related related) (during file left) (during file right) := by
  rintro ⟨sources, openFiles⟩ ⟨others, _⟩ ⟨hsources, rfl⟩
  obtain ⟨houtcome, hstate, hopen⟩ :=
    h ⟨sources, openFiles ++ [file]⟩ ⟨others, openFiles ++ [file]⟩ ⟨hsources, rfl⟩
  exact ⟨houtcome, hstate, congrArg List.dropLast hopen⟩

/-- Whether a file is refused depends on the open files alone. -/
theorem Expanding.matches_refuseOpen (file : SourcePath) (position : Position) :
    Matches (Expanding.Related related) (refuseOpen file position) (refuseOpen file position) := by
  rintro ⟨sources, openFiles⟩ ⟨others, _⟩ ⟨hsources, rfl⟩
  by_cases hopen : file ∈ openFiles
  · obtain ⟨hleft, hfirst⟩ := refuseOpen_of_mem sources hopen position
    obtain ⟨hright, hsecond⟩ := refuseOpen_of_mem others hopen position
    rw [hleft, hright, hfirst, hsecond]
    exact ⟨rfl, hsources, rfl⟩
  · obtain ⟨hleft, hfirst⟩ := refuseOpen_of_not_mem sources hopen position
    obtain ⟨hright, hsecond⟩ := refuseOpen_of_not_mem others hopen position
    rw [hleft, hright, hfirst, hsecond]
    exact ⟨rfl, hsources, rfl⟩

/-- Expansions of lines match if those of include lines do. -/
theorem matches_expandLines
    {expand : SourcePath → String → Position → Expansion →
      Action (Expanding σ) Error Expansion}
    {other : SourcePath → String → Position → Expansion → Action (Expanding τ) Error Expansion}
    (h : ∀ file target position out,
      Matches (Expanding.Related related) (expand file target position out)
        (other file target position out)) (file : SourcePath) (number : Nat)
    (lines : List (List Char)) (out : Expansion) :
    Matches (Expanding.Related related) (expandLines expand file number lines out)
      (expandLines other file number lines out) := by
  induction lines generalizing number out with
  | nil => exact matches_pure _
  | cons line rest ih =>
    unfold expandLines
    cases Directive.ofLine line with
    | none => exact (matches_pure _).bind (ih (number + 1))
    | malformed => exact (matches_throw _).bind (ih (number + 1))
    | target target => exact (h _ _ _ _).bind (ih (number + 1))

/-- Expansions of include lines match if reads do. -/
theorem matches_expandTarget
    (hread : ∀ path, Matches related (first.read path) (second.read path)) (depth : Nat)
    (includer : SourcePath) (target : String) (position : Position) (out : Expansion) :
    Matches (Expanding.Related related) (expandTarget first depth includer target position out)
      (expandTarget second depth includer target position out) := by
  induction depth generalizing includer target position out with
  | zero => exact matches_throw _
  | succ depth ih =>
    unfold expandTarget
    refine (Expanding.matches_refuseOpen _ _).bind fun _ => ?_
    refine (Expanding.matches_onSources ((hread _).mapError _)).bind fun text => ?_
    refine (matches_record _ _).bind fun _ => ?_
    have hinner := matches_expandLines ih (includer.resolveInclude target) 1
      (Text.lines text.toList)
    exact (Expanding.matches_during (hinner _) _).bind fun _ => matches_pure _

/-- Expansions of texts match if reads do and the bounds are the same. -/
theorem matches_expandText
    (hread : ∀ path, Matches related (first.read path) (second.read path))
    (hlimit : ∀ left right, related left right → first.fileLimit left = second.fileLimit right)
    (openFiles : List SourcePath) (file : SourcePath) (text : String) (firstLine : Nat) :
    Matches related (withOpen openFiles (expandText first file text firstLine))
      (withOpen openFiles (expandText second file text firstLine)) := by
  intro left right hrelated
  have hleft := expandText_eq first file text firstLine ⟨left, openFiles⟩
  have hright := expandText_eq second file text firstLine ⟨right, openFiles⟩
  have hdepth : first.fileLimit left = second.fileLimit right := hlimit left right hrelated
  rw [outcomeFrom_withOpen, outcomeFrom_withOpen, stateFrom_withOpen, stateFrom_withOpen, hleft.1,
    hleft.2, hright.1, hright.2, hdepth]
  obtain ⟨houtcome, hstate, -⟩ := matches_expandLines
    (matches_expandTarget hread (second.fileLimit right + 1)) file firstLine
    (Text.lines text.toList) .empty ⟨left, openFiles⟩ ⟨right, openFiles⟩ ⟨hrelated, rfl⟩
  exact ⟨houtcome, hstate⟩

end Expansions

/-- Expansions of files match if reads and expansions of texts do. -/
theorem matches_expandFile
    (hread : ∀ path, Matches related (first.read path) (second.read path))
    (hexpand : ∀ openFiles file text firstLine,
      Matches related (withOpen openFiles (expandText first file text firstLine))
        (withOpen openFiles (expandText second file text firstLine))) (path : SourcePath) :
    Matches related (withOpen [] (expandFile first path))
      (withOpen [] (expandFile second path)) := by
  intro left right hrelated
  obtain ⟨houtcome, hstate⟩ := (hread path).mapError (Error.unreadable path) left right hrelated
  rw [outcomeFrom_withOpen, outcomeFrom_withOpen, stateFrom_withOpen, stateFrom_withOpen]
  unfold expandFile
  cases hresult : (second.readFile path).outcomeFrom right with
  | error error =>
    have hleft : (Expanding.onSources (first.readFile path)).outcomeFrom ⟨left, []⟩ =
        .error error := houtcome.trans hresult
    have hright : (Expanding.onSources (second.readFile path)).outcomeFrom ⟨right, []⟩ =
        .error error := hresult
    rw [outcomeFrom_bind_of_error hleft, outcomeFrom_bind_of_error hright,
      stateFrom_bind_of_error hleft, stateFrom_bind_of_error hright]
    exact ⟨rfl, hstate⟩
  | ok text =>
    have hleft : (Expanding.onSources (first.readFile path)).outcomeFrom ⟨left, []⟩ = .ok text :=
      houtcome.trans hresult
    have hright : (Expanding.onSources (second.readFile path)).outcomeFrom ⟨right, []⟩ =
        .ok text := hresult
    obtain ⟨hinner, hafter⟩ := hexpand [path] path text 1 _ _ hstate
    rw [outcomeFrom_bind_of_ok hleft, outcomeFrom_bind_of_ok hright, stateFrom_bind_of_ok hleft,
      stateFrom_bind_of_ok hright, outcomeFrom_bind_pure, outcomeFrom_bind_pure,
      stateFrom_bind_pure, stateFrom_bind_pure]
    exact ⟨congrArg (Except.map _) hinner, hafter⟩

end Include

namespace Compiler

open Include

/-! ### Compiles -/

section Compiles

variable {first : Provider σ} {second : Provider τ} {settings : Settings}
  (hread : ∀ path, Matches related (first.read path) (second.read path))
  (hexpand : ∀ openFiles file text firstLine,
    Matches related (withOpen openFiles (expandText first file text firstLine))
      (withOpen openFiles (expandText second file text firstLine)))

include hexpand in
/-- Named blocks expand to the same if texts do. -/
theorem matches_expandEntries (path : SourcePath) (graph : IncludeGraph)
    (entries : List (String × CodeBlock)) :
    Matches related (expandEntries ⟨first, settings⟩ path graph entries)
      (expandEntries ⟨second, settings⟩ path graph entries) := by
  induction entries generalizing graph with
  | nil => exact matches_pure _
  | cons entry rest ih =>
    obtain ⟨name, block⟩ := entry
    unfold expandEntries
    refine Matches.bind ((hexpand _ _ _ _).bind fun _ => matches_pure _) fun expanded => ?_
    exact (ih expanded.2).bind fun _ => matches_pure _

include hexpand in
/-- Blocks expand to the same if texts do. -/
theorem matches_expandBlocks (parsed : ParsedShader) :
    Matches related (expandBlocks ⟨first, settings⟩ parsed)
      (expandBlocks ⟨second, settings⟩ parsed) := by
  have hentries : ∀ expanded : Option CodeBlock × IncludeGraph, Matches related
      (do
        let made ← expandEntries ⟨first, settings⟩ parsed.shader.path expanded.2
          parsed.shader.blocks.entries
        return (⟨{ parsed.shader with shared? := expanded.1, blocks := ⟨made.1⟩ }, made.2⟩ :
          ParsedShader))
      (do
        let made ← expandEntries ⟨second, settings⟩ parsed.shader.path expanded.2
          parsed.shader.blocks.entries
        return ⟨{ parsed.shader with shared? := expanded.1, blocks := ⟨made.1⟩ }, made.2⟩) :=
    fun expanded => (matches_expandEntries hexpand _ _ _).bind fun _ => matches_pure _
  unfold expandBlocks
  cases parsed.shader.shared? with
  | none => exact (matches_pure _).bind hentries
  | some block =>
    refine Matches.bind (hexpand _ _ _ _ |>.bind fun _ => matches_pure _) fun expanded => ?_
    exact (matches_pure _).bind hentries

include hread hexpand in
/-- What is read of a shader is the same if reads and expansions of texts are. -/
theorem matches_parse (root : String) :
    Matches related (parse ⟨first, settings⟩ root) (parse ⟨second, settings⟩ root) := by
  have hrecord : ∀ parsed : ParsedShader, Matches related
      (do
        Action.record .debug s!"Parsed {parsed.shader.summary}"
        return parsed : Action σ Error ParsedShader)
      (do
        Action.record .debug s!"Parsed {parsed.shader.summary}"
        return parsed) :=
    fun parsed => (matches_record _ _).bind fun _ => matches_pure _
  have hdescription : ∀ path, Matches related (parseDescription ⟨first, settings⟩ path)
      (parseDescription ⟨second, settings⟩ path) := by
    intro path
    unfold parseDescription
    refine ((hread path).mapError (Error.unreadable path)).bind fun text => ?_
    exact (matches_liftM _).bind fun shader => matches_expandBlocks hexpand _
  have heffect : ∀ path, Matches related (parseEffect ⟨first, settings⟩ path)
      (parseEffect ⟨second, settings⟩ path) := by
    intro path
    unfold parseEffect
    refine (matches_expandFile hread hexpand path).bind fun expansion => ?_
    exact (matches_liftM _).bind fun _ => matches_pure _
  unfold parse
  dsimp only
  cases Dialect.ofPath (.rooted root) with
  | description => exact (hdescription _).bind hrecord
  | effect => exact (heffect _).bind hrecord

include hread hexpand in
/-- Compiles give the same if reads and expansions of texts do. -/
theorem matches_compile (root : String) :
    Matches related (compile ⟨first, settings⟩ root) (compile ⟨second, settings⟩ root) := by
  unfold compile
  refine (matches_parse hread hexpand root).bind fun parsed => ?_
  refine (matches_liftM _).bind fun stages => ?_
  exact (matches_record _ _).bind fun _ => matches_pure _

end Compiles

end Compiler

/-! ### Compiles change nothing but by reads -/

section Reads

/-- Whether two states are one that reads lead to. -/
def Provider.ReachesSame (provider : Provider σ) (start left right : σ) : Prop :=
  left = right ∧ provider.Reaches start left

variable (start : σ)

/-- From one state a read does the same twice. -/
theorem Provider.matches_read_self (provider : Provider σ) (path : SourcePath) :
    Matches (provider.ReachesSame start) (provider.read path) (provider.read path) := by
  rintro state _ ⟨rfl, hstate⟩
  exact ⟨rfl, rfl, .read path hstate⟩

/-- From one state an expansion does the same twice. -/
theorem Include.matches_expandText_self (provider : Provider σ) (openFiles : List SourcePath)
    (file : SourcePath) (text : String) (firstLine : Nat) :
    Matches (provider.ReachesSame start)
      (withOpen openFiles (expandText provider file text firstLine))
      (withOpen openFiles (expandText provider file text firstLine)) :=
  matches_expandText (provider.matches_read_self start)
    (fun _ _ hsame => congrArg provider.fileLimit hsame.1) openFiles file text firstLine

variable (compiler : Compiler σ) (root : String)

/-- Reads lead to the state after a parse. -/
theorem Compiler.reaches_parse :
    compiler.provider.Reaches start ((compiler.parse root).stateFrom start) :=
  (matches_parse (compiler.provider.matches_read_self start)
    (Include.matches_expandText_self start compiler.provider) root start start ⟨rfl, .start⟩).2.2

/-- Reads lead to the state after a compile. -/
theorem Compiler.reaches_compile :
    compiler.provider.Reaches start ((compiler.compile root).stateFrom start) :=
  (matches_compile (compiler.provider.matches_read_self start)
    (Include.matches_expandText_self start compiler.provider) root start start ⟨rfl, .start⟩).2.2

end Reads

end ShaderAssembly
