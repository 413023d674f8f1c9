import ShaderAssembly.Proofs.CompileRules
import ShaderAssembly.Proofs.IncludeCycles
import ShaderAssembly.Proofs.MatchingRuns

/-!
# What a compile comes to is decided by the files

The rules of include expansion leave no choice: they allow one result for a text, be it an
expansion or an error. Over files that do not change, finitely many of which are reached from any
one, a run follows the rules, so the provider, its state and its limit do not matter. Hence a
compile, too, gives the same over all sources that serve the same files, and where it fails, it
fails with the same error.
-/

namespace ShaderAssembly

open ShaderAssembly.Action (Matches)

namespace Include

variable {contents : Contents} {openFiles : List SourcePath} {file : SourcePath} {number : Nat}
  {line : List Char} {rest : List (List Char)} {result : Except Error Fragment}

/-! ### The rules allow one result -/

/-- What lines come to that start with an ordinary line. -/
theorem Allowed.of_none (h : Allowed contents openFiles file number (line :: rest) result)
    (hline : Directive.ofLine line = .none) :
    ∃ others, Allowed contents openFiles file (number + 1) rest others ∧
      result = others.map (.ofLine line file number ++ ·) := by
  cases result with
  | ok fragment =>
    cases h with
    | keep _ hrest => exact ⟨.ok _, hrest, rfl⟩
    | replace htarget => exact absurd (hline.symm.trans htarget) nofun
  | error error =>
    cases h with
    | malformed hbad => exact absurd (hline.symm.trans hbad) nofun
    | afterLine _ hrest => exact ⟨.error _, hrest, rfl⟩
    | cyclic htarget | unread htarget | included htarget | afterInclude htarget =>
      exact absurd (hline.symm.trans htarget) nofun

/-- What lines come to that start with an include line without a path. -/
theorem Allowed.of_malformed (h : Allowed contents openFiles file number (line :: rest) result)
    (hline : Directive.ofLine line = .malformed) :
    result = .error (.unexpected "a quoted include path" (String.ofList (Text.trim line))
      ⟨file, number, Directive.column line⟩) := by
  cases result with
  | ok fragment =>
    cases h with
    | keep hnone | replace hnone => exact absurd (hline.symm.trans hnone) nofun
  | error error =>
    cases h with
    | malformed => rfl
    | cyclic hother | unread hother | included hother | afterLine hother | afterInclude hother =>
      exact absurd (hline.symm.trans hother) nofun

/-- What lines come to that start with an include line: its error, or what the other lines come to
after its expansion. -/
theorem Allowed.of_target {target : String}
    (h : Allowed contents openFiles file number (line :: rest) result)
    (hline : Directive.ofLine line = .target target) :
    (∃ error, AllowedTarget contents openFiles file target
        ⟨file, number, Directive.column line⟩ (.error error) ∧ result = .error error) ∨
      ∃ first others, AllowedTarget contents openFiles file target
          ⟨file, number, Directive.column line⟩ (.ok first) ∧
        Allowed contents openFiles file (number + 1) rest others ∧
          result = others.map (first ++ ·) := by
  cases result with
  | ok fragment =>
    cases h with
    | keep hnone => exact absurd (hline.symm.trans hnone) nofun
    | @replace _ _ _ _ _ _ text inner others htarget hnew hread hinner hrest =>
      obtain rfl := Directive.target.inj (hline.symm.trans htarget)
      have hinner : Allowed _ _ _ _ _ (.ok inner) := hinner
      exact .inr ⟨_, .ok others, .read hnew hread hinner, hrest, rfl⟩
  | error error =>
    cases h with
    | malformed hother | afterLine hother => exact absurd (hline.symm.trans hother) nofun
    | cyclic htarget hopen =>
      obtain rfl := Directive.target.inj (hline.symm.trans htarget)
      exact .inl ⟨_, .cyclic hopen, rfl⟩
    | unread htarget hnew hread =>
      obtain rfl := Directive.target.inj (hline.symm.trans htarget)
      exact .inl ⟨_, .unread hnew hread, rfl⟩
    | included htarget hnew hread hinner =>
      obtain rfl := Directive.target.inj (hline.symm.trans htarget)
      have hinner : Allowed _ _ _ _ _ (.error error) := hinner
      exact .inl ⟨_, .read hnew hread hinner, rfl⟩
    | @afterInclude _ _ _ _ _ _ text inner _ htarget hnew hread hinner hrest =>
      obtain rfl := Directive.target.inj (hline.symm.trans htarget)
      have hinner : Allowed _ _ _ _ _ (.ok inner) := hinner
      have hrest : Allowed _ _ _ _ _ (.error error) := hrest
      exact .inr ⟨_, .error error, .read hnew hread hinner, hrest, rfl⟩

section Targets

variable {target : String} {position : Position} {outcome : Except Error Fragment}

/-- An open file comes to one error. -/
theorem AllowedTarget.of_open
    (h : AllowedTarget contents openFiles file target position outcome)
    (hopen : file.resolveInclude target ∈ openFiles) :
    outcome = .error (.cyclicInclude (openFiles.dropWhile (· ≠ file.resolveInclude target) ++
      [file.resolveInclude target]) position) := by
  cases h with
  | cyclic => rfl
  | unread hnew | read hnew => exact absurd hopen hnew

/-- A file that cannot be read comes to one error. -/
theorem AllowedTarget.of_unread
    (h : AllowedTarget contents openFiles file target position outcome)
    (hnew : file.resolveInclude target ∉ openFiles) {failure : ReadFailure}
    (hread : contents (file.resolveInclude target) = .error failure) :
    outcome = .error (includeFailure (file.resolveInclude target) position failure) := by
  cases h with
  | cyclic hopen => exact absurd hopen hnew
  | unread _ hagain =>
    obtain rfl := Except.error.inj (hread.symm.trans hagain)
    rfl
  | read _ hagain => exact absurd (hread.symm.trans hagain) nofun

/-- A file that is read comes to what its lines come to. -/
theorem AllowedTarget.of_read
    (h : AllowedTarget contents openFiles file target position outcome)
    (hnew : file.resolveInclude target ∉ openFiles) {text : String}
    (hread : contents (file.resolveInclude target) = .ok text)
    (hinner : ∀ inner, Allowed contents (openFiles ++ [file.resolveInclude target])
      (file.resolveInclude target) 1 (Text.lines text.toList) inner → inner = result) :
    outcome = result.map
      (.ofInclude ⟨file, file.resolveInclude target, position.line⟩ text) := by
  cases h with
  | cyclic hopen => exact absurd hopen hnew
  | unread _ hagain => exact absurd (hread.symm.trans hagain) nofun
  | read _ hagain hallowed =>
    obtain rfl := Except.ok.inj (hread.symm.trans hagain)
    rw [hinner _ hallowed]

end Targets

/-- Where the rules allow an expansion, they allow nothing else. -/
theorem Expands.eq_of_allowed {lines : List (List Char)} {fragment : Fragment}
    (h : Expands contents openFiles file number lines fragment)
    (hresult : Allowed contents openFiles file number lines result) : result = .ok fragment := by
  induction h generalizing result with
  | done =>
    cases result with
    | ok fragment =>
      cases hresult
      rfl
    | error error => cases hresult
  | keep hline _ ih =>
    obtain ⟨others, hothers, rfl⟩ := hresult.of_none hline
    rw [ih hothers]
    rfl
  | replace hline hnew hread _ _ ihinner ihrest =>
    rcases hresult.of_target hline with ⟨error, htarget, -⟩ | ⟨first, others, htarget, hothers, rfl⟩
    · cases htarget.of_read hnew hread fun _ => ihinner
    · cases htarget.of_read hnew hread fun _ => ihinner
      rw [ihrest hothers]
      rfl

/-- Where the rules allow an error, they allow nothing else. -/
theorem Fails.eq_of_allowed {lines : List (List Char)} {error : Error}
    (h : Fails contents openFiles file number lines error)
    (hresult : Allowed contents openFiles file number lines result) : result = .error error := by
  induction h generalizing result with
  | malformed hline => exact hresult.of_malformed hline
  | cyclic hline hopen =>
    rcases hresult.of_target hline with ⟨error, htarget, rfl⟩ | ⟨first, others, htarget, -, rfl⟩
    · exact htarget.of_open hopen
    · cases htarget.of_open hopen
  | unread hline hnew hread =>
    rcases hresult.of_target hline with ⟨error, htarget, rfl⟩ | ⟨first, others, htarget, -, rfl⟩
    · exact htarget.of_unread hnew hread
    · cases htarget.of_unread hnew hread
  | included hline hnew hread _ ih =>
    rcases hresult.of_target hline with ⟨error, htarget, rfl⟩ | ⟨first, others, htarget, -, rfl⟩
    · exact htarget.of_read hnew hread fun _ => ih
    · cases htarget.of_read hnew hread fun _ => ih
  | afterLine hline _ ih =>
    obtain ⟨others, hothers, rfl⟩ := hresult.of_none hline
    rw [ih hothers]
    rfl
  | afterInclude hline hnew hread hinner _ ih =>
    rcases hresult.of_target hline with ⟨error, htarget, -⟩ | ⟨first, others, htarget, hothers, rfl⟩
    · cases htarget.of_read hnew hread fun _ => hinner.eq_of_allowed
    · rw [ih hothers]
      rfl

/-- The rules allow one result. -/
theorem Allowed.unique {lines : List (List Char)} {other : Except Error Fragment}
    (h : Allowed contents openFiles file number lines result)
    (hother : Allowed contents openFiles file number lines other) : result = other := by
  cases other with
  | ok fragment => exact Expands.eq_of_allowed hother h
  | error error => exact Fails.eq_of_allowed hother h

end Include

/-! ### Sources that serve the same files -/

section Sources

variable {σ τ : Type} {first : Provider σ} {second : Provider τ} {contents : Contents}

/-- Whether two providers serve the same files, of which finitely many are reached from any one. -/
def Provider.ServeAlike (first : Provider σ) (second : Provider τ) (contents : Contents)
    (left : σ) (right : τ) : Prop :=
  first.ServesFinitely left contents ∧ second.ServesFinitely right contents

/-- Providers that serve the same files give the same for every read. -/
theorem Provider.matches_read (first : Provider σ) (second : Provider τ) (contents : Contents)
    (path : SourcePath) :
    Matches (first.ServeAlike second contents) (first.read path) (second.read path) := by
  rintro left right ⟨hfirst, hsecond⟩
  rw [hfirst.serves.outcomeFrom_read, hsecond.serves.outcomeFrom_read]
  exact ⟨rfl, hfirst.later (.read path .start), hsecond.later (.read path .start)⟩

/-- Texts expand to the same over providers that serve the same files. -/
theorem Include.matches_expandText_of_serveAlike (first : Provider σ) (second : Provider τ)
    (contents : Contents) (openFiles : List SourcePath) (file : SourcePath) (text : String)
    (firstLine : Nat) :
    Matches (first.ServeAlike second contents)
      (withOpen openFiles (expandText first file text firstLine))
      (withOpen openFiles (expandText second file text firstLine)) := by
  rintro left right ⟨hfirst, hsecond⟩
  obtain ⟨⟨middle, hmiddle, hleft⟩, -⟩ :=
    expandText_follows openFiles file text firstLine hfirst.serves
  obtain ⟨⟨last, hlast, hright⟩, -⟩ :=
    expandText_follows openFiles file text firstLine hsecond.serves
  rw [outcomeFrom_withOpen, outcomeFrom_withOpen, stateFrom_withOpen, stateFrom_withOpen, hleft,
    hright]
  refine ⟨?_, hfirst.later hmiddle, hsecond.later hlast⟩
  obtain ⟨result, hresult, houtcome⟩ :=
    exists_allowed_of_expandText hfirst openFiles file text firstLine
  obtain ⟨other, hother, hagain⟩ :=
    exists_allowed_of_expandText hsecond openFiles file text firstLine
  rw [houtcome, hagain, hresult.unique hother]

/-- A compile of the canonical form of a root is a compile of the root. -/
theorem Compiler.compile_rooted (compiler : Compiler σ) (root : String) :
    compiler.compile (SourcePath.rooted root).text = compiler.compile root := by
  unfold compile parse
  rw [SourcePath.rooted_text (SourcePath.isRooted_rooted root)]

/-- A compile gives the same, be it a compilation or an error, over all sources that serve the same
files, and leaves sources that still do. -/
theorem Compiler.matches_compile_of_serveAlike (settings : Settings) (root : String) {left : σ}
    {right : τ} (hfirst : first.ServesFinitely left contents)
    (hsecond : second.ServesFinitely right contents) :
    (compile ⟨first, settings⟩ root).outcomeFrom left =
        (compile ⟨second, settings⟩ root).outcomeFrom right ∧
      first.ServesFinitely ((compile ⟨first, settings⟩ root).stateFrom left) contents := by
  obtain ⟨houtcome, hstate⟩ := matches_compile (first.matches_read second contents)
    (Include.matches_expandText_of_serveAlike first second contents) root left right
    ⟨hfirst, hsecond⟩
  exact ⟨houtcome, hstate.1⟩

/-! ### What the rules say is what a compile comes to -/

/-- A provider with a limit that is at least a number. -/
def Provider.raised (provider : Provider σ) (number : Nat) : Provider σ :=
  { provider with fileLimit := fun state => max (provider.fileLimit state) number }

/-- Reads do not look at the limit. -/
theorem Provider.reaches_of_raised {number : Nat} {start state : σ}
    (h : (first.raised number).Reaches start state) : first.Reaches start state := by
  induction h with
  | start => exact .start
  | read path _ ih => exact .read path ih

/-- With a higher limit the same files are served. -/
theorem Provider.ServesFinitely.raised {state : σ} (h : first.ServesFinitely state contents)
    (number : Nat) : (first.raised number).ServesFinitely state contents where
  serves later hlater := h.serves later (reaches_of_raised hlater)
  counted start hstart := by
    obtain ⟨files, hfiles, hlimit⟩ := h.counted start hstart
    refine ⟨files, hfiles, fun later hlater => ?_⟩
    exact Nat.le_trans (hlimit later (reaches_of_raised hlater)) (Nat.le_max_left _ _)

/-- A compile over files that do not change, finitely many of which are reached from any one, comes
to what the rules say. -/
theorem Compiler.Compiles.outcomeFrom_of_servesFinitely {compiler : Compiler σ} {state : σ}
    {root : String} {compilation : Compilation}
    (h : Compiles contents compiler.settings (.rooted root) compilation)
    (hserves : compiler.provider.ServesFinitely state contents) :
    (compiler.compile root).outcomeFrom state = .ok compilation := by
  -- The limit may be too low to count all recorded files, but it does not matter how high it is.
  obtain ⟨provider, settings⟩ := compiler
  have hraised := hserves.raised compilation.dependencies.paths.length
  have hcounts : (provider.raised compilation.dependencies.paths.length).Counts state
      compilation.dependencies.paths.length := fun _ _ => Nat.le_max_right _ _
  have hok : (compile ⟨provider.raised _, settings⟩ root).outcomeFrom state = .ok compilation :=
    Compiles.outcomeFrom h hraised.serves hcounts (List.Subset.refl _)
  exact (matches_compile_of_serveAlike settings root hserves hraised).1.trans hok

end Sources

end ShaderAssembly
