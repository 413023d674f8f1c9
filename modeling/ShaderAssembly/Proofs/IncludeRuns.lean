import ShaderAssembly.Proofs.IncludeRules

/-!
# Runs of include expansion

A run over files that do not change follows the rules unless it stops at its bound, restores the
chain on every exit, and reaches every success of the rules whose included files the bound counts.

All files are put out into one text, and only the end of that text tells whether an included file
has ended its last line. A run keeps it so that every line, of whichever file, starts behind whole
lines. For that reason what a run puts out is what was there before, and behind it the fragment that
the rules give.
-/

namespace ShaderAssembly.Include

variable {σ : Type}

/-- Whether some lines can be put out behind what there is: they are the lines of a text, and the
first one of them starts behind whole lines. -/
structure Expansion.Takes (out : Expansion) (lines : List (List Char)) : Prop where
  /-- The lines are those of a text. -/
  ofText : ∃ text, Text.lines text = lines
  /-- Nothing goes on in the first line. -/
  endsLine : lines ≠ [] → Text.EndsLine out.text

namespace Expansion.Takes

variable {out : Expansion} {line : List Char} {rest : List (List Char)}

/-- Behind whole lines all lines of a text can be put out. -/
theorem lines (hout : Text.EndsLine out.text) (text : List Char) : out.Takes (Text.lines text) :=
  ⟨⟨text, rfl⟩, fun _ => hout⟩

/-- Behind whole lines all lines of a text that is included can be put out. -/
theorem included (hout : Text.EndsLine out.text) (edge : Edge) (text : String) :
    (out.pushInclude edge text).Takes (Text.lines text.toList) :=
  ⟨⟨text.toList, rfl⟩, fun _ => hout⟩

/-- When an ordinary line has been put out, the next ones can be. -/
theorem pushLine (h : out.Takes (line :: rest)) (file : SourcePath) (number : Nat) :
    (out.pushLine line file number).Takes rest := by
  obtain ⟨text, htext⟩ := h.ofText
  obtain ⟨other, -, -, hother, hends⟩ := Text.lines_eq_cons htext
  refine ⟨⟨other, hother⟩, fun hrest => ?_⟩
  have hline : Text.EndsLine line := by
    refine hends.resolve_left fun hnil => hrest ?_
    rw [← hother, hnil, Text.lines_nil]
  exact (h.endsLine (List.cons_ne_nil _ _)).append hline

/-- When whole lines stand in the place of the first line, the next ones can be put out. -/
theorem next (h : out.Takes (line :: rest)) {after : Expansion}
    (hafter : Text.EndsLine after.text) : after.Takes rest := by
  obtain ⟨text, htext⟩ := h.ofText
  obtain ⟨other, -, -, hother, -⟩ := Text.lines_eq_cons htext
  exact ⟨⟨other, hother⟩, fun _ => hafter⟩

end Expansion.Takes

/-! ### Steps of a run -/

namespace Expanding

variable {α : Type} {sources : σ} {openFiles : List SourcePath}

@[simp]
theorem outcomeFrom_onSources (action : Action σ Error α) (expanding : Expanding σ) :
    (onSources action).outcomeFrom expanding = action.outcomeFrom expanding.sources := rfl

@[simp]
theorem stateFrom_onSources (action : Action σ Error α) (expanding : Expanding σ) :
    (onSources action).stateFrom expanding =
      { expanding with sources := action.stateFrom expanding.sources } := rfl

@[simp]
theorem outcomeFrom_during (file : SourcePath) (action : Action (Expanding σ) Error α) :
    (during file action).outcomeFrom ⟨sources, openFiles⟩ =
      action.outcomeFrom ⟨sources, openFiles ++ [file]⟩ := rfl

/-- A file is closed again when what was done with it open keeps the chain. -/
theorem stateFrom_during {file : SourcePath} {action : Action (Expanding σ) Error α} {after : σ}
    (h : action.stateFrom ⟨sources, openFiles ++ [file]⟩ = ⟨after, openFiles ++ [file]⟩) :
    (during file action).stateFrom ⟨sources, openFiles⟩ = ⟨after, openFiles⟩ := by
  show (⟨(action.stateFrom ⟨sources, openFiles ++ [file]⟩).sources,
    (action.stateFrom ⟨sources, openFiles ++ [file]⟩).openFiles.dropLast⟩ : Expanding σ) = _
  rw [h, List.dropLast_concat]

/-- No file from a given one on is open when that one is not. -/
theorem dropWhile_ne_of_not_mem {file : SourcePath} (h : file ∉ openFiles) :
    openFiles.dropWhile (· ≠ file) = [] := by
  induction openFiles with
  | nil => rfl
  | cons first rest ih =>
    have hfirst : first ≠ file := fun heq => h (by simp [heq])
    have hrest := ih fun hmem => h (List.mem_cons_of_mem _ hmem)
    rw [List.dropWhile_cons, if_pos (by simpa using hfirst), hrest]

/-- The open files from an open one on start with that one. -/
theorem dropWhile_ne_of_mem {file : SourcePath} (h : file ∈ openFiles) :
    ∃ before after, openFiles = before ++ file :: after ∧
      openFiles.dropWhile (· ≠ file) = file :: after := by
  induction openFiles with
  | nil => simp at h
  | cons first rest ih =>
    by_cases hfirst : first = file
    · exact ⟨[], rest, by simp [hfirst], by simp [hfirst]⟩
    · have hmem : file ∈ rest := by
        rcases List.mem_cons.mp h with heq | hmem
        · exact absurd heq.symm hfirst
        · exact hmem
      obtain ⟨before, after, hsplit, hdrop⟩ := ih hmem
      refine ⟨first :: before, after, by rw [hsplit, List.cons_append], ?_⟩
      rw [List.dropWhile_cons, if_pos (by simpa using hfirst), hdrop]

/-- A file that is not open is not refused. -/
theorem refuseOpen_of_not_mem (sources : σ) {file : SourcePath} (h : file ∉ openFiles)
    (position : Position) :
    (refuseOpen file position).outcomeFrom ⟨sources, openFiles⟩ = .ok () ∧
      (refuseOpen file position).stateFrom ⟨sources, openFiles⟩ = ⟨sources, openFiles⟩ := by
  unfold refuseOpen
  rw [Action.outcomeFrom_bind_of_ok (Action.outcomeFrom_get _),
    Action.stateFrom_bind_of_ok (Action.outcomeFrom_get _), Action.stateFrom_get]
  dsimp only
  rw [if_neg (not_not_intro (dropWhile_ne_of_not_mem h))]
  exact ⟨rfl, rfl⟩

/-- An open file is refused with the chain from it on. -/
theorem refuseOpen_of_mem (sources : σ) {file : SourcePath} (h : file ∈ openFiles)
    (position : Position) :
    (refuseOpen file position).outcomeFrom ⟨sources, openFiles⟩ =
        .error (.cyclicInclude (openFiles.dropWhile (· ≠ file) ++ [file]) position) ∧
      (refuseOpen file position).stateFrom ⟨sources, openFiles⟩ = ⟨sources, openFiles⟩ := by
  obtain ⟨before, after, -, hdrop⟩ := dropWhile_ne_of_mem h
  unfold refuseOpen
  rw [Action.outcomeFrom_bind_of_ok (Action.outcomeFrom_get _),
    Action.stateFrom_bind_of_ok (Action.outcomeFrom_get _), Action.stateFrom_get]
  dsimp only
  rw [hdrop, if_pos (List.cons_ne_nil _ _)]
  exact ⟨rfl, rfl⟩

end Expanding

section Steps

variable {provider : Provider σ} {contents : Contents} {sources : σ} {openFiles : List SourcePath}
  {includer : SourcePath} {target : String}

/-- An include line that names an open file is refused. -/
theorem expandTarget_of_open (provider : Provider σ) (sources : σ)
    (hopen : includer.resolveInclude target ∈ openFiles) (depth : Nat) (position : Position)
    (out : Expansion) :
    (expandTarget provider (depth + 1) includer target position out).outcomeFrom
        ⟨sources, openFiles⟩ = .error (.cyclicInclude
          (openFiles.dropWhile (· ≠ includer.resolveInclude target) ++
            [includer.resolveInclude target]) position) ∧
      (expandTarget provider (depth + 1) includer target position out).stateFrom
        ⟨sources, openFiles⟩ = ⟨sources, openFiles⟩ := by
  have hrefuse := Expanding.refuseOpen_of_mem sources hopen position
  constructor
  · exact Action.outcomeFrom_bind_of_error hrefuse.1 _
  · exact (Action.stateFrom_bind_of_error hrefuse.1 _).trans hrefuse.2

/-- An include line whose file cannot be read fails after the attempt. -/
theorem expandTarget_of_unread (hserves : provider.Serves sources contents)
    (hnew : includer.resolveInclude target ∉ openFiles) {failure : ReadFailure}
    (hread : contents (includer.resolveInclude target) = .error failure) (depth : Nat)
    (position : Position) (out : Expansion) :
    (expandTarget provider (depth + 1) includer target position out).outcomeFrom
        ⟨sources, openFiles⟩ =
          .error (includeFailure (includer.resolveInclude target) position failure) ∧
      (expandTarget provider (depth + 1) includer target position out).stateFrom
        ⟨sources, openFiles⟩ =
          ⟨(provider.read (includer.resolveInclude target)).stateFrom sources, openFiles⟩ := by
  have hrefuse := Expanding.refuseOpen_of_not_mem sources hnew position
  have hfail : (Expanding.onSources (readIncluded provider (includer.resolveInclude target)
      position)).outcomeFrom ⟨sources, openFiles⟩ =
        .error (includeFailure (includer.resolveInclude target) position failure) := by
    rw [Expanding.outcomeFrom_onSources, readIncluded, Action.outcomeFrom_mapError,
      hserves.outcomeFrom_read, hread]
    rfl
  unfold expandTarget
  dsimp only
  rw [Action.outcomeFrom_bind_of_ok hrefuse.1, Action.stateFrom_bind_of_ok hrefuse.1, hrefuse.2]
  exact ⟨Action.outcomeFrom_bind_of_error hfail _, Action.stateFrom_bind_of_error hfail _⟩

/-- The lines of a file that an include line names are expanded behind what was put out, one file
less deep, and then the last line of everything is ended. -/
theorem expandTarget_of_read (hserves : provider.Serves sources contents)
    (hnew : includer.resolveInclude target ∉ openFiles) {text : String}
    (hread : contents (includer.resolveInclude target) = .ok text) (depth : Nat)
    (position : Position) (out : Expansion) {result : Except Error Expansion} {last : σ}
    (hresult : (expandLines (expandTarget provider depth) (includer.resolveInclude target) 1
        (Text.lines text.toList) (out.pushInclude
          ⟨includer, includer.resolveInclude target, position.line⟩ text)).outcomeFrom
          ⟨(provider.read (includer.resolveInclude target)).stateFrom sources,
            openFiles ++ [includer.resolveInclude target]⟩ = result)
    (hlast : (expandLines (expandTarget provider depth) (includer.resolveInclude target) 1
        (Text.lines text.toList) (out.pushInclude
          ⟨includer, includer.resolveInclude target, position.line⟩ text)).stateFrom
          ⟨(provider.read (includer.resolveInclude target)).stateFrom sources,
            openFiles ++ [includer.resolveInclude target]⟩ =
          ⟨last, openFiles ++ [includer.resolveInclude target]⟩) :
    (expandTarget provider (depth + 1) includer target position out).outcomeFrom
        ⟨sources, openFiles⟩ = result.map Expansion.terminateLine ∧
      (expandTarget provider (depth + 1) includer target position out).stateFrom
        ⟨sources, openFiles⟩ = ⟨last, openFiles⟩ := by
  have hrefuse := Expanding.refuseOpen_of_not_mem sources hnew position
  have hok : (Expanding.onSources (readIncluded provider (includer.resolveInclude target)
      position)).outcomeFrom ⟨sources, openFiles⟩ = .ok text := by
    rw [Expanding.outcomeFrom_onSources, readIncluded, Action.outcomeFrom_mapError,
      hserves.outcomeFrom_read, hread]
    rfl
  have hduring := Expanding.stateFrom_during hlast
  rw [← Expanding.outcomeFrom_during] at hresult
  unfold expandTarget
  dsimp only
  rw [Action.outcomeFrom_bind_of_ok hrefuse.1, Action.stateFrom_bind_of_ok hrefuse.1, hrefuse.2,
    Action.outcomeFrom_bind_of_ok hok, Action.stateFrom_bind_of_ok hok,
    Expanding.stateFrom_onSources, Action.outcomeFrom_bind_of_ok (Action.outcomeFrom_record _ _ _),
    Action.stateFrom_bind_of_ok (Action.outcomeFrom_record _ _ _), Action.stateFrom_record,
    Action.outcomeFrom_bind_pure, Action.stateFrom_bind_pure]
  exact ⟨congrArg _ hresult, hduring⟩

end Steps

section Lines

variable
  (expand : SourcePath → String → Position → Expansion → Action (Expanding σ) Error Expansion)
  (file : SourcePath) (number : Nat) {line : List Char} (rest : List (List Char))
  (out : Expansion) (state : Expanding σ)

/-- An ordinary line is put out, and nothing else happens. -/
theorem expandLines_of_none (hline : Directive.ofLine line = .none) :
    (expandLines expand file number (line :: rest) out).outcomeFrom state =
        (expandLines expand file (number + 1) rest (out.pushLine line file number)).outcomeFrom
          state ∧
      (expandLines expand file number (line :: rest) out).stateFrom state =
        (expandLines expand file (number + 1) rest (out.pushLine line file number)).stateFrom
          state := by
  rw [expandLines, hline]
  exact ⟨Action.outcomeFrom_bind_of_ok (Action.outcomeFrom_pure _ _) _,
    Action.stateFrom_bind_of_ok (Action.outcomeFrom_pure _ _) _⟩

/-- An include line without a path ends the expansion where it stands. -/
theorem expandLines_of_malformed (hline : Directive.ofLine line = .malformed) :
    (expandLines expand file number (line :: rest) out).outcomeFrom state =
        .error (.unexpected "a quoted include path" (String.ofList (Text.trim line))
          ⟨file, number, Directive.column line⟩) ∧
      (expandLines expand file number (line :: rest) out).stateFrom state = state := by
  rw [expandLines, hline]
  exact ⟨Action.outcomeFrom_bind_of_error rfl _, Action.stateFrom_bind_of_error rfl _⟩

variable {expand file number out}

/-- An error of an include line ends the expansion. -/
theorem expandLines_of_error {target : String} (hline : Directive.ofLine line = .target target)
    {error : Error}
    (herror : (expand file target ⟨file, number, Directive.column line⟩ out).outcomeFrom state =
      .error error) :
    (expandLines expand file number (line :: rest) out).outcomeFrom state = .error error ∧
      (expandLines expand file number (line :: rest) out).stateFrom state =
        (expand file target ⟨file, number, Directive.column line⟩ out).stateFrom state := by
  rw [expandLines, hline]
  exact ⟨Action.outcomeFrom_bind_of_error herror _, Action.stateFrom_bind_of_error herror _⟩

/-- After an include line has expanded, the other lines are expanded behind that. -/
theorem expandLines_of_target {target : String} (hline : Directive.ofLine line = .target target)
    {next : Expansion} {after : Expanding σ}
    (hnext : (expand file target ⟨file, number, Directive.column line⟩ out).outcomeFrom state =
      .ok next)
    (hafter : (expand file target ⟨file, number, Directive.column line⟩ out).stateFrom state =
      after) :
    (expandLines expand file number (line :: rest) out).outcomeFrom state =
        (expandLines expand file (number + 1) rest next).outcomeFrom after ∧
      (expandLines expand file number (line :: rest) out).stateFrom state =
        (expandLines expand file (number + 1) rest next).stateFrom after := by
  rw [expandLines, hline, ← hafter]
  exact ⟨Action.outcomeFrom_bind_of_ok hnext _, Action.stateFrom_bind_of_ok hnext _⟩

end Lines

/-! ### Runs follow the rules -/

/-- Whether an action, run from a chain of open files, restores the chain, and puts out a result by
some rules behind what was there unless it stops at the bound on the depth. -/
def Follows (provider : Provider σ) (sources : σ) (openFiles : List SourcePath) (out : Expansion)
    (action : Action (Expanding σ) Error Expansion) (rules : Except Error Fragment → Prop) :
    Prop :=
  (∃ last, provider.Reaches sources last ∧
    action.stateFrom ⟨sources, openFiles⟩ = ⟨last, openFiles⟩) ∧
  ((∃ position, action.outcomeFrom ⟨sources, openFiles⟩ = .error (.nestedTooDeeply position)) ∨
    ∃ result, rules result ∧ action.outcomeFrom ⟨sources, openFiles⟩ = result.map out.extend)

variable {provider : Provider σ} {contents : Contents}

/-- Behind whole lines, what an include line expands to is whole lines, too. -/
theorem AllowedTarget.endsLine_extend {openFiles : List SourcePath} {includer : SourcePath}
    {target : String} {position : Position} {first : Fragment}
    (h : AllowedTarget contents openFiles includer target position (.ok first)) {out : Expansion}
    (hout : Text.EndsLine out.text) : Text.EndsLine (out.extend first).text := by
  generalize houtcome : (Except.ok first : Except Error Fragment) = outcome at h
  cases h with
  | cyclic hopen => cases houtcome
  | unread hnew hread => cases houtcome
  | @read text result hnew hread hinner =>
    cases result with
    | error error => cases houtcome
    | ok inner =>
      cases houtcome
      exact (Expands.unfolds hinner).endsLine_extend hout _ text

/-- Lines expand by the rules if every include line does. -/
theorem expandLines_follows
    {expand : SourcePath → String → Position → Expansion →
      Action (Expanding σ) Error Expansion}
    {openFiles : List SourcePath} {file : SourcePath}
    (hexpand : ∀ target position sources out, provider.Serves sources contents →
      Text.EndsLine out.text →
        Follows provider sources openFiles out (expand file target position out)
          (AllowedTarget contents openFiles file target position))
    (lines : List (List Char)) (number : Nat) (sources : σ)
    (hserves : provider.Serves sources contents) {out : Expansion} (hout : out.Takes lines) :
    Follows provider sources openFiles out (expandLines expand file number lines out)
      (Allowed contents openFiles file number lines) := by
  induction lines generalizing number sources out with
  | nil =>
    refine ⟨⟨sources, .start, rfl⟩, .inr ⟨.ok .empty, .done, ?_⟩⟩
    rw [Except.map, out.extend_empty]
    rfl
  | cons line rest ih =>
    cases hline : Directive.ofLine line with
    | none =>
      have hstep := expandLines_of_none expand file number rest out ⟨sources, openFiles⟩ hline
      obtain ⟨hstate, hresult⟩ := ih (number + 1) sources hserves (hout.pushLine file number)
      rw [Follows, hstep.1, hstep.2]
      refine ⟨hstate, hresult.imp id ?_⟩
      rintro ⟨result, hrules, houtcome⟩
      refine ⟨_, hrules.keep hline, ?_⟩
      rw [houtcome, Expansion.pushLine_eq_extend, Expansion.map_extend_append]
    | malformed =>
      have hstep := expandLines_of_malformed expand file number rest out ⟨sources, openFiles⟩ hline
      rw [Follows, hstep.1, hstep.2]
      exact ⟨⟨sources, .start, rfl⟩, .inr ⟨.error _, Fails.malformed hline, rfl⟩⟩
    | target target =>
      have hends := hout.endsLine (List.cons_ne_nil _ _)
      obtain ⟨⟨middle, hmiddle, hafter⟩, hfirst⟩ :=
        hexpand target ⟨file, number, Directive.column line⟩ sources out hserves hends
      rcases hfirst with ⟨position, hdeep⟩ | ⟨result, hrules, houtcome⟩
      · have hstep := expandLines_of_error rest ⟨sources, openFiles⟩ hline hdeep
        rw [Follows, hstep.1, hstep.2]
        exact ⟨⟨middle, hmiddle, hafter⟩, .inl ⟨position, rfl⟩⟩
      · cases result with
        | error error =>
          have hstep := expandLines_of_error rest ⟨sources, openFiles⟩ hline houtcome
          rw [Follows, hstep.1, hstep.2]
          exact ⟨⟨middle, hmiddle, hafter⟩, .inr ⟨.error error, hrules.fails hline, rfl⟩⟩
        | ok first =>
          have hstep := expandLines_of_target rest ⟨sources, openFiles⟩ hline houtcome hafter
          obtain ⟨⟨last, hlast, hstate⟩, hresult⟩ := ih (number + 1) middle
            (hserves.later hmiddle) (hout.next (hrules.endsLine_extend hends))
          rw [Follows, hstep.1, hstep.2]
          refine ⟨⟨last, hmiddle.trans hlast, hstate⟩, hresult.imp id ?_⟩
          rintro ⟨others, hothers, hrest⟩
          exact ⟨_, hrules.append hline hothers, by rw [hrest, Expansion.map_extend_append]⟩

/-- What the text of an included file expands to is put out as the expansion of the include line:
behind whole lines, ending the last line of everything ends that of the included text. -/
theorem Allowed.map_terminateLine {openFiles : List SourcePath} {file : SourcePath} {number : Nat}
    {text : List Char} {result : Except Error Fragment}
    (h : Allowed contents openFiles file number (Text.lines text) result) {out : Expansion}
    (hout : Text.EndsLine out.text) (edge : Edge) (included : String) :
    (result.map (out.pushInclude edge included).extend).map Expansion.terminateLine =
      (result.map (.ofInclude edge included)).map out.extend := by
  cases result with
  | error error => rfl
  | ok inner =>
    have hlines := ((Expands.unfolds h).hasLines rfl).1
    exact congrArg Except.ok (Expansion.terminateLine_extend hout edge included hlines)

/-- Include lines expand by the rules, however deep the expansion may go. -/
theorem expandTarget_follows (depth : Nat) (openFiles : List SourcePath) (includer : SourcePath)
    (target : String) (position : Position) (sources : σ) (out : Expansion)
    (hserves : provider.Serves sources contents) (hout : Text.EndsLine out.text) :
    Follows provider sources openFiles out
      (expandTarget provider depth includer target position out)
      (AllowedTarget contents openFiles includer target position) := by
  induction depth generalizing openFiles includer target position sources out with
  | zero => exact ⟨⟨sources, .start, rfl⟩, .inl ⟨position, rfl⟩⟩
  | succ depth ih =>
    by_cases hopen : includer.resolveInclude target ∈ openFiles
    · have hstep := expandTarget_of_open provider sources hopen depth position out
      rw [Follows, hstep.1, hstep.2]
      exact ⟨⟨sources, .start, rfl⟩, .inr ⟨.error _, .cyclic hopen, rfl⟩⟩
    · have hread : provider.Reaches sources
          ((provider.read (includer.resolveInclude target)).stateFrom sources) := .read _ .start
      cases hcontents : contents (includer.resolveInclude target) with
      | error failure =>
        have hstep := expandTarget_of_unread hserves hopen hcontents depth position out
        rw [Follows, hstep.1, hstep.2]
        exact ⟨⟨_, hread, rfl⟩, .inr ⟨.error _, .unread hopen hcontents, rfl⟩⟩
      | ok text =>
        obtain ⟨⟨last, hlast, hstate⟩, hresult⟩ := expandLines_follows
          (fun target position sources out hserves hout =>
            ih (openFiles ++ [includer.resolveInclude _]) (includer.resolveInclude _) target
              position sources out hserves hout)
          (Text.lines text.toList) 1 _ (hserves.later hread)
          (.included hout ⟨includer, includer.resolveInclude target, position.line⟩ text)
        have hstep := expandTarget_of_read hserves hopen hcontents depth position out rfl hstate
        rw [Follows, hstep.1, hstep.2]
        refine ⟨⟨last, hread.trans hlast, rfl⟩, ?_⟩
        rcases hresult with ⟨place, hdeep⟩ | ⟨result, hrules, houtcome⟩
        · exact .inl ⟨place, by rw [hdeep]; rfl⟩
        · refine .inr ⟨_, .read hopen hcontents hrules, ?_⟩
          rw [houtcome, hrules.map_terminateLine hout]

/-! ### Successes of the rules are reached -/

/-- An expansion by the rules is reached by every run whose bound on the depth counts the files it
reads. -/
theorem Expands.outcomeFrom_expandLines {openFiles : List SourcePath} {file : SourcePath}
    {number : Nat} {lines : List (List Char)} {fragment : Fragment}
    (h : Expands contents openFiles file number lines fragment) {depth : Nat}
    (hdepth : ∀ files : List SourcePath, files.Nodup →
      files ⊆ fragment.contents.map FileText.path → files.length ≤ depth)
    {sources : σ} (hserves : provider.Serves sources contents) {out : Expansion}
    (hout : out.Takes lines) :
    (expandLines (expandTarget provider depth) file number lines out).outcomeFrom
      ⟨sources, openFiles⟩ = .ok (out.extend fragment) := by
  induction h generalizing depth sources out with
  | done =>
    rw [out.extend_empty]
    rfl
  | @keep openFiles file number line rest others hline hrest ih =>
    have hstep := expandLines_of_none (expandTarget provider depth) file number rest out
      ⟨sources, openFiles⟩ hline
    rw [hstep.1, ih hdepth hserves (hout.pushLine file number), out.extend_append,
      out.pushLine_eq_extend]
  | @replace openFiles file number line rest target text inner others hline hnew hread hinner
      hrest ihinner ihrest =>
    have hpositive : 1 ≤ depth := hdepth [file.resolveInclude target] (by simp)
      (by simp [Fragment.contents_ofInclude_append])
    obtain ⟨depth, rfl⟩ : ∃ smaller, depth = smaller + 1 := ⟨depth - 1, by omega⟩
    have hstart : provider.Reaches sources
        ((provider.read (file.resolveInclude target)).stateFrom sources) := .read _ .start
    have hends := hout.endsLine (List.cons_ne_nil _ _)
    have htakes := Expansion.Takes.included hends ⟨file, file.resolveInclude target, number⟩ text
    have houtcome := ihinner (fun _ => hinner.length_le_of_include hdepth) (hserves.later hstart)
      htakes
    obtain ⟨⟨middle, hmiddle, hstate⟩, -⟩ := expandLines_follows
      (expandTarget_follows depth (openFiles ++ [file.resolveInclude target])
        (file.resolveInclude target))
      (Text.lines text.toList) 1 _ (hserves.later hstart) htakes
    have htarget := expandTarget_of_read hserves hnew hread depth
      ⟨file, number, Directive.column line⟩ out houtcome hstate
    have hallowed : Allowed contents (openFiles ++ [file.resolveInclude target])
        (file.resolveInclude target) 1 (Text.lines text.toList) (.ok inner) := hinner
    have hfirst := htarget.1.trans (hallowed.map_terminateLine hends _ text)
    have hstep := expandLines_of_target rest ⟨sources, openFiles⟩ hline hfirst htarget.2
    have hfew : ∀ files : List SourcePath, files.Nodup →
        files ⊆ others.contents.map FileText.path → files.length ≤ depth + 1 :=
      fun files hnodup hsubset => hdepth files hnodup (by
        rw [Fragment.contents_ofInclude_append, List.map_append]
        exact List.Subset.trans hsubset (List.subset_append_right _ _))
    have hwhole := hinner.unfolds.endsLine_extend hends
      ⟨file, file.resolveInclude target, number⟩ text
    have hothers := ihrest hfew (hserves.later (hstart.trans hmiddle)) (hout.next hwhole)
    rw [hstep.1, hothers, out.extend_append]

/-! ### Expanding texts and files -/

/-- Opening files for an action keeps its result. -/
@[simp]
theorem outcomeFrom_withOpen {α : Type} (openFiles : List SourcePath)
    (action : Action (Expanding σ) Error α) (sources : σ) :
    (withOpen openFiles action).outcomeFrom sources = action.outcomeFrom ⟨sources, openFiles⟩ := rfl

/-- Of the state that an action leaves with files open, the provider's part stays. -/
@[simp]
theorem stateFrom_withOpen {α : Type} (openFiles : List SourcePath)
    (action : Action (Expanding σ) Error α) (sources : σ) :
    (withOpen openFiles action).stateFrom sources =
      (action.stateFrom ⟨sources, openFiles⟩).sources := rfl

/-- Expanding a text is putting out its lines behind nothing, at most one file deeper than the limit
of the provider. -/
theorem expandText_eq (provider : Provider σ) (file : SourcePath) (text : String) (firstLine : Nat)
    (expanding : Expanding σ) :
    (expandText provider file text firstLine).outcomeFrom expanding =
        (expandLines (expandTarget provider (provider.fileLimit expanding.sources + 1)) file
          firstLine (Text.lines text.toList) .empty).outcomeFrom expanding ∧
      (expandText provider file text firstLine).stateFrom expanding =
        (expandLines (expandTarget provider (provider.fileLimit expanding.sources + 1)) file
          firstLine (Text.lines text.toList) .empty).stateFrom expanding :=
  ⟨Action.outcomeFrom_bind_of_ok (Action.outcomeFrom_get expanding) _,
    Action.stateFrom_bind_of_ok (Action.outcomeFrom_get expanding) _⟩

/-- Before anything was put out, all lines of a text can be. -/
theorem Expansion.takes_empty (text : List Char) : Expansion.empty.Takes (Text.lines text) :=
  .lines Text.endsLine_nil text

/-- Expanding a text follows the rules. -/
theorem expandText_follows (openFiles : List SourcePath) (file : SourcePath) (text : String)
    (firstLine : Nat) {sources : σ} (hserves : provider.Serves sources contents) :
    Follows provider sources openFiles .empty (expandText provider file text firstLine)
      (Allowed contents openFiles file firstLine (Text.lines text.toList)) := by
  have heq := expandText_eq provider file text firstLine ⟨sources, openFiles⟩
  rw [Follows, heq.1, heq.2]
  exact expandLines_follows (expandTarget_follows _ openFiles file) _ _ _ hserves
    (Expansion.takes_empty _)

/-- A text that expands comes to what the rules give. -/
theorem expands_of_expandText {openFiles : List SourcePath} {file : SourcePath} {text : String}
    {firstLine : Nat} {sources : σ} (hserves : provider.Serves sources contents)
    {expansion : Expansion}
    (h : (expandText provider file text firstLine).outcomeFrom ⟨sources, openFiles⟩ =
      .ok expansion) :
    ∃ fragment, expansion = fragment.expansion ∧
      Expands contents openFiles file firstLine (Text.lines text.toList) fragment := by
  have hfollows := (expandText_follows openFiles file text firstLine hserves).2
  rw [h] at hfollows
  rcases hfollows with ⟨position, hdeep⟩ | ⟨result, hrules, houtcome⟩
  · cases hdeep
  · cases result with
    | error error => cases houtcome
    | ok fragment => exact ⟨fragment, Except.ok.inj houtcome, hrules⟩

/-- A text expands as the rules say if the limit of the provider counts the files that are
read. -/
theorem outcomeFrom_expandText {openFiles : List SourcePath} {file : SourcePath} {text : String}
    {firstLine : Nat} {sources : σ} (hserves : provider.Serves sources contents)
    {fragment : Fragment}
    (h : Expands contents openFiles file firstLine (Text.lines text.toList) fragment)
    (hlimit : ∀ files : List SourcePath, files.Nodup →
      files ⊆ fragment.contents.map FileText.path → files.length ≤ provider.fileLimit sources) :
    (expandText provider file text firstLine).outcomeFrom ⟨sources, openFiles⟩ =
      .ok fragment.expansion := by
  rw [(expandText_eq provider file text firstLine ⟨sources, openFiles⟩).1]
  exact h.outcomeFrom_expandLines
    (fun files hnodup hsubset => Nat.le_succ_of_le (hlimit files hnodup hsubset)) hserves
    (Expansion.takes_empty _)

/-- A file that cannot be read does not expand. -/
theorem outcomeFrom_expandFile_of_error {path : SourcePath} {sources : σ}
    (hserves : provider.Serves sources contents) {failure : ReadFailure}
    (hread : contents path = .error failure) (openFiles : List SourcePath) :
    (expandFile provider path).outcomeFrom ⟨sources, openFiles⟩ =
      .error (.unreadable path failure) := by
  refine Action.outcomeFrom_bind_of_error ?_ _
  rw [Expanding.outcomeFrom_onSources, hserves.outcomeFrom_readFile, hread]
  rfl

/-- A file that can be read expands as its text does while it is open. -/
theorem outcomeFrom_expandFile_of_ok {path : SourcePath} {sources : σ}
    (hserves : provider.Serves sources contents) {text : String} (hread : contents path = .ok text)
    (openFiles : List SourcePath) :
    (expandFile provider path).outcomeFrom ⟨sources, openFiles⟩ =
      ((expandText provider path text 1).outcomeFrom
        ⟨(provider.read path).stateFrom sources, openFiles ++ [path]⟩).map fun inner =>
          { inner with contents := ⟨path, text⟩ :: inner.contents } := by
  have hok : (Expanding.onSources (provider.readFile path)).outcomeFrom
      ⟨sources, openFiles⟩ = .ok text := by
    rw [Expanding.outcomeFrom_onSources, hserves.outcomeFrom_readFile, hread]
    rfl
  refine (Action.outcomeFrom_bind_of_ok hok _).trans ?_
  exact Action.outcomeFrom_bind_pure _ _ _

/-- A file that expands has been read, and its text expands by the rules. -/
theorem expands_of_expandFile {path : SourcePath} {sources : σ}
    (hserves : provider.Serves sources contents) {openFiles : List SourcePath}
    {expansion : Expansion}
    (h : (expandFile provider path).outcomeFrom ⟨sources, openFiles⟩ = .ok expansion) :
    ∃ text inner, contents path = .ok text ∧
      Expands contents (openFiles ++ [path]) path 1 (Text.lines text.toList) inner ∧
        expansion = { inner.expansion with contents := ⟨path, text⟩ :: inner.contents } := by
  cases hread : contents path with
  | error failure =>
    rw [outcomeFrom_expandFile_of_error hserves hread] at h
    cases h
  | ok text =>
    rw [outcomeFrom_expandFile_of_ok hserves hread] at h
    obtain ⟨out, hout, rfl⟩ := exists_of_map_eq_ok h
    obtain ⟨inner, rfl, hinner⟩ := expands_of_expandText (hserves.later (.read path .start)) hout
    exact ⟨text, inner, rfl, hinner, rfl⟩

end ShaderAssembly.Include
