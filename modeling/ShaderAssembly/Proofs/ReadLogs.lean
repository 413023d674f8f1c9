import ShaderAssembly.Proofs.CompileRules
import ShaderAssembly.Proofs.IncludeWalks
import ShaderAssembly.Proofs.MatchingRuns

/-!
# Logs of reads

Files may change while a compile reads them, and then there are no contents that the whole compile
is about. What it has read is a list of texts all the same. Here a provider keeps that list. The
list does not change what a compile gives, and whatever contents have all texts of the list, the
compile follows the rules over them. So a compile during which files change gives what a compile of
files at rest could have given, unless it reads different texts of one file.
-/

namespace ShaderAssembly

open Include (Expanding Expands Expansion FileText Fragment Unfolds)
open ShaderAssembly.Action (Matches)

variable {σ α β : Type}

/-- The state of a provider together with the texts that were read. -/
structure Logged (σ : Type) where
  /-- The state of the provider. -/
  sources : σ
  /-- The texts in the order in which they were read. -/
  texts : List FileText

/-- The provider that keeps the texts it gives. -/
def Provider.logging (provider : Provider σ) : Provider (Logged σ) where
  read path := do
    let text ← (provider.read path).focus Logged.sources fun sources logged =>
      { logged with sources }
    modify fun logged => { logged with texts := logged.texts ++ [⟨path, text⟩] }
    return text
  revision path := (provider.revision path).focus Logged.sources fun sources logged =>
    { logged with sources }
  fileLimit logged := provider.fileLimit logged.sources

/-- Whether some contents have all of some texts. -/
def Contents.HasTexts (contents : Contents) (texts : List FileText) : Prop :=
  ∀ file ∈ texts, contents file.path = .ok file.text

/-- The contents that have the first of some texts of each file, and no other files. -/
def Contents.ofTexts (texts : List FileText) : Contents := fun path =>
  match texts.find? (·.path = path) with
  | some file => .ok file.text
  | none => .error (.missing path)

/-- If texts of one file are the same, the contents made of them have them all. -/
theorem Contents.hasTexts_ofTexts {texts : List FileText}
    (h : ∀ first ∈ texts, ∀ again ∈ texts, first.path = again.path → first.text = again.text) :
    (ofTexts texts).HasTexts texts := by
  intro file hfile
  rw [ofTexts]
  cases hfind : texts.find? (·.path = file.path) with
  | none => simpa using List.find?_eq_none.mp hfind file hfile
  | some first =>
    have hpath : first.path = file.path := by simpa using List.find?_some hfind
    exact congrArg _ (h first (List.mem_of_find?_eq_some hfind) file hfile hpath)

namespace Compiler

/-- The texts that a compile reads, in order, including those that are read again. -/
def textsRead (compiler : Compiler σ) (root : String) (state : σ) : List FileText :=
  ((compile ⟨compiler.provider.logging, compiler.settings⟩ root).stateFrom ⟨state, []⟩).texts

/-- Whether a compile that reads a file more than once reads the same text every time. -/
def RereadsAgree (compiler : Compiler σ) (root : String) (state : σ) : Prop :=
  ∀ first ∈ compiler.textsRead root state, ∀ again ∈ compiler.textsRead root state,
    first.path = again.path → first.text = again.text

instance (compiler : Compiler σ) (root : String) (state : σ) :
    Decidable (compiler.RereadsAgree root state) :=
  inferInstanceAs (Decidable (∀ first ∈ _, ∀ again ∈ _, _ → _))

end Compiler

/-! ### Keeping a log changes nothing -/

namespace Provider

/-- A read that fails leaves the log as it is. -/
theorem read_logging_of_error {provider : Provider σ} {path : SourcePath} {logged : Logged σ}
    {failure : ReadFailure} (h : (provider.read path).outcomeFrom logged.sources = .error failure) :
    (provider.logging.read path).outcomeFrom logged = .error failure ∧
      (provider.logging.read path).stateFrom logged =
        ⟨(provider.read path).stateFrom logged.sources, logged.texts⟩ := by
  have hfocus : ((provider.read path).focus Logged.sources fun sources logged =>
      { logged with sources }).outcomeFrom logged = .error failure := h
  exact ⟨Action.outcomeFrom_bind_of_error hfocus _, Action.stateFrom_bind_of_error hfocus _⟩

/-- A read that succeeds adds its text to the log. -/
theorem read_logging_of_ok {provider : Provider σ} {path : SourcePath} {logged : Logged σ}
    {text : String} (h : (provider.read path).outcomeFrom logged.sources = .ok text) :
    (provider.logging.read path).outcomeFrom logged = .ok text ∧
      (provider.logging.read path).stateFrom logged =
        ⟨(provider.read path).stateFrom logged.sources, logged.texts ++ [⟨path, text⟩]⟩ := by
  have hfocus : ((provider.read path).focus Logged.sources fun sources logged =>
      { logged with sources }).outcomeFrom logged = .ok text := h
  exact ⟨Action.outcomeFrom_bind_of_ok hfocus _, Action.stateFrom_bind_of_ok hfocus _⟩

/-- Reads give the same with and without a log. -/
theorem matches_read_logging (provider : Provider σ) (path : SourcePath) :
    Matches (fun state logged => logged.sources = state) (provider.read path)
      (provider.logging.read path) := by
  rintro _ logged rfl
  cases hread : (provider.read path).outcomeFrom logged.sources with
  | error failure =>
    obtain ⟨houtcome, hstate⟩ := read_logging_of_error hread
    rw [houtcome, hstate]
    exact ⟨rfl, rfl⟩
  | ok text =>
    obtain ⟨houtcome, hstate⟩ := read_logging_of_ok hread
    rw [houtcome, hstate]
    exact ⟨rfl, rfl⟩

end Provider

/-- Texts expand to the same with and without a log. -/
theorem Include.matches_expandText_logging (provider : Provider σ) (openFiles : List SourcePath)
    (file : SourcePath) (text : String) (firstLine : Nat) :
    Matches (fun state logged => logged.sources = state)
      (withOpen openFiles (expandText provider file text firstLine))
      (withOpen openFiles (expandText provider.logging file text firstLine)) :=
  matches_expandText provider.matches_read_logging
    (fun _ _ hrelated => congrArg provider.fileLimit hrelated.symm) openFiles file text firstLine

/-- A compile gives the same with and without a log. -/
theorem Compiler.outcomeFrom_compile_logging (compiler : Compiler σ) (root : String) (state : σ)
    (texts : List FileText) :
    (compile ⟨compiler.provider.logging, compiler.settings⟩ root).outcomeFrom ⟨state, texts⟩ =
      (compiler.compile root).outcomeFrom state :=
  (matches_compile compiler.provider.matches_read_logging
    (Include.matches_expandText_logging compiler.provider) root state ⟨state, texts⟩ rfl).1.symm

/-- Over files at rest all texts that are read are theirs. -/
theorem Provider.Serves.hasTexts_of_reaches {provider : Provider σ} {state : σ}
    {contents : Contents} (h : provider.Serves state contents) {logged : Logged σ}
    (hlogged : provider.logging.Reaches ⟨state, []⟩ logged) :
    provider.Serves logged.sources contents ∧ contents.HasTexts logged.texts := by
  induction hlogged with
  | start => exact ⟨h, nofun⟩
  | @read logged path _ ih =>
    obtain ⟨hsources, htexts⟩ := ih
    have hlater := hsources.later (.read path .start)
    have hread := hsources.outcomeFrom_read path
    cases hresult : contents path with
    | error failure =>
      rw [(read_logging_of_error (hread.trans hresult)).2]
      exact ⟨hlater, htexts⟩
    | ok text =>
      rw [(read_logging_of_ok (hread.trans hresult)).2]
      exact ⟨hlater, List.forall_mem_append.mpr ⟨htexts, List.forall_mem_singleton.mpr hresult⟩⟩

/-! ### Compiles follow the rules over what they read -/

/-- Whether an action only adds to the log, and what it adds and its result have a property. -/
def Action.Adds (action : Action (Logged σ) Error α) (property : List FileText → α → Prop) :
    Prop :=
  ∀ logged value, action.outcomeFrom logged = .ok value →
    ∃ texts, (action.stateFrom logged).texts = logged.texts ++ texts ∧ property texts value

/-- Whether an action only adds to the log, and gives a result by some rules over all contents that
have the texts it adds. -/
def Action.Logs (action : Action (Logged σ) Error α) (rules : Contents → α → Prop) : Prop :=
  ∀ logged value, action.outcomeFrom logged = .ok value →
    ∃ texts, (action.stateFrom logged).texts = logged.texts ++ texts ∧
      ∀ contents : Contents, contents.HasTexts texts → rules contents value

namespace Action

variable {property : List FileText → α → Prop} {whole : List FileText → β → Prop}

/-- What reads nothing adds nothing. -/
theorem adds_liftM (traced : Traced Error α) :
    Adds (liftM traced : Action (Logged σ) Error α) fun texts value =>
      texts = [] ∧ traced.outcome = .ok value :=
  fun _ _ hvalue => ⟨[], (List.append_nil _).symm, rfl, hvalue⟩

/-- What is recorded in the journal leaves the log as it is. -/
theorem adds_record (level : Level) (message : String) :
    Adds (record level message : Action (Logged σ) Error Unit) fun texts _ => texts = [] :=
  fun _ _ _ => ⟨[], (List.append_nil _).symm, rfl⟩

theorem Adds.of_pure {value : α} (h : property [] value) :
    Adds (pure value : Action (Logged σ) Error α) property := by
  intro logged result hresult
  cases hresult
  exact ⟨[], (List.append_nil _).symm, h⟩

/-- Two actions in a row add to the log one after the other, where the second one may rely on what
the first one gave. -/
theorem Adds.bind_of {action : Action (Logged σ) Error α} {next : α → Action (Logged σ) Error β}
    (h : Adds action property)
    (hnext : ∀ texts value, property texts value →
      Adds (next value) fun more result => whole (texts ++ more) result) :
    Adds (action >>= next) whole := by
  intro logged result hresult
  obtain ⟨value, hvalue, hresult⟩ := outcomeFrom_bind_eq_ok.mp hresult
  obtain ⟨texts, htexts, hproperty⟩ := h logged value hvalue
  obtain ⟨more, hmore, hwhole⟩ := hnext texts value hproperty _ result hresult
  refine ⟨texts ++ more, ?_, hwhole⟩
  rw [stateFrom_bind_of_ok hvalue, hmore, htexts, List.append_assoc]

/-- An action that adds what has a property adds what has a weaker one. -/
theorem Adds.mono {action : Action (Logged σ) Error α} {weaker : List FileText → α → Prop}
    (h : Adds action property) (hweaker : ∀ texts value, property texts value →
      weaker texts value) : Adds action weaker := by
  intro logged value hvalue
  obtain ⟨texts, htexts, hproperty⟩ := h logged value hvalue
  exact ⟨texts, htexts, hweaker texts value hproperty⟩

/-- Two actions in a row add to the log one after the other. -/
theorem Adds.bind {action : Action (Logged σ) Error α} {next : α → Action (Logged σ) Error β}
    (h : Adds action property)
    (hnext : ∀ value, Adds (next value) fun more result =>
      ∀ texts, property texts value → whole (texts ++ more) result) :
    Adds (action >>= next) whole :=
  h.bind_of fun texts value hproperty =>
    (hnext value).mono fun _ _ hwhole => hwhole texts hproperty

variable {rules : Contents → α → Prop} {after : Contents → β → Prop}

/-- What reads nothing follows rules over any contents. -/
theorem logs_liftM (traced : Traced Error α) :
    Logs (liftM traced : Action (Logged σ) Error α) fun _ value => traced.outcome = .ok value :=
  (adds_liftM traced).mono fun _ _ hvalue _ _ => hvalue.2

theorem Logs.of_pure {value : α} (h : ∀ contents, rules contents value) :
    Logs (pure value : Action (Logged σ) Error α) rules := Adds.of_pure fun contents _ => h contents

/-- What two actions in a row add to the log one after the other, both follow rules over. -/
theorem Logs.bind {action : Action (Logged σ) Error α} {next : α → Action (Logged σ) Error β}
    (h : Logs action rules)
    (hnext : ∀ value, Logs (next value) fun contents result =>
      rules contents value → after contents result) :
    Logs (action >>= next) after := by
  refine Adds.bind h fun value => Adds.mono (hnext value) ?_
  intro more result hafter texts hrules contents hcontents
  have hfirst := hrules contents fun file hfile => hcontents file (List.mem_append_left _ hfile)
  exact hafter contents (fun file hfile => hcontents file (List.mem_append_right _ hfile)) hfirst

/-- An action that gives a result by some rules gives it by weaker ones. -/
theorem Logs.mono {action : Action (Logged σ) Error α} {weaker : Contents → α → Prop}
    (h : Logs action rules)
    (hrules : ∀ contents value, rules contents value → weaker contents value) :
    Logs action weaker :=
  Adds.mono h fun _ value hall contents hcontents => hrules contents value (hall contents hcontents)

/-- What is recorded in the journal leaves the log as it is. -/
theorem logs_record (level : Level) (message : String) :
    Logs (record level message : Action (Logged σ) Error Unit) fun _ _ => True :=
  (adds_record level message).mono fun _ _ _ _ _ => trivial

end Action

/-- A read that succeeds adds its text to the log, whatever its failures are turned into. -/
theorem Provider.stateFrom_read_logging {provider : Provider σ} {path : SourcePath}
    {failWith : ReadFailure → Error} {logged : Logged σ} {text : String}
    (h : ((provider.logging.read path).mapError failWith).outcomeFrom logged = .ok text) :
    ((provider.logging.read path).mapError failWith).stateFrom logged =
      ⟨(provider.read path).stateFrom logged.sources, logged.texts ++ [⟨path, text⟩]⟩ := by
  rw [Action.outcomeFrom_mapError] at h
  rw [Action.stateFrom_mapError]
  cases hread : (provider.read path).outcomeFrom logged.sources with
  | error failure =>
    rw [(read_logging_of_error hread).1] at h
    cases h
  | ok other =>
    rw [(read_logging_of_ok hread).1] at h
    cases h
    exact (read_logging_of_ok hread).2

/-- A file that is read on behalf of a compile adds the text that was read. -/
theorem Provider.adds_readFile (provider : Provider σ) (path : SourcePath) :
    Action.Adds (provider.logging.readFile path) fun texts text => texts = [⟨path, text⟩] :=
  fun _ text htext => ⟨[⟨path, text⟩], congrArg Logged.texts (stateFrom_read_logging htext), rfl⟩

/-- A file that is read on behalf of a compile has the text that was read. -/
theorem Provider.logs_readFile (provider : Provider σ) (path : SourcePath) :
    Action.Logs (provider.logging.readFile path) fun contents text =>
      contents path = .ok text := by
  refine (provider.adds_readFile path).mono ?_
  rintro _ text rfl contents hcontents
  exact hcontents _ (List.mem_singleton_self _)

namespace Include

/-- Whether an action leaves the open files open, puts out a fragment with a property behind what
was there, and adds to the log what the fragment says was read. -/
def Expanding.Adds (openFiles : List SourcePath) (out : Expansion)
    (action : Action (Expanding (Logged σ)) Error Expansion) (property : Fragment → Prop) :
    Prop :=
  ∀ logged after, action.outcomeFrom ⟨logged, openFiles⟩ = .ok after →
    ∃ fragment, after = out.extend fragment ∧ property fragment ∧
      ∃ sources, action.stateFrom ⟨logged, openFiles⟩ =
        ⟨⟨sources, logged.texts ++ fragment.contents⟩, openFiles⟩

variable {provider : Provider σ}

/-- Lines expand to what the texts that are read expand to if every include line does. -/
theorem expandLines_adds
    {expand : SourcePath → String → Position → Expansion →
      Action (Expanding (Logged σ)) Error Expansion}
    {openFiles : List SourcePath} {file : SourcePath}
    (hexpand : ∀ target position out, Text.EndsLine out.text →
      Expanding.Adds openFiles out (expand file target position out) fun fragment =>
        UnfoldsTarget fragment.HasText openFiles file target position.line fragment)
    (lines : List (List Char)) (number : Nat) {out : Expansion} (hout : out.Takes lines) :
    Expanding.Adds openFiles out (expandLines expand file number lines out) fun fragment =>
      Unfolds fragment.HasText openFiles file number lines fragment := by
  induction lines generalizing number out with
  | nil =>
    intro logged after hok
    cases hok
    refine ⟨.empty, (out.extend_empty).symm, .done, logged.sources, ?_⟩
    rw [Fragment.empty, List.append_nil]
    rfl
  | cons line rest ih =>
    intro logged after hok
    cases hline : Directive.ofLine line with
    | none =>
      have hstep := expandLines_of_none expand file number rest out ⟨logged, openFiles⟩ hline
      rw [hstep.1] at hok
      rw [hstep.2]
      obtain ⟨others, rfl, hothers, hstate⟩ :=
        ih (number + 1) (hout.pushLine file number) logged after hok
      have hkeep : Unfolds (Fragment.ofLine line file number ++ others).HasText openFiles file
          number (line :: rest) (Fragment.ofLine line file number ++ others) :=
        .keep hline hothers
      refine ⟨_, ?_, hkeep, hstate⟩
      rw [out.extend_append, out.pushLine_eq_extend]
    | malformed =>
      rw [(expandLines_of_malformed expand file number rest out ⟨logged, openFiles⟩ hline).1]
        at hok
      cases hok
    | target target =>
      have hends := hout.endsLine (List.cons_ne_nil _ _)
      cases hfirst : (expand file target ⟨file, number, Directive.column line⟩ out).outcomeFrom
          ⟨logged, openFiles⟩ with
      | error error =>
        rw [(expandLines_of_error rest ⟨logged, openFiles⟩ hline hfirst).1] at hok
        cases hok
      | ok next =>
        obtain ⟨first, rfl, htarget, middle, hmiddle⟩ :=
          hexpand target _ out hends logged next hfirst
        have hstep := expandLines_of_target rest ⟨logged, openFiles⟩ hline hfirst hmiddle
        rw [hstep.1] at hok
        rw [hstep.2]
        obtain ⟨others, rfl, hothers, last, hlast⟩ :=
          ih (number + 1) (hout.next (htarget.endsLine_extend hends)) _ after hok
        refine ⟨first ++ others, (out.extend_append first others).symm, ?_, last, ?_⟩
        · refine (htarget.mono fun path text hread => ?_).append hline
            (hothers.mono fun path text hread => ?_)
          · exact List.mem_append_left _ hread
          · exact List.mem_append_right _ hread
        · rw [hlast, List.append_assoc]
          rfl

/-- Include lines expand to what the texts that are read expand to. -/
theorem expandTarget_adds (depth : Nat) (openFiles : List SourcePath) (includer : SourcePath)
    (target : String) (position : Position) (out : Expansion) (hout : Text.EndsLine out.text) :
    Expanding.Adds openFiles out
      (expandTarget provider.logging depth includer target position out) fun fragment =>
        UnfoldsTarget fragment.HasText openFiles includer target position.line fragment := by
  induction depth generalizing openFiles includer target position out with
  | zero => exact nofun
  | succ depth ih =>
    intro logged after hok
    unfold expandTarget at hok ⊢
    by_cases hopen : includer.resolveInclude target ∈ openFiles
    · have hrefuse := Expanding.refuseOpen_of_mem logged hopen position
      rw [Action.outcomeFrom_bind_of_error hrefuse.1] at hok
      cases hok
    · have hrefuse := Expanding.refuseOpen_of_not_mem logged hopen position
      rw [Action.outcomeFrom_bind_of_ok hrefuse.1, hrefuse.2] at hok
      rw [Action.stateFrom_bind_of_ok hrefuse.1, hrefuse.2]
      obtain ⟨text, htext, hok⟩ := Action.outcomeFrom_bind_eq_ok.mp hok
      obtain ⟨-, -, hok⟩ := Action.outcomeFrom_bind_eq_ok.mp hok
      obtain ⟨before, hinner, hok⟩ := Action.outcomeFrom_bind_eq_ok.mp hok
      cases hok
      rw [Action.stateFrom_bind_of_ok htext]
      have hread : (Expanding.onSources (readIncluded provider.logging
          (includer.resolveInclude target) position)).stateFrom ⟨logged, openFiles⟩ =
            ⟨⟨(provider.read (includer.resolveInclude target)).stateFrom logged.sources,
              logged.texts ++ [⟨includer.resolveInclude target, text⟩]⟩, openFiles⟩ :=
        congrArg (Expanding.mk · openFiles) (Provider.stateFrom_read_logging htext)
      rw [hread, Action.stateFrom_record, Expanding.outcomeFrom_during] at hinner
      rw [hread, Action.stateFrom_bind_of_ok (Action.outcomeFrom_record _ _ _),
        Action.stateFrom_record, Action.stateFrom_bind_pure]
      obtain ⟨inner, rfl, hunfolds, last, hlast⟩ := expandLines_adds
        (fun target position out hout => ih _ _ target position out hout) _ _
        (.included hout _ text) _ before hinner
      refine ⟨_, Expansion.terminateLine_extend hout _ text (hunfolds.hasLines rfl).1, ?_, last, ?_⟩
      · exact .read hopen (List.mem_cons_self ..)
          (hunfolds.mono fun path text hread => List.mem_cons_of_mem _ hread)
      · rw [Expanding.stateFrom_during hlast, List.append_assoc]
        rfl

/-- A text that expands does so with the texts that are read. -/
theorem expandText_adds (provider : Provider σ) (openFiles : List SourcePath) (file : SourcePath)
    (text : String) (firstLine : Nat) :
    Action.Adds (withOpen openFiles (expandText provider.logging file text firstLine))
      fun texts expansion => ∃ fragment, expansion = fragment.expansion ∧
        texts = fragment.contents ∧
          Unfolds fragment.HasText openFiles file firstLine (Text.lines text.toList) fragment := by
  intro logged expansion hok
  have heq := expandText_eq provider.logging file text firstLine ⟨logged, openFiles⟩
  rw [outcomeFrom_withOpen, heq.1] at hok
  obtain ⟨fragment, rfl, hunfolds, last, hlast⟩ := expandLines_adds
    (expandTarget_adds _ openFiles file) _ _ (Expansion.takes_empty _) _ expansion hok
  refine ⟨fragment.contents, ?_, fragment, rfl, rfl, hunfolds⟩
  rw [stateFrom_withOpen, heq.2, hlast]

/-- A text that expands does so by the rules over what was read. -/
theorem expandText_logs (provider : Provider σ) (openFiles : List SourcePath) (file : SourcePath)
    (text : String) (firstLine : Nat) :
    Action.Logs (withOpen openFiles (expandText provider.logging file text firstLine))
      fun contents expansion => ∃ fragment, expansion = fragment.expansion ∧
        Expands contents openFiles file firstLine (Text.lines text.toList) fragment := by
  refine (expandText_adds provider openFiles file text firstLine).mono ?_
  rintro _ _ ⟨fragment, rfl, rfl, hunfolds⟩ contents hcontents
  exact ⟨fragment, rfl, hunfolds.expands fun path text hread => hcontents _ hread⟩

/-- A file that expands has been read, and its text expands with the texts that are read. -/
theorem expandFile_adds (provider : Provider σ) (path : SourcePath) :
    Action.Adds (withOpen [] (expandFile provider.logging path)) fun texts expansion =>
      texts = expansion.contents ∧ ∃ text inner,
        Unfolds inner.HasText [path] path 1 (Text.lines text.toList) inner ∧
          expansion = { inner.expansion with contents := ⟨path, text⟩ :: inner.contents } := by
  intro logged expansion hok
  rw [outcomeFrom_withOpen, expandFile] at hok
  obtain ⟨text, htext, hok⟩ := Action.outcomeFrom_bind_eq_ok.mp hok
  have hread : (Expanding.onSources (provider.logging.readFile path)).stateFrom ⟨logged, []⟩ =
      ⟨⟨(provider.read path).stateFrom logged.sources, logged.texts ++ [⟨path, text⟩]⟩, []⟩ :=
    congrArg (Expanding.mk · []) (Provider.stateFrom_read_logging htext)
  obtain ⟨inner, hinner, hok⟩ := Action.outcomeFrom_bind_eq_ok.mp hok
  cases hok
  rw [hread, Expanding.outcomeFrom_during] at hinner
  obtain ⟨_, htexts, fragment, rfl, rfl, hunfolds⟩ :=
    expandText_adds provider [path] path text 1 _ inner hinner
  refine ⟨⟨path, text⟩ :: fragment.contents, ?_, rfl, text, fragment, hunfolds, rfl⟩
  rw [stateFrom_withOpen, expandFile, Action.stateFrom_bind_of_ok htext, hread,
    Action.stateFrom_bind_pure]
  refine htexts.trans ?_
  rw [List.append_assoc]
  rfl

/-- A file that expands has been read, and its text expands by the rules over what was read. -/
theorem expandFile_logs (provider : Provider σ) (path : SourcePath) :
    Action.Logs (withOpen [] (expandFile provider.logging path)) fun contents expansion =>
      ∃ text inner, contents path = .ok text ∧
        Expands contents [path] path 1 (Text.lines text.toList) inner ∧
          expansion = { inner.expansion with contents := ⟨path, text⟩ :: inner.contents } := by
  refine (expandFile_adds provider path).mono ?_
  rintro _ _ ⟨rfl, text, inner, hunfolds, rfl⟩ contents hcontents
  exact ⟨text, inner, hcontents _ (List.mem_cons_self ..),
    hunfolds.expands fun _ _ hread => hcontents _ (List.mem_cons_of_mem _ hread), rfl⟩

end Include

namespace Compiler

variable {provider : Provider σ} {settings : Settings}

/-- A block that is expanded becomes what the rules say over what was read. -/
theorem expandBlock_logs (path : SourcePath) (graph : IncludeGraph) (block : CodeBlock) :
    Action.Logs (expandBlock ⟨provider.logging, settings⟩ path graph block)
      fun contents result => BlockExpands contents path graph block result.1 result.2 :=
  (Include.expandText_logs provider _ _ _ _).bind fun _ => .of_pure fun _ h => by
    obtain ⟨fragment, rfl, hexpands⟩ := h
    exact .intro hexpands

/-- Named blocks that are expanded become what the rules say over what was read. -/
theorem expandEntries_logs (path : SourcePath) (graph : IncludeGraph)
    (entries : List (String × CodeBlock)) :
    Action.Logs (expandEntries ⟨provider.logging, settings⟩ path graph entries)
      fun contents result => EntriesExpand contents path graph entries result.1 result.2 := by
  induction entries generalizing graph with
  | nil => exact .of_pure fun _ => .nil
  | cons entry rest ih =>
    obtain ⟨name, block⟩ := entry
    unfold expandEntries
    refine (expandBlock_logs path graph block).bind fun expanded => ?_
    refine (ih expanded.2).bind fun others => .of_pure fun contents hrest hblock => ?_
    exact .cons hblock hrest

/-- The blocks of a shader that are expanded become what the rules say over what was read. -/
theorem expandBlocks_logs (parsed : ParsedShader) :
    Action.Logs (expandBlocks ⟨provider.logging, settings⟩ parsed) fun contents result =>
      ∃ shared? blocks middle graph,
        SharedExpands contents parsed.shader.path parsed.dependencies parsed.shader.shared?
            shared? middle ∧
          EntriesExpand contents parsed.shader.path middle parsed.shader.blocks.entries blocks
            graph ∧
          result = ⟨{ parsed.shader with shared?, blocks := ⟨blocks⟩ }, graph⟩ := by
  have hentries : ∀ shared : Option CodeBlock × IncludeGraph, Action.Logs
      (do
        let made ← expandEntries ⟨provider.logging, settings⟩ parsed.shader.path
          shared.2 parsed.shader.blocks.entries
        return (⟨{ parsed.shader with shared? := shared.1, blocks := ⟨made.1⟩ }, made.2⟩ :
          ParsedShader))
      fun contents result => SharedExpands contents parsed.shader.path parsed.dependencies
          parsed.shader.shared? shared.1 shared.2 →
        ∃ shared? blocks middle graph,
          SharedExpands contents parsed.shader.path parsed.dependencies parsed.shader.shared?
              shared? middle ∧
            EntriesExpand contents parsed.shader.path middle parsed.shader.blocks.entries blocks
              graph ∧
            result = ⟨{ parsed.shader with shared?, blocks := ⟨blocks⟩ }, graph⟩ := by
    intro shared
    refine (expandEntries_logs _ _ _).bind fun blocks => .of_pure fun contents hblocks => ?_
    exact fun hshared => ⟨_, _, _, _, hshared, hblocks, rfl⟩
  unfold expandBlocks
  cases hblock : parsed.shader.shared? with
  | none =>
    rw [hblock] at hentries
    exact (Action.Logs.of_pure fun _ => .none).bind hentries
  | some block =>
    rw [hblock] at hentries
    refine (expandBlock_logs _ _ _).bind fun expanded => ?_
    have hshared : Action.Logs
        (pure (some expanded.1, expanded.2) : Action (Logged σ) Error _)
        fun contents shared => BlockExpands contents parsed.shader.path parsed.dependencies block
            expanded.1 expanded.2 →
          SharedExpands contents parsed.shader.path parsed.dependencies (some block) shared.1
            shared.2 := .of_pure fun _ => .some
    exact hshared.bind fun shared => (hentries shared).mono fun _ _ h hshared hfirst =>
      h (hshared hfirst)

/-- A description that is read is what the rules say over what was read. -/
theorem parseDescription_logs (path : SourcePath) :
    Action.Logs (parseDescription ⟨provider.logging, settings⟩ path) fun contents parsed =>
      DescriptionParses contents path parsed := by
  unfold parseDescription
  refine (provider.logs_readFile path).bind fun text => ?_
  refine (Action.logs_liftM _).bind fun shader => ?_
  refine (expandBlocks_logs _).mono fun contents parsed hparsed hshader hread => ?_
  obtain ⟨shared?, blocks, middle, graph, hshared, hblocks, rfl⟩ := hparsed
  exact .intro hread hshader hshared hblocks

/-- An effect file that is read is what the rules say over what was read. -/
theorem parseEffect_logs (path : SourcePath) :
    Action.Logs (parseEffect ⟨provider.logging, settings⟩ path) fun contents parsed =>
      EffectParses contents path parsed := by
  unfold parseEffect
  refine (Include.expandFile_logs provider path).bind fun expansion => ?_
  refine (Action.logs_liftM _).bind fun shader => .of_pure fun contents hshader hexpansion => ?_
  obtain ⟨text, inner, hread, hexpands, rfl⟩ := hexpansion
  exact .intro hread hexpands hshader

/-- A file that is compiled becomes what the rules say over what was read. -/
theorem compile_logs (root : String) :
    Action.Logs (compile ⟨provider.logging, settings⟩ root) fun contents compilation =>
      Compiles contents settings (.rooted root) compilation := by
  have hparse : Action.Logs (parse ⟨provider.logging, settings⟩ root) fun contents parsed =>
      Parses contents (.rooted root) parsed := by
    unfold parse Parses
    dsimp only
    cases Dialect.ofPath (.rooted root) with
    | description =>
      refine (parseDescription_logs _).bind fun parsed => ?_
      exact (Action.logs_record _ _).bind fun _ => .of_pure fun _ _ hparsed => hparsed
    | effect =>
      refine (parseEffect_logs _).bind fun parsed => ?_
      exact (Action.logs_record _ _).bind fun _ => .of_pure fun _ _ hparsed => hparsed
  unfold compile
  refine hparse.bind fun parsed => (Action.logs_liftM _).bind fun stages => ?_
  refine (Action.logs_record _ _).bind fun _ => .of_pure fun contents _ hlinks hparses => ?_
  exact ⟨hparses, hlinks⟩

/-- A compile during which files may change follows the rules over any contents that have the texts
it read. -/
theorem compiles_of_hasTexts {compiler : Compiler σ} {root : String} {state : σ}
    {compilation : Compilation}
    (hok : (compiler.compile root).outcomeFrom state = .ok compilation) {contents : Contents}
    (hcontents : contents.HasTexts (compiler.textsRead root state)) :
    Compiles contents compiler.settings (.rooted root) compilation := by
  rw [← outcomeFrom_compile_logging compiler root state []] at hok
  obtain ⟨texts, htexts, hrules⟩ := compile_logs root _ _ hok
  refine hrules contents ?_
  rwa [textsRead, htexts, List.nil_append] at hcontents

/-- A compile that reads no two texts of one file comes to what files at rest could have given. -/
theorem exists_compiles {compiler : Compiler σ} {root : String} {state : σ}
    {compilation : Compilation}
    (hok : (compiler.compile root).outcomeFrom state = .ok compilation)
    (hagree : compiler.RereadsAgree root state) :
    ∃ contents, Compiles contents compiler.settings (.rooted root) compilation := by
  exact ⟨.ofTexts (compiler.textsRead root state),
    compiles_of_hasTexts hok (Contents.hasTexts_ofTexts hagree)⟩

end Compiler

end ShaderAssembly
