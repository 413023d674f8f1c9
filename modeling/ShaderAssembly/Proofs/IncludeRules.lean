import ShaderAssembly.Include.Expand
import ShaderAssembly.Proofs.IncludeFragments
import ShaderAssembly.Proofs.UnchangingSources

/-!
# The rules of include expansion

The expansion of includes is described here by rules that know neither a state nor a bound on the
depth, nor what was put out before: what the lines of a file expand to depends on the contents of
the files and on the chain of open files alone. Where a file may have one text or another, the
rules say what the lines may expand to.

What the rules give for the lines of a text are whole lines, but for the last one if that of the
text is none.
-/

namespace ShaderAssembly.Include

/-- The error of an include line whose file cannot be read. -/
def includeFailure (file : SourcePath) (position : Position) (failure : ReadFailure) : Error :=
  if failure.kind = .notFound then .missingInclude file position else .unreadable file failure

/-- What the lines of a file expand to while some files are open. Every rule is about the first
line; `number` is the line's number in the file. -/
inductive Expands (contents : Contents) : List SourcePath → SourcePath → Nat →
    List (List Char) → Fragment → Prop where
  /-- There are no lines. -/
  | done {openFiles : List SourcePath} {file : SourcePath} {number : Nat} :
      Expands contents openFiles file number [] .empty
  /-- An ordinary line stays. -/
  | keep {openFiles : List SourcePath} {file : SourcePath} {number : Nat} {line : List Char}
      {rest : List (List Char)} {others : Fragment} (hline : Directive.ofLine line = .none)
      (hrest : Expands contents openFiles file (number + 1) rest others) :
      Expands contents openFiles file number (line :: rest) (.ofLine line file number ++ others)
  /-- An include line is replaced by the expansion of the file it names, which is not open. -/
  | replace {openFiles : List SourcePath} {file : SourcePath} {number : Nat} {line : List Char}
      {rest : List (List Char)} {target text : String} {inner others : Fragment}
      (hline : Directive.ofLine line = .target target)
      (hnew : file.resolveInclude target ∉ openFiles)
      (hread : contents (file.resolveInclude target) = .ok text)
      (hinner : Expands contents (openFiles ++ [file.resolveInclude target])
        (file.resolveInclude target) 1 (Text.lines text.toList) inner)
      (hrest : Expands contents openFiles file (number + 1) rest others) :
      Expands contents openFiles file number (line :: rest)
        (.ofInclude ⟨file, file.resolveInclude target, number⟩ text inner ++ others)

/-- Why the lines of a file do not expand while some files are open. -/
inductive Fails (contents : Contents) : List SourcePath → SourcePath → Nat →
    List (List Char) → Error → Prop where
  /-- An include line has no path. -/
  | malformed {openFiles : List SourcePath} {file : SourcePath} {number : Nat} {line : List Char}
      {rest : List (List Char)} (hline : Directive.ofLine line = .malformed) :
      Fails contents openFiles file number (line :: rest)
        (.unexpected "a quoted include path" (String.ofList (Text.trim line))
          ⟨file, number, Directive.column line⟩)
  /-- An include line names an open file. -/
  | cyclic {openFiles : List SourcePath} {file : SourcePath} {number : Nat} {line : List Char}
      {rest : List (List Char)} {target : String} (hline : Directive.ofLine line = .target target)
      (hopen : file.resolveInclude target ∈ openFiles) :
      Fails contents openFiles file number (line :: rest)
        (.cyclicInclude
          (openFiles.dropWhile (· ≠ file.resolveInclude target) ++ [file.resolveInclude target])
          ⟨file, number, Directive.column line⟩)
  /-- An include line names a file that cannot be read. -/
  | unread {openFiles : List SourcePath} {file : SourcePath} {number : Nat} {line : List Char}
      {rest : List (List Char)} {target : String} {failure : ReadFailure}
      (hline : Directive.ofLine line = .target target)
      (hnew : file.resolveInclude target ∉ openFiles)
      (hread : contents (file.resolveInclude target) = .error failure) :
      Fails contents openFiles file number (line :: rest)
        (includeFailure (file.resolveInclude target) ⟨file, number, Directive.column line⟩ failure)
  /-- An included file does not expand. -/
  | included {openFiles : List SourcePath} {file : SourcePath} {number : Nat} {line : List Char}
      {rest : List (List Char)} {target text : String} {error : Error}
      (hline : Directive.ofLine line = .target target)
      (hnew : file.resolveInclude target ∉ openFiles)
      (hread : contents (file.resolveInclude target) = .ok text)
      (hinner : Fails contents (openFiles ++ [file.resolveInclude target])
        (file.resolveInclude target) 1 (Text.lines text.toList) error) :
      Fails contents openFiles file number (line :: rest) error
  /-- The lines after an ordinary line do not expand. -/
  | afterLine {openFiles : List SourcePath} {file : SourcePath} {number : Nat} {line : List Char}
      {rest : List (List Char)} {error : Error} (hline : Directive.ofLine line = .none)
      (hrest : Fails contents openFiles file (number + 1) rest error) :
      Fails contents openFiles file number (line :: rest) error
  /-- An included file expands, and the lines after the include line do not. -/
  | afterInclude {openFiles : List SourcePath} {file : SourcePath} {number : Nat}
      {line : List Char} {rest : List (List Char)} {target text : String} {inner : Fragment}
      {error : Error} (hline : Directive.ofLine line = .target target)
      (hnew : file.resolveInclude target ∉ openFiles)
      (hread : contents (file.resolveInclude target) = .ok text)
      (hinner : Expands contents (openFiles ++ [file.resolveInclude target])
        (file.resolveInclude target) 1 (Text.lines text.toList) inner)
      (hrest : Fails contents openFiles file (number + 1) rest error) :
      Fails contents openFiles file number (line :: rest) error

/-- The results of expanding lines that the rules allow. -/
def Allowed (contents : Contents) (openFiles : List SourcePath) (file : SourcePath) (number : Nat)
    (lines : List (List Char)) : Except Error Fragment → Prop
  | .ok fragment => Expands contents openFiles file number lines fragment
  | .error error => Fails contents openFiles file number lines error

/-- The results of expanding an include line that the rules allow. -/
inductive AllowedTarget (contents : Contents) (openFiles : List SourcePath)
    (includer : SourcePath) (target : String) (position : Position) :
    Except Error Fragment → Prop where
  /-- The file is open. -/
  | cyclic (hopen : includer.resolveInclude target ∈ openFiles) :
      AllowedTarget contents openFiles includer target position
        (.error (.cyclicInclude (openFiles.dropWhile (· ≠ includer.resolveInclude target) ++
          [includer.resolveInclude target]) position))
  /-- The file cannot be read. -/
  | unread {failure : ReadFailure} (hnew : includer.resolveInclude target ∉ openFiles)
      (hread : contents (includer.resolveInclude target) = .error failure) :
      AllowedTarget contents openFiles includer target position
        (.error (includeFailure (includer.resolveInclude target) position failure))
  /-- The file's lines are expanded while it is open, too. -/
  | read {text : String} {result : Except Error Fragment}
      (hnew : includer.resolveInclude target ∉ openFiles)
      (hread : contents (includer.resolveInclude target) = .ok text)
      (hinner : Allowed contents (openFiles ++ [includer.resolveInclude target])
        (includer.resolveInclude target) 1 (Text.lines text.toList) result) :
      AllowedTarget contents openFiles includer target position
        (result.map (.ofInclude ⟨includer, includer.resolveInclude target, position.line⟩ text))

section Rules

variable {contents : Contents} {openFiles : List SourcePath} {file : SourcePath} {number : Nat}
  {line : List Char} {rest : List (List Char)} {target : String}

/-- An error of an include line is an error of the lines that start with it. -/
theorem AllowedTarget.fails {error : Error}
    (h : AllowedTarget contents openFiles file target ⟨file, number, Directive.column line⟩
      (.error error)) (hline : Directive.ofLine line = .target target) :
    Fails contents openFiles file number (line :: rest) error := by
  generalize hresult : (Except.error error : Except Error Fragment) = result at h
  cases h with
  | cyclic hopen =>
    cases hresult
    exact .cyclic hline hopen
  | unread hnew hread =>
    cases hresult
    exact .unread hline hnew hread
  | @read text inner hnew hread hinner =>
    cases inner with
    | error other =>
      cases hresult
      exact .included hline hnew hread hinner
    | ok fragment => cases hresult

/-- An ordinary line stands before what the other lines expand to. -/
theorem Allowed.keep (hline : Directive.ofLine line = .none) {result : Except Error Fragment}
    (hrest : Allowed contents openFiles file (number + 1) rest result) :
    Allowed contents openFiles file number (line :: rest)
      (result.map (.ofLine line file number ++ ·)) := by
  cases result with
  | error error => exact Fails.afterLine hline hrest
  | ok others => exact Expands.keep hline hrest

/-- The expansion of an include line stands before what the other lines expand to. -/
theorem AllowedTarget.append {first : Fragment}
    (h : AllowedTarget contents openFiles file target ⟨file, number, Directive.column line⟩
      (.ok first)) (hline : Directive.ofLine line = .target target)
    {result : Except Error Fragment}
    (hrest : Allowed contents openFiles file (number + 1) rest result) :
    Allowed contents openFiles file number (line :: rest) (result.map (first ++ ·)) := by
  generalize houtcome : (Except.ok first : Except Error Fragment) = outcome at h
  cases h with
  | cyclic hopen => cases houtcome
  | unread hnew hread => cases houtcome
  | @read text inner hnew hread hinner =>
    cases inner with
    | error other => cases houtcome
    | ok fragment =>
      cases houtcome
      cases result with
      | error error => exact Fails.afterInclude hline hnew hread hinner hrest
      | ok others => exact Expands.replace hline hnew hread hinner hrest

end Rules

/-! ### Expansions of texts that change -/

/-- What the lines of a file expand to while some files are open and a file that is read may have
one text or another. Every rule is about the first line; `number` is the line's number in the
file. -/
inductive Unfolds (has : SourcePath → String → Prop) : List SourcePath → SourcePath → Nat →
    List (List Char) → Fragment → Prop where
  /-- There are no lines. -/
  | done {openFiles : List SourcePath} {file : SourcePath} {number : Nat} :
      Unfolds has openFiles file number [] .empty
  /-- An ordinary line stays. -/
  | keep {openFiles : List SourcePath} {file : SourcePath} {number : Nat} {line : List Char}
      {rest : List (List Char)} {others : Fragment} (hline : Directive.ofLine line = .none)
      (hrest : Unfolds has openFiles file (number + 1) rest others) :
      Unfolds has openFiles file number (line :: rest) (.ofLine line file number ++ others)
  /-- An include line is replaced by what a text of the file it names, which is not open, expands
  to. -/
  | replace {openFiles : List SourcePath} {file : SourcePath} {number : Nat} {line : List Char}
      {rest : List (List Char)} {target text : String} {inner others : Fragment}
      (hline : Directive.ofLine line = .target target)
      (hnew : file.resolveInclude target ∉ openFiles)
      (hread : has (file.resolveInclude target) text)
      (hinner : Unfolds has (openFiles ++ [file.resolveInclude target])
        (file.resolveInclude target) 1 (Text.lines text.toList) inner)
      (hrest : Unfolds has openFiles file (number + 1) rest others) :
      Unfolds has openFiles file number (line :: rest)
        (.ofInclude ⟨file, file.resolveInclude target, number⟩ text inner ++ others)

/-- What an include line expands to if the file it names, which is not open, may have one text or
another. -/
inductive UnfoldsTarget (has : SourcePath → String → Prop) (openFiles : List SourcePath)
    (includer : SourcePath) (target : String) (number : Nat) : Fragment → Prop where
  /-- A text of the file is expanded while the file is open, too. -/
  | read {text : String} {inner : Fragment} (hnew : includer.resolveInclude target ∉ openFiles)
      (hread : has (includer.resolveInclude target) text)
      (hinner : Unfolds has (openFiles ++ [includer.resolveInclude target])
        (includer.resolveInclude target) 1 (Text.lines text.toList) inner) :
      UnfoldsTarget has openFiles includer target number
        (.ofInclude ⟨includer, includer.resolveInclude target, number⟩ text inner)

/-- Whether an expansion has read a text of a file. -/
def Fragment.HasText (fragment : Fragment) (path : SourcePath) (text : String) : Prop :=
  ⟨path, text⟩ ∈ fragment.contents

section Unfolds

variable {has : SourcePath → String → Prop} {openFiles : List SourcePath} {file : SourcePath}
  {number : Nat} {lines : List (List Char)} {fragment : Fragment}

/-- If files may have more texts, lines expand to no less. -/
theorem Unfolds.mono (h : Unfolds has openFiles file number lines fragment)
    {more : SourcePath → String → Prop} (hmore : ∀ path text, has path text → more path text) :
    Unfolds more openFiles file number lines fragment := by
  induction h with
  | done => exact .done
  | keep hline _ ih => exact .keep hline ih
  | replace hline hnew hread _ _ ihinner ihrest =>
    exact .replace hline hnew (hmore _ _ hread) ihinner ihrest

/-- Lines that start with an include line expand to what that expands to, and the others after
it. -/
theorem UnfoldsTarget.append {line : List Char} {target : String} {first : Fragment}
    (h : UnfoldsTarget has openFiles file target number first)
    (hline : Directive.ofLine line = .target target)
    (hrest : Unfolds has openFiles file (number + 1) lines fragment) :
    Unfolds has openFiles file number (line :: lines) (first ++ fragment) := by
  cases h with
  | read hnew hread hinner => exact .replace hline hnew hread hinner hrest

/-- If files may have more texts, an include line expands to no less. -/
theorem UnfoldsTarget.mono {target : String}
    (h : UnfoldsTarget has openFiles file target number fragment)
    {more : SourcePath → String → Prop} (hmore : ∀ path text, has path text → more path text) :
    UnfoldsTarget more openFiles file target number fragment := by
  cases h with
  | read hnew hread hinner => exact .read hnew (hmore _ _ hread) (hinner.mono hmore)

/-- If all texts that files may have are those of some contents, lines expand by the rules over
these contents. -/
theorem Unfolds.expands (h : Unfolds has openFiles file number lines fragment)
    {contents : Contents} (hcontents : ∀ path text, has path text → contents path = .ok text) :
    Expands contents openFiles file number lines fragment := by
  induction h with
  | done => exact .done
  | keep hline _ ih => exact .keep hline ih
  | replace hline hnew hread _ _ ihinner ihrest =>
    exact .replace hline hnew (hcontents _ _ hread) ihinner ihrest

/-- What lines expand to by the rules over some contents they expand to while files may have the
texts of these. -/
theorem Expands.unfolds {contents : Contents}
    (h : Expands contents openFiles file number lines fragment) :
    Unfolds (fun path text => contents path = .ok text) openFiles file number lines fragment := by
  induction h with
  | done => exact .done
  | keep hline _ ih => exact .keep hline ih
  | replace hline hnew hread _ _ ihinner ihrest => exact .replace hline hnew hread ihinner ihrest

/-- The files that an expansion reads are those that its include lines name, in their order. -/
theorem Unfolds.paths_eq (h : Unfolds has openFiles file number lines fragment) :
    fragment.contents.map FileText.path = fragment.edges.map Edge.included := by
  induction h with
  | done => rfl
  | keep _ _ ih => exact ih
  | @replace openFiles file number line rest target text inner others _ _ _ _ _ ihinner ihrest =>
    have hedges : (Fragment.ofInclude ⟨file, file.resolveInclude target, number⟩ text inner ++
        others).edges = ⟨file, file.resolveInclude target, number⟩ :: inner.edges ++ others.edges :=
      rfl
    rw [Fragment.contents_ofInclude_append, hedges, List.map_append, List.map_append, List.map_cons,
      List.map_cons, ihinner, ihrest]

end Unfolds

/-! ### Whole lines -/

/-- Lines that expand to lines of a text: what one line becomes does not run into the next. A text
that ends its lines expands to one that does. -/
theorem Unfolds.hasLines {has : SourcePath → String → Prop} {openFiles : List SourcePath}
    {file : SourcePath} {number : Nat} {lines : List (List Char)} {fragment : Fragment}
    (h : Unfolds has openFiles file number lines fragment) {text : List Char}
    (hlines : Text.lines text = lines) :
    Fragment.HasLines fragment.lines ∧
      (Text.EndsLine text → Text.EndsLine (fragment.lines.flatMap SourceLine.text)) := by
  induction h generalizing text with
  | done => exact ⟨rfl, fun _ => Text.endsLine_nil⟩
  | @keep openFiles file number line rest others _ hrest ih =>
    obtain ⟨other, rfl, hline, hother, hends⟩ := Text.lines_eq_cons hlines
    obtain ⟨hothers, hothersEnd⟩ := ih hother
    show Text.lines (line ++ others.lines.flatMap SourceLine.text) =
        line :: others.lines.map SourceLine.text ∧
      (_ → Text.EndsLine (line ++ others.lines.flatMap SourceLine.text))
    rcases hends with rfl | hends
    · obtain rfl := hother
      cases hrest
      simp only [Fragment.empty, List.flatMap_nil, List.append_nil, List.map_nil]
      exact ⟨hline, id⟩
    · rw [Text.lines_append hends, hline, hothers]
      exact ⟨rfl, fun htext => hends.append (hothersEnd htext.right)⟩
  | @replace openFiles file number line rest target included inner others _ _ _ _ _ ihinner
      ihrest =>
    obtain ⟨other, rfl, -, hother, -⟩ := Text.lines_eq_cons hlines
    obtain ⟨hothers, hothersEnd⟩ := ihrest hother
    obtain ⟨hended, hinner⟩ := Fragment.terminateLast_text (ihinner rfl).1
    show Text.lines ((Fragment.terminateLast inner.lines ++ others.lines).flatMap
          SourceLine.text) =
        (Fragment.terminateLast inner.lines ++ others.lines).map SourceLine.text ∧
      (_ → Text.EndsLine ((Fragment.terminateLast inner.lines ++ others.lines).flatMap
          SourceLine.text))
    have hends := Text.endsLine_ended (inner.lines.flatMap SourceLine.text)
    rw [← hended] at hends
    rw [List.flatMap_append, List.map_append, Text.lines_append hends, hothers, hinner]
    exact ⟨rfl, fun htext => hends.append (hothersEnd htext.right)⟩

/-- Behind whole lines, an included text is whole lines, too. -/
theorem Unfolds.endsLine_extend {has : SourcePath → String → Prop} {openFiles : List SourcePath}
    {file : SourcePath} {number : Nat} {text : List Char} {inner : Fragment}
    (h : Unfolds has openFiles file number (Text.lines text) inner) {out : Expansion}
    (hout : Text.EndsLine out.text) (edge : Edge) (included : String) :
    Text.EndsLine (out.extend (.ofInclude edge included inner)).text := by
  have hended := (Fragment.terminateLast_text (h.hasLines rfl).1).1
  refine Expansion.endsLine_extend hout ?_
  rw [Fragment.ofInclude, hended]
  exact Text.endsLine_ended _

/-- Behind whole lines, what an include line expands to is whole lines, too. -/
theorem UnfoldsTarget.endsLine_extend {has : SourcePath → String → Prop}
    {openFiles : List SourcePath} {includer : SourcePath} {target : String} {number : Nat}
    {first : Fragment} (h : UnfoldsTarget has openFiles includer target number first)
    {out : Expansion} (hout : Text.EndsLine out.text) :
    Text.EndsLine (out.extend first).text := by
  cases h with
  | read _ _ hinner => exact hinner.endsLine_extend hout _ _

/-! ### Files that are read -/

variable {contents : Contents}

/-- The texts that an expansion reads are those of rooted files that were not open. -/
theorem Expands.contents_of_mem {openFiles : List SourcePath} {file : SourcePath} {number : Nat}
    {lines : List (List Char)} {fragment : Fragment}
    (h : Expands contents openFiles file number lines fragment) :
    ∀ read ∈ fragment.contents,
      read.path ∉ openFiles ∧ read.path.IsRooted ∧ contents read.path = .ok read.text := by
  induction h with
  | done => simp [Fragment.empty]
  | keep _ _ ih => exact ih
  | @replace openFiles file number line rest target text inner others _ hnew hread _ _ ihinner
      ihrest =>
    intro read hmem
    have hcases : read = ⟨file.resolveInclude target, text⟩ ∨ read ∈ inner.contents ∨
        read ∈ others.contents := by
      have happend := List.mem_append.mp hmem
      rcases happend with hfirst | hothers
      · rcases List.mem_cons.mp hfirst with heq | hinner
        · exact .inl heq
        · exact .inr (.inl hinner)
      · exact .inr (.inr hothers)
    rcases hcases with rfl | hinner | hothers
    · exact ⟨hnew, SourcePath.isRooted_resolveInclude _ _, hread⟩
    · obtain ⟨hclosed, hrooted, hcontents⟩ := ihinner read hinner
      exact ⟨fun hopen => hclosed (List.mem_append_left _ hopen), hrooted, hcontents⟩
    · exact ihrest read hothers

/-- A chain of nested includes never repeats a file: the bound on the number of files that an
include reads leaves one less for the included text. -/
theorem Expands.length_le_of_include {openFiles : List SourcePath} {edge : Edge} {number : Nat}
    {lines : List (List Char)} {text : String} {inner others : Fragment}
    (hinner : Expands contents (openFiles ++ [edge.included]) edge.included number lines inner)
    {depth : Nat} (hdepth : ∀ files : List SourcePath, files.Nodup →
      files ⊆ (Fragment.ofInclude edge text inner ++ others).contents.map FileText.path →
        files.length ≤ depth + 1)
    {files : List SourcePath} (hnodup : files.Nodup)
    (hsubset : files ⊆ inner.contents.map FileText.path) : files.length ≤ depth := by
  have hfresh : edge.included ∉ files := by
    intro hmem
    obtain ⟨read, hread, hpath⟩ := List.mem_map.mp (hsubset hmem)
    have hclosed := (hinner.contents_of_mem read hread).1
    exact hclosed (by simp [hpath])
  rw [Fragment.contents_ofInclude_append] at hdepth
  have hlonger := hdepth (edge.included :: files) (List.nodup_cons.mpr ⟨hfresh, hnodup⟩) (by
    intro path hpath
    rcases List.mem_cons.mp hpath with rfl | hpath
    · simp
    · have hread := hsubset hpath
      simp only [List.map_append, List.map_cons, List.cons_append, List.mem_cons, List.mem_append]
      exact .inr (.inl hread))
  rw [List.length_cons] at hlonger
  exact Nat.le_of_succ_le_succ hlonger

end ShaderAssembly.Include
