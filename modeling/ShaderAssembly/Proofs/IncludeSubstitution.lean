import ShaderAssembly.Proofs.IncludeRuns

/-!
# Expansion is substitution

The expanded text of a file is what the file's own text becomes when every include line is
substituted by the expanded text of the file it names, ended with a line feed where that lacks
one. A run puts all files out into one text instead, and what it looks at behind an included file is
the end of that whole text. That both give the same rests on every line starting behind whole lines,
so that the end of the whole text is that of the included one unless that is empty, and then nothing
is to be ended. No line of the result is an include line, so there is nothing left to expand in
it.
-/

namespace ShaderAssembly.Include

variable {σ : Type} {contents : Contents}

/-- What a text in a file becomes by substitution, and the include lines that were substituted in
the order in which that happens. The text is given by its lines, the first of which has the given
number. -/
inductive Substitutes (contents : Contents) : SourcePath → Nat → List (List Char) →
    List Char → List Edge → Prop where
  /-- Nothing comes from no lines. -/
  | nil {file : SourcePath} {number : Nat} : Substitutes contents file number [] [] []
  /-- A line that is no include line is kept as it is. -/
  | keep {file : SourcePath} {number : Nat} {line : List Char} {rest : List (List Char)}
      {text : List Char} {edges : List Edge} (hline : Directive.ofLine line = .none)
      (hrest : Substitutes contents file (number + 1) rest text edges) :
      Substitutes contents file number (line :: rest) (line ++ text) edges
  /-- An include line gives way to what the text of the file it names becomes. -/
  | replace {file : SourcePath} {number : Nat} {line : List Char} {rest : List (List Char)}
      {target included : String} {inner text : List Char} {innerEdges edges : List Edge}
      (hline : Directive.ofLine line = .target target)
      (hread : contents (file.resolveInclude target) = .ok included)
      (hinner : Substitutes contents (file.resolveInclude target) 1
        (Text.lines included.toList) inner innerEdges)
      (hrest : Substitutes contents file (number + 1) rest text edges) :
      Substitutes contents file number (line :: rest) (Text.ended inner ++ text)
        (⟨file, file.resolveInclude target, number⟩ :: (innerEdges ++ edges))

/-- There is only one text and one list of include lines that substitution gives. -/
theorem Substitutes.unique {file : SourcePath} {number : Nat} {lines : List (List Char)}
    {text other : List Char} {edges otherEdges : List Edge}
    (h : Substitutes contents file number lines text edges)
    (hother : Substitutes contents file number lines other otherEdges) :
    text = other ∧ edges = otherEdges := by
  induction h generalizing other otherEdges with
  | nil =>
    cases hother
    exact ⟨rfl, rfl⟩
  | keep hline _ ih =>
    cases hother with
    | keep _ hrest =>
      obtain ⟨rfl, rfl⟩ := ih hrest
      exact ⟨rfl, rfl⟩
    | replace htarget => exact absurd (hline.symm.trans htarget) nofun
  | replace hline hread _ _ ihinner ihrest =>
    cases hother with
    | keep hnone => exact absurd (hline.symm.trans hnone) nofun
    | replace htarget hagain hinner hrest =>
      obtain rfl := Directive.target.inj (hline.symm.trans htarget)
      obtain rfl := Except.ok.inj (hread.symm.trans hagain)
      obtain ⟨rfl, rfl⟩ := ihinner hinner
      obtain ⟨rfl, rfl⟩ := ihrest hrest
      exact ⟨rfl, rfl⟩

/-! ### Directives and what stands behind a line -/

namespace Directive

/-- Blanks at the start are cut off in front of what follows them, too. -/
theorem trimStart_append (text other : List Char) : Text.trimStart (text ++ other) =
    if Text.trimStart text = [] then Text.trimStart other else Text.trimStart text ++ other := by
  induction text with
  | nil => rfl
  | cons c rest ih =>
    unfold Text.trimStart at ih ⊢
    rw [List.cons_append, List.dropWhile_cons, List.dropWhile_cons]
    by_cases hc : Text.isBlank c = true
    · rw [if_pos hc, if_pos hc]
      exact ih
    · rw [if_neg hc, if_neg hc, if_neg (List.cons_ne_nil _ _), List.cons_append]

/-- A word is found at the start of a text whatever stands behind that, unless the word goes on
there. -/
theorem isPrefixOf?_append {word other : List Char} (hother : ∀ c ∈ other.head?, c ∉ word)
    (text : List Char) :
    word.isPrefixOf? (text ++ other) = (word.isPrefixOf? text).map (· ++ other) := by
  induction word generalizing text with
  | nil => rfl
  | cons c rest ih =>
    cases text with
    | nil =>
      cases other with
      | nil => rfl
      | cons d more =>
        have hd : c ≠ d := fun heq => hother d rfl (by simp [heq])
        simp [List.isPrefixOf?, hd]
    | cons d more =>
      have hmore := ih (fun e he hmem => hother e he (List.mem_cons_of_mem _ hmem)) more
      rw [List.cons_append, List.isPrefixOf?, List.isPrefixOf?, hmore]
      split <;> rfl

/-- Whether a text cannot be part of what makes a line before it an include line. -/
structure EndsBefore (other : List Char) : Prop where
  /-- The word does not go on in the text. -/
  word : ∀ c ∈ other.head?, c ∉ "include".toList
  /-- Neither the mark nor the word starts in the text. -/
  mark : ∀ c ∈ (Text.trimStart other).head?, c ∉ "#include".toList

/-- A line is no include line before such a text if it is none alone. -/
theorem afterWord?_append {line other : List Char} (hother : EndsBefore other)
    (h : afterWord? line = Option.none) : afterWord? (line ++ other) = Option.none := by
  unfold afterWord? at h ⊢
  rw [trimStart_append]
  split_ifs with hblank
  · split
    · rename_i heq
      exact absurd (by decide) (hother.mark '#' (by rw [heq, List.head?_cons]; rfl))
    · rfl
  · cases htrim : Text.trimStart line with
    | nil => exact absurd htrim hblank
    | cons c rest =>
      rw [htrim] at h
      by_cases hc : c = '#'
      · subst hc
        simp only [List.cons_append] at h ⊢
        rw [trimStart_append]
        split_ifs with hrest
        · cases hstart : Text.trimStart other with
          | nil => rfl
          | cons d more =>
            have hd : 'i' ≠ d := by
              rintro rfl
              exact absurd (by decide) (hother.mark 'i' (by rw [hstart, List.head?_cons]; rfl))
            simp [List.isPrefixOf?, hd]
        · rw [isPrefixOf?_append hother.word]
          cases hword : "include".toList.isPrefixOf? (Text.trimStart rest) with
          | none => rfl
          | some after =>
            rw [hword] at h
            dsimp only [Option.map_some] at h ⊢
            split_ifs at h with hends
            cases after with
            | nil => exact absurd rfl hends
            | cons d more => exact if_neg hends
      · rw [List.cons_append]
        split
        · rename_i heq
          exact absurd (List.cons.inj heq).1 hc
        · rfl

/-- An ordinary line stays one before such a text. -/
theorem ofLine_append {line other : List Char} (hother : EndsBefore other)
    (h : ofLine line = .none) : ofLine (line ++ other) = .none := by
  have hword : afterWord? line = Option.none := by
    cases hword : afterWord? line with
    | none => rfl
    | some after =>
      rw [ofLine, hword] at h
      dsimp only at h
      split at h <;> cases h
  rw [ofLine, afterWord?_append hother hword]

/-- An ordinary line stays one when it is ended. -/
theorem ofLine_terminated {line : List Char} (h : ofLine line = .none) :
    ofLine (Text.terminated line) = .none := by
  unfold Text.terminated
  split
  · exact h
  · refine ofLine_append ⟨?_, ?_⟩ h
    · rintro _ ⟨⟩
      decide
    · exact nofun

end Directive

/-! ### Expansions substitute -/

/-- What lines expand to is what they become by substitution. -/
theorem Expands.substitutes {openFiles : List SourcePath} {file : SourcePath} {number : Nat}
    {lines : List (List Char)} {expansion : Fragment}
    (h : Expands contents openFiles file number lines expansion) :
    Substitutes contents file number lines (expansion.lines.flatMap SourceLine.text)
      expansion.edges := by
  induction h with
  | done => exact .nil
  | keep hline _ ih => exact .keep hline ih
  | @replace openFiles file number line rest target included inner others hline _ hread hinner _
      ihinner ihrest =>
    have hended := (Fragment.terminateLast_text (hinner.unfolds.hasLines rfl).1).1
    have hreplace := Substitutes.replace hline hread ihinner ihrest
    rw [← hended, ← List.flatMap_append] at hreplace
    exact hreplace

/-- No line of an expansion is an include line. -/
theorem Expands.ofLine_eq_none {openFiles : List SourcePath} {file : SourcePath} {number : Nat}
    {lines : List (List Char)} {expansion : Fragment}
    (h : Expands contents openFiles file number lines expansion) :
    ∀ line ∈ expansion.lines, Directive.ofLine line.text = .none := by
  induction h with
  | done => exact nofun
  | keep hline _ ih =>
    intro line hmem
    rcases List.mem_cons.mp hmem with rfl | hrest
    · exact hline
    · exact ih line hrest
  | replace _ _ _ _ _ ihinner ihrest =>
    intro line hmem
    rcases List.mem_append.mp hmem with hinner | hrest
    · obtain ⟨other, hother, -, htext⟩ := Fragment.mem_terminateLast hinner
      have hnone := ihinner other hother
      rcases htext with htext | htext
      · rw [htext]
        exact hnone
      · rw [htext]
        exact Directive.ofLine_terminated hnone
    · exact ihrest line hrest

/-! ### Texts without include lines -/

section Ordinary

variable {provider : Provider σ} {text : String}

/-- Whether an expansion leaves a text as it is. -/
def Expansion.Keeps (expansion : Expansion) (text : String) : Prop :=
  expansion.source.text = text ∧ expansion.edges = []

/-- Ordinary lines are put out as they are, and nothing is read for them. -/
theorem outcomeFrom_expandLines_of_ordinary
    (expand : SourcePath → String → Position → Expansion → Action (Expanding σ) Error Expansion)
    (file : SourcePath) (number : Nat) (out : Expansion) (expanding : Expanding σ)
    {lines : List (List Char)} (h : ∀ line ∈ lines, Directive.ofLine line = .none) :
    ∃ again, (expandLines expand file number lines out).outcomeFrom expanding = .ok again ∧
      again.text = out.text ++ lines.flatten ∧ again.edges = out.edges := by
  induction lines generalizing number out with
  | nil => exact ⟨out, rfl, (List.append_nil _).symm, rfl⟩
  | cons line rest ih =>
    obtain ⟨again, hagain, htext, hedges⟩ := ih (number + 1) (out.pushLine line file number)
      fun other hother => h other (List.mem_cons_of_mem _ hother)
    refine ⟨again, ?_, ?_, hedges⟩
    · rw [(expandLines_of_none _ _ _ rest _ expanding (h line (by simp))).1, hagain]
    · rw [htext, List.flatten_cons, ← List.append_assoc]
      rfl

/-- A text without include lines expands to itself, whatever stands in other files. -/
theorem outcomeFrom_expandText_of_ordinary
    (h : ∀ line ∈ Text.lines text.toList, Directive.ofLine line = .none) (provider : Provider σ)
    (file : SourcePath) (firstLine : Nat) (expanding : Expanding σ) :
    ∃ again, (expandText provider file text firstLine).outcomeFrom expanding = .ok again ∧
      again.Keeps text := by
  obtain ⟨again, hagain, htext, hedges⟩ := outcomeFrom_expandLines_of_ordinary
    (expandTarget provider (provider.fileLimit expanding.sources + 1)) file firstLine .empty
    expanding h
  refine ⟨again, ?_, ?_, hedges⟩
  · rw [(expandText_eq provider file text firstLine expanding).1, hagain]
  · have hwhole : again.text = text.toList := by
      rw [htext, Text.flatten_lines]
      rfl
    rw [Expansion.source, hwhole, String.ofList_toList]

/-- A file whose text has no include lines expands to its text. -/
theorem outcomeFrom_expandFile_of_ordinary
    (h : ∀ line ∈ Text.lines text.toList, Directive.ofLine line = .none) {path : SourcePath}
    {sources : σ} (hread : (provider.read path).outcomeFrom sources = .ok text)
    (openFiles : List SourcePath) :
    ∃ again, (expandFile provider path).outcomeFrom ⟨sources, openFiles⟩ = .ok again ∧
      again.Keeps text := by
  have hok : (Expanding.onSources (provider.readFile path)).outcomeFrom
      ⟨sources, openFiles⟩ = .ok text := by
    rw [Expanding.outcomeFrom_onSources, Provider.readFile, Action.outcomeFrom_mapError, hread]
    rfl
  obtain ⟨again, hagain, hkeeps⟩ := outcomeFrom_expandText_of_ordinary h provider path 1
    ⟨(provider.readFile path).stateFrom sources, openFiles ++ [path]⟩
  refine ⟨{ again with contents := ⟨path, text⟩ :: again.contents }, ?_, hkeeps⟩
  refine (Action.outcomeFrom_bind_of_ok hok _).trans ?_
  refine (Action.outcomeFrom_bind_pure _ _ _).trans ?_
  rw [Expanding.stateFrom_onSources, Expanding.outcomeFrom_during, hagain]
  rfl

end Ordinary

/-- A file of unchanging sources that expands becomes what substitution makes of its text. The
edges are the include lines that were replaced, and the texts that were read are those of the file
and of the included files in that order. No line of the result is an include line, so it stays as
it is when it is expanded again, over any sources. -/
theorem expandFile_substitutes {provider : Provider σ} {state : σ}
    (h : provider.Serves state contents) {root : String} {expansion : Expansion}
    (hok : (withOpen [] (expandFile provider (.rooted root))).outcomeFrom state =
      .ok expansion) :
    (∃ text, contents (.rooted root) = .ok text ∧
      Substitutes contents (.rooted root) 1 (Text.lines text.toList)
        expansion.source.text.toList expansion.edges) ∧
    (expansion.contents.map FileText.path = .rooted root :: expansion.edges.map Edge.included ∧
      ∀ read ∈ expansion.contents, contents read.path = .ok read.text) ∧
    (∀ line ∈ Text.lines expansion.source.text.toList, Directive.ofLine line = .none) ∧
    ∀ (τ : Type) (other : Provider τ) (later : Expanding τ) (path : SourcePath),
      (∀ firstLine, ∃ again,
        (expandText other path expansion.source.text firstLine).outcomeFrom later = .ok again ∧
          again.Keeps expansion.source.text) ∧
      ((other.read path).outcomeFrom later.sources = .ok expansion.source.text →
        ∃ again, (expandFile other path).outcomeFrom later = .ok again ∧
          again.Keeps expansion.source.text) := by
  rw [outcomeFrom_withOpen] at hok
  obtain ⟨text, inner, hread, hexpands, rfl⟩ := expands_of_expandFile h hok
  have hlines : Text.lines inner.source.text.toList = inner.lines.map SourceLine.text := by
    rw [Fragment.toList_source_text]
    exact (hexpands.unfolds.hasLines rfl).1
  have hnone : ∀ line ∈ Text.lines inner.source.text.toList, Directive.ofLine line = .none := by
    intro line hline
    rw [hlines] at hline
    obtain ⟨source, hsource, rfl⟩ := List.mem_map.mp hline
    exact hexpands.ofLine_eq_none source hsource
  refine ⟨⟨text, hread, ?_⟩, ⟨?_, ?_⟩, hnone, fun τ other later path => ⟨?_, ?_⟩⟩
  · have hsubstitutes := hexpands.substitutes
    rw [← Fragment.toList_source_text] at hsubstitutes
    exact hsubstitutes
  · show _ :: inner.contents.map FileText.path = _
    rw [hexpands.unfolds.paths_eq]
    rfl
  · intro read hmem
    rcases List.mem_cons.mp hmem with rfl | hmem
    · exact hread
    · exact (hexpands.contents_of_mem read hmem).2.2
  · exact fun firstLine => outcomeFrom_expandText_of_ordinary hnone other path firstLine later
  · exact fun hagain => outcomeFrom_expandFile_of_ordinary hnone hagain later.openFiles

/-- An included text without a line feed at its end gets one, an empty text does not. -/
theorem expandFile_substitutes_siblings :
    let files := MemorySources.ofFiles
      [(⟨"/a.glsl"⟩, "1\n#include \"b.glsl\"\n#include \"c.glsl\"\n4"), (⟨"/b.glsl"⟩, "2"),
        (⟨"/c.glsl"⟩, "")]
    let expansion : Expansion :=
      { text := "1\n2\n4".toList
        map := ⟨[⟨3, 1, ⟨"/a.glsl"⟩, 4⟩, ⟨2, 1, ⟨"/b.glsl"⟩, 1⟩, ⟨1, 1, ⟨"/a.glsl"⟩, 1⟩]⟩
        count := 3
        edges := [⟨⟨"/a.glsl"⟩, ⟨"/b.glsl"⟩, 2⟩, ⟨⟨"/a.glsl"⟩, ⟨"/c.glsl"⟩, 3⟩]
        contents := [⟨⟨"/a.glsl"⟩, "1\n#include \"b.glsl\"\n#include \"c.glsl\"\n4"⟩,
          ⟨⟨"/b.glsl"⟩, "2"⟩, ⟨⟨"/c.glsl"⟩, ""⟩] }
    ∃ text, files.contents (.rooted "a.glsl") = .ok text ∧
      Substitutes files.contents (.rooted "a.glsl") 1 (Text.lines text.toList)
        expansion.source.text.toList expansion.edges :=
  (expandFile_substitutes (MemorySources.serves rfl) (by decide +kernel)).1

end ShaderAssembly.Include
