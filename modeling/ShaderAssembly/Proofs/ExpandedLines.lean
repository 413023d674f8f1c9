import ShaderAssembly.Proofs.IncludeSubstitution
import ShaderAssembly.Proofs.LineMaps

/-!
# Where the lines of an expansion come from

Every line of an expansion is an ordinary line of the text that is expanded, or the whole of a line
of an included file, apart from a line feed that may have been added. Its file is the file of the
text or one that was included, directly or not.
-/

namespace ShaderAssembly.Include

variable {contents : Contents} {has : SourcePath → String → Prop} {openFiles : List SourcePath}
  {file : SourcePath} {number : Nat} {lines : List (List Char)} {fragment : Fragment}

/-- Whether a line is, up to a line feed at its end, the line of a file that it comes from. -/
def IsWholeLine (contents : Contents) (line : SourceLine) : Prop :=
  ∃ text index source, contents line.origin.file = .ok text ∧ line.origin.line = index + 1 ∧
    (Text.lines text.toList)[index]? = some source ∧
      Text.unended line.text = Text.unended source

/-- Ending the last of some lines leaves each of them the line of a file that it comes from. -/
theorem isWholeLine_of_mem_terminateLast {sourceLines : List SourceLine}
    (h : ∀ line ∈ sourceLines, IsWholeLine contents line) :
    ∀ line ∈ Fragment.terminateLast sourceLines, IsWholeLine contents line := by
  intro line hline
  obtain ⟨other, hother, horigin, htext⟩ := Fragment.mem_terminateLast hline
  obtain ⟨text, index, source, hread, hnumber, hsource, hsame⟩ := h other hother
  have hunended : Text.unended line.text = Text.unended other.text := by
    rcases htext with htext | htext
    · rw [htext]
    · rw [htext, Text.unended_terminated]
  rw [← horigin] at hread hnumber
  exact ⟨text, index, source, hread, hnumber, hsource, hunended.trans hsame⟩

/-- Whether a line, at a position among `total` lines, is one of the lines of a text that starts on
a line of a file. The first line and the last line of the text are the first and the last one of
them all. -/
def IsOwnLine (file : SourcePath) (number : Nat) (lines : List (List Char)) (total position : Nat)
    (line : SourceLine) : Prop :=
  ∃ index, lines[index]? = some line.text ∧ line.origin = ⟨file, number + index⟩ ∧
    (index = 0 → position = 0) ∧ (index + 1 = lines.length → position + 1 = total)

/-- A line of the rest of a text is a line of the text, behind those that its first line leads
to. -/
theorem IsOwnLine.behind {rest : List (List Char)} {total position : Nat} {line : SourceLine}
    (h : IsOwnLine file (number + 1) rest total position line) (first : List Char) (offset : Nat) :
    IsOwnLine file number (first :: rest) (offset + total) (offset + position) line := by
  obtain ⟨index, hindex, horigin, -, hlast⟩ := h
  refine ⟨index + 1, hindex, ?_, nofun, fun hlength => ?_⟩
  · rw [horigin, Nat.add_assoc, Nat.add_comm 1]
  · rw [Nat.add_assoc, hlast (Nat.succ.inj hlength)]

/-- The lines of an included text that is expanded are whole lines of their files. -/
theorem isWholeLine_of_included {text : String} (hread : contents file = .ok text)
    {inner : List SourceLine} (hinner : ∀ position line, inner[position]? = some line →
      IsOwnLine file 1 (Text.lines text.toList) inner.length position line ∨
        IsWholeLine contents line) :
    ∀ line ∈ Fragment.terminateLast inner, IsWholeLine contents line := by
  refine isWholeLine_of_mem_terminateLast fun line hline => ?_
  obtain ⟨position, hposition⟩ := List.mem_iff_getElem?.mp hline
  rcases hinner position line hposition with ⟨index, hindex, horigin, -, -⟩ | hwhole
  · refine ⟨text, index, line.text, ?_, ?_, hindex, rfl⟩
    · rw [horigin]
      exact hread
    · rw [horigin, Nat.add_comm]
  · exact hwhole

/-- A line of an expansion is a line of the text, at its place in the file, or the whole of a line
of another file. -/
theorem Expands.getElem?_lines (h : Expands contents openFiles file number lines fragment)
    {position : Nat} {line : SourceLine} (hline : fragment.lines[position]? = some line) :
    IsOwnLine file number lines fragment.lines.length position line ∨
      IsWholeLine contents line := by
  induction h generalizing position line with
  | done => cases hline
  | @keep openFiles file number first rest others _ hrest ih =>
    have hlines : (Fragment.ofLine first file number ++ others).lines =
        ⟨first, file, number⟩ :: others.lines := rfl
    rw [hlines] at hline ⊢
    cases position with
    | zero =>
      rw [List.getElem?_cons_zero] at hline
      cases hline
      refine .inl ⟨0, rfl, rfl, fun _ => rfl, fun hlast => ?_⟩
      have hnil : rest = [] := by simpa using hlast
      subst hnil
      cases hrest
      rfl
    | succ position =>
      rw [List.getElem?_cons_succ] at hline
      rw [List.length_cons, Nat.add_comm _ 1, Nat.add_comm position]
      exact (ih hline).imp_left fun hown => hown.behind first 1
  | @replace openFiles file number first rest target text inner others _ _ hread _ _ ihinner
      ihrest =>
    have hlines : (Fragment.ofInclude ⟨file, file.resolveInclude target, number⟩ text inner ++
        others).lines = Fragment.terminateLast inner.lines ++ others.lines := rfl
    rw [hlines] at hline ⊢
    have hwhole := isWholeLine_of_included hread fun _ _ => ihinner
    generalize Fragment.terminateLast inner.lines = included at hline hwhole ⊢
    by_cases hinner : position < included.length
    · rw [List.getElem?_append_left hinner] at hline
      exact .inr (hwhole line (List.mem_of_getElem? hline))
    · obtain ⟨place, rfl⟩ := Nat.exists_eq_add_of_le (Nat.le_of_not_lt hinner)
      rw [List.getElem?_append_right (Nat.le_add_right _ _), Nat.add_sub_cancel_left] at hline
      rw [List.length_append]
      exact (ihrest hline).imp_left fun hown => hown.behind first included.length

/-- The file of a line of an expansion is reached from the file of the text by the include lines
that were replaced. -/
theorem Unfolds.file_of_mem_lines (h : Unfolds has openFiles file number lines fragment)
    {P : SourcePath → Prop} (hfile : P file)
    (hedges : ∀ edge ∈ fragment.edges, P edge.includer → P edge.included) :
    ∀ line ∈ fragment.lines, P line.origin.file := by
  induction h with
  | done => exact nofun
  | keep _ _ ih =>
    intro line hmem
    rcases List.mem_cons.mp hmem with rfl | hrest
    · exact hfile
    · exact ih hfile hedges line hrest
  | @replace openFiles file number first rest target text inner others _ _ _ _ _ ihinner ihrest =>
    have hcons : (Fragment.ofInclude ⟨file, file.resolveInclude target, number⟩ text inner ++
        others).edges = ⟨file, file.resolveInclude target, number⟩ :: (inner.edges ++
          others.edges) := rfl
    rw [hcons] at hedges
    have hincluded : P (file.resolveInclude target) := hedges _ (List.mem_cons_self ..) hfile
    intro line hmem
    rcases List.mem_append.mp hmem with hinner | hrest
    · obtain ⟨other, hother, horigin, -⟩ := Fragment.mem_terminateLast hinner
      rw [horigin]
      exact ihinner hincluded (fun edge hedge => hedges edge
        (List.mem_cons_of_mem _ (List.mem_append_left _ hedge))) other hother
    · exact ihrest hfile (fun edge hedge => hedges edge
        (List.mem_cons_of_mem _ (List.mem_append_right _ hedge))) line hrest

/-- Every include line that was replaced is a line that names the included file. -/
theorem Unfolds.exists_line_of_mem_edges
    (h : Unfolds has openFiles file number lines fragment)
    (hlines : ∀ line ∈ lines, Text.lines line = [line]) :
    ∀ edge ∈ fragment.edges, ∃ line target, Text.lines line = [line] ∧
      Directive.ofLine line = .target target ∧
        edge.included = edge.includer.resolveInclude target := by
  induction h with
  | done => exact nofun
  | keep _ _ ih => exact ih fun line hline => hlines line (List.mem_cons_of_mem _ hline)
  | @replace openFiles file number first rest target text inner others hfirst _ _ _ _ ihinner
      ihrest =>
    intro edge hmem
    have hcases : edge = ⟨file, file.resolveInclude target, number⟩ ∨ edge ∈ inner.edges ∨
        edge ∈ others.edges := by
      rcases List.mem_append.mp hmem with hinclude | hothers
      · rcases List.mem_cons.mp hinclude with heq | hinner
        · exact .inl heq
        · exact .inr (.inl hinner)
      · exact .inr (.inr hothers)
    rcases hcases with rfl | hinner | hothers
    · exact ⟨first, target, hlines first (by simp), hfirst, rfl⟩
    · exact ihinner (fun line hline => Text.lines_of_mem_lines hline) edge hinner
    · exact ihrest (fun line hline => hlines line (List.mem_cons_of_mem _ hline)) edge hothers

/-- The files with include lines are reached from the file of the text, too. -/
theorem Unfolds.includer_of_mem_edges
    (h : Unfolds has openFiles file number lines fragment) {P : SourcePath → Prop}
    (hfile : P file) (hedges : ∀ edge ∈ fragment.edges, P edge.includer → P edge.included) :
    ∀ edge ∈ fragment.edges, P edge.includer := by
  induction h with
  | done => exact nofun
  | keep _ _ ih => exact ih hfile hedges
  | @replace openFiles file number first rest target text inner others _ _ _ _ _ ihinner ihrest =>
    have hcons : (Fragment.ofInclude ⟨file, file.resolveInclude target, number⟩ text inner ++
        others).edges = ⟨file, file.resolveInclude target, number⟩ :: (inner.edges ++
          others.edges) := rfl
    rw [hcons] at hedges ⊢
    have hincluded : P (file.resolveInclude target) := hedges _ (List.mem_cons_self ..) hfile
    intro edge hmem
    rcases List.mem_cons.mp hmem with rfl | hmem
    · exact hfile
    · rcases List.mem_append.mp hmem with hinner | hothers
      · exact ihinner hincluded (fun edge hedge => hedges edge
          (List.mem_cons_of_mem _ (List.mem_append_left _ hedge))) edge hinner
      · exact ihrest hfile (fun edge hedge => hedges edge
          (List.mem_cons_of_mem _ (List.mem_append_right _ hedge))) edge hothers

/-- All include lines that were replaced lead from rooted files to rooted files. -/
theorem Unfolds.isRooted_of_mem_edges {text : List Char}
    (h : Unfolds has openFiles file number (Text.lines text) fragment)
    (hfile : file.IsRooted) :
    ∀ edge ∈ fragment.edges, edge.includer.IsRooted ∧ edge.included.IsRooted := by
  have hincluded : ∀ edge ∈ fragment.edges, edge.included.IsRooted := by
    intro edge hedge
    obtain ⟨-, target, -, -, heq⟩ :=
      h.exists_line_of_mem_edges (fun line hline => Text.lines_of_mem_lines hline) edge hedge
    rw [heq]
    exact SourcePath.isRooted_resolveInclude _ _
  intro edge hedge
  exact ⟨h.includer_of_mem_edges hfile (fun other hother _ => hincluded other hother) edge hedge,
    hincluded edge hedge⟩

/-- Every line of the expanded text is a line of the expansion, which is found under its number. -/
theorem Unfolds.exists_line_of_source {text : List Char}
    (h : Unfolds has openFiles file number (Text.lines text) fragment)
    (hfile : file.IsRooted) {index : Nat} {line : List Char}
    (hline : (Text.lines fragment.source.text.toList)[index]? = some line) :
    ∃ found, fragment.lines[index]? = some found ∧ found.text = line ∧
      found.origin.file.IsRooted ∧
        fragment.source.map.locate (index + 1) = some found.origin := by
  have hrooted : ∀ other ∈ fragment.lines, other.origin.file.IsRooted :=
    h.file_of_mem_lines hfile fun edge hedge _ => (h.isRooted_of_mem_edges hfile edge hedge).2
  have hlines : Text.lines fragment.source.text.toList = fragment.lines.map SourceLine.text := by
    rw [Fragment.toList_source_text]
    exact (h.hasLines rfl).1
  rw [hlines, List.getElem?_map] at hline
  obtain ⟨found, hfound, htext⟩ := Option.map_eq_some_iff.mp hline
  have hlocate := ExpandedText.locate_ofLines hrooted index
  rw [hfound, Option.map_some] at hlocate
  exact ⟨found, hfound, htext, hrooted found (List.mem_of_getElem? hfound), hlocate⟩

/-- Lines that the expanded text does not have are found nowhere. -/
theorem Unfolds.locate_eq_none {text : List Char}
    (h : Unfolds has openFiles file number (Text.lines text) fragment)
    (hfile : file.IsRooted) {index : Nat}
    (hline : (Text.lines fragment.source.text.toList)[index]? = none) :
    fragment.source.map.locate (index + 1) = none := by
  have hrooted : ∀ other ∈ fragment.lines, other.origin.file.IsRooted :=
    h.file_of_mem_lines hfile fun edge hedge _ => (h.isRooted_of_mem_edges hfile edge hedge).2
  rw [Fragment.toList_source_text, (h.hasLines rfl).1, List.getElem?_map,
    Option.map_eq_none_iff] at hline
  have hlocate := ExpandedText.locate_ofLines hrooted index
  rw [hline] at hlocate
  exact hlocate

/-! ### Names of included files stay on one line -/

section Names

/-- A line feed at the end of a text is trimmed away. -/
theorem not_mem_trimEnd {text : List Char} (h : '\n' ∉ text.dropLast) :
    '\n' ∉ Text.trimEnd text := by
  rcases List.eq_nil_or_concat text with rfl | ⟨before, c, rfl⟩
  · exact fun hmem => absurd (Text.mem_of_mem_trimEnd hmem) (by simp)
  · rw [List.concat_eq_append, List.dropLast_concat] at h
    rw [List.concat_eq_append, Text.trimEnd, List.reverse_append, List.reverse_singleton,
      List.singleton_append, List.dropWhile_cons]
    split
    · exact fun hmem => h (Text.mem_of_mem_trimEnd hmem)
    · rename_i hblank
      intro hmem
      rcases List.mem_cons.mp (List.mem_reverse.mp hmem) with hc | hbefore
      · rw [← hc] at hblank
        exact hblank (by decide)
      · exact h (List.mem_reverse.mp hbefore)

/-- The end of a line has a line feed only at its own end. -/
theorem not_mem_dropLast_of_isSuffix {line text : List Char} (hline : Text.lines line = [line])
    (h : text <:+ line) : '\n' ∉ text.dropLast := by
  have hwhole : '\n' ∉ line.dropLast := by
    obtain ⟨before, hbefore, rfl | rfl⟩ := Text.eq_of_lines_eq_singleton hline
    · exact fun hmem => hbefore ((List.dropLast_sublist _).subset hmem)
    · rw [List.dropLast_concat]
      exact hbefore
  obtain ⟨before, rfl⟩ := h
  by_cases hnil : text = []
  · simp [hnil]
  · rw [List.dropLast_append_of_ne_nil hnil] at hwhole
    exact fun hmem => hwhole (List.mem_append_right _ hmem)

/-- What follows the word of an include line is the end of the line. -/
theorem isSuffix_of_afterWord? {line after : List Char}
    (h : Directive.afterWord? line = some after) : after <:+ line := by
  unfold Directive.afterWord? at h
  split at h
  · rename_i rest hstart
    split at h
    · rename_i other hword
      split at h
      · cases h
        have hsplit := List.isPrefixOf?_eq_some_iff_append_eq.mp hword
        have hother : after <:+ Text.trimStart rest := ⟨_, hsplit⟩
        have hrest : '#' :: rest <:+ line := by
          rw [← hstart]
          exact List.dropWhile_suffix _
        exact hother.trans ((List.dropWhile_suffix _).trans
          ((List.suffix_cons '#' rest).trans hrest))
      · cases h
    · cases h
  · cases h

/-- The path in an include line has characters of what follows the word, without the blanks at its
end. -/
theorem mem_of_mem_target? {text path : List Char} (h : Directive.target? text = some path)
    {c : Char} (hc : c ∈ path) : c ∈ Text.trimEnd text := by
  have henclosed : ∀ {closing : Char} {rest inside : List Char},
      Directive.enclosed? closing rest = some inside → c ∈ inside → c ∈ rest := by
    intro closing rest inside hinside hmem
    unfold Directive.enclosed? at hinside
    split at hinside
    · dsimp only at hinside
      split at hinside
      · cases hinside
        exact (List.takeWhile_sublist _).subset hmem
      · cases hinside
    · cases hinside
  unfold Directive.target? at h
  obtain ⟨hmap, -⟩ := Option.filter_eq_some_iff.mp h
  obtain ⟨inside, hinside, rfl⟩ := Option.map_eq_some_iff.mp hmap
  have hmem := Text.mem_of_mem_trim hc
  split at hinside
  · rename_i rest hstart
    have hrest := henclosed hinside hmem
    exact Text.mem_of_mem_trimStart (by rw [hstart]; exact List.mem_cons_of_mem _ hrest)
  · rename_i rest hstart
    have hrest := henclosed hinside hmem
    exact Text.mem_of_mem_trimStart (by rw [hstart]; exact List.mem_cons_of_mem _ hrest)
  · cases hinside

/-- The path in an include line has no line feed. -/
theorem not_mem_of_ofLine_eq_target {line : List Char} (hline : Text.lines line = [line])
    {target : String} (h : Directive.ofLine line = .target target) : '\n' ∉ target.toList := by
  unfold Directive.ofLine at h
  split at h
  · cases h
  · rename_i after hafter
    split at h
    · cases h
    · rename_i path hpath
      cases h
      rw [String.toList_ofList]
      intro hmem
      exact not_mem_trimEnd (not_mem_dropLast_of_isSuffix hline (isSuffix_of_afterWord? hafter))
        (mem_of_mem_target? hpath hmem)

/-- The paths of all files that lines of an expansion come from have no line feed if that of the
file of the text has none. -/
theorem Unfolds.not_mem_of_mem_lines {text : List Char}
    (h : Unfolds has openFiles file number (Text.lines text) fragment)
    (hfile : '\n' ∉ file.text.toList) :
    ∀ line ∈ fragment.lines, '\n' ∉ line.origin.file.text.toList := by
  refine h.file_of_mem_lines (P := fun path => '\n' ∉ path.text.toList) hfile ?_
  intro edge hedge hincluder
  obtain ⟨line, target, hline, htarget, heq⟩ :=
    h.exists_line_of_mem_edges (fun line hline => Text.lines_of_mem_lines hline) edge hedge
  rw [heq]
  intro hmem
  rcases SourcePath.mem_resolveInclude hmem with hslash | hincluded | htext
  · exact absurd hslash (by decide)
  · exact hincluder hincluded
  · exact not_mem_of_ofLine_eq_target hline htarget htext

end Names

end ShaderAssembly.Include
