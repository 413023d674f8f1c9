import ShaderAssembly.Effect
import ShaderAssembly.Proofs.CodeBodies
import ShaderAssembly.Proofs.ExpandedLines
import ShaderAssembly.Proofs.LineMaps
import ShaderAssembly.Proofs.LinePlaces

/-!
# Where the lines of blocks come from

Every line of a block's expanded code is part of the line of a file that the block's map gives for
it. It is the whole of that line, except that the line with the opening brace of the block has more
before it and the line with the closing brace more after it. In a description that holds because
the body is expanded where it stands in the file. In an effect file the body stands in a text that
is expanded already, each line of which is the whole of a line of a file.
-/

namespace ShaderAssembly

open Include (Expands Unfolds Fragment IsWholeLine)

/-- Whether a line of a block is the part of a file's line at its origin that belongs to the block:
all of it but what stands before and after the braces of the block. -/
def StandsIn (contents : Contents) (block : CodeBlock) (index : Nat) (line : List Char)
    (origin : Origin) : Prop :=
  ∃ text fileLine before after, contents origin.file = .ok text ∧ 0 < origin.line ∧
    (Text.lines text.toList)[origin.line - 1]? = some fileLine ∧
      Text.unended fileLine = before ++ (Text.unended line ++ after) ∧
        (before = [] ∨ index = 0 ∧ before.getLast? = some '{' ∧
          block.position = ⟨origin.file, origin.line, before.length + 1⟩) ∧
            (after = [] ∨ index + 1 = block.expanded.lines.length ∧ after.head? = some '}')

/-- Whether every line of a block has an origin, in one of some files, where it stands. -/
structure CodeBlock.IsTraced (contents : Contents) (files : List SourcePath) (block : CodeBlock) :
    Prop where
  /-- The origin of each line. -/
  origin : ∀ index line, block.expanded.lines[index]? = some line →
    ∃ origin, block.expanded.locate (index + 1) = some origin ∧ origin.file ∈ files ∧
      '\n' ∉ origin.file.text.toList ∧ StandsIn contents block index line origin

/-- A line that is the whole of a line of a file stands in it. -/
theorem standsIn_of_isWholeLine {contents : Contents} {line : SourceLine}
    (h : IsWholeLine contents line) (block : CodeBlock) (index : Nat) :
    StandsIn contents block index line.text line.origin := by
  obtain ⟨text, number, source, hread, hnumber, hsource, hsame⟩ := h
  refine ⟨text, source, [], [], hread, ?_, ?_, ?_, .inl rfl, .inl rfl⟩
  · rw [hnumber]
    exact Nat.succ_pos number
  · rw [hnumber]
    exact hsource
  · rw [List.nil_append, List.append_nil, hsame]

/-! ### Bodies in texts -/

/-- Whether a line of a body is a line of the text that the body stands in, apart from what stands
before the opening brace, whose line the body starts on at a column, and behind the closing one. -/
def StandsOn (body : List Char) (column index : Nat) (line textLine : List Char) : Prop :=
  ∃ before after, Text.unended textLine = before ++ (Text.unended line ++ after) ∧
    (before = [] ∨ index = 0 ∧ before.getLast? = some '{' ∧ column = before.length + 1) ∧
      (after = [] ∨ index + 1 = (Text.lines body).length ∧ after.head? = some '}')

/-- The first line of a body starts behind the opening brace. -/
theorem line_pos_of_standsAt {text body : List Char} {place : Place}
    (h : StandsAt text body place) : 0 < place.line := by
  obtain ⟨earlier, later, -, hplace⟩ := h
  rw [hplace, Place.start_after]
  exact Nat.succ_pos _

/-- The lines of a body are lines of the text it stands in, apart from what stands before and after
the braces there. -/
theorem exists_line_of_standsAt {text body : List Char} {place : Place}
    (h : StandsAt text body place) {index : Nat} {line : List Char}
    (hline : (Text.lines body)[index]? = some line) :
    ∃ textLine, (Text.lines text)[place.line - 1 + index]? = some textLine ∧
      StandsOn body place.column index line textLine := by
  obtain ⟨earlier, later, htext, hplace⟩ := h
  obtain ⟨right, hfound, hright⟩ :=
    Text.getElem?_lines_around hline (earlier ++ ['{']) ('}' :: later)
  rw [List.append_assoc, List.singleton_append, ← htext] at hfound
  rw [Place.start_after] at hplace
  have hopen : Text.openLine (earlier ++ ['{']) = Text.openLine earlier ++ ['{'] :=
    Text.openLine_concat (by decide) earlier
  have hne : line ≠ [] := Text.ne_nil_of_mem_lines (List.mem_of_getElem? hline)
  have hnumber : place.line - 1 + index = (earlier ++ ['{']).count '\n' + index := by
    rw [hplace, Nat.add_sub_cancel]
  have hend : ∃ after, Text.unended (line ++ right) = Text.unended line ++ after ∧
      (after = [] ∨ index + 1 = (Text.lines body).length ∧ after.head? = some '}') := by
    rcases hright with rfl | ⟨hhead, hplain, hlast⟩
    · exact ⟨[], by rw [List.append_nil, List.append_nil], .inl rfl⟩
    · rw [List.head?_cons] at hhead
      have hrightne : right ≠ [] := by
        rintro rfl
        cases hhead
      refine ⟨Text.unended right, ?_, .inr ⟨hlast, Text.head?_unended hhead (by decide)⟩⟩
      rw [Text.unended_append hrightne, Text.unended_of_not_mem hplain]
  obtain ⟨after, hafter, hcases⟩ := hend
  refine ⟨_, hnumber ▸ hfound, if index = 0 then Text.openLine (earlier ++ ['{']) else [],
    after, ?_, ?_, hcases⟩
  · rw [Text.unended_append (by simp [hne]), hafter]
  · by_cases hindex : index = 0
    · rw [if_pos hindex]
      refine .inr ⟨hindex, ?_, by rw [hplace]⟩
      rw [hopen, List.getLast?_concat]
    · exact .inl (if_neg hindex)

/-- A line of a body stands in the line of a file that it is traced to if the line of the text does
and the block starts and ends with the body. -/
theorem standsIn_of_standsOn {contents : Contents} {block : CodeBlock} {origin : Origin}
    {body line textLine fileLine : List Char} {column index place : Nat} {text : String}
    (h : StandsOn body column index line textLine) (hread : contents origin.file = .ok text)
    (hnumber : 0 < origin.line)
    (hline : (Text.lines text.toList)[origin.line - 1]? = some fileLine)
    (hsame : Text.unended textLine = Text.unended fileLine)
    (hfirst : index = 0 → place = 0 ∧ block.position = ⟨origin.file, origin.line, column⟩)
    (hlast : index + 1 = (Text.lines body).length → place + 1 = block.expanded.lines.length) :
    StandsIn contents block place line origin := by
  obtain ⟨before, after, hparts, hbefore, hafter⟩ := h
  refine ⟨text, fileLine, before, after, hread, hnumber, hline, hsame ▸ hparts, ?_, ?_⟩
  · refine hbefore.imp id fun ⟨hzero, hbrace, hcolumn⟩ => ?_
    obtain ⟨hplace, hposition⟩ := hfirst hzero
    exact ⟨hplace, hbrace, by rw [hposition, hcolumn]⟩
  · exact hafter.imp id fun ⟨hend, hbrace⟩ => ⟨hlast hend, hbrace⟩

section Blocks

variable {contents : Contents} {has : SourcePath → String → Prop} {path : SourcePath}
  {text : String} {files : List SourcePath} {block : CodeBlock} {fragment : Fragment}

/-- A body of a file that is expanded where it stands is traced to files that include lines lead
to. -/
theorem isTraced_withExpansion (hread : contents path = .ok text) (hpath : path.IsRooted)
    (hplain : '\n' ∉ path.text.toList) {place : Place}
    (hstands : StandsAt text.toList block.body.toList place)
    (hposition : block.position = .ofPlace path place)
    (h : Expands contents [path] path block.position.line (Text.lines block.body.toList) fragment)
    (hself : path ∈ files)
    (hfiles : ∀ edge ∈ fragment.edges, edge.includer ∈ files → edge.included ∈ files) :
    (block.withExpansion fragment.source).IsTraced contents files := by
  have hcount : (Text.lines fragment.source.text.toList).length = fragment.lines.length := by
    rw [Include.Fragment.toList_source_text, (h.unfolds.hasLines rfl).1, List.length_map]
  have hpositive := line_pos_of_standsAt hstands
  refine ⟨fun index line hline => ?_⟩
  obtain ⟨source, hsource, rfl, -, hlocate⟩ := h.unfolds.exists_line_of_source hpath hline
  have hmem := List.mem_of_getElem? hsource
  refine ⟨source.origin, hlocate, h.unfolds.file_of_mem_lines hself hfiles source hmem,
    h.unfolds.not_mem_of_mem_lines hplain source hmem, ?_⟩
  rcases h.getElem?_lines hsource with ⟨number, hnumber, horigin, hfirst, hlast⟩ | hwhole
  · obtain ⟨textLine, hfound, hstandsOn⟩ := exists_line_of_standsAt hstands hnumber
    have horigin : source.origin = ⟨path, place.line + number⟩ := by
      rw [horigin, hposition]
      rfl
    rw [horigin]
    refine standsIn_of_standsOn hstandsOn hread (Nat.add_pos_left hpositive _) ?_ rfl
      (fun hzero => ⟨hfirst hzero, ?_⟩) fun hend => ?_
    · rw [← hfound]
      congr 1
      exact Nat.sub_add_comm hpositive
    · rw [hzero, Nat.add_zero]
      exact hposition
    · rw [hlast hend, ← hcount]
      rfl
  · exact standsIn_of_isWholeLine hwhole _ index

/-- Every line of a file that is expanded as a whole is the whole of a line of a file. -/
theorem Include.Expands.isWholeLine {openFiles : List SourcePath}
    (h : Expands contents openFiles path 1 (Text.lines text.toList) fragment)
    (hread : contents path = .ok text) :
    ∀ line ∈ fragment.lines, IsWholeLine contents line := by
  intro line hline
  obtain ⟨position, hposition⟩ := List.mem_iff_getElem?.mp hline
  rcases h.getElem?_lines hposition with ⟨index, hindex, horigin, -, -⟩ | hwhole
  · refine ⟨text, index, line.text, ?_, ?_, hindex, rfl⟩
    · rw [horigin]
      exact hread
    · rw [horigin, Nat.add_comm]
  · exact hwhole

/-- The lines of a body of an expanded text are found in the map of the text, from the line of the
body on. -/
theorem exists_source_of_standsAt {openFiles : List SourcePath} {number : Nat}
    (h : Unfolds has openFiles path number (Text.lines text.toList) fragment)
    (hpath : path.IsRooted) {body : List Char} {place : Place}
    (hstands : StandsAt fragment.source.text.toList body place) {index : Nat} {line : List Char}
    (hline : (Text.lines body)[index]? = some line) :
    ∃ source ∈ fragment.lines, source.origin.file.IsRooted ∧
      fragment.source.map.locate (place.line + index) = some source.origin ∧
        StandsOn body place.column index line source.text := by
  obtain ⟨textLine, hfound, hstandsOn⟩ := exists_line_of_standsAt hstands hline
  obtain ⟨source, hsource, rfl, hrooted, hlocate⟩ := h.exists_line_of_source hpath hfound
  have hpositive := line_pos_of_standsAt hstands
  have hnumber : place.line - 1 + index + 1 = place.line + index := by omega
  rw [hnumber] at hlocate
  exact ⟨source, List.mem_of_getElem? hsource, hrooted, hlocate, hstandsOn⟩

/-- The part of the map that belongs to a body gives its lines the origins of the lines of the text
that they stand in. -/
theorem locate_slice_of_standsAt {openFiles : List SourcePath} {number : Nat}
    (h : Unfolds has openFiles path number (Text.lines text.toList) fragment)
    (hpath : path.IsRooted) {body : List Char} {place : Place}
    (hstands : StandsAt fragment.source.text.toList body place) {index : Nat}
    (hindex : index < (Text.lines body).length) :
    (fragment.source.map.slice place.line (Text.lines body).length).locate (index + 1) =
      fragment.source.map.locate (place.line + index) := by
  have hfound : ∀ other, other < (Text.lines body).length → ∃ origin : Origin,
      fragment.source.map.locate (place.line + other) = some origin ∧ origin.file.IsRooted := by
    intro other hother
    obtain ⟨source, -, hrooted, hlocate, -⟩ :=
      exists_source_of_standsAt h hpath hstands (List.getElem?_eq_getElem hother)
    exact ⟨source.origin, hlocate, hrooted⟩
  have hholds : LineMap.Holds
      (fragment.source.map.slice place.line (Text.lines body).length).segments
      ((List.range (Text.lines body).length).map fun other =>
        (fragment.source.map.locate (place.line + other)).getD default) := by
    refine LineMap.holds_slice (fun other hother => ?_) fun other hother => ?_
    · obtain ⟨origin, hlocate, -⟩ := hfound other hother
      rw [hlocate, Option.getD_some]
    · obtain ⟨origin, hlocate, hrooted⟩ := hfound other hother
      rw [hlocate, Option.getD_some]
      exact hrooted
  obtain ⟨origin, hlocate, -⟩ := hfound index hindex
  rw [hholds.locate_succ, List.getElem?_map, List.getElem?_range hindex, Option.map_some, hlocate,
    Option.getD_some]

/-- A body of an expanded file that is moved to the files is traced to files that include lines
lead to. -/
theorem isTraced_locateBlock {openFiles : List SourcePath} (hread : contents path = .ok text)
    (hpath : path.IsRooted) (hplain : '\n' ∉ path.text.toList)
    (h : Expands contents openFiles path 1 (Text.lines text.toList) fragment) {place : Place}
    (hstands : StandsAt fragment.source.text.toList block.body.toList place)
    (hposition : block.position = .ofPlace path place) (hself : path ∈ files)
    (hfiles : ∀ edge ∈ fragment.edges, edge.includer ∈ files → edge.included ∈ files) :
    (Effect.locateBlock fragment.source.map block).IsTraced contents files := by
  have hline : block.position.line = place.line := by
    rw [hposition]
    rfl
  refine ⟨fun index line hbody => ?_⟩
  have hindex := (List.getElem?_eq_some_iff.mp hbody).1
  obtain ⟨source, hmem, -, hlocate, hstandsOn⟩ :=
    exists_source_of_standsAt h.unfolds hpath hstands hbody
  obtain ⟨fileText, number, fileLine, hfile, hnumber, hsource, hsame⟩ :=
    h.isWholeLine hread source hmem
  refine ⟨source.origin, ?_, h.unfolds.file_of_mem_lines hself hfiles source hmem,
    h.unfolds.not_mem_of_mem_lines hplain source hmem,
    standsIn_of_standsOn hstandsOn hfile ?_ ?_ hsame (fun hzero => ⟨hzero, ?_⟩) id⟩
  · show (fragment.source.map.slice block.position.line _).locate (index + 1) = _
    rw [hline, ← hlocate]
    exact locate_slice_of_standsAt h.unfolds hpath hstands hindex
  · rw [hnumber]
    exact Nat.succ_pos number
  · rw [hnumber]
    exact hsource
  · rw [hzero, Nat.add_zero] at hlocate
    show Effect.located _ block.position = _
    rw [Effect.located, hline, hlocate, hposition]
    rfl

end Blocks

end ShaderAssembly
