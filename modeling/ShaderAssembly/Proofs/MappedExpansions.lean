import Mathlib.Data.List.Forall2
import ShaderAssembly.Proofs.ExpandedLines

/-!
# The map of an expansion

The lines of an expanded text are counted one by one while included texts are put in and line feeds
are added afterwards, and where they come from is recorded under these counts. The map that results
is exact:
it knows every line of the text and no other number, the ordinary lines of the text that was
expanded in their order, and every other line as one of a file that was included.
-/

namespace ShaderAssembly.Include

variable {σ : Type} {contents : Contents} {openFiles : List SourcePath} {file : SourcePath}
  {number : Nat} {lines : List (List Char)} {fragment : Fragment}

/-! ### Lines of an expansion -/

/-- The ordinary lines among consecutive lines of a file, the first of which has the given number,
with their numbers. -/
def ordinaryLines (number : Nat) (lines : List (List Char)) : List (List Char × Nat) :=
  (lines.zipIdx number).filter fun line => Directive.ofLine line.1 = .none

theorem ordinaryLines_cons_of_none {line : List Char} (h : Directive.ofLine line = .none)
    (number : Nat) (rest : List (List Char)) :
    ordinaryLines number (line :: rest) = (line, number) :: ordinaryLines (number + 1) rest := by
  rw [ordinaryLines, List.zipIdx_cons, List.filter_cons_of_pos (by simpa using h)]
  rfl

theorem ordinaryLines_cons_of_target {line : List Char} {target : String}
    (h : Directive.ofLine line = .target target) (number : Nat) (rest : List (List Char)) :
    ordinaryLines number (line :: rest) = ordinaryLines (number + 1) rest := by
  rw [ordinaryLines, List.zipIdx_cons, List.filter_cons_of_neg (by simp [h])]
  rfl

/-- Whether a line comes from one of the files of some include lines and is, up to a line feed at
its end, that line of the file. -/
def IsIncludedLine (contents : Contents) (edges : List Edge) (line : SourceLine) : Prop :=
  (∃ edge ∈ edges, edge.included = line.origin.file) ∧ IsWholeLine contents line

theorem IsIncludedLine.mono {edges more : List Edge} {line : SourceLine}
    (h : IsIncludedLine contents edges line) (hmore : edges ⊆ more) :
    IsIncludedLine contents more line := by
  obtain ⟨⟨edge, hedge, hfile⟩, hwhole⟩ := h
  exact ⟨⟨edge, hmore hedge, hfile⟩, hwhole⟩

/-- What an include line becomes are lines of the file it names or of files that are included
there. -/
theorem Expands.isIncludedLine {text : String}
    (h : Expands contents openFiles file 1 (Text.lines text.toList) fragment)
    (hread : contents file = .ok text) (includer : SourcePath) (line : Nat) :
    ∀ other ∈ Fragment.terminateLast fragment.lines,
      IsIncludedLine contents (⟨includer, file, line⟩ :: fragment.edges) other := by
  intro other hother
  refine ⟨?_, isWholeLine_of_mem_terminateLast (fun source hsource => ?_) other hother⟩
  · obtain ⟨source, hsource, horigin, -⟩ := Fragment.mem_terminateLast hother
    rw [horigin]
    -- Every file on the way to a line is the first one or is named by an include line.
    refine h.unfolds.file_of_mem_lines
      (P := fun path => ∃ edge ∈ ⟨includer, file, line⟩ :: fragment.edges, edge.included = path)
      ⟨_, List.mem_cons_self .., rfl⟩ (fun edge hedge _ => ?_) source hsource
    exact ⟨edge, List.mem_cons_of_mem _ hedge, rfl⟩
  · obtain ⟨place, hplace⟩ := List.mem_iff_getElem?.mp hsource
    rcases h.getElem?_lines hplace with ⟨index, hindex, horigin, -, -⟩ | hwhole
    · refine ⟨text, index, source.text, ?_, ?_, hindex, rfl⟩
      · rw [horigin]
        exact hread
      · rw [horigin, Nat.add_comm]
    · exact hwhole

/-- The ordinary lines of a text stand in its expansion in order; all other lines there are
included. -/
theorem Expands.exists_own (h : Expands contents openFiles file number lines fragment) :
    ∃ own : List Nat, own.Pairwise (· < ·) ∧
      List.Forall₂ (fun index line => fragment.lines[index]? = some ⟨line.1, ⟨file, line.2⟩⟩) own
        (ordinaryLines number lines) ∧
      ∀ index line, fragment.lines[index]? = some line → index ∉ own →
        IsIncludedLine contents fragment.edges line := by
  induction h with
  | done => exact ⟨[], .nil, .nil, nofun⟩
  | @keep openFiles file number first rest others hfirst _ ih =>
    obtain ⟨own, hordered, hown, hothers⟩ := ih
    refine ⟨0 :: own.map (· + 1), ?_, ?_, fun index line hline hnot => ?_⟩
    · refine List.pairwise_cons.mpr ⟨fun index hindex => ?_, ?_⟩
      · obtain ⟨before, -, rfl⟩ := List.mem_map.mp hindex
        exact Nat.succ_pos before
      · exact List.pairwise_map.mpr (hordered.imp Nat.succ_lt_succ)
    · rw [ordinaryLines_cons_of_none hfirst]
      exact .cons rfl (List.forall₂_map_left_iff.mpr hown)
    · cases index with
      | zero => exact absurd (List.mem_cons_self ..) hnot
      | succ index =>
        refine hothers index line hline fun hmem => hnot ?_
        exact List.mem_cons_of_mem _ (List.mem_map_of_mem hmem)
  | @replace openFiles file number first rest target text inner others hfirst _ hread hinner _ _
      ih =>
    obtain ⟨own, hordered, hown, hothers⟩ := ih
    have hincluded := hinner.isIncludedLine hread file number
    have hlines : (Fragment.ofInclude ⟨file, file.resolveInclude target, number⟩ text inner ++
        others).lines = Fragment.terminateLast inner.lines ++ others.lines := rfl
    have hedges : (Fragment.ofInclude ⟨file, file.resolveInclude target, number⟩ text inner ++
        others).edges = (⟨file, file.resolveInclude target, number⟩ :: inner.edges) ++
          others.edges := rfl
    rw [hlines, hedges]
    refine ⟨own.map ((Fragment.terminateLast inner.lines).length + ·), ?_, ?_,
      fun index line hline hnot => ?_⟩
    · exact List.pairwise_map.mpr (hordered.imp fun hlt => Nat.add_lt_add_left hlt _)
    · rw [ordinaryLines_cons_of_target hfirst, List.forall₂_map_left_iff]
      refine hown.imp fun index line hline => ?_
      rw [List.getElem?_append_right (Nat.le_add_right _ _), Nat.add_sub_cancel_left]
      exact hline
    · by_cases hindex : index < (Fragment.terminateLast inner.lines).length
      · rw [List.getElem?_append_left hindex] at hline
        exact (hincluded line (List.mem_of_getElem? hline)).mono (List.subset_append_left _ _)
      · obtain ⟨place, rfl⟩ := Nat.exists_eq_add_of_le (Nat.le_of_not_lt hindex)
        rw [List.getElem?_append_right (by omega), Nat.add_sub_cancel_left] at hline
        refine (hothers place line hline fun hmem => hnot ?_).mono (List.subset_append_right _ _)
        exact List.mem_map_of_mem hmem

/-! ### The map -/

/-- Whether the map of an expansion is exact, if what is expanded is a text that stands in a file
from some line on. -/
structure Expansion.IsExact (contents : Contents) (file : SourcePath) (text : String)
    (firstLine : Nat) (expansion : Expansion) : Prop where
  /-- As many lines have been recorded as the text has in the end. -/
  count : expansion.count = expansion.source.lineCount
  /-- Numbers of no lines are not in the map. -/
  outside : ∀ number, number = 0 ∨ expansion.source.lineCount < number →
    expansion.source.locate number = none
  /-- Some lines are the ordinary lines of the text, in order and with their numbers in the file.
  Each other one is, up to a line feed at its end, the line of an included file that the map
  gives. -/
  inside : ∃ own : List Nat, own.Pairwise (· < ·) ∧
    List.Forall₂ (fun index line => expansion.source.lines[index]? = some line.1 ∧
        ∃ origin, expansion.source.locate (index + 1) = some origin ∧
          origin.IsLike ⟨file, line.2⟩)
      own (ordinaryLines firstLine (Text.lines text.toList)) ∧
    ∀ index < expansion.source.lineCount, index ∉ own →
      ∃ edge ∈ expansion.edges, ∃ included place source line,
        contents edge.included = .ok included ∧
        (Text.lines included.toList)[place]? = some source ∧
        expansion.source.lines[index]? = some line ∧
        Text.unended line = Text.unended source ∧
        ∃ origin, expansion.source.locate (index + 1) = some origin ∧
          origin.IsLike ⟨edge.included, place + 1⟩

/-- The expanded text has the lines of the fragment. -/
theorem Unfolds.lines_source {has : SourcePath → String → Prop} {text : List Char}
    (h : Unfolds has openFiles file number (Text.lines text) fragment) :
    fragment.source.lines = fragment.lines.map SourceLine.text := by
  rw [ExpandedText.lines, Fragment.toList_source_text]
  exact (h.hasLines rfl).1

/-- Under the number of each line of a fragment its origin is found, up to the spelling of the
file, and nothing under any other number. -/
theorem Fragment.exists_locate (fragment : Fragment) :
    ∃ origins : List Origin,
      List.Forall₂ (fun origin line => origin.IsLike line.origin) origins fragment.lines ∧
        fragment.source.locate 0 = none ∧
          ∀ index, fragment.source.locate (index + 1) = origins[index]? := by
  have hempty : LineMap.Holds LineMap.empty.segments [] := .nil
  obtain ⟨origins, hlike, hholds⟩ :=
    ExpandedText.exists_holds_recordLines hempty fragment.lines
  exact ⟨origins, hlike, hholds.locate_zero, hholds.locate_succ⟩

/-- The map of what is put out by the rules is exact. -/
theorem Expands.isExact {text : String}
    (h : Expands contents openFiles file number (Text.lines text.toList) fragment) :
    fragment.expansion.IsExact contents file text number := by
  have hlines := h.unfolds.lines_source
  have hcount : fragment.lines.length = fragment.source.lineCount := by
    rw [ExpandedText.lineCount, hlines, List.length_map]
  obtain ⟨origins, hlike, hzero, hlocate⟩ := fragment.exists_locate
  obtain ⟨hlength, hget⟩ := List.forall₂_iff_get.mp hlike
  have hfound : ∀ {index line}, fragment.lines[index]? = some line →
      fragment.source.lines[index]? = some line.text ∧ ∃ origin,
        fragment.source.locate (index + 1) = some origin ∧ origin.IsLike line.origin := by
    intro index line hline
    refine ⟨by rw [hlines, List.getElem?_map, hline, Option.map_some], ?_⟩
    obtain ⟨hindex, rfl⟩ := List.getElem?_eq_some_iff.mp hline
    exact ⟨origins[index], by rw [hlocate, List.getElem?_eq_getElem],
      hget index (hlength ▸ hindex) hindex⟩
  obtain ⟨own, hordered, hown, hothers⟩ := h.exists_own
  refine ⟨fragment.count_expansion.trans hcount, fun other hother => ?_, own, hordered,
    hown.imp fun index line hline => hfound hline, fun index hindex hnot => ?_⟩
  · rcases hother with rfl | hother
    · exact hzero
    · obtain ⟨index, rfl⟩ := Nat.exists_eq_add_of_lt hother
      rw [fragment.source_expansion, hlocate, List.getElem?_eq_none]
      omega
  · obtain ⟨line, hline⟩ : ∃ line, fragment.lines[index]? = some line :=
      ⟨_, List.getElem?_eq_getElem (hcount ▸ hindex)⟩
    obtain ⟨⟨edge, hedge, hfile⟩, included, place, source, hread, hnumber, hsource, hsame⟩ :=
      hothers index line hline hnot
    obtain ⟨htext, origin, horigin, hlikeLine⟩ := hfound hline
    refine ⟨edge, hedge, included, place, source, line.text, hfile ▸ hread, hsource, htext, hsame,
      origin, horigin, ?_⟩
    rw [hfile, ← hnumber]
    exact hlikeLine

/-- If a text expands over unchanging sources, whatever files are open then, the map of its
expansion is exact. -/
theorem isExact_of_expandText {provider : Provider σ} {state : σ}
    (h : provider.Serves state contents) {expansion : Expansion} {text : String} {firstLine : Nat}
    (hok : (withOpen openFiles (expandText provider file text firstLine)).outcomeFrom state =
      .ok expansion) : expansion.IsExact contents file text firstLine := by
  rw [outcomeFrom_withOpen] at hok
  obtain ⟨fragment, rfl, hexpands⟩ := expands_of_expandText h hok
  exact hexpands.isExact

/-- A piece of a file from line 7 on: its first line is an include line, of a file that ends with an
include line of a file without a line feed at its end; its last line is one of an empty file. -/
theorem isExact_of_expandText_nested :
    let files := MemorySources.ofFiles
      [(⟨"/b.glsl"⟩, "1\n#include \"c.glsl\""), (⟨"/c.glsl"⟩, "2"), (⟨"/d.glsl"⟩, "")]
    let expansion : Expansion :=
      { text := "1\n2\n3\n".toList
        map := ⟨[⟨3, 1, ⟨"/a.glsl"⟩, 8⟩, ⟨2, 1, ⟨"/c.glsl"⟩, 1⟩, ⟨1, 1, ⟨"/b.glsl"⟩, 1⟩]⟩
        count := 3
        edges := [⟨⟨"/a.glsl"⟩, ⟨"/b.glsl"⟩, 7⟩, ⟨⟨"/b.glsl"⟩, ⟨"/c.glsl"⟩, 2⟩,
          ⟨⟨"/a.glsl"⟩, ⟨"/d.glsl"⟩, 9⟩]
        contents := [⟨⟨"/b.glsl"⟩, "1\n#include \"c.glsl\""⟩, ⟨⟨"/c.glsl"⟩, "2"⟩,
          ⟨⟨"/d.glsl"⟩, ""⟩] }
    let text := "#include <b.glsl>\n3\n#include \"d.glsl\""
    (withOpen [⟨"/a.glsl"⟩] (expandText MemorySources.provider ⟨"/a.glsl"⟩ text 7)).outcomeFrom
        files = .ok expansion ∧
      expansion.IsExact files.contents ⟨"/a.glsl"⟩ text 7 := by
  intro files expansion text
  have hok : (withOpen [⟨"/a.glsl"⟩] (expandText MemorySources.provider ⟨"/a.glsl"⟩ text
      7)).outcomeFrom files = .ok expansion := by decide +kernel
  exact ⟨hok, isExact_of_expandText (MemorySources.serves rfl) hok⟩

end ShaderAssembly.Include
