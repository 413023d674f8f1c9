import Mathlib.Data.List.Basic
import ShaderAssembly.ExpandedText
import ShaderAssembly.Proofs.RunLengthMaps

/-!
# What a map of lines holds

A map that is made by recording the lines of a text one after the other holds the origins of
exactly these lines: each is found under its number and nothing under any other one. Lines are
merged into runs if their files have the same components, and the file of a run is spelled as that
of its first line; for rooted paths there is only one spelling.
-/

namespace ShaderAssembly

/-- A line of text with the line of a file it comes from. -/
structure SourceLine where
  /-- The text of the line, with its line feed if it has one. -/
  text : List Char
  /-- Where it comes from. -/
  origin : Origin
  deriving DecidableEq, Repr

/-- Whether two origins are the same line of the same file, however its path is spelled. -/
def Origin.IsLike (left right : Origin) : Prop :=
  left.file.same right.file = true ∧ left.line = right.line

namespace LineMap

/-- Segments, the last one first, that hold the given origins of consecutive lines. -/
inductive Holds : List Segment → List Origin → Prop where
  /-- No segments hold nothing. -/
  | nil : Holds [] []
  /-- A segment starts on the line after those that the segments before it hold. -/
  | cons {before : List Segment} {origins : List Origin} {last : Segment}
      (hbefore : Holds before origins) (hstart : last.start = origins.length + 1)
      (hlength : 0 < last.length) : Holds (last :: before) (origins ++ last.origins)

variable {map : LineMap} {origins : List Origin}

/-- The next line is recorded behind all others. Its file may be spelled as that of a line before
it. -/
theorem Holds.push (h : Holds map.segments origins) (file : SourcePath) (line : Nat) :
    ∃ recorded : Origin, recorded.IsLike ⟨file, line⟩ ∧
      (recorded.file = file ∨ ∃ origin ∈ origins, recorded.file = origin.file) ∧
        Holds (map.push (origins.length + 1) file line).segments (origins ++ [recorded]) := by
  have hsingle : ∀ start, Segment.origins ⟨start, 1, file, line⟩ = [⟨file, line⟩] := fun _ => rfl
  unfold LineMap.push
  cases hsegments : map.segments with
  | nil =>
    rw [hsegments] at h
    cases h
    have hfirst : Holds [⟨1, 1, file, line⟩] ([] ++ Segment.origins ⟨1, 1, file, line⟩) :=
      .cons .nil rfl Nat.one_pos
    exact ⟨⟨file, line⟩, ⟨file.same_self, rfl⟩, .inl rfl, hfirst⟩
  | cons last before =>
    rw [hsegments] at h
    dsimp only
    split
    · rename_i hcontinued
      cases h with
      | @cons _ earlier _ hbefore hstart hlength =>
        obtain ⟨start, length, other, first⟩ := last
        simp only [Segment.isContinuedBy, Segment.stop, Bool.and_eq_true, beq_iff_eq]
          at hcontinued
        obtain ⟨⟨-, hline⟩, hsame⟩ := hcontinued
        have hfirst : ⟨other, first + 0⟩ ∈ Segment.origins ⟨start, length, other, first⟩ :=
          List.mem_map.mpr ⟨0, List.mem_range.mpr hlength, rfl⟩
        refine ⟨⟨other, line⟩, ⟨hsame, rfl⟩,
          .inr ⟨_, List.mem_append_right earlier hfirst, rfl⟩, ?_⟩
        rw [List.append_assoc, ← hline, ← Segment.origins_succ]
        exact hbefore.cons hstart (Nat.succ_pos _)
    · refine ⟨⟨file, line⟩, ⟨file.same_self, rfl⟩, .inl rfl, ?_⟩
      rw [← hsingle (origins.length + 1)]
      exact h.cons rfl Nat.one_pos

/-- The next line is recorded as it is if all files are rooted. -/
theorem Holds.push_rooted (h : Holds map.segments origins)
    (hrooted : ∀ origin ∈ origins, origin.file.IsRooted) {file : SourcePath}
    (hfile : file.IsRooted) (line : Nat) :
    Holds (map.push (origins.length + 1) file line).segments (origins ++ [⟨file, line⟩]) := by
  obtain ⟨⟨other, _⟩, ⟨hsame, rfl⟩, hother, hholds⟩ := h.push file line
  have hotherRooted : other.IsRooted := by
    rcases hother with rfl | ⟨origin, horigin, rfl⟩
    · exact hfile
    · exact hrooted origin horigin
  obtain rfl := (SourcePath.same_iff_eq hotherRooted hfile).mp hsame
  exact hholds

/-- The lines of segments that hold origins are numbered from one. -/
theorem Holds.entries_eq {segments : List Segment} (h : Holds segments origins) :
    entries ⟨segments⟩ = numberedFrom 1 origins := by
  induction h with
  | nil => rfl
  | @cons before earlier last hbefore hstart hlength ih =>
    rw [entries_cons, ih, numberedFrom_append, Segment.entries, hstart, Nat.add_comm]

/-- Segments that hold origins are in order. -/
theorem Holds.isOrdered (h : Holds map.segments origins) : map.IsOrdered where
  length_pos := by
    generalize map.segments = segments at h
    induction h with
    | nil => exact nofun
    | cons _ _ hlength ih => exact List.forall_mem_cons.mpr ⟨hlength, ih⟩
  pairwise_lt := by
    rw [h.entries_eq]
    exact pairwise_numberedFrom 1 origins

/-- Every line is found under its number. -/
theorem Holds.locate_succ (h : Holds map.segments origins) (index : Nat) :
    map.locate (index + 1) = origins[index]? := by
  apply Option.ext
  intro origin
  rw [h.isOrdered.locate_eq_some_iff, h.entries_eq, mem_numberedFrom_iff, Nat.add_sub_cancel,
    and_iff_right (Nat.le_add_left 1 index)]

/-- There is no line before the first one. -/
theorem Holds.locate_zero (h : Holds map.segments origins) : map.locate 0 = none := by
  apply Option.eq_none_iff_forall_ne_some.mpr
  intro origin hlocate
  rw [h.isOrdered.locate_eq_some_iff, h.entries_eq, mem_numberedFrom_iff] at hlocate
  exact Nat.not_succ_le_zero 0 hlocate.1

end LineMap

namespace ExpandedText

/-- Records the origins of consecutive lines, the first of which has the number `number`. -/
def recordLines (map : LineMap) (number : Nat) : List SourceLine → LineMap
  | [] => map
  | line :: rest =>
    recordLines (map.push number line.origin.file line.origin.line) (number + 1) rest

/-- The text that consists of the given lines, each of which comes from its own origin. -/
def ofLines (lines : List SourceLine) : ExpandedText :=
  ⟨String.ofList (lines.flatMap SourceLine.text), recordLines .empty 1 lines⟩

/-- Recording lines adds origins like theirs behind those that are there. -/
theorem exists_holds_recordLines {map : LineMap} {origins : List Origin}
    (h : LineMap.Holds map.segments origins) (lines : List SourceLine) :
    ∃ recorded, List.Forall₂ (fun origin line => origin.IsLike line.origin) recorded lines ∧
      LineMap.Holds (recordLines map (origins.length + 1) lines).segments
        (origins ++ recorded) := by
  induction lines generalizing map origins with
  | nil =>
    refine ⟨[], .nil, ?_⟩
    rw [List.append_nil]
    exact h
  | cons line rest ih =>
    obtain ⟨first, hfirst, -, hpush⟩ := h.push line.origin.file line.origin.line
    obtain ⟨others, hothers, hholds⟩ := ih hpush
    rw [List.length_append, List.length_singleton, List.append_assoc] at hholds
    exact ⟨first :: others, .cons hfirst hothers, hholds⟩

/-- Recording lines of rooted files adds their origins behind those that are there. -/
theorem holds_recordLines {map : LineMap} {origins : List Origin}
    (h : LineMap.Holds map.segments origins) (hrooted : ∀ origin ∈ origins, origin.file.IsRooted)
    {lines : List SourceLine} (hlines : ∀ line ∈ lines, line.origin.file.IsRooted) :
    LineMap.Holds (recordLines map (origins.length + 1) lines).segments
      (origins ++ lines.map SourceLine.origin) := by
  induction lines generalizing map origins with
  | nil =>
    rw [List.map_nil, List.append_nil]
    exact h
  | cons line rest ih =>
    have hline : line.origin.file.IsRooted := hlines line (by simp)
    have hall : ∀ origin ∈ origins ++ [line.origin], origin.file.IsRooted := fun origin hmem =>
      (List.mem_append.mp hmem).elim (hrooted origin)
        fun hlast => List.mem_singleton.mp hlast ▸ hline
    have hrest := ih (h.push_rooted hrooted hline line.origin.line) hall
      fun other hother => hlines other (List.mem_cons_of_mem _ hother)
    rw [List.length_append, List.length_singleton, List.append_assoc] at hrest
    exact hrest

/-- The lines of a text that is put together from lines come from where these do. -/
theorem locate_ofLines {lines : List SourceLine}
    (h : ∀ line ∈ lines, line.origin.file.IsRooted) (index : Nat) :
    (ofLines lines).locate (index + 1) = lines[index]?.map SourceLine.origin := by
  have hempty : LineMap.Holds LineMap.empty.segments [] := .nil
  have hholds := holds_recordLines hempty nofun h
  rw [List.nil_append, List.length_nil] at hholds
  rw [← List.getElem?_map]
  exact hholds.locate_succ index

end ExpandedText

/-- A part of a map holds the origins of the lines it covers. -/
theorem LineMap.holds_slice {map : LineMap} {first count : Nat} {origin : Nat → Origin}
    (hmap : ∀ index, index < count → map.locate (first + index) = some (origin index))
    (hrooted : ∀ index, index < count → (origin index).file.IsRooted) :
    Holds (map.slice first count).segments ((List.range count).map origin) := by
  induction count with
  | zero => exact .nil
  | succ count ih =>
    have hbefore := ih (fun index hindex => hmap index (by omega))
      (fun index hindex => hrooted index (by omega))
    have hall : ∀ other ∈ (List.range count).map origin, other.file.IsRooted := by
      intro other hother
      obtain ⟨index, hindex, rfl⟩ := List.mem_map.mp hother
      exact hrooted index (Nat.lt_succ_of_lt (List.mem_range.mp hindex))
    have hpush := hbefore.push_rooted hall (hrooted count (Nat.lt_succ_self count))
      (origin count).line
    rw [List.length_map, List.length_range] at hpush
    unfold slice at hpush ⊢
    rw [List.range_succ, List.foldl_append, List.foldl_cons, List.foldl_nil,
      hmap count (Nat.lt_succ_self count), List.map_append, List.map_cons, List.map_nil]
    exact hpush

end ShaderAssembly
