import Mathlib.Data.List.Basic
import Mathlib.Data.List.ProdSigma
import ShaderAssembly.LineMap
import ShaderAssembly.Proofs.RootedPaths

/-!
# Maps of lines are finite maps

A map of lines keeps runs, but it stands for what was recorded, line by line: unfolding the runs
gives the recorded lines back, in their order. Lines may be left out, the lines of a file may be
recorded in any order and the files may alternate. As long as the lines of the text increase and
their files are rooted, a line is located exactly if it was recorded, whether the runs are looked
through from the first one on or by halving, and a part of a map holds the lines that it covers
and no others.
-/

namespace ShaderAssembly

/-! ### Lines of a run -/

/-- The origins of the lines of a run. -/
def Segment.origins (segment : Segment) : List Origin :=
  (List.range segment.length).map fun index => ⟨segment.file, segment.line + index⟩

/-- A line of a segment has the origin that stands for it. -/
theorem Segment.locate?_start_add (segment : Segment) (index : Nat) :
    segment.locate? (segment.start + index) = segment.origins[index]? := by
  unfold locate? stop origins
  by_cases hindex : index < segment.length
  · rw [if_pos (by omega), List.getElem?_map, List.getElem?_range hindex, Option.map_some,
      Nat.add_sub_cancel_left]
  · rw [if_neg (by omega), List.getElem?_eq_none]
    rw [List.length_map, List.length_range]
    omega

/-- A longer segment has one more origin. -/
theorem Segment.origins_succ (start length line : Nat) (file : SourcePath) :
    origins ⟨start, length + 1, file, line⟩ =
      origins ⟨start, length, file, line⟩ ++ [⟨file, line + length⟩] := by
  simp only [origins, List.range_succ, List.map_append, List.map_cons, List.map_nil]

/-- A segment has an origin for each line. -/
theorem Segment.length_origins (segment : Segment) : segment.origins.length = segment.length := by
  rw [origins, List.length_map, List.length_range]

/-- Origins of consecutive lines, each with the number of its line. -/
def numberedFrom (first : Nat) (origins : List Origin) : List (Nat × Origin) :=
  (origins.zipIdx first).map Prod.swap

section Numbered

variable {first line : Nat} {origin : Origin} {origins : List Origin}

/-- A number counts the origins before its own. -/
theorem mem_numberedFrom_iff :
    (line, origin) ∈ numberedFrom first origins ↔
      first ≤ line ∧ origins[line - first]? = some origin := by
  rw [numberedFrom, List.mem_map_swap, List.mk_mem_zipIdx_iff_le_and_getElem?_sub]

/-- Numbers go on behind the origins before. -/
theorem numberedFrom_append (first : Nat) (origins others : List Origin) :
    numberedFrom first (origins ++ others) =
      numberedFrom first origins ++ numberedFrom (first + origins.length) others := by
  simp only [numberedFrom, List.zipIdx_append, List.map_append]

/-- The numbers increase. -/
theorem pairwise_numberedFrom (first : Nat) (origins : List Origin) :
    (numberedFrom first origins).Pairwise (·.1 < ·.1) := by
  have hnumbers : (origins.zipIdx first).Pairwise fun earlier later => earlier.2 < later.2 := by
    rw [← List.pairwise_map, List.zipIdx_map_snd]
    exact List.pairwise_lt_range'
  exact List.pairwise_map.mpr hnumbers

end Numbered

namespace Segment

variable {segment : Segment} {line : Nat} {origin : Origin}

/-- The lines of a segment, each with its origin. -/
def entries (segment : Segment) : List (Nat × Origin) :=
  numberedFrom segment.start segment.origins

/-- A longer segment has one more line. -/
theorem entries_succ (start length line : Nat) (file : SourcePath) :
    entries ⟨start, length + 1, file, line⟩ =
      entries ⟨start, length, file, line⟩ ++ [(start + length, ⟨file, line + length⟩)] := by
  rw [entries, origins_succ, numberedFrom_append, length_origins]
  rfl

/-- The lines of a segment are those that can be located in it. -/
theorem mem_entries_iff :
    (line, origin) ∈ segment.entries ↔ segment.locate? line = some origin := by
  rw [entries, mem_numberedFrom_iff]
  by_cases hstart : segment.start ≤ line
  · have hline : segment.start + (line - segment.start) = line := by omega
    rw [and_iff_right hstart, ← segment.locate?_start_add, hline]
  · have hnone : segment.locate? line = none := if_neg fun hwithin => hstart hwithin.1
    simp [hstart, hnone]

/-- What is located in a segment lies between its bounds, in its file. -/
theorem within_of_locate? (h : segment.locate? line = some origin) :
    segment.start ≤ line ∧ line < segment.stop ∧ origin.file = segment.file := by
  obtain ⟨⟨hstart, hstop⟩, horigin⟩ := Option.ite_none_right_eq_some.mp h
  cases horigin
  exact ⟨hstart, hstop, rfl⟩

/-- The first line of a segment that has any. -/
theorem first_mem (h : 0 < segment.length) :
    (segment.start, ⟨segment.file, segment.line⟩) ∈ segment.entries := by
  have hwithin : segment.start ≤ segment.start ∧ segment.start < segment.stop :=
    ⟨Nat.le_refl _, Nat.lt_add_of_pos_right h⟩
  rw [mem_entries_iff, locate?, if_pos hwithin, Nat.sub_self, Nat.add_zero]

/-- The last line of a segment that has any. -/
theorem last_mem (h : 0 < segment.length) :
    (segment.stop - 1, ⟨segment.file, segment.line + (segment.length - 1)⟩) ∈
      segment.entries := by
  have hwithin : segment.start ≤ segment.stop - 1 ∧ segment.stop - 1 < segment.stop := by
    rw [stop]
    omega
  have hlast : segment.stop - 1 - segment.start = segment.length - 1 := by
    rw [stop]
    omega
  rw [mem_entries_iff, locate?, if_pos hwithin, hlast]

/-- Whether a segment is as recording lines of rooted files leaves it. -/
structure IsRun (segment : Segment) : Prop where
  /-- It has a line. -/
  length_pos : 0 < segment.length
  /-- Its file is rooted. -/
  isRooted : segment.file.IsRooted

end Segment

/-! ### Looking up -/

/-- The first place from `low` on at which a test fails, or `high`, found by halving. The test has
to hold up to that place and to fail from there on. -/
def partitionPoint (test : Nat → Bool) (low high : Nat) : Nat :=
  if low < high then
    let middle := low + (high - low) / 2
    if test middle then partitionPoint test (middle + 1) high
    else partitionPoint test low middle
  else low
termination_by high - low

/-- Halving keeps the place where a test changes between the two bounds. -/
theorem partitionPoint_eq {test : Nat → Bool} {point low high : Nat}
    (htest : ∀ index, index < high → (test index = true ↔ index < point))
    (hlow : low ≤ point) (hhigh : point ≤ high) : partitionPoint test low high = point := by
  -- Whichever half is left, the place lies in it.
  fun_induction partitionPoint test low high with
  | case1 low high hlt middle hholds ih =>
    have hmiddle : middle < high := by omega
    have hbelow := (htest middle hmiddle).mp hholds
    exact ih htest (by omega) hhigh
  | case2 low high hlt middle hfails ih =>
    have hmiddle : middle < high := by omega
    have habove : ¬ middle < point := fun hbelow => hfails ((htest middle hmiddle).mpr hbelow)
    exact ih (fun index hindex => htest index (by omega)) hlow (by omega)
  | case3 low high hge => omega

namespace LineMap

variable {map : LineMap} {line : Nat} {origin : Origin} {pushes : List (Nat × Origin)}

/-- The lines of a map, each with its origin, in the order in which they were recorded. -/
def entries (map : LineMap) : List (Nat × Origin) :=
  map.segments.reverse.flatMap Segment.entries

/-- The lines of the last segment come behind all others. -/
theorem entries_cons (last : Segment) (before : List Segment) :
    entries ⟨last :: before⟩ = entries ⟨before⟩ ++ last.entries := by
  rw [entries, List.reverse_cons, List.flatMap_append, List.flatMap_singleton]
  rfl

/-- Finds the segment of a line by halving instead of looking through all of them. -/
def search (map : LineMap) (line : Nat) : Option Origin :=
  let ordered := map.segments.reverse
  let place := partitionPoint (fun index => ordered[index]?.any (·.stop ≤ line)) 0 ordered.length
  ordered[place]?.bind fun segment =>
    if segment.start ≤ line then
      some ⟨segment.file, segment.line + (line - segment.start)⟩
    else none

/-- Halving stops at the first segment that ends behind a line. -/
theorem partitionPoint_stop {ordered : List Segment}
    (h : ordered.Pairwise fun earlier later => earlier.stop ≤ later.start) (line : Nat) :
    partitionPoint (fun index => ordered[index]?.any (·.stop ≤ line)) 0 ordered.length =
      ordered.findIdx (line < ·.stop) := by
  refine partitionPoint_eq (fun index hindex => ?_) (Nat.zero_le _) List.findIdx_le_length
  rw [List.getElem?_eq_getElem hindex, Option.any_some, decide_eq_true_eq]
  constructor
  · intro hstop
    by_contra hle
    have hfirst : ordered.findIdx (line < ·.stop) < ordered.length := by omega
    have hbehind := of_decide_eq_true (List.findIdx_getElem (w := hfirst))
    rcases Nat.lt_or_eq_of_le (Nat.le_of_not_lt hle) with hlt | heq
    · have hstart := List.pairwise_iff_getElem.mp h _ index hfirst hindex hlt
      rw [Segment.stop] at hstop
      omega
    · simp only [heq] at hbehind
      omega
  · intro hlt
    have hstop := of_decide_eq_false (List.not_of_lt_findIdx hlt)
    omega

/-- Whether the lines of a map are in order, and no segment is empty. -/
structure IsOrdered (map : LineMap) : Prop where
  /-- Every segment has a line. -/
  length_pos : ∀ segment ∈ map.segments, 0 < segment.length
  /-- The lines increase. -/
  pairwise_lt : map.entries.Pairwise (·.1 < ·.1)

namespace IsOrdered

/-- A segment starts where those before it have stopped. -/
theorem pairwise_segments (h : map.IsOrdered) :
    map.segments.reverse.Pairwise fun earlier later => earlier.stop ≤ later.start := by
  have hlength : ∀ segment ∈ map.segments.reverse, 0 < segment.length := fun segment hsegment =>
    h.length_pos segment (List.mem_reverse.mp hsegment)
  refine (List.pairwise_flatMap.mp h.pairwise_lt).2.imp_of_mem ?_
  intro earlier later hearlier hlater hlt
  -- The last line of one segment comes before the first line of the next; neither is empty.
  have hlast := hlt _ (Segment.last_mem (hlength earlier hearlier)) _
    (Segment.first_mem (hlength later hlater))
  dsimp only at hlast
  omega

/-- A line is located exactly if it is in the map, with the origin that it has there. -/
theorem locate_eq_some_iff (h : map.IsOrdered) :
    map.locate line = some origin ↔ (line, origin) ∈ map.entries := by
  unfold locate entries
  rw [Option.bind_eq_some_iff, List.mem_flatMap]
  constructor
  · intro hfound
    obtain ⟨segment, hfind, hlocate⟩ := hfound
    exact ⟨segment, List.mem_of_find?_eq_some hfind, Segment.mem_entries_iff.mpr hlocate⟩
  · intro hmem
    obtain ⟨segment, hsegment, hentry⟩ := hmem
    have hlocate := Segment.mem_entries_iff.mp hentry
    obtain ⟨hstart, hstop, -⟩ := Segment.within_of_locate? hlocate
    obtain ⟨before, after, hsplit⟩ := List.append_of_mem hsegment
    have hsegments := h.pairwise_segments
    rw [hsplit] at hsegments
    -- The segments before that of the line have stopped, so it is the first that ends behind it.
    have hbefore : ∀ other ∈ before, (!decide (line < other.stop)) = true := by
      intro other hother
      have hle := (List.pairwise_append.mp hsegments).2.2 other hother segment
        List.mem_cons_self
      simp only [Bool.not_eq_true', decide_eq_false_iff_not]
      omega
    have hfind : map.segments.reverse.find? (line < ·.stop) = some segment :=
      List.find?_eq_some_iff_append.mpr
        ⟨decide_eq_true hstop, before, after, hsplit, hbefore⟩
    exact ⟨segment, hfind, hlocate⟩

/-- Halving finds what looking through all segments finds. -/
theorem search_eq_locate (h : map.IsOrdered) (line : Nat) : map.search line = map.locate line := by
  unfold search locate
  dsimp only
  rw [partitionPoint_stop h.pairwise_segments, ← List.find?_eq_getElem?_findIdx]
  refine Option.bind_congr fun segment hsegment => ?_
  have hstop := List.find?_some hsegment
  unfold Segment.locate?
  by_cases hstart : segment.start ≤ line
  · rw [if_pos hstart, if_pos ⟨hstart, of_decide_eq_true hstop⟩]
  · rw [if_neg hstart, if_neg fun hwithin => hstart hwithin.1]

end IsOrdered

/-! ### Recording -/

/-- Records lines one after the other. -/
def record (map : LineMap) (pushes : List (Nat × Origin)) : LineMap :=
  pushes.foldl (fun map pushed => map.push pushed.1 pushed.2.file pushed.2.line) map

/-- The map that is made by recording lines. -/
def ofPushes (pushes : List (Nat × Origin)) : LineMap := empty.record pushes

/-- Whether the segments of a map are as recording leaves them. -/
def IsRecorded (map : LineMap) : Prop := ∀ segment ∈ map.segments, segment.IsRun

/-- Recording a line adds it behind those that are there, whether it goes on with the last run or
starts one. -/
theorem IsRecorded.entries_push (h : map.IsRecorded) {file : SourcePath} (hfile : file.IsRooted)
    (output line : Nat) :
    (map.push output file line).entries = map.entries ++ [(output, ⟨file, line⟩)] := by
  have hsingle : Segment.entries ⟨output, 1, file, line⟩ = [(output, ⟨file, line⟩)] := rfl
  obtain ⟨segments⟩ := map
  unfold push
  cases segments with
  | nil => rw [entries_cons, hsingle]
  | cons last before =>
    dsimp only
    split
    · rename_i hcontinued
      have hrun : last.IsRun := h last List.mem_cons_self
      obtain ⟨start, length, other, first⟩ := last
      simp only [Segment.isContinuedBy, Segment.stop, Bool.and_eq_true, beq_iff_eq] at hcontinued
      obtain ⟨⟨rfl, rfl⟩, hsame⟩ := hcontinued
      obtain rfl := (SourcePath.same_iff_eq hrun.isRooted hfile).mp hsame
      rw [entries_cons, entries_cons, Segment.entries_succ, List.append_assoc]
    · rw [entries_cons, hsingle]

/-- Recording a line of a rooted file keeps the segments as they have to be. -/
theorem IsRecorded.push (h : map.IsRecorded) {file : SourcePath} (hfile : file.IsRooted)
    (output line : Nat) : (map.push output file line).IsRecorded := by
  have hsingle : Segment.IsRun ⟨output, 1, file, line⟩ := ⟨Nat.one_pos, hfile⟩
  obtain ⟨segments⟩ := map
  unfold LineMap.push
  cases segments with
  | nil => exact List.forall_mem_cons.mpr ⟨hsingle, nofun⟩
  | cons last before =>
    obtain ⟨hlast, hbefore⟩ := List.forall_mem_cons.mp h
    dsimp only
    split
    · exact List.forall_mem_cons.mpr ⟨⟨Nat.succ_pos _, hlast.isRooted⟩, hbefore⟩
    · exact List.forall_mem_cons.mpr ⟨hsingle, h⟩

/-- Recording lines adds all of them behind those that are there. -/
theorem IsRecorded.record (h : map.IsRecorded)
    (hrooted : ∀ pushed ∈ pushes, pushed.2.file.IsRooted) :
    (map.record pushes).IsRecorded ∧ (map.record pushes).entries = map.entries ++ pushes := by
  induction pushes generalizing map with
  | nil => exact ⟨h, (List.append_nil _).symm⟩
  | cons pushed rest ih =>
    obtain ⟨hfile, hrest⟩ := List.forall_mem_cons.mp hrooted
    have hentries := h.entries_push hfile pushed.1 pushed.2.line
    obtain ⟨hrecorded, hall⟩ := ih (h.push hfile pushed.1 pushed.2.line) hrest
    rw [hentries, List.append_assoc] at hall
    exact ⟨hrecorded, hall⟩

/-- Nothing is recorded in the empty map. -/
theorem isRecorded_empty : empty.IsRecorded := nofun

/-- The segments of a map that is made by recording lines are as they have to be. -/
theorem isRecorded_ofPushes (hrooted : ∀ pushed ∈ pushes, pushed.2.file.IsRooted) :
    (ofPushes pushes).IsRecorded :=
  (isRecorded_empty.record hrooted).1

/-- Unfolding the runs of a map gives back what was recorded. -/
theorem entries_ofPushes (hrooted : ∀ pushed ∈ pushes, pushed.2.file.IsRooted) :
    (ofPushes pushes).entries = pushes :=
  (isRecorded_empty.record hrooted).2

/-- What is located lies in a rooted file. -/
theorem IsRecorded.isRooted_of_locate (h : map.IsRecorded)
    (hlocate : map.locate line = some origin) : origin.file.IsRooted := by
  obtain ⟨segment, hfind, hfound⟩ := Option.bind_eq_some_iff.mp hlocate
  have hmem := List.mem_reverse.mp (List.mem_of_find?_eq_some hfind)
  obtain ⟨-, -, hfile⟩ := Segment.within_of_locate? hfound
  rw [hfile]
  exact (h segment hmem).isRooted

/-- Lines that can be recorded one after the other. -/
structure AreAscending (pushes : List (Nat × Origin)) : Prop where
  /-- The lines of the text increase. -/
  pairwise_lt : pushes.Pairwise (·.1 < ·.1)
  /-- They come from rooted files. -/
  isRooted : ∀ pushed ∈ pushes, pushed.2.file.IsRooted

namespace AreAscending

/-- What is recorded in order is in order. -/
theorem isOrdered (h : AreAscending pushes) : (ofPushes pushes).IsOrdered where
  length_pos := fun segment hsegment =>
    (isRecorded_ofPushes h.isRooted segment hsegment).length_pos
  pairwise_lt := by
    rw [entries_ofPushes h.isRooted]
    exact h.pairwise_lt

/-- A line is located exactly if it was recorded. -/
theorem locate_eq_some_iff (h : AreAscending pushes) :
    (ofPushes pushes).locate line = some origin ↔ (line, origin) ∈ pushes := by
  rw [h.isOrdered.locate_eq_some_iff, entries_ofPushes h.isRooted]

/-- A bound of the lines that were recorded bounds the sums of a segment. -/
theorem sums_le (h : AreAscending pushes) {limit : Nat}
    (hlimit : ∀ pushed ∈ pushes, pushed.1 < limit ∧ pushed.2.line < limit)
    {segment : Segment} (hsegment : segment ∈ (ofPushes pushes).segments) :
    segment.stop ≤ limit ∧ segment.line + segment.length ≤ limit := by
  have hlast := Segment.last_mem (h.isOrdered.length_pos segment hsegment)
  have hmem := List.mem_flatMap.mpr ⟨segment, List.mem_reverse.mpr hsegment, hlast⟩
  rw [← LineMap.entries, entries_ofPushes h.isRooted] at hmem
  have hbounds := hlimit _ hmem
  dsimp only at hbounds
  omega

end AreAscending

/-! ### Parts of a map -/

/-- The lines of a part of a map that come from a file, numbered from one. -/
def partEntries (map : LineMap) (first count : Nat) : List (Nat × Origin) :=
  (List.range count).filterMap fun index => (map.locate (first + index)).map (index + 1, ·)

/-- A part of a map is made by recording its lines. -/
theorem slice_eq_ofPushes (map : LineMap) (first count : Nat) :
    map.slice first count = ofPushes (map.partEntries first count) := by
  unfold slice ofPushes record partEntries
  rw [List.foldl_filterMap]
  congr 1
  funext sliced index
  cases map.locate (first + index) with
  | none => rfl
  | some origin => rfl

/-- A part has the lines that it covers, under their new numbers. -/
theorem mem_partEntries_iff {first count number : Nat} :
    (number, origin) ∈ map.partEntries first count ↔
      (1 ≤ number ∧ number ≤ count) ∧ map.locate (first + number - 1) = some origin := by
  unfold partEntries
  rw [List.mem_filterMap]
  constructor
  · intro hmem
    obtain ⟨index, hindex, hlocate⟩ := hmem
    obtain ⟨found, hfound, heq⟩ := Option.map_eq_some_iff.mp hlocate
    have hcount := List.mem_range.mp hindex
    cases heq
    exact ⟨⟨Nat.succ_pos _, hcount⟩, hfound⟩
  · intro hcovered
    obtain ⟨⟨hfirst, hlast⟩, hlocate⟩ := hcovered
    have hline : first + (number - 1) = first + number - 1 := by omega
    have hnumber : number - 1 + 1 = number := by omega
    refine ⟨number - 1, List.mem_range.mpr (by omega), ?_⟩
    rw [hline, hlocate, Option.map_some, hnumber]

/-- The lines of a part can be recorded. -/
theorem IsRecorded.areAscending_partEntries (h : map.IsRecorded) (first count : Nat) :
    AreAscending (map.partEntries first count) where
  pairwise_lt := by
    refine List.pairwise_lt_range.filterMap _ fun earlier later hlt => ?_
    intro left hleft right hright
    obtain ⟨_, -, rfl⟩ := Option.map_eq_some_iff.mp hleft
    obtain ⟨_, -, rfl⟩ := Option.map_eq_some_iff.mp hright
    exact Nat.succ_lt_succ hlt
  isRooted := fun _ hpushed => h.isRooted_of_locate (mem_partEntries_iff.mp hpushed).2

/-- A part of a map locates the lines that it covers as the map does, and no others. -/
theorem IsRecorded.locate_slice (h : map.IsRecorded) (first count number : Nat) :
    (map.slice first count).locate number =
      if 1 ≤ number ∧ number ≤ count then map.locate (first + number - 1) else none := by
  apply Option.ext
  intro origin
  rw [slice_eq_ofPushes, (h.areAscending_partEntries first count).locate_eq_some_iff,
    mem_partEntries_iff, Option.ite_none_right_eq_some]

/-- Halving finds the lines of a part as well. -/
theorem IsRecorded.search_slice (h : map.IsRecorded) (first count number : Nat) :
    (map.slice first count).search number = (map.slice first count).locate number := by
  rw [slice_eq_ofPushes]
  exact (h.areAscending_partEntries first count).isOrdered.search_eq_locate number

/-- A map that lines were recorded in is the finite map of these lines, however they were merged:
each is located, in the file and on the line that it was recorded with, and nothing else is. Looking
lines up by halving makes no difference. A part of the map locates the lines that it covers,
numbered from one, and no others. A bound of the recorded lines bounds the sums of every segment. -/
theorem recorded_maps_are_finite_maps {pushes : List (Nat × Origin)} (h : AreAscending pushes) :
    (∀ line origin, (ofPushes pushes).locate line = some origin ↔ (line, origin) ∈ pushes) ∧
    (∀ line, (∀ pushed ∈ pushes, pushed.1 ≠ line) → (ofPushes pushes).locate line = none) ∧
    (∀ line, (ofPushes pushes).search line = (ofPushes pushes).locate line) ∧
    (∀ first count number,
      ((ofPushes pushes).slice first count).locate number =
          (if 1 ≤ number ∧ number ≤ count then (ofPushes pushes).locate (first + number - 1)
          else none) ∧
        ((ofPushes pushes).slice first count).search number =
          ((ofPushes pushes).slice first count).locate number) ∧
    ∀ limit, (∀ pushed ∈ pushes, pushed.1 < limit ∧ pushed.2.line < limit) →
      ∀ segment ∈ (ofPushes pushes).segments,
        segment.stop ≤ limit ∧ segment.line + segment.length ≤ limit := by
  have hrecorded := isRecorded_ofPushes h.isRooted
  refine ⟨fun line origin => h.locate_eq_some_iff, fun line hline => ?_,
    h.isOrdered.search_eq_locate, fun first count number =>
      ⟨hrecorded.locate_slice first count number, hrecorded.search_slice first count number⟩,
    fun limit hlimit segment hsegment => h.sums_le hlimit hsegment⟩
  apply Option.eq_none_iff_forall_ne_some.mpr
  intro origin hlocate
  exact hline _ (h.locate_eq_some_iff.mp hlocate) rfl

/-- Lines of two files, with two lines that come from nowhere and a jump backwards. -/
def mixedLines : List (Nat × Origin) :=
  [(1, ⟨⟨"/a.glsl"⟩, 5⟩), (2, ⟨⟨"/a.glsl"⟩, 6⟩), (3, ⟨⟨"/b.glsl"⟩, 1⟩), (6, ⟨⟨"/a.glsl"⟩, 7⟩),
    (7, ⟨⟨"/a.glsl"⟩, 3⟩), (8, ⟨⟨"/a.glsl"⟩, 4⟩)]

/-- Six lines are kept in four segments, and are found in the whole map and in a part of it that
cuts through the first and the last segment. -/
theorem mixedLines_are_located :
    AreAscending mixedLines ∧ (ofPushes mixedLines).segments.length = 4 ∧
      (ofPushes mixedLines).locate 8 = some ⟨⟨"/a.glsl"⟩, 4⟩ ∧
      (ofPushes mixedLines).locate 4 = none ∧
      ((ofPushes mixedLines).slice 2 6).locate 6 = some ⟨⟨"/a.glsl"⟩, 3⟩ ∧
      ((ofPushes mixedLines).slice 2 6).locate 7 = none ∧
      ∀ segment ∈ (ofPushes mixedLines).segments,
        segment.stop ≤ 9 ∧ segment.line + segment.length ≤ 9 := by
  have hascending : AreAscending mixedLines := {
    pairwise_lt := by decide
    isRooted := fun pushed hpushed => ⟨pushed.2.file.text, by revert pushed; decide +kernel⟩ }
  obtain ⟨hlocate, hnone, -, hslice, hsums⟩ := recorded_maps_are_finite_maps hascending
  have hseven : (ofPushes mixedLines).locate 7 = some ⟨⟨"/a.glsl"⟩, 3⟩ :=
    (hlocate _ _).mpr (by decide)
  refine ⟨hascending, by decide +kernel, (hlocate _ _).mpr (by decide), hnone 4 (by decide), ?_, ?_,
    hsums 9 (by decide)⟩
  · rw [(hslice 2 6 6).1]
    exact hseven
  · rw [(hslice 2 6 7).1]
    rfl

end LineMap

end ShaderAssembly
