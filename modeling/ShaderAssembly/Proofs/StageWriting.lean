import Mathlib.Data.List.Basic
import ShaderAssembly.Proofs.LinkedCode
import ShaderAssembly.Proofs.RunLengthMaps
import ShaderAssembly.StageWriter

/-!
# Stages as they are written

The writer of a stage keeps no list of lines. What it keeps stands for one: the buffer has the texts
of the lines, the count is how many there are, the map has the origins of the lines of code, and the
ranges have their blocks. Each step of the writer adds the lines that linking adds, so a stage that
is written and a stage that is linked have the same source, files and blocks, and every line of them
is located alike. Files are told apart by the components of their paths while a stage is written,
and by their texts while it is linked, which is the same for rooted paths.
-/

namespace ShaderAssembly

open Linking (CodeLine addFile codeLines following markersBefore)

/-! ### What is seen of a stage -/

/-- What can be seen of a stage, however it is kept. -/
structure StageView where
  /-- The source. -/
  source : String
  /-- The files that numeric markers refer to. -/
  files : List SourcePath
  /-- The names of the blocks. -/
  blocks : List String
  /-- Where each line comes from. -/
  locate : Nat → Option BlockOrigin

/-- What can be seen of a stage that is linked. -/
def LinkedStage.view (stage : LinkedStage) : StageView :=
  ⟨stage.source, stage.files, stage.blocks, stage.locate⟩

/-- What can be seen of a stage that is written. -/
def WrittenStage.view (stage : WrittenStage) : StageView :=
  ⟨stage.source, stage.files, stage.blocks, stage.locate⟩

/-! ### Lines that are recorded -/

/-- The line of a file that a line of a stage comes from. -/
def StageLine.fileLine? : StageLine → Option Origin
  | .code _ _ origin? => origin?
  | _ => none

/-- The lines of a stage that come from files, under their numbers. -/
def recordedLines (lines : List StageLine) : List (Nat × Origin) :=
  lines.zipIdx.filterMap fun (line, index) => line.fileLine?.map (index + 1, ·)

section Recorded

variable {lines : List StageLine} {number : Nat} {origin : Origin}

/-- One more line is recorded under the next number, if it comes from a file. -/
theorem recordedLines_concat (lines : List StageLine) (line : StageLine) :
    recordedLines (lines ++ [line]) =
      recordedLines lines ++ (line.fileLine?.map (lines.length + 1, ·)).toList := by
  rw [recordedLines, List.zipIdx_append, List.filterMap_append, List.zipIdx_singleton, Nat.zero_add]
  cases hline : line.fileLine? <;> simp [recordedLines, hline]

/-- A line that comes from no file is not recorded. -/
theorem recordedLines_concat_of_none {line : StageLine} (h : line.fileLine? = none) :
    recordedLines (lines ++ [line]) = recordedLines lines := by
  rw [recordedLines_concat, h, Option.map_none, Option.toList_none, List.append_nil]

/-- What is recorded is a line that comes from a file, under its number. -/
theorem mem_recordedLines_iff : (number, origin) ∈ recordedLines lines ↔
    ∃ index text block, number = index + 1 ∧
      lines[index]? = some (.code text block (some origin)) := by
  unfold recordedLines
  rw [List.mem_filterMap]
  constructor
  · intro hmem
    obtain ⟨⟨line, index⟩, hline, hrecorded⟩ := hmem
    obtain ⟨found, hfound, heq⟩ := Option.map_eq_some_iff.mp hrecorded
    cases heq
    cases line <;> cases hfound
    exact ⟨index, _, _, rfl, List.mem_zipIdx_iff_getElem?.mp hline⟩
  · intro hline
    obtain ⟨index, text, block, rfl, hline⟩ := hline
    exact ⟨(_, index), List.mem_zipIdx_iff_getElem?.mpr hline, rfl⟩

/-- Lines are recorded in order. -/
theorem pairwise_recordedLines (lines : List StageLine) :
    (recordedLines lines).Pairwise (·.1 < ·.1) := by
  have hnumbers : lines.zipIdx.Pairwise fun earlier later => earlier.2 < later.2 := by
    rw [← List.pairwise_map, List.zipIdx_map_snd]
    exact List.pairwise_lt_range'
  refine hnumbers.filterMap _ fun earlier later hlt left hleft right hright => ?_
  obtain ⟨_, -, rfl⟩ := Option.map_eq_some_iff.mp hleft
  obtain ⟨_, -, rfl⟩ := Option.map_eq_some_iff.mp hright
  exact Nat.succ_lt_succ hlt

end Recorded

/-- A line of a linked stage is located if it is a line of code that comes from a file. -/
theorem LinkedStage.locate_eq_some_iff {stage : LinkedStage} {number : Nat} {found : BlockOrigin} :
    stage.locate number = some found ↔ ∃ index text, number = index + 1 ∧
      stage.lines[index]? = some (.code text found.block (some ⟨found.file, found.line⟩)) := by
  constructor
  · intro hlocate
    cases number with
    | zero => cases hlocate
    | succ index =>
      obtain ⟨line, hline, hfound⟩ := Option.bind_eq_some_iff.mp hlocate
      cases line with
      | generated text => cases hfound
      | marker text => cases hfound
      | code text block origin? =>
        cases origin? with
        | none => cases hfound
        | some origin =>
          cases hfound
          exact ⟨index, text, rfl, hline⟩
  · intro hline
    obtain ⟨index, text, rfl, hline⟩ := hline
    show stage.lines[index]?.bind StageLine.origin? = some found
    rw [hline]
    rfl

/-! ### Code in parts -/

namespace Linking

/-- Where a line without a marker would come from behind lines of code. -/
def expectedAfter (expected : Option Origin) (lines : List CodeLine) : Option Origin :=
  lines.foldl (fun _ line => line.origin?.map following) expected

/-- Code may be written in two parts. -/
theorem writeCode_append (style : LineMarkers) (expected : Option Origin)
    (files : List SourcePath) (before after : List CodeLine) :
    writeCode style expected files (before ++ after) =
      let first := writeCode style expected files before
      let second := writeCode style (expectedAfter expected before) first.2 after
      (first.1 ++ second.1, second.2) := by
  induction before generalizing expected files with
  | nil => rfl
  | cons line rest ih =>
    have hcons : ∀ others, writeCode style expected files (line :: others) =
        ((markersBefore style expected files line.origin?).1 ++ line.written ::
          (writeCode style (line.origin?.map following)
            (markersBefore style expected files line.origin?).2 others).1,
        (writeCode style (line.origin?.map following)
          (markersBefore style expected files line.origin?).2 others).2) := fun _ => rfl
    rw [List.cons_append, hcons, hcons, ih]
    dsimp only
    rw [List.append_assoc, List.cons_append]
    rfl

end Linking

/-! ### Steps of the writer -/

namespace StageWriter

/-- Whether a writer has written the given lines, and goes on as linking does: with the same style,
the same files in markers, and the same line that would need no marker. -/
structure Follows (writer : StageWriter) (style : LineMarkers) (expected : Option Origin)
    (files : List SourcePath) (lines : List StageLine) : Prop where
  /-- The style of the markers. -/
  style_eq : writer.style = style
  /-- Where a line without a marker would come from. -/
  expected_eq : writer.expected? = expected
  /-- That is a rooted file. -/
  isRooted_expected : ∀ origin ∈ expected, origin.file.IsRooted
  /-- The files that markers have referred to. -/
  files_eq : writer.files = files
  /-- They are rooted. -/
  isRooted_files : ∀ file ∈ files, file.IsRooted
  /-- The buffer has the texts of the lines. -/
  text_eq : writer.text = lines.flatMap fun line => Text.terminated line.text
  /-- Every line is counted. -/
  count_eq : writer.count = lines.length
  /-- The map is made by recording lines. -/
  isRecorded : writer.map.IsRecorded
  /-- It has the lines that come from files. -/
  entries_eq : writer.map.entries = recordedLines lines

section Steps

variable {writer : StageWriter} {style : LineMarkers} {expected : Option Origin}
  {files : List SourcePath} {lines : List StageLine}

/-- A new writer has written nothing. -/
theorem follows_empty (style : LineMarkers) : (empty style).Follows style none [] [] where
  style_eq := rfl
  expected_eq := rfl
  isRooted_expected := nofun
  files_eq := rfl
  isRooted_files := nofun
  text_eq := rfl
  count_eq := rfl
  isRecorded := LineMap.isRecorded_empty
  entries_eq := rfl

/-- A line that comes from no file is written and counted. -/
theorem Follows.writeLine (h : writer.Follows style expected files lines) (line : StageLine)
    (hline : line.fileLine? = none) :
    (writer.writeLine line.text).Follows style expected files (lines ++ [line]) where
  style_eq := h.style_eq
  expected_eq := h.expected_eq
  isRooted_expected := h.isRooted_expected
  files_eq := h.files_eq
  isRooted_files := h.isRooted_files
  text_eq := by
    rw [List.flatMap_append, ← h.text_eq, List.flatMap_singleton]
    rfl
  count_eq := by
    rw [List.length_append, ← h.count_eq]
    rfl
  isRecorded := h.isRecorded
  entries_eq := by
    rw [recordedLines_concat_of_none hline]
    exact h.entries_eq

/-- A generated line needs a marker behind it. -/
theorem Follows.writeGenerated (h : writer.Follows style expected files lines) (line : String) :
    (writer.writeGenerated line).Follows style none files (lines ++ [.generated line.toList]) where
  __ := h.writeLine (.generated line.toList) rfl
  expected_eq := rfl
  isRooted_expected := nofun

/-- Generated lines are written one after the other. -/
theorem Follows.foldl_writeGenerated (h : writer.Follows style none files lines)
    (generated : List String) :
    (generated.foldl StageWriter.writeGenerated writer).Follows style none files
      (lines ++ generated.map fun line => .generated line.toList) := by
  induction generated generalizing writer lines with
  | nil =>
    rw [List.map_nil, List.append_nil]
    exact h
  | cons line rest ih =>
    have hrest := ih (h.writeGenerated line)
    rw [List.append_assoc] at hrest
    exact hrest

/-- The number of a rooted file is its place among the files. -/
theorem Follows.numberFile (h : writer.Follows style expected files lines) {file : SourcePath}
    (hfile : file.IsRooted) :
    (writer.numberFile file).1 = (addFile files file).idxOf file ∧
      (writer.numberFile file).2.Follows style expected (addFile files file) lines := by
  unfold StageWriter.numberFile addFile
  rw [h.files_eq, SourcePath.findIdx?_same h.isRooted_files hfile]
  by_cases hknown : file ∈ files
  · rw [if_pos hknown, if_pos hknown]
    exact ⟨rfl, h⟩
  · rw [if_neg hknown, if_neg hknown]
    refine ⟨?_, { h with files_eq := rfl, isRooted_files := ?_ }⟩
    · rw [List.idxOf_append_of_notMem hknown, List.idxOf_cons_self, Nat.add_zero]
    · exact List.forall_mem_append.mpr
        ⟨h.isRooted_files, List.forall_mem_singleton.mpr hfile⟩

/-- A marker for a rooted file is written as linking writes it. -/
theorem Follows.writeMarker (h : writer.Follows style expected files lines) {origin : Origin}
    (horigin : origin.file.IsRooted) :
    (writer.writeMarker origin).Follows style expected (Linking.marker style files origin).2
      (lines ++ (Linking.marker style files origin).1) := by
  unfold StageWriter.writeMarker
  rw [h.style_eq]
  cases style with
  | none =>
    show writer.Follows .none expected files (lines ++ [])
    rw [List.append_nil]
    exact h
  | numeric =>
    obtain ⟨hnumber, hfollows⟩ := h.numberFile horigin
    dsimp only
    rw [hnumber]
    exact hfollows.writeLine (.marker _) rfl
  | quoted => exact h.writeLine (.marker _) rfl

/-- The writer expects the line that linking expects. -/
theorem Follows.expects_iff (h : writer.Follows style expected files lines) {origin : Origin}
    (horigin : origin.file.IsRooted) : writer.expects origin = true ↔ expected = some origin := by
  unfold expects
  rw [h.expected_eq]
  cases hexpected : expected with
  | none => simp
  | some next =>
    have hnext := h.isRooted_expected next hexpected
    rw [Option.any_some, Bool.and_eq_true, beq_iff_eq, SourcePath.same_iff_eq hnext horigin,
      Option.some.injEq, Origin.mk.injEq]

/-- The markers before a line are written as linking writes them. -/
theorem Follows.announce (h : writer.Follows style expected files lines) {origin? : Option Origin}
    (horigin : ∀ origin ∈ origin?, origin.file.IsRooted) :
    (writer.announce origin?).Follows style expected
      (markersBefore style expected files origin?).2
      (lines ++ (markersBefore style expected files origin?).1) := by
  have hnone : writer.Follows style expected files (lines ++ []) := by
    rw [List.append_nil]
    exact h
  cases origin? with
  | none => exact hnone
  | some origin =>
    unfold StageWriter.announce markersBefore
    dsimp only
    by_cases hexpected : expected = some origin
    · rw [if_pos hexpected, if_pos ((h.expects_iff (horigin origin rfl)).mpr hexpected)]
      exact hnone
    · have hexpects := fun hexpects => hexpected ((h.expects_iff (horigin origin rfl)).mp hexpects)
      rw [if_neg hexpected, if_neg hexpects]
      exact h.writeMarker (horigin origin rfl)

/-- A line of code is written behind its markers, and recorded. -/
theorem Follows.writeCode (h : writer.Follows style expected files lines) {line : CodeLine}
    (hline : ∀ origin ∈ line.origin?, origin.file.IsRooted) :
    (writer.writeCode line).Follows style (line.origin?.map following)
      (markersBefore style expected files line.origin?).2
      (lines ++ ((markersBefore style expected files line.origin?).1 ++ [line.written])) := by
  have hmarked := h.announce hline
  rw [← List.append_assoc]
  have hwritten : line.written.fileLine? = line.origin? := rfl
  constructor
  case style_eq => exact hmarked.style_eq
  case expected_eq => rfl
  case files_eq => exact hmarked.files_eq
  case isRooted_files => exact hmarked.isRooted_files
  case isRooted_expected =>
    intro origin horigin
    obtain ⟨before, hbefore, rfl⟩ := Option.map_eq_some_iff.mp horigin
    exact hline before hbefore
  case text_eq =>
    rw [List.flatMap_append, ← hmarked.text_eq, List.flatMap_singleton]
    rfl
  case count_eq =>
    rw [List.length_append, ← hmarked.count_eq]
    rfl
  case isRecorded =>
    unfold StageWriter.writeCode
    dsimp only
    split
    · rename_i origin horigin
      exact hmarked.isRecorded.push (hline origin horigin) _ _
    · exact hmarked.isRecorded
  case entries_eq =>
    unfold StageWriter.writeCode
    generalize writer.announce line.origin? = marked at hmarked ⊢
    dsimp only
    rw [recordedLines_concat, hwritten, ← hmarked.entries_eq, ← hmarked.count_eq]
    split
    · rename_i origin horigin
      rw [horigin]
      exact hmarked.isRecorded.entries_push (hline origin horigin) _ _
    · rename_i horigin
      rw [horigin]
      exact (List.append_nil _).symm

/-- Lines of code are written one after the other. -/
theorem Follows.foldl_writeCode (h : writer.Follows style expected files lines)
    {code : List CodeLine} (hcode : ∀ line ∈ code, ∀ origin ∈ line.origin?, origin.file.IsRooted) :
    (code.foldl StageWriter.writeCode writer).Follows style (Linking.expectedAfter expected code)
      (Linking.writeCode style expected files code).2
      (lines ++ (Linking.writeCode style expected files code).1) := by
  induction code generalizing writer expected files lines with
  | nil =>
    show writer.Follows style expected files (lines ++ [])
    rw [List.append_nil]
    exact h
  | cons line rest ih =>
    obtain ⟨hline, hrest⟩ := List.forall_mem_cons.mp hcode
    have hall := ih (h.writeCode hline) hrest
    rw [List.append_assoc, List.append_assoc] at hall
    exact hall

end Steps

/-! ### Blocks and their lines -/

/-- A block that is found stays found when there are more ranges and blocks. -/
theorem block?_of_append {earlier later : WrittenStage} {line : Nat} {name : String}
    {ranges : List BlockRange} {blocks : List String} (h : earlier.block? line = some name)
    (hranges : later.ranges = earlier.ranges ++ ranges)
    (hblocks : later.blocks = earlier.blocks ++ blocks) :
    later.block? line = some name := by
  obtain ⟨range, hrange, hname⟩ := Option.bind_eq_some_iff.mp h
  have hplace := (List.getElem?_eq_some_iff.mp hname).1
  unfold WrittenStage.block?
  rw [hranges, List.find?_append, hrange, Option.some_or, Option.bind_some, hblocks,
    List.getElem?_append_left hplace, hname]

/-- A line that only the last range covers belongs to the block of that. -/
theorem block?_of_last {stage : WrittenStage} {line : Nat} {before : List BlockRange}
    {range : BlockRange} (hranges : stage.ranges = before ++ [range])
    (hbefore : ∀ other ∈ before, ¬ other.covers line = true) (hcovers : range.covers line = true) :
    stage.block? line = stage.blocks[range.block]? := by
  unfold WrittenStage.block?
  rw [hranges, List.find?_append, List.find?_eq_none.mpr hbefore, Option.none_or,
    List.find?_singleton, if_pos hcovers, Option.bind_some]

/-- Whether the ranges of a writer are those of the blocks of some lines. -/
structure Covers (writer : StageWriter) (lines : List StageLine) : Prop where
  /-- No range goes on behind the lines. -/
  last_le : ∀ range ∈ writer.ranges, range.last ≤ lines.length
  /-- The block of each line of code is found. -/
  block_eq : ∀ index text block origin?, lines[index]? = some (.code text block origin?) →
    writer.finish.block? (index + 1) = some block

section Blocks

variable {writer : StageWriter} {style : LineMarkers} {expected : Option Origin}
  {files : List SourcePath} {lines : List StageLine}

/-- A marker leaves the blocks and their ranges alone. -/
theorem frame_writeMarker (writer : StageWriter) (origin : Origin) :
    (writer.writeMarker origin).blocks = writer.blocks ∧
      (writer.writeMarker origin).ranges = writer.ranges := by
  unfold writeMarker numberFile
  split
  · exact ⟨rfl, rfl⟩
  · dsimp only
    split <;> exact ⟨rfl, rfl⟩
  · exact ⟨rfl, rfl⟩

/-- Lines of code leave the blocks and their ranges alone. -/
theorem frame_foldl_writeCode (writer : StageWriter) (code : List CodeLine) :
    (code.foldl writeCode writer).blocks = writer.blocks ∧
      (code.foldl writeCode writer).ranges = writer.ranges := by
  induction code generalizing writer with
  | nil => exact ⟨rfl, rfl⟩
  | cons line rest ih =>
    have hannounce : (writer.announce line.origin?).blocks = writer.blocks ∧
        (writer.announce line.origin?).ranges = writer.ranges := by
      unfold announce
      split
      · split
        · exact ⟨rfl, rfl⟩
        · exact frame_writeMarker writer _
      · exact ⟨rfl, rfl⟩
    obtain ⟨hblocks, hranges⟩ := ih (writer.writeCode line)
    exact ⟨hblocks.trans hannounce.1, hranges.trans hannounce.2⟩

/-- Generated lines leave the blocks and their ranges alone. -/
theorem frame_foldl_writeGenerated (writer : StageWriter) (generated : List String) :
    (generated.foldl writeGenerated writer).blocks = writer.blocks ∧
      (generated.foldl writeGenerated writer).ranges = writer.ranges := by
  induction generated generalizing writer with
  | nil => exact ⟨rfl, rfl⟩
  | cons line rest ih => exact ih (writer.writeGenerated line)

/-- A line of code that is written for a block has its name. -/
theorem name_of_mem_writeCode {block : CodeBlock} {text : List Char} {name : String}
    {origin? : Option Origin}
    (h : .code text name origin? ∈
      (Linking.writeCode style expected files (codeLines block)).1) : name = block.name := by
  obtain ⟨code, hcode, hwritten | ⟨origin, -, known, hmarker⟩⟩ := Linking.of_mem_writeCode h
  · obtain ⟨entry, -, rfl⟩ := List.mem_map.mp hcode
    cases hwritten
    rfl
  · obtain ⟨other, hother⟩ := Linking.exists_text_of_mem_marker hmarker
    cases hother

/-- The lines of a block add its name to the blocks and leave the ranges alone. -/
theorem frame_writeBody (writer : StageWriter) (block : CodeBlock) :
    (writer.writeBody block).blocks = writer.blocks ++ [block.name] ∧
      (writer.writeBody block).ranges = writer.ranges :=
  frame_foldl_writeCode { writer with blocks := writer.blocks ++ [block.name] } (codeLines block)

/-- The lines of a block are written as linking writes them. -/
theorem Follows.writeBody (h : writer.Follows style expected files lines) {block : CodeBlock}
    (hblock : ∀ line ∈ codeLines block, ∀ origin ∈ line.origin?, origin.file.IsRooted) :
    (writer.writeBody block).Follows style (Linking.expectedAfter expected (codeLines block))
      (Linking.writeCode style expected files (codeLines block)).2
      (lines ++ (Linking.writeCode style expected files (codeLines block)).1) := by
  have hnamed : StageWriter.Follows { writer with blocks := writer.blocks ++ [block.name] } style
      expected files lines := { h with }
  exact hnamed.foldl_writeCode hblock

/-- A block is written as linking writes its lines; its range adds none. -/
theorem Follows.writeBlock (h : writer.Follows style expected files lines) {block : CodeBlock}
    (hblock : ∀ line ∈ codeLines block, ∀ origin ∈ line.origin?, origin.file.IsRooted) :
    (writer.writeBlock block).Follows style (Linking.expectedAfter expected (codeLines block))
      (Linking.writeCode style expected files (codeLines block)).2
      (lines ++ (Linking.writeCode style expected files (codeLines block)).1) := by
  have hbody := h.writeBody hblock
  unfold StageWriter.writeBlock
  dsimp only
  split
  · exact { hbody with }
  · exact hbody

/-- A line that has a block keeps it while other blocks are written. -/
theorem block?_writeBlock {line : Nat} {name : String} (block : CodeBlock)
    (h : writer.finish.block? line = some name) :
    (writer.writeBlock block).finish.block? line = some name := by
  obtain ⟨hblocks, hranges⟩ := frame_writeBody writer block
  unfold writeBlock
  dsimp only
  split
  · exact block?_of_append h (congrArg (· ++ _) hranges) hblocks
  · exact block?_of_append h (hranges.trans (List.append_nil _).symm) hblocks

/-- The lines that a block is written to belong to it, if all ranges before have stopped. -/
theorem block?_writeBlock_of_lt {block : CodeBlock} {line : Nat}
    (hstopped : ∀ range ∈ writer.ranges, range.last ≤ writer.count)
    (hfirst : writer.count < line) (hlast : line ≤ (writer.writeBody block).count) :
    (writer.writeBlock block).finish.block? line = some block.name := by
  obtain ⟨hblocks, hranges⟩ := frame_writeBody writer block
  have hbefore : ∀ range ∈ writer.ranges, ¬ range.covers line = true := by
    intro range hrange
    have hstop := hstopped range hrange
    simp only [BlockRange.covers, Bool.and_eq_true, decide_eq_true_eq]
    omega
  have hlines : writer.count < (writer.writeBody block).count := by omega
  unfold writeBlock
  dsimp only
  rw [if_pos hlines]
  refine (block?_of_last (congrArg (· ++ _) hranges) hbefore ?_).trans ?_
  · simp only [BlockRange.covers, Bool.and_eq_true, decide_eq_true_eq]
    omega
  · show (writer.writeBody block).blocks[(writer.writeBody block).blocks.length - 1]? = _
    rw [hblocks, List.length_append, List.length_singleton, Nat.add_sub_cancel,
      List.getElem?_append_right (Nat.le_refl _), Nat.sub_self, List.getElem?_cons_zero]

/-- The range of a block stops where its lines do. -/
theorem last_le_writeBlock {block : CodeBlock}
    (hstopped : ∀ range ∈ writer.ranges, range.last ≤ writer.count)
    (hcount : writer.count ≤ (writer.writeBody block).count) :
    ∀ range ∈ (writer.writeBlock block).ranges, range.last ≤ (writer.writeBody block).count := by
  obtain ⟨-, hranges⟩ := frame_writeBody writer block
  have hbefore : ∀ range ∈ (writer.writeBody block).ranges,
      range.last ≤ (writer.writeBody block).count := by
    rw [hranges]
    exact fun range hrange => (hstopped range hrange).trans hcount
  unfold writeBlock
  dsimp only
  split
  · exact List.forall_mem_append.mpr
      ⟨hbefore, List.forall_mem_singleton.mpr (Nat.le_refl _)⟩
  · exact hbefore

/-- A block is recorded with the lines that it was written to. -/
theorem Covers.writeBlock (hcovers : writer.Covers lines)
    (h : writer.Follows style expected files lines) {block : CodeBlock}
    (hblock : ∀ line ∈ codeLines block, ∀ origin ∈ line.origin?, origin.file.IsRooted) :
    (writer.writeBlock block).Covers
      (lines ++ (Linking.writeCode style expected files (codeLines block)).1) := by
  have hcount := (h.writeBody hblock).count_eq
  have hname := @name_of_mem_writeCode style expected files block
  generalize (Linking.writeCode style expected files (codeLines block)).1 = added
    at hcount hname ⊢
  have hstopped : ∀ range ∈ writer.ranges, range.last ≤ writer.count := by
    rw [h.count_eq]
    exact hcovers.last_le
  rw [List.length_append, ← h.count_eq] at hcount
  constructor
  case last_le =>
    rw [List.length_append, ← h.count_eq, ← hcount]
    exact last_le_writeBlock hstopped (by omega)
  case block_eq =>
    intro index text name origin? hline
    by_cases hindex : index < lines.length
    · rw [List.getElem?_append_left hindex] at hline
      exact block?_writeBlock block (hcovers.block_eq index text name origin? hline)
    · obtain ⟨hwithin, -⟩ := List.getElem?_eq_some_iff.mp hline
      rw [List.length_append, ← h.count_eq, ← hcount] at hwithin
      rw [List.getElem?_append_right (Nat.le_of_not_lt hindex)] at hline
      obtain rfl := hname (List.mem_of_getElem? hline)
      rw [← h.count_eq] at hindex
      exact block?_writeBlock_of_lt hstopped (by omega) hwithin

/-- The name of a block is written once. -/
theorem blocks_writeBlock (writer : StageWriter) (block : CodeBlock) :
    (writer.writeBlock block).blocks = writer.blocks ++ [block.name] := by
  have hblocks := (frame_writeBody writer block).1
  unfold writeBlock
  dsimp only
  split
  · exact hblocks
  · exact hblocks

/-- Blocks are written one after the other as linking writes all their lines. -/
theorem Follows.foldl_writeBlock (h : writer.Follows style expected files lines)
    (hcovers : writer.Covers lines) {blocks : List CodeBlock}
    (hblocks : ∀ block ∈ blocks, ∀ line ∈ codeLines block, ∀ origin ∈ line.origin?,
      origin.file.IsRooted) :
    (blocks.foldl StageWriter.writeBlock writer).Follows style
        (Linking.expectedAfter expected (blocks.flatMap codeLines))
        (Linking.writeCode style expected files (blocks.flatMap codeLines)).2
        (lines ++ (Linking.writeCode style expected files (blocks.flatMap codeLines)).1) ∧
      (blocks.foldl StageWriter.writeBlock writer).Covers
        (lines ++ (Linking.writeCode style expected files (blocks.flatMap codeLines)).1) ∧
      (blocks.foldl StageWriter.writeBlock writer).blocks =
        writer.blocks ++ blocks.map CodeBlock.name := by
  induction blocks generalizing writer expected files lines with
  | nil =>
    rw [List.map_nil, List.append_nil]
    show writer.Follows style expected files (lines ++ []) ∧ writer.Covers (lines ++ []) ∧ _
    rw [List.append_nil]
    exact ⟨h, hcovers, rfl⟩
  | cons block rest ih =>
    obtain ⟨hblock, hrest⟩ := List.forall_mem_cons.mp hblocks
    obtain ⟨hfollows, hall, hnames⟩ := ih (h.writeBlock hblock) (hcovers.writeBlock h hblock) hrest
    rw [blocks_writeBlock, List.append_assoc] at hnames
    rw [List.flatMap_cons, Linking.writeCode_append, Linking.expectedAfter, List.foldl_append,
      ← List.append_assoc]
    exact ⟨hfollows, hall, hnames⟩

/-- A line that comes from a file is located in the map, and no other line is. -/
theorem Follows.locate_map (h : writer.Follows style expected files lines) {number : Nat}
    {origin : Origin} : writer.map.locate number = some origin ↔
      (number, origin) ∈ recordedLines lines := by
  have hordered : writer.map.IsOrdered := {
    length_pos := fun segment hsegment => (h.isRecorded segment hsegment).length_pos
    pairwise_lt := by
      rw [h.entries_eq]
      exact pairwise_recordedLines lines }
  rw [hordered.locate_eq_some_iff, h.entries_eq]

/-- A line of a stage that is written is located as the line of code that it is. -/
theorem Follows.locate_finish (h : writer.Follows style expected files lines)
    (hcovers : writer.Covers lines) {number : Nat} {found : BlockOrigin} :
    writer.finish.locate number = some found ↔
      LinkedStage.locate ⟨lines, files, writer.blocks⟩ number = some found := by
  rw [LinkedStage.locate_eq_some_iff]
  unfold WrittenStage.locate
  rw [Option.bind_eq_some_iff]
  constructor
  · intro hlocate
    obtain ⟨origin, hmap, hfound⟩ := hlocate
    obtain ⟨name, hname, rfl⟩ := Option.map_eq_some_iff.mp hfound
    obtain ⟨index, text, block, rfl, hline⟩ := mem_recordedLines_iff.mp (h.locate_map.mp hmap)
    rw [hcovers.block_eq index text block (some origin) hline] at hname
    cases hname
    exact ⟨index, text, rfl, hline⟩
  · intro hline
    obtain ⟨index, text, rfl, hline⟩ := hline
    have hmap := h.locate_map.mpr (mem_recordedLines_iff.mpr ⟨index, text, _, rfl, hline⟩)
    refine ⟨_, hmap, ?_⟩
    rw [hcovers.block_eq index text found.block _ hline, Option.map_some]

/-- What is seen of a stage that is written is what is seen of its lines. -/
theorem Follows.view_finish (h : writer.Follows style expected files lines)
    (hcovers : writer.Covers lines) :
    writer.finish.view = LinkedStage.view ⟨lines, files, writer.blocks⟩ := by
  have hsource : writer.finish.source = LinkedStage.source ⟨lines, files, writer.blocks⟩ :=
    congrArg String.ofList h.text_eq
  have hlocate : writer.finish.locate = LinkedStage.locate ⟨lines, files, writer.blocks⟩ :=
    funext fun _ => Option.ext fun _ => h.locate_finish hcovers
  unfold WrittenStage.view LinkedStage.view
  rw [hsource, hlocate]
  exact congrArg (StageView.mk _ · _ _) h.files_eq

end Blocks

end StageWriter

/-! ### Stages -/

namespace Linking

variable {settings : Settings} {shader : Shader} {root : SourcePath} {binding : BoundStage}
  {parts : StageParts}

/-- What is seen of a stage does not depend on whether it is written or linked. -/
theorem StageParts.AreFor.view_write (h : parts.AreFor shader root binding) (settings : Settings) :
    (parts.write settings shader).view = (parts.assemble settings shader).view := by
  have hrooted : ∀ block ∈ parts.blocks, ∀ line ∈ codeLines block, ∀ origin ∈ line.origin?,
      origin.file.IsRooted := by
    intro block hblock line hline origin horigin
    obtain ⟨index, hindex, hlocate⟩ := exists_line_of_mem_codeLines hline
    obtain ⟨other, hother, hfile, -⟩ := (h.placed block hblock).origin index line.text hindex
    rw [hlocate, hother] at horigin
    cases horigin
    exact hfile
  have hgenerated := (StageWriter.follows_empty settings.lineMarkers).foldl_writeGenerated
    (preamble settings shader parts.blocks parts.interface)
  have hframe := StageWriter.frame_foldl_writeGenerated (.empty settings.lineMarkers)
    (preamble settings shader parts.blocks parts.interface)
  have hcovers : StageWriter.Covers ((preamble settings shader parts.blocks
      parts.interface).foldl StageWriter.writeGenerated (.empty settings.lineMarkers))
      ([] ++ (preamble settings shader parts.blocks parts.interface).map fun line =>
        .generated line.toList) := by
    constructor
    case last_le =>
      rw [hframe.2]
      exact nofun
    case block_eq =>
      intro index text name origin? hline
      obtain ⟨_, -, hcode⟩ := List.mem_map.mp (List.mem_of_getElem? hline)
      cases hcode
  obtain ⟨hfollows, hall, hnames⟩ := hgenerated.foldl_writeBlock hcovers hrooted
  rw [hframe.1] at hnames
  refine (hfollows.view_finish hall).trans ?_
  rw [hnames]
  rfl

/-- Writing the stages of a shader with placed lines shows what linking them shows: the same stages
under the same keys, or the same error. -/
theorem view_writeStages (h : shader.IsPlaced root) (settings : Settings) :
    (writeStages settings shader).map (List.map fun entry => (entry.1, entry.2.view)) =
      (link settings shader).outcome.map (List.map fun entry => (entry.1, entry.2.view)) := by
  have hlinked : (link settings shader).outcome.map
        (List.map fun entry => (entry.1, entry.2.view)) =
      (linkedParts shader).map
        (List.map fun entry => (entry.1, (entry.2.write settings shader).view)) :=
    map_outcome_link h fun key _ _ _ hparts =>
      congrArg (key, ·) (hparts.view_write settings).symm
  have hwritten : writeStages settings shader = (linkedParts shader).map
      (List.map fun entry => (entry.1, entry.2.write settings shader)) := by
    rw [linkedParts, ← mapM_map]
    refine congrArg (fun f => (boundStages shader).mapM f) (funext fun bound => ?_)
    cases stageParts shader bound.2 with
    | error error => rfl
    | ok parts => rfl
  rw [hlinked, hwritten]
  cases linkedParts shader with
  | error error => rfl
  | ok all => exact congrArg Except.ok (List.map_map ..)

end Linking

/-- Whatever files change while a shader is read, its stages come out alike with any settings,
whether they are written line by line or linked as lists of lines. -/
theorem Compiler.view_writeStages_of_parse {σ : Type} {compiler : Compiler σ} {root : String}
    {state : σ} {parsed : ParsedShader}
    (h : (compiler.parse root).outcomeFrom state = .ok parsed) (settings : Settings) :
    (Linking.writeStages settings parsed.shader).map
        (List.map fun entry => (entry.1, entry.2.view)) =
      (Linking.link settings parsed.shader).outcome.map
        (List.map fun entry => (entry.1, entry.2.view)) :=
  Linking.view_writeStages (isPlaced_of_parse h) settings

end ShaderAssembly
