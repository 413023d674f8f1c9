import ShaderAssembly.Proofs.LinkedCode
import ShaderAssembly.Proofs.RootedPaths
import ShaderAssembly.Text.Digits

/-!
# Replaying numeric markers

A compiler of shaders knows where lines come from by the markers alone: a marker says which line of
which file is next, and from there on it counts. A stage knows where its lines come from by the
maps of its blocks. Markers are left out where counting comes to the right line anyway, and the two
agree on every line that comes from a block.
-/

namespace ShaderAssembly

/-! ### Counting lines -/

/-- What a text like `#line 12 3` says of the next line: its number, and the number of its file. -/
def readMarker? (text : List Char) : Option (Nat × Nat) :=
  match Text.split ' ' text with
  | [word, line, file] =>
    if word = "#line".toList ∧ Text.isDigits line ∧ Text.isDigits file then
      some (Text.digitsValue line, Text.digitsValue file)
    else none
  | _ => none

/-- The number of the next line and that of its file, after a line that has these or none. -/
def StageLine.advance (place? : Option (Nat × Nat)) : StageLine → Option (Nat × Nat)
  | .marker text => readMarker? text
  | _ => place?.map fun (line, file) => (line + 1, file)

/-- The numbers that lines and their files have if the first line has the given ones or none: a
marker sets those of the next line, and after any other line the number is one more. -/
def replayMarkers (place? : Option (Nat × Nat)) : List StageLine → List (Option (Nat × Nat))
  | [] => []
  | line :: rest => place? :: replayMarkers (line.advance place?) rest

/-- A line that comes from a file is a line of a block. -/
theorem exists_code_of_origin? {line : StageLine} {origin : BlockOrigin}
    (h : line.origin? = some origin) : ∃ text block found,
      line = .code text block (some found) ∧ origin = ⟨found.file, found.line, block⟩ := by
  match line with
  | .generated text => cases h
  | .marker text => cases h
  | .code text block none => cases h
  | .code text block (some found) => exact ⟨text, block, found, rfl, (Option.some.inj h).symm⟩

/-- Whether counting by markers comes to the origin of every line of a stage that comes from a
block. -/
structure LinkedStage.IsReplayed (stage : LinkedStage) : Prop where
  /-- The lines of the stage are those of its source. -/
  source : Text.lines stage.source.toList = stage.lines.map fun line => Text.terminated line.text
  /-- A line that comes from a block is counted as the line it is in the file it is from. -/
  located : ∀ number origin, stage.locate number = some origin → ∃ file,
    (replayMarkers none stage.lines)[number - 1]? = some (some (origin.line, file)) ∧
      stage.files[file]? = some origin.file
  /-- The first line that comes from a block stands right behind a marker. -/
  first : ∀ index, (stage.locate (index + 1)).isSome = true →
    (∀ earlier, earlier < index → stage.locate (earlier + 1) = none) →
      ∃ before text, index = before + 1 ∧ stage.lines[before]? = some (.marker text)
  /-- All markers name files of the stage. -/
  markers : ∀ text, .marker text ∈ stage.lines → ∃ line file,
    readMarker? text = some (line, file) ∧ file < stage.files.length
  /-- No file stands twice in the list, under whatever spelling. -/
  files : stage.files.Pairwise fun file other => file.same other = false

/-- The digits of a number have its value. -/
theorem digitsValue_toString (number : Nat) :
    Text.digitsValue (toString number).toList = number := by
  have hdigits : (toString number).toList = Nat.toDigits 10 number := Nat.toList_repr
  rw [hdigits]
  exact Nat.ofDigitChars_toDigits (by decide) (by decide)

/-- The digits of a number are digits. -/
theorem isDigits_toString (number : Nat) : Text.isDigits (toString number).toList = true := by
  have hdigits : (toString number).toList = Nat.toDigits 10 number := Nat.toList_repr
  rw [hdigits, Text.isDigits, Bool.and_eq_true, Bool.not_eq_true', List.isEmpty_eq_false_iff,
    List.all_eq_true]
  exact ⟨Nat.toDigits_ne_nil, fun c hc => Nat.isDigit_of_mem_toDigits (by decide) (by decide) hc⟩

/-- A character that is no digit is in no text of digits. -/
theorem not_mem_of_isDigits {text : List Char} {c : Char} (h : Text.isDigits text = true)
    (hc : c.isDigit = false) : c ∉ text := by
  intro hmem
  rw [Text.isDigits, Bool.and_eq_true, List.all_eq_true] at h
  rw [h.2 c hmem] at hc
  cases hc

namespace Linking

/-- The text of the marker before a line of a file with a number. -/
def numericMarker (line file : Nat) : List Char := s!"#line {line} {file}".toList

/-- A marker is read as what it was written for. -/
theorem readMarker?_numericMarker (line file : Nat) :
    readMarker? (numericMarker line file) = some (line, file) := by
  have htext : numericMarker line file = "#line".toList ++ ' ' ::
      ((toString line).toList ++ ' ' :: (toString file).toList) := by
    rw [numericMarker, String.toList_append, String.toList_append, String.toList_append,
      List.append_assoc, List.append_assoc]
    rfl
  have hline : ' ' ∉ (toString line).toList :=
    not_mem_of_isDigits (isDigits_toString line) (by decide)
  have hfile : ' ' ∉ (toString file).toList :=
    not_mem_of_isDigits (isDigits_toString file) (by decide)
  have hsplit : Text.split ' ' (numericMarker line file) =
      ["#line".toList, (toString line).toList, (toString file).toList] := by
    rw [htext, Text.split_append_cons (by decide), Text.split_append_cons hline,
      Text.split_of_not_mem hfile]
  rw [readMarker?, hsplit]
  dsimp only
  rw [if_pos ⟨rfl, isDigits_toString line, isDigits_toString file⟩, digitsValue_toString,
    digitsValue_toString]

/-! ### Files of markers -/

section Files

variable {files : List SourcePath} {file : SourcePath}

/-- Files keep their numbers when another one is added. -/
theorem isPrefix_addFile (files : List SourcePath) (file : SourcePath) :
    files <+: addFile files file := by
  unfold addFile
  split
  · exact List.prefix_rfl
  · exact List.prefix_append _ _

/-- A file that is added has a number. -/
theorem getElem?_addFile (files : List SourcePath) (file : SourcePath) :
    (addFile files file)[(addFile files file).idxOf file]? = some file := by
  have hmem : file ∈ addFile files file := by
    unfold addFile
    split
    · assumption
    · exact List.mem_append_right _ (List.mem_singleton.mpr rfl)
  rw [List.getElem?_eq_getElem (List.idxOf_lt_length_of_mem hmem), List.getElem_idxOf]

/-- Files with canonical paths of which none stands twice stay so when another one is added. -/
theorem pairwise_addFile (hfiles : ∀ other ∈ files, other.IsRooted) (hfile : file.IsRooted)
    (h : files.Pairwise fun file other => file.same other = false) :
    (∀ other ∈ addFile files file, other.IsRooted) ∧
      (addFile files file).Pairwise fun file other => file.same other = false := by
  unfold addFile
  split
  · exact ⟨hfiles, h⟩
  · rename_i hmem
    refine ⟨fun other hother => ?_, List.pairwise_append.mpr ⟨h, List.pairwise_singleton _ _, ?_⟩⟩
    · rcases List.mem_append.mp hother with hother | hother
      · exact hfiles other hother
      · rwa [List.mem_singleton.mp hother]
    · intro other hother last hlast
      obtain rfl := List.mem_singleton.mp hlast
      refine Bool.eq_false_iff.mpr fun hsame => hmem ?_
      rwa [← (SourcePath.same_iff_eq (hfiles other hother) hfile).mp hsame]

end Files

/-! ### Code with numeric markers -/

/-- What stands in a stage for a line comes from where the line does. -/
theorem CodeLine.origin?_written (line : CodeLine) : line.written.origin? =
    line.origin?.map fun origin => ⟨origin.file, origin.line, line.block⟩ := by
  unfold written
  cases line.origin? with
  | none => rfl
  | some origin => rfl

/-- What stands in a stage for a line has the origin of the line. -/
theorem CodeLine.origin?_of_written {line : CodeLine} {text : List Char} {block : String}
    {origin? : Option Origin} (h : line.written = .code text block origin?) :
    line.origin? = origin? := by
  cases h
  rfl

/-- What is written for lines of code with numeric markers, where `expected` is where a line without
a marker comes from, and the files that markers refer to before and after it. -/
inductive WritesNumeric : Option Origin → List SourcePath → List CodeLine → List StageLine →
    List SourcePath → Prop where
  /-- There are no lines. -/
  | done {expected : Option Origin} {files : List SourcePath} :
      WritesNumeric expected files [] [] files
  /-- A line that comes from nowhere has no marker. -/
  | unknown {expected : Option Origin} {files after : List SourcePath} {line : CodeLine}
      {rest : List CodeLine} {written : List StageLine} (horigin : line.origin? = none)
      (hrest : WritesNumeric none files rest written after) :
      WritesNumeric expected files (line :: rest) (line.written :: written) after
  /-- A line that follows the one before it has no marker. -/
  | follow {origin : Origin} {files after : List SourcePath} {line : CodeLine}
      {rest : List CodeLine} {written : List StageLine} (horigin : line.origin? = some origin)
      (hrest : WritesNumeric (some (following origin)) files rest written after) :
      WritesNumeric (some origin) files (line :: rest) (line.written :: written) after
  /-- Any other line has a marker before it. -/
  | mark {expected : Option Origin} {origin : Origin} {files after : List SourcePath}
      {line : CodeLine} {rest : List CodeLine} {written : List StageLine}
      (horigin : line.origin? = some origin)
      (hrest : WritesNumeric (some (following origin)) (addFile files origin.file) rest written
        after) :
      WritesNumeric expected files (line :: rest)
        (.marker (numericMarker origin.line ((addFile files origin.file).idxOf origin.file)) ::
          line.written :: written) after

/-- Code is written as the rules say. -/
theorem writesNumeric_writeCode (expected : Option Origin) (files : List SourcePath)
    (lines : List CodeLine) :
    WritesNumeric expected files lines (writeCode .numeric expected files lines).1
      (writeCode .numeric expected files lines).2 := by
  induction lines generalizing expected files with
  | nil => exact .done
  | cons line rest ih =>
    have hafter : (writeCode .numeric expected files (line :: rest)).2 =
        (writeCode .numeric (line.origin?.map following)
          (markersBefore .numeric expected files line.origin?).2 rest).2 := rfl
    rw [writeCode_cons, hafter]
    cases horigin : line.origin? with
    | none => exact .unknown horigin (ih none files)
    | some origin =>
      by_cases hexpected : expected = some origin
      · have hbefore : markersBefore .numeric expected files (some origin) = ([], files) :=
          if_pos hexpected
        rw [hbefore, hexpected]
        exact .follow horigin (ih _ files)
      · have hbefore : markersBefore .numeric expected files (some origin) =
            marker .numeric files origin := if_neg hexpected
        rw [hbefore]
        exact .mark horigin (ih _ _)

namespace WritesNumeric

variable {expected : Option Origin} {files after : List SourcePath} {lines : List CodeLine}
  {written : List StageLine}

/-- Files keep their numbers while code is written. -/
theorem isPrefix (h : WritesNumeric expected files lines written after) : files <+: after := by
  induction h with
  | done => exact List.prefix_rfl
  | unknown _ _ ih => exact ih
  | follow _ _ ih => exact ih
  | mark _ _ ih => exact (isPrefix_addFile _ _).trans ih

/-- The numbers of files stay theirs while code is written. -/
theorem getElem?_of_getElem? (h : WritesNumeric expected files lines written after) {index : Nat}
    {file : SourcePath} (hfile : files[index]? = some file) : after[index]? = some file := by
  obtain ⟨more, rfl⟩ := h.isPrefix
  rw [List.getElem?_append_left (List.getElem?_eq_some_iff.mp hfile).1]
  exact hfile

/-- No file stands twice in the list that code is written with. -/
theorem pairwise_files (h : WritesNumeric expected files lines written after)
    (hlines : ∀ line ∈ lines, ∀ origin ∈ line.origin?, origin.file.IsRooted)
    (hfiles : ∀ file ∈ files, file.IsRooted)
    (hpairwise : files.Pairwise fun file other => file.same other = false) :
    after.Pairwise fun file other => file.same other = false := by
  induction h with
  | done => exact hpairwise
  | unknown _ _ ih =>
    exact ih (fun other hother => hlines other (List.mem_cons_of_mem _ hother)) hfiles hpairwise
  | follow _ _ ih =>
    exact ih (fun other hother => hlines other (List.mem_cons_of_mem _ hother)) hfiles hpairwise
  | mark horigin _ ih =>
    have hadded := pairwise_addFile hfiles (hlines _ (List.mem_cons_self ..) _ horigin) hpairwise
    exact ih (fun other hother => hlines other (List.mem_cons_of_mem _ hother)) hadded.1 hadded.2

/-- Every marker can be read, and names a file of the list. -/
theorem readMarker?_of_mem (h : WritesNumeric expected files lines written after)
    {text : List Char} (hmem : .marker text ∈ written) :
    ∃ line file, readMarker? text = some (line, file) ∧ file < after.length := by
  induction h with
  | done => cases hmem
  | unknown _ _ ih => exact ih ((List.mem_cons.mp hmem).resolve_left nofun)
  | follow _ _ ih => exact ih ((List.mem_cons.mp hmem).resolve_left nofun)
  | @mark expected origin files after line rest written _ hrest ih =>
    rcases List.mem_cons.mp hmem with heq | hmem
    · cases heq
      have hfile := hrest.getElem?_of_getElem? (getElem?_addFile files origin.file)
      exact ⟨_, _, readMarker?_numericMarker _ _, (List.getElem?_eq_some_iff.mp hfile).1⟩
    · exact ih ((List.mem_cons.mp hmem).resolve_left nofun)

/-- Lines that come from files are counted right, if the one that is expected is. -/
theorem replay_eq (h : WritesNumeric expected files lines written after)
    (place? : Option (Nat × Nat))
    (hplace : ∀ origin ∈ expected, ∃ file, place? = some (origin.line, file) ∧
      files[file]? = some origin.file) {index : Nat} {text : List Char} {block : String}
    {origin : Origin} (hline : written[index]? = some (.code text block (some origin))) :
    ∃ file, (replayMarkers place? written)[index]? = some (some (origin.line, file)) ∧
      after[file]? = some origin.file := by
  induction h generalizing place? index with
  | done => cases hline
  | unknown horigin _ ih =>
    cases index with
    | zero =>
      have hnone := CodeLine.origin?_of_written (Option.some.inj hline)
      rw [horigin] at hnone
      cases hnone
    | succ index => exact ih _ nofun hline
  | follow horigin hrest ih =>
    obtain ⟨file, rfl, hfile⟩ := hplace _ rfl
    cases index with
    | zero =>
      have hsome := CodeLine.origin?_of_written (Option.some.inj hline)
      rw [horigin] at hsome
      cases hsome
      exact ⟨file, rfl, hrest.getElem?_of_getElem? hfile⟩
    | succ index =>
      refine ih _ ?_ hline
      rintro _ ⟨⟩
      exact ⟨file, rfl, hfile⟩
  | @mark _ found files after line rest written horigin hrest ih =>
    have hfile := getElem?_addFile files found.file
    have hread := readMarker?_numericMarker found.line
      ((addFile files found.file).idxOf found.file)
    match index with
    | 0 => cases hline
    | 1 =>
      have hsome := CodeLine.origin?_of_written (Option.some.inj hline)
      rw [horigin] at hsome
      cases hsome
      exact ⟨_, congrArg some hread, hrest.getElem?_of_getElem? hfile⟩
    | index + 2 =>
      refine ih _ ?_ hline
      rintro _ ⟨⟩
      refine ⟨_, ?_, hfile⟩
      show (readMarker? _).map _ = _
      rw [hread]
      rfl

/-- If nothing is expected, then the first line that comes from a file stands right behind a
marker. -/
theorem exists_marker_of_first (h : WritesNumeric none files lines written after) {index : Nat}
    (hline : (written[index]?.bind StageLine.origin?).isSome = true)
    (hfirst : ∀ earlier, earlier < index → written[earlier]?.bind StageLine.origin? = none) :
    ∃ before text, index = before + 1 ∧ written[before]? = some (.marker text) := by
  generalize hexpected : (none : Option Origin) = expected at h
  induction h generalizing index with
  | done => cases hline
  | @unknown _ _ _ line _ _ horigin _ ih =>
    cases index with
    | zero =>
      have hnone : line.written.origin? = none := by rw [CodeLine.origin?_written, horigin]; rfl
      rw [List.getElem?_cons_zero, Option.bind_some, hnone] at hline
      cases hline
    | succ index =>
      obtain ⟨before, text, rfl, hmarker⟩ := ih hline
        (fun earlier hearlier => hfirst (earlier + 1) (Nat.succ_lt_succ hearlier)) rfl
      exact ⟨before + 1, text, rfl, hmarker⟩
  | follow _ _ _ => cases hexpected
  | @mark _ origin _ _ line _ _ horigin _ _ =>
    match index with
    | 0 => cases hline
    | 1 => exact ⟨0, _, rfl, rfl⟩
    | index + 2 =>
      have hnone : line.written.origin? = none := hfirst 1 (by omega)
      rw [CodeLine.origin?_written, horigin] at hnone
      cases hnone

end WritesNumeric

/-! ### Stages with numeric markers -/

section Stages

variable {settings : Settings} {shader : Shader} {root : SourcePath} {binding : BoundStage}
  {parts : StageParts}

/-- Before the first marker no line has a number. -/
theorem replayMarkers_generated (preamble : List String) (rest : List StageLine) :
    replayMarkers none ((preamble.map fun line => .generated line.toList) ++ rest) =
      (preamble.map fun _ => none) ++ replayMarkers none rest := by
  induction preamble with
  | nil => rfl
  | cons line others ih =>
    rw [List.map_cons, List.map_cons, List.cons_append, List.cons_append, replayMarkers]
    exact congrArg _ ih

/-- No generated line comes from a file. -/
theorem exists_place_of_origin? {preamble : List String} {rest : List StageLine} {index : Nat}
    {origin : BlockOrigin} (h : ((preamble.map fun line => .generated line.toList) ++
      rest)[index]?.bind StageLine.origin? = some origin) :
    ∃ place, index = preamble.length + place ∧
      rest[place]?.bind StageLine.origin? = some origin := by
  induction preamble generalizing index with
  | nil => exact ⟨index, (Nat.zero_add _).symm, h⟩
  | cons line others ih =>
    cases index with
    | zero => cases h
    | succ index =>
      obtain ⟨place, rfl, hplace⟩ := ih h
      exact ⟨place, by rw [List.length_cons]; omega, hplace⟩

/-- Behind the generated lines stands the rest. -/
theorem getElem?_generated (preamble : List String) (rest : List StageLine) (place : Nat) :
    ((preamble.map fun line => StageLine.generated line.toList) ++
      rest)[preamble.length + place]? = rest[place]? := by
  rw [List.getElem?_append_right (by rw [List.length_map]; omega), List.length_map,
    Nat.add_sub_cancel_left]

section Headed

variable {stage : LinkedStage} {preamble : List String} {written : List StageLine}
  {lines : List CodeLine}

/-- The origins of the lines behind a preamble are those of the code there. -/
theorem locate_of_headed
    (hlines : stage.lines = (preamble.map fun line => .generated line.toList) ++ written)
    (place : Nat) :
    stage.locate (preamble.length + place + 1) = written[place]?.bind StageLine.origin? := by
  show stage.lines[preamble.length + place]?.bind StageLine.origin? = _
  rw [hlines, getElem?_generated]

/-- A line that has an origin stands behind the preamble. -/
theorem exists_place_of_locate
    (hlines : stage.lines = (preamble.map fun line => .generated line.toList) ++ written)
    {index : Nat} {origin : BlockOrigin} (h : stage.locate (index + 1) = some origin) :
    ∃ place, index = preamble.length + place ∧
      written[place]?.bind StageLine.origin? = some origin := by
  have hbind : stage.lines[index]?.bind StageLine.origin? = some origin := h
  rw [hlines] at hbind
  exact exists_place_of_origin? hbind

/-- Behind a preamble, counting by the markers comes to the origins of lines. -/
theorem WritesNumeric.exists_replay_of_locate
    (h : WritesNumeric none [] lines written stage.files)
    (hlines : stage.lines = (preamble.map fun line => .generated line.toList) ++ written)
    {number : Nat} {origin : BlockOrigin} (hlocate : stage.locate number = some origin) :
    ∃ file, (replayMarkers none stage.lines)[number - 1]? = some (some (origin.line, file)) ∧
      stage.files[file]? = some origin.file := by
  cases number with
  | zero => cases hlocate
  | succ index =>
    obtain ⟨place, rfl, hbind⟩ := exists_place_of_locate hlines hlocate
    obtain ⟨line, hline, horigin⟩ := Option.bind_eq_some_iff.mp hbind
    obtain ⟨text, block, found, rfl, rfl⟩ := exists_code_of_origin? horigin
    obtain ⟨file, hreplay, hfile⟩ := h.replay_eq none nofun hline
    refine ⟨file, ?_, hfile⟩
    rw [hlines, replayMarkers_generated, Nat.add_sub_cancel,
      List.getElem?_append_right (by rw [List.length_map]; omega), List.length_map,
      Nat.add_sub_cancel_left]
    exact hreplay

/-- Behind a preamble, the first line that has an origin stands right behind a marker. -/
theorem WritesNumeric.exists_marker_of_locate
    (h : WritesNumeric none [] lines written stage.files)
    (hlines : stage.lines = (preamble.map fun line => .generated line.toList) ++ written)
    {index : Nat} (hlocate : (stage.locate (index + 1)).isSome = true)
    (hfirst : ∀ earlier, earlier < index → stage.locate (earlier + 1) = none) :
    ∃ before text, index = before + 1 ∧ stage.lines[before]? = some (.marker text) := by
  obtain ⟨origin, horigin⟩ := Option.isSome_iff_exists.mp hlocate
  obtain ⟨place, rfl, hbind⟩ := exists_place_of_locate hlines horigin
  have hearlier : ∀ earlier, earlier < place →
      written[earlier]?.bind StageLine.origin? = none := by
    intro earlier hlt
    rw [← locate_of_headed hlines]
    exact hfirst _ (Nat.add_lt_add_left hlt _)
  obtain ⟨before, text, rfl, hmarker⟩ := h.exists_marker_of_first (by rw [hbind]; rfl) hearlier
  exact ⟨preamble.length + before, text, rfl, by rw [hlines, getElem?_generated, hmarker]⟩

/-- A marker of a stage is a marker of its code. -/
theorem marker_mem_of_headed
    (hlines : stage.lines = (preamble.map fun line => .generated line.toList) ++ written)
    {text : List Char} (hmem : .marker text ∈ stage.lines) : .marker text ∈ written := by
  rw [hlines] at hmem
  refine (List.mem_append.mp hmem).resolve_left fun hgenerated => ?_
  obtain ⟨line, -, hline⟩ := List.mem_map.mp hgenerated
  cases hline

/-- A stage of which the code is written as the rules say, behind a preamble, is counted right. -/
theorem WritesNumeric.isReplayed (h : WritesNumeric none [] lines written stage.files)
    (hlines : stage.lines = (preamble.map fun line => .generated line.toList) ++ written)
    (hsource : Text.lines stage.source.toList =
      stage.lines.map fun line => Text.terminated line.text)
    (hrooted : ∀ line ∈ lines, ∀ origin ∈ line.origin?, origin.file.IsRooted) :
    stage.IsReplayed where
  source := hsource
  located _ _ hlocate := h.exists_replay_of_locate hlines hlocate
  first _ hlocate hfirst := h.exists_marker_of_locate hlines hlocate hfirst
  markers _ hmem := h.readMarker?_of_mem (marker_mem_of_headed hlines hmem)
  files := h.pairwise_files hrooted nofun .nil

end Headed

/-- Every file that a line of code comes from has a canonical path. -/
theorem StageParts.AreFor.isRooted (h : parts.AreFor shader root binding) :
    ∀ line ∈ parts.blocks.flatMap codeLines, ∀ origin ∈ line.origin?, origin.file.IsRooted := by
  intro line hline origin horigin
  obtain ⟨block, hblock, hmem⟩ := List.mem_flatMap.mp hline
  obtain ⟨index, hindex, heq⟩ := exists_line_of_mem_codeLines hmem
  obtain ⟨found, hlocate, hrooted, -⟩ := (h.placed block hblock).origin index line.text hindex
  rw [heq, hlocate] at horigin
  cases horigin
  exact hrooted

/-- A stage with numeric markers that is put together from parts is counted right. -/
theorem StageParts.AreFor.isReplayed (h : parts.AreFor shader root binding)
    (hsource : Text.lines (parts.assemble settings shader).source.toList =
      (parts.assemble settings shader).lines.map fun line => Text.terminated line.text)
    (hnumeric : settings.lineMarkers = .numeric) :
    (parts.assemble settings shader).IsReplayed := by
  have hwrites : WritesNumeric none [] (parts.blocks.flatMap codeLines)
      (writeCode settings.lineMarkers none [] (parts.blocks.flatMap codeLines)).1
      (parts.assemble settings shader).files := by
    show WritesNumeric none [] _ _ (writeCode settings.lineMarkers none [] _).2
    rw [hnumeric]
    exact writesNumeric_writeCode none [] _
  exact hwrites.isReplayed rfl hsource h.isRooted

end Stages

end Linking

namespace Compiler

variable {σ : Type} {compiler : Compiler σ} {root : String} {state : σ} {parsed : ParsedShader}

open Linking

/-- If the stages of a shader that has been read are linked with numeric markers, and the settings
have no line feeds, then counting by the markers agrees with the origins of lines. -/
theorem isReplayed_of_parse (h : (compiler.parse root).outcomeFrom state = .ok parsed)
    {settings : Settings} (hnumeric : settings.lineMarkers = .numeric)
    (hversion : '\n' ∉ settings.defaultVersion.toList)
    (hdefines : ∀ entry ∈ settings.defines.entries,
      '\n' ∉ entry.1.toList ∧ '\n' ∉ entry.2.toList) {stages : LinkedStages}
    (hok : (link settings parsed.shader).outcome = .ok stages) :
    ∀ entry ∈ stages, entry.2.IsReplayed := by
  have hplaced := isPlaced_of_parse h
  intro entry hentry
  obtain ⟨binding, parts, -, hfor, hstage⟩ := exists_parts_of_link hplaced hok entry hentry
  have hsource := hfor.lines_source hplaced hversion hdefines (by rw [hnumeric]; exact nofun)
  rw [hstage]
  exact hfor.isReplayed hsource hnumeric

/-- A stage that repeats a block with an included file, where the block ends within a line. -/
theorem isReplayed_of_parse_twice :
    let text := r"Shader { GLSL A {int a;" ++ "\n#include \"b.glsl\"\n" ++
      r"int c;} Technique T { Pass { Vertex = (A, A) Fragment = A } } }"
    let files := MemorySources.ofFiles [(⟨"/a.shader"⟩, text), (⟨"/b.glsl"⟩, "int b;")]
    ∃ parsed stages,
      (parse ⟨MemorySources.provider, .standard⟩ "a.shader").outcomeFrom files = .ok parsed ∧
      (link .standard parsed.shader).outcome = .ok stages ∧
      (stages.map fun entry => replayMarkers none entry.2.lines) =
        [[none, none, some (1, 0), some (2, 0), some (1, 1), some (2, 1), some (3, 0), some (4, 0),
            some (1, 0), some (2, 0), some (1, 1), some (2, 1), some (3, 0)],
          [none, none, some (1, 0), some (2, 0), some (1, 1), some (2, 1), some (3, 0)]] ∧
      ∀ entry ∈ stages, entry.2.IsReplayed := by
  intro text files
  have hrun : ((parse ⟨MemorySources.provider, .standard⟩ "a.shader").outcomeFrom
      files).toOption.any (fun parsed =>
        (link .standard parsed.shader).outcome.toOption.any fun stages =>
          (stages.map fun entry => replayMarkers none entry.2.lines) =
            [[none, none, some (1, 0), some (2, 0), some (1, 1), some (2, 1), some (3, 0),
                some (4, 0), some (1, 0), some (2, 0), some (1, 1), some (2, 1), some (3, 0)],
              [none, none, some (1, 0), some (2, 0), some (1, 1), some (2, 1), some (3, 0)]]) =
      true := by decide +kernel
  obtain ⟨parsed, hparsed, hstages⟩ := exists_of_toOption_any hrun
  obtain ⟨stages, hlink, hreplay⟩ := exists_of_toOption_any hstages
  exact ⟨parsed, stages, hparsed, hlink, of_decide_eq_true hreplay,
    isReplayed_of_parse hparsed rfl (by decide) (by decide) hlink⟩

end Compiler

end ShaderAssembly
