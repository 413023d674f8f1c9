import ShaderAssembly.Proofs.LinkedCode

/-!
# Hoisted versions

The version that the code of a stage declares first is declared on the first line of the source, and
where the code declares versions it has empty lines instead. A version is looked for in lines
without their line ends, and a line is emptied if it declares a version without any carriage
returns at its end. The two differ for a line that ends with the word of the directive and has
more carriage returns behind it than the one of its line end: these are blanks, so the line
declares an empty version, but it is not emptied.
-/

namespace ShaderAssembly

/-! ### Ends of lines -/

namespace Text

/-- A line without its line end is the line without all carriage returns and line feeds at its end,
and some of these. -/
theorem exists_bareLine_eq (line : List Char) : ∃ ending,
    bareLine line = dropLineEnd line ++ ending ∧ ∀ c ∈ ending, isBlank c = true := by
  have hblank : ∀ {c : Char}, (c == '\r' || c == '\n') = true → isBlank c = true := by
    intro c hc
    rcases Bool.or_eq_true_iff.mp hc with hc | hc
    · rw [beq_iff_eq.mp hc]
      decide
    · rw [beq_iff_eq.mp hc]
      decide
  -- Dropping from the end what is left there comes to the same if a part of it is dropped before.
  have hsplit : ∀ before : List Char, ∃ ending,
      before.reverse = (before.dropWhile fun c => c == '\r' || c == '\n').reverse ++ ending ∧
        ∀ c ∈ ending, isBlank c = true := by
    intro before
    refine ⟨(before.takeWhile fun c => c == '\r' || c == '\n').reverse, ?_, fun c hc => ?_⟩
    · rw [← List.reverse_append, List.takeWhile_append_dropWhile]
    · have hend := List.mem_takeWhile_imp (List.mem_reverse.mp hc)
      exact hblank hend
  unfold bareLine dropLineEnd
  split
  · rename_i before hline
    rw [hline]
    exact hsplit before
  · rename_i before _ hline
    rw [hline]
    exact hsplit before
  · have hline := hsplit line.reverse
    rwa [List.reverse_reverse] at hline

/-- A text on one line has no line end. -/
theorem bareLine_of_not_mem {text : List Char} (h : '\n' ∉ text) : bareLine text = text := by
  unfold bareLine
  split
  · rename_i before hline
    exact absurd (List.mem_reverse.mp (hline ▸ List.mem_cons_self ..)) h
  · rename_i before _ hline
    exact absurd (List.mem_reverse.mp (hline ▸ List.mem_cons_self ..)) h
  · rfl

/-- A text on one line that is ended loses at most a carriage return with the line end. -/
theorem exists_eq_bareLine_terminated {text : List Char} (h : '\n' ∉ text) : ∃ ending,
    text = bareLine (terminated text) ++ ending ∧ ∀ c ∈ ending, isBlank c = true := by
  have hreverse : (text ++ ['\n']).reverse = '\n' :: text.reverse := by
    rw [List.reverse_append, List.reverse_singleton, List.singleton_append]
  rw [terminated_of_not_mem h, bareLine, hreverse]
  split
  · rename_i before hline
    refine ⟨['\r'], ?_, List.forall_mem_singleton.mpr (by decide)⟩
    rw [← List.reverse_cons, ← (List.cons.inj hline).2, List.reverse_reverse]
  · rename_i before _ hline
    refine ⟨[], ?_, List.forall_mem_nil _⟩
    rw [← (List.cons.inj hline).2, List.reverse_reverse, List.append_nil]
  · rename_i hne
    exact absurd rfl (hne _)

end Text

/-! ### Version directives -/

namespace Version

open Text (isBlank)

/-- Whether a text is a version directive up to the end of its word. -/
def IsWord (text : List Char) : Prop :=
  ∃ before between, (∀ c ∈ before, isBlank c = true) ∧ (∀ c ∈ between, isBlank c = true) ∧
    text = before ++ '#' :: (between ++ "version".toList)

/-- Whether a line is the word of a version directive and has more carriage returns behind it than
that of its line end. -/
def IsBare (line : List Char) : Prop :=
  IsWord (Text.dropLineEnd line) ∧ Text.bareLine line ≠ Text.dropLineEnd line

/-- Blanks before other characters are trimmed. -/
theorem trimStart_append_cons {blanks : List Char} (h : ∀ c ∈ blanks, isBlank c = true) {c : Char}
    (hc : isBlank c = false) (rest : List Char) :
    Text.trimStart (blanks ++ c :: rest) = c :: rest := by
  rw [Text.trimStart, List.dropWhile_append_of_pos h, List.dropWhile_cons_of_neg]
  rw [hc]
  exact Bool.false_ne_true

/-- What is left when blanks are trimmed stands behind them. -/
theorem exists_blanks_of_trimStart (text : List Char) :
    ∃ blanks, (∀ c ∈ blanks, isBlank c = true) ∧ text = blanks ++ Text.trimStart text :=
  ⟨text.takeWhile isBlank, fun _ hc => List.mem_takeWhile_imp hc,
    List.takeWhile_append_dropWhile.symm⟩

/-- A line declares a version if a blank stands behind the word of the directive. -/
theorem isDeclaration_iff {line : List Char} : isDeclaration line = true ↔
    ∃ word c rest, IsWord word ∧ isBlank c = true ∧ line = word ++ c :: rest := by
  constructor
  · intro h
    obtain ⟨version, hversion⟩ := Option.isSome_iff_exists.mp h
    unfold declared? at hversion
    split at hversion
    · rename_i rest hstart
      split at hversion
      · rename_i c after hword
        split at hversion
        · rename_i hblank
          obtain ⟨before, hbefore, hline⟩ := exists_blanks_of_trimStart line
          obtain ⟨between, hbetween, hrest⟩ := exists_blanks_of_trimStart rest
          have hafter := List.isPrefixOf?_eq_some_iff_append_eq.mp hword
          refine ⟨_, c, after, ⟨before, between, hbefore, hbetween, rfl⟩, hblank, ?_⟩
          rw [hline, hstart, hrest, ← hafter]
          simp only [List.append_assoc, List.cons_append]
        · cases hversion
      · cases hversion
    · cases hversion
  · rintro ⟨_, c, rest, ⟨before, between, hbefore, hbetween, rfl⟩, hblank, rfl⟩
    have hline : before ++ '#' :: (between ++ "version".toList) ++ c :: rest =
        before ++ '#' :: (between ++ 'v' :: ("ersion".toList ++ c :: rest)) := by
      simp only [List.append_assoc, List.cons_append]
      rfl
    have hword : "version".toList.isPrefixOf? ('v' :: ("ersion".toList ++ c :: rest)) =
        some (c :: rest) := List.isPrefixOf?_eq_some_iff_append_eq.mpr rfl
    rw [isDeclaration, declared?, hline, trimStart_append_cons hbefore (by decide)]
    simp only [trimStart_append_cons hbetween (show isBlank 'v' = false by decide), hword, hblank,
      if_true, Option.isSome_some]

/-- A line that declares a version does so with more behind it. -/
theorem isDeclaration_append {line : List Char} (h : isDeclaration line = true)
    (more : List Char) : isDeclaration (line ++ more) = true := by
  obtain ⟨word, c, rest, hword, hblank, rfl⟩ := isDeclaration_iff.mp h
  refine isDeclaration_iff.mpr ⟨word, c, rest ++ more, hword, hblank, ?_⟩
  rw [List.append_assoc, List.cons_append]

/-- If a line declares a version only with more blanks behind it, it is the word of the
directive. -/
theorem isWord_of_isDeclaration_append {line more : List Char}
    (hmore : ∀ c ∈ more, isBlank c = true) (h : isDeclaration (line ++ more) = true)
    (hline : isDeclaration line = false) : IsWord line ∧ more ≠ [] := by
  obtain ⟨word, c, rest, hword, hblank, heq⟩ := isDeclaration_iff.mp h
  rcases List.append_eq_append_iff.mp heq with ⟨middle, rfl, rfl⟩ | ⟨middle, rfl, hrest⟩
  · -- The word does not end among the blanks, as its last letter is none.
    cases hmiddle : middle.getLast? with
    | none =>
      obtain rfl := List.getLast?_eq_none_iff.mp hmiddle
      rw [List.append_nil] at hword
      exact ⟨hword, by simp⟩
    | some last =>
      have hmem := List.mem_of_getLast? hmiddle
      have hlast := hmore last (List.mem_append_left _ hmem)
      obtain ⟨before, between, -, -, hparts⟩ := hword
      have hend : (line ++ middle).getLast? = some 'n' := by
        rw [hparts, List.getLast?_append, List.getLast?_cons, List.getLast?_append]
        rfl
      rw [List.getLast?_append, hmiddle, Option.some_or] at hend
      cases hend
      exact absurd hlast (by decide)
  · cases middle with
    | nil =>
      rw [List.append_nil]
      rw [List.nil_append] at hrest
      exact ⟨hword, by rw [← hrest]; exact List.cons_ne_nil _ _⟩
    | cons d middle =>
      obtain ⟨rfl, rfl⟩ := List.cons.inj hrest
      rw [isDeclaration_iff.mpr ⟨word, c, middle, hword, hblank, rfl⟩] at hline
      cases hline

/-- A line declares a version exactly if it does without all carriage returns at its end, or is the
bare word of the directive. -/
theorem isDeclaration_bareLine_iff {line : List Char} :
    isDeclaration (Text.bareLine line) = true ↔
      isDeclaration (Text.dropLineEnd line) = true ∨ IsBare line := by
  obtain ⟨ending, hbare, hblank⟩ := Text.exists_bareLine_eq line
  constructor
  · intro h
    rw [hbare] at h
    cases hdrop : isDeclaration (Text.dropLineEnd line) with
    | true => exact .inl rfl
    | false =>
      obtain ⟨hword, hne⟩ := isWord_of_isDeclaration_append hblank h hdrop
      refine .inr ⟨hword, fun heq => hne ?_⟩
      rw [hbare] at heq
      exact List.append_right_eq_self.mp heq
  · rintro (h | ⟨hword, hne⟩)
    · rw [hbare]
      exact isDeclaration_append h ending
    · cases ending with
      | nil => exact absurd (hbare.trans (List.append_nil _)) hne
      | cons c rest =>
        exact isDeclaration_iff.mpr ⟨_, c, rest, hword, hblank c (List.mem_cons_self ..), hbare⟩

/-- The word of the directive alone declares no version. -/
theorem IsWord.isDeclaration {text : List Char} (h : IsWord text) : isDeclaration text = false := by
  obtain ⟨before, between, hbefore, hbetween, rfl⟩ := h
  have hword : "version".toList = 'v' :: "ersion".toList := by decide
  have hnone : ('v' :: "ersion".toList).isPrefixOf? ('v' :: "ersion".toList) = some [] := by
    decide
  rw [Version.isDeclaration, declared?, trimStart_append_cons hbefore (by decide), hword]
  simp only [trimStart_append_cons hbetween (show isBlank 'v' = false by decide), hnone,
    Option.isSome_none]

/-- A line without the character that starts directives declares no version. -/
theorem isDeclaration_of_not_mem {line : List Char} (h : '#' ∉ line) :
    isDeclaration line = false := by
  refine Bool.eq_false_iff.mpr fun hline => h ?_
  obtain ⟨_, c, rest, ⟨before, between, -, -, rfl⟩, -, rfl⟩ := isDeclaration_iff.mp hline
  simp

/-- A directive with another first letter declares no version. -/
theorem isDeclaration_of_letter {c : Char} (hblank : isBlank c = false) (hc : 'v' ≠ c)
    (rest : List Char) : isDeclaration ('#' :: c :: rest) = false := by
  have hstart : Text.trimStart ('#' :: c :: rest) = '#' :: c :: rest :=
    List.dropWhile_cons_of_neg (by decide)
  have hletter : Text.trimStart (c :: rest) = c :: rest :=
    List.dropWhile_cons_of_neg (by rw [hblank]; exact Bool.false_ne_true)
  have hword : "version".toList.isPrefixOf? (c :: rest) = none := by
    show ('v' :: "ersion".toList).isPrefixOf? (c :: rest) = none
    rw [List.isPrefixOf?, if_neg]
    exact fun heq => hc (beq_iff_eq.mp heq)
  rw [isDeclaration, declared?, hstart]
  simp only [hletter, hword, Option.isSome_none]

/-- A text on one line that is ended declares a version only if it does as it is. -/
theorem isDeclaration_of_terminated {text : List Char} (h : '\n' ∉ text)
    (hline : isDeclaration (Text.bareLine (Text.terminated text)) = true) :
    isDeclaration text = true := by
  obtain ⟨ending, heq, -⟩ := Text.exists_eq_bareLine_terminated h
  rw [heq]
  exact isDeclaration_append hline ending

end Version

/-! ### Stages -/

/-- Whether a line of a source is what it should be for a line of a block: empty if that declares
a version, unless it is the bare word of the directive, and otherwise the line, ended. -/
def IsHoistedFrom (line shown : List Char) : Prop :=
  (Version.isDeclaration (Text.bareLine line) = true → ¬ Version.IsBare line → shown = ['\n']) ∧
    (Version.isDeclaration (Text.bareLine line) = false ∨ Version.IsBare line →
      shown = Text.terminated line)

/-- Whether a stage declares the version that the lines of its blocks declare first, or else the
default version, on its first line. If its markers stand on single lines, then the lines that
declare versions are empty in it, and it declares no version again, but for bare words of the
directive. -/
structure LinkedStage.HoistsVersion (defaultVersion : String) (lines : List (List Char))
    (markersArePlain : Prop) (stage : LinkedStage) : Prop where
  /-- The first line if a line declares a version. -/
  declared : ∀ before line after version, lines = before ++ line :: after →
    (∀ other ∈ before, Version.isDeclaration (Text.bareLine other) = false) →
      Version.declared? (Text.bareLine line) = some version →
        (Text.lines stage.source.toList)[0]? = some ("#version ".toList ++ version ++ ['\n'])
  /-- The first line if none does. -/
  undeclared : (∀ line ∈ lines, Version.isDeclaration (Text.bareLine line) = false) →
    (Text.lines stage.source.toList)[0]? =
      some ("#version ".toList ++ defaultVersion.toList ++ ['\n'])
  /-- What lines become. -/
  emptied : markersArePlain → List.Forall₂ IsHoistedFrom lines stage.locatedLines
  /-- What is declared on other lines. -/
  later : markersArePlain → ∀ index line, (Text.lines stage.source.toList)[index + 1]? = some line →
    Version.isDeclaration (Text.bareLine line) = true →
      ∃ other ∈ lines, Version.IsBare other ∧ line = Text.terminated other

namespace Linking

section Stages

variable {settings : Settings} {shader : Shader} {root : SourcePath} {binding : BoundStage}
  {parts : StageParts}

/-- What a source has for a line is as it should be. -/
theorem isHoistedFrom_shownLine (line : List Char) : IsHoistedFrom line (shownLine line) := by
  unfold shownLine
  constructor
  · intro hdeclared hbare
    exact if_pos ((Version.isDeclaration_bareLine_iff.mp hdeclared).resolve_right hbare)
  · intro hline
    refine if_neg fun hdropped => ?_
    rcases hline with hnone | hbare
    · rw [Version.isDeclaration_bareLine_iff.mpr (.inl hdropped)] at hnone
      cases hnone
    · rw [hbare.1.isDeclaration] at hdropped
      cases hdropped

/-- The version of a preamble stands on one line. -/
theorem not_mem_version (hversion : '\n' ∉ settings.defaultVersion.toList)
    (blocks : List CodeBlock) :
    '\n' ∉ ((declaredVersion? blocks).getD settings.defaultVersion).toList := by
  cases hdeclared : declaredVersion? blocks with
  | none => exact hversion
  | some version => exact not_mem_declaredVersion? hdeclared

/-- The first line of a source declares its version. -/
theorem StageParts.head_lines_source (parts : StageParts) (shader : Shader)
    (hversion : '\n' ∉ settings.defaultVersion.toList) :
    (Text.lines (parts.assemble settings shader).source.toList)[0]? =
      some ("#version ".toList ++
        ((declaredVersion? parts.blocks).getD settings.defaultVersion).toList ++ ['\n']) := by
  have hplain := not_mem_version hversion parts.blocks
  generalize hdeclared : (declaredVersion? parts.blocks).getD settings.defaultVersion = version
    at hplain
  have hline : '\n' ∉ (Version.declaration version).toList :=
    not_mem_append (by decide) hplain
  obtain ⟨rest, hrest⟩ : ∃ rest, (parts.assemble settings shader).lines =
      .generated (Version.declaration version).toList :: rest := by
    rw [← hdeclared]
    exact ⟨_, rfl⟩
  have hterminated : Text.terminated (Version.declaration version).toList =
      "#version ".toList ++ version.toList ++ ['\n'] := by
    rw [Text.terminated_of_not_mem hline, Version.declaration, String.toList_append]
    rfl
  have hsingle : Text.lines (Text.terminated (Version.declaration version).toList) =
      [Text.terminated (Version.declaration version).toList] := by
    rw [hterminated]
    exact Text.lines_concat_newline (by
      rw [List.mem_append, not_or]
      exact ⟨by decide, hplain⟩)
  rw [LinkedStage.source_eq, hrest, String.toList_ofList, List.map_cons, List.flatMap_cons]
  show (Text.lines (Text.terminated (Version.declaration version).toList ++ _))[0]? = _
  rw [Text.lines_append (Text.endsLine_terminated _), hsingle, ← hterminated]
  rfl

/-- Lines that declare no version have none. -/
theorem findSome?_declared?_eq_none {lines : List (List Char)}
    (h : ∀ line ∈ lines, Version.isDeclaration (Text.bareLine line) = false) :
    lines.findSome? (fun line => (Version.declared? (Text.bareLine line)).map String.ofList) =
      none := by
  refine List.findSome?_eq_none_iff.mpr fun line hline => ?_
  rw [Option.map_eq_none_iff, ← Option.isNone_iff_eq_none]
  exact Option.isSome_eq_false_iff.mp (h line hline)

/-- The version that the lines of blocks declare is that of the first line that declares one. -/
theorem declaredVersion?_eq_some {blocks : List CodeBlock} {before after : List (List Char)}
    {line version : List Char}
    (hlines : blocks.flatMap (·.expanded.lines) = before ++ line :: after)
    (hbefore : ∀ other ∈ before, Version.isDeclaration (Text.bareLine other) = false)
    (hline : Version.declared? (Text.bareLine line) = some version) :
    declaredVersion? blocks = some (String.ofList version) := by
  rw [declaredVersion?, hlines, List.findSome?_append, findSome?_declared?_eq_none hbefore,
    Option.none_or, List.findSome?_cons, hline]
  rfl

/-- No generated line but the first one declares a version. -/
theorem isDeclaration_of_mem_preamble (hshader : shader.IsPlaced root)
    {blocks : List CodeBlock} {interface : List String}
    (hinterface : ∀ line ∈ interface, '#' ∉ line.toList) :
    ∀ line ∈ (preamble settings shader blocks interface).tail,
      Version.isDeclaration line.toList = false := by
  intro line hline
  unfold preamble at hline
  rw [List.tail_cons] at hline
  rcases List.mem_append.mp hline with hline | hline
  · rcases List.mem_append.mp hline with hline | hline
    · rcases List.mem_append.mp hline with hline | hline
      · split at hline
        · obtain rfl := List.mem_singleton.mp hline
          decide
        · cases hline
      · obtain ⟨entry, -, rfl⟩ := List.mem_map.mp hline
        rw [String.toList_append, String.toList_append, String.toList_append]
        exact Version.isDeclaration_of_letter (c := 'd') (by decide) (by decide) _
    · obtain ⟨uniform, huniform, rfl⟩ := List.mem_map.mp hline
      have hnamed := hshader.named.not_mem (c := '#') (by decide)
      exact Version.isDeclaration_of_not_mem (not_mem_uniform (.inr rfl)
        (hnamed.uniforms uniform (List.mem_filter.mp huniform).1))
  · exact Version.isDeclaration_of_not_mem (hinterface line hline)

/-- If what is kept of a line of code declares a version when it is ended, it is a bare word of the
directive. -/
theorem isBare_of_isDeclaration {line : List Char} (hsingle : Text.lines line = [line])
    (h : Version.isDeclaration (Text.bareLine (shownLine line)) = true) :
    Version.IsBare line ∧ shownLine line = Text.terminated line := by
  unfold shownLine at h ⊢
  split at h
  · exact absurd h (by decide)
  · rename_i hdropped
    rw [if_neg hdropped]
    have hdeclared : Version.isDeclaration (Text.bareLine line) = true := by
      obtain ⟨before, hbefore, rfl | rfl⟩ := Text.eq_of_lines_eq_singleton hsingle
      · rw [Text.bareLine_of_not_mem hbefore]
        exact Version.isDeclaration_of_terminated hbefore h
      · rwa [Text.terminated, if_pos List.getLast?_concat] at h
    exact ⟨(Version.isDeclaration_bareLine_iff.mp hdeclared).resolve_left hdropped, rfl⟩

/-- Behind the first line of a stage only bare words of the directive declare versions. -/
theorem StageParts.AreFor.exists_isBare (h : parts.AreFor shader root binding)
    (hshader : shader.IsPlaced root) (hversion : '\n' ∉ settings.defaultVersion.toList)
    (hdefines : ∀ entry ∈ settings.defines.entries,
      '\n' ∉ entry.1.toList ∧ '\n' ∉ entry.2.toList)
    (hroot : settings.lineMarkers = .quoted → '\n' ∉ root.text.toList) {index : Nat}
    {line : StageLine}
    (hline : (parts.assemble settings shader).lines[index + 1]? = some line)
    (hdeclared : Version.isDeclaration (Text.bareLine (Text.terminated line.text)) = true) :
    ∃ other ∈ parts.blocks.flatMap (·.expanded.lines), Version.IsBare other ∧
      Text.terminated line.text = Text.terminated other := by
  have hlines : (parts.assemble settings shader).lines =
      .generated (Version.declaration
        ((declaredVersion? parts.blocks).getD settings.defaultVersion)).toList ::
        (((preamble settings shader parts.blocks parts.interface).tail.map fun line =>
          StageLine.generated line.toList) ++
          (writeCode settings.lineMarkers none [] (parts.blocks.flatMap codeLines)).1) := rfl
  rw [hlines, List.getElem?_cons_succ] at hline
  rcases List.mem_append.mp (List.mem_of_getElem? hline) with hgenerated | hcode
  · obtain ⟨text, htext, rfl⟩ := List.mem_map.mp hgenerated
    have hplain := not_mem_preamble hversion hdefines (hshader.named.not_mem (by decide))
      (h.interface _ (.inl rfl)) text (List.mem_of_mem_tail htext)
    have hnone := isDeclaration_of_mem_preamble hshader (h.interface _ (.inr rfl)) text htext
    have hsome := Version.isDeclaration_of_terminated hplain hdeclared
    rw [hnone] at hsome
    cases hsome
  · obtain ⟨code, hmem, rfl | ⟨origin, horigin, known, hmarker⟩⟩ := of_mem_writeCode hcode
    · have htext : code.text ∈ parts.blocks.flatMap (·.expanded.lines) := by
        rw [← map_text_codeLines]
        exact List.mem_map.mpr ⟨code, hmem, rfl⟩
      obtain ⟨block, -, hblock⟩ := List.mem_flatMap.mp htext
      have hshown : Text.terminated code.written.text = shownLine code.text :=
        terminated_keptText code.text
      rw [hshown] at hdeclared ⊢
      obtain ⟨hbare, heq⟩ := isBare_of_isDeclaration (Text.lines_of_mem_lines hblock) hdeclared
      exact ⟨code.text, htext, hbare, heq⟩
    · have hplain : '\n' ∉ line.text := by
        refine not_mem_marker (fun hquoted => ?_) line hmarker
        obtain ⟨block, hblock, hcode⟩ := List.mem_flatMap.mp hmem
        obtain ⟨place, hplace, hfound⟩ := exists_line_of_mem_codeLines hcode
        obtain ⟨found, hlocate, -, hfile⟩ := (h.placed block hblock).origin place code.text hplace
        rw [hfound, hlocate] at horigin
        cases horigin
        exact hfile (hroot hquoted)
      obtain ⟨text, rfl⟩ := exists_text_of_mem_marker hmarker
      have hnone : Version.isDeclaration (StageLine.marker ("#line ".toList ++ text)).text =
          false := Version.isDeclaration_of_letter (c := 'l') (by decide) (by decide) _
      have hsome := Version.isDeclaration_of_terminated hplain hdeclared
      rw [hnone] at hsome
      cases hsome

/-- A stage that is put together from parts hoists the version of its blocks. -/
theorem StageParts.AreFor.hoistsVersion (h : parts.AreFor shader root binding)
    (hshader : shader.IsPlaced root) (hversion : '\n' ∉ settings.defaultVersion.toList)
    (hdefines : ∀ entry ∈ settings.defines.entries,
      '\n' ∉ entry.1.toList ∧ '\n' ∉ entry.2.toList) :
    (parts.assemble settings shader).HoistsVersion settings.defaultVersion
      (parts.blocks.flatMap (·.expanded.lines))
      (settings.lineMarkers = .quoted → '\n' ∉ root.text.toList) := by
  have hfirst := parts.head_lines_source shader hversion
  refine ⟨fun before line after version hlines hbefore hline => ?_, fun hnone => ?_,
    fun hroot => ?_, fun hroot index line hline hdeclared => ?_⟩
  · have htext : (String.ofList version).toList = version := String.toList_ofList
    rw [hfirst, declaredVersion?_eq_some hlines hbefore hline, Option.getD_some, htext]
  · rw [hfirst, declaredVersion?, findSome?_declared?_eq_none hnone, Option.getD_none]
  · rw [h.locatedLines_eq (h.lines_source hshader hversion hdefines hroot),
      List.forall₂_map_right_iff]
    exact List.forall₂_same.mpr fun line _ => isHoistedFrom_shownLine line
  · rw [h.lines_source hshader hversion hdefines hroot, List.getElem?_map] at hline
    obtain ⟨found, hfound, rfl⟩ := Option.map_eq_some_iff.mp hline
    exact h.exists_isBare hshader hversion hdefines hroot hfound hdeclared

end Stages

end Linking

namespace Compiler

variable {σ : Type} {compiler : Compiler σ} {root : String} {state : σ} {parsed : ParsedShader}

open Linking

/-- If the stages of a shader that has been read are linked with settings on single lines, then each
of them declares on its first line the version of the shared block, if there is one, and the blocks
that the stage refers to. The lines that declare versions are emptied, but for bare words of the
directive, unless markers quote a path with line feeds. -/
theorem hoistsVersion_of_parse (h : (compiler.parse root).outcomeFrom state = .ok parsed)
    {settings : Settings} (hversion : '\n' ∉ settings.defaultVersion.toList)
    (hdefines : ∀ entry ∈ settings.defines.entries,
      '\n' ∉ entry.1.toList ∧ '\n' ∉ entry.2.toList) {stages : LinkedStages}
    (hok : (link settings parsed.shader).outcome = .ok stages) :
    ∀ entry ∈ stages, ∃ binding referenced, (entry.1, binding) ∈ boundStages parsed.shader ∧
      List.Forall₂ (fun reference block => resolveBlock parsed.shader reference = .ok block ∧
        block.name = reference.name) binding.blocks referenced ∧
      entry.2.HoistsVersion settings.defaultVersion
        ((parsed.shader.shared?.toList ++ referenced).flatMap (·.expanded.lines))
        (settings.lineMarkers = .quoted → '\n' ∉ root.toList) := by
  have hplaced := isPlaced_of_parse h
  intro entry hentry
  obtain ⟨binding, parts, hbound, hfor, hstage⟩ := exists_parts_of_link hplaced hok entry hentry
  obtain ⟨referenced, hblocks, hreferenced⟩ := hfor.blocks
  have hhoists := hfor.hoistsVersion hplaced hversion hdefines
  rw [hblocks, ← hstage] at hhoists
  refine ⟨binding, referenced, hbound, hreferenced, hhoists.declared, hhoists.undeclared,
    fun hroot => hhoists.emptied fun hquoted => SourcePath.not_mem_rooted (hroot hquoted),
    fun hroot => hhoists.later fun hquoted => SourcePath.not_mem_rooted (hroot hquoted)⟩

/-- A stage whose second version is in an included file. -/
theorem hoistsVersion_of_parse_twice :
    let text := r"Shader { GLSL A {" ++ "\n # version  420 core \r\n#include \"b.glsl\"\n" ++
      r"} Technique T { Pass { Vertex = A Fragment = A } } }"
    let files := MemorySources.ofFiles
      [(⟨"/a.shader"⟩, text), (⟨"/b.glsl"⟩, "#version 300\r\nint b;")]
    ∃ parsed stages,
      (parse ⟨MemorySources.provider, .standard⟩ "a.shader").outcomeFrom files = .ok parsed ∧
      (link .standard parsed.shader).outcome = .ok stages ∧
      (stages.map fun entry => entry.2.source) =
        ["#version 420 core\n#line 1 0\n\n\n#line 1 1\n\nint b;\n",
          "#version 420 core\n#line 1 0\n\n\n#line 1 1\n\nint b;\n"] ∧
      ∀ entry ∈ stages, ∃ lines, entry.2.HoistsVersion "330 core" lines
        (LineMarkers.numeric = .quoted → '\n' ∉ ("a.shader" : String).toList) := by
  intro text files
  have hrun : ((parse ⟨MemorySources.provider, .standard⟩ "a.shader").outcomeFrom
      files).toOption.any (fun parsed =>
        (link .standard parsed.shader).outcome.toOption.any fun stages =>
          (stages.map fun entry => entry.2.source) =
            ["#version 420 core\n#line 1 0\n\n\n#line 1 1\n\nint b;\n",
              "#version 420 core\n#line 1 0\n\n\n#line 1 1\n\nint b;\n"]) = true := by
    decide +kernel
  obtain ⟨parsed, hparsed, hstages⟩ := exists_of_toOption_any hrun
  obtain ⟨stages, hlink, hsources⟩ := exists_of_toOption_any hstages
  refine ⟨parsed, stages, hparsed, hlink, of_decide_eq_true hsources, fun entry hentry => ?_⟩
  obtain ⟨binding, referenced, -, -, hhoists⟩ :=
    hoistsVersion_of_parse hparsed (by decide) (by decide) hlink entry hentry
  exact ⟨_, hhoists⟩

/-- The bare word of the directive with two carriage returns before its line feed: the first line
declares the empty version, and the word stands in the source all the same. -/
theorem bare_version_stays :
    let text := r"Shader { GLSL A {" ++ "\n#version\r\r\n" ++
      r"} Technique T { Pass { Vertex = A Fragment = A } } }"
    let files := MemorySources.ofFiles [(⟨"/s.glsl"⟩, text)]
    ∃ parsed stages,
      (parse ⟨MemorySources.provider, .standard⟩ "/s.glsl").outcomeFrom files = .ok parsed ∧
      (link .standard parsed.shader).outcome = .ok stages ∧
      (parsed.shader.blocks.values.map fun block => block.expanded.lines) =
        [[['\n'], "#version\r\r\n".toList]] ∧
      (stages.map fun entry => Text.lines entry.2.source.toList) =
        List.replicate 2 ["#version \n".toList, "#line 1 0\n".toList, ['\n'],
          "#version\r\r\n".toList] ∧
      Version.declared? (Text.bareLine "#version\r\r\n".toList) = some [] := by
  intro text files
  have hrun : ((parse ⟨MemorySources.provider, .standard⟩ "/s.glsl").outcomeFrom
      files).toOption.any (fun parsed =>
        (link .standard parsed.shader).outcome.toOption.any fun stages =>
          (parsed.shader.blocks.values.map fun block => block.expanded.lines) =
            [[['\n'], "#version\r\r\n".toList]] ∧
          (stages.map fun entry => Text.lines entry.2.source.toList) =
            List.replicate 2 ["#version \n".toList, "#line 1 0\n".toList, ['\n'],
              "#version\r\r\n".toList]) = true := by decide +kernel
  obtain ⟨parsed, hparsed, hstages⟩ := exists_of_toOption_any hrun
  obtain ⟨stages, hlink, hlines⟩ := exists_of_toOption_any hstages
  obtain ⟨hblocks, hsources⟩ := of_decide_eq_true hlines
  exact ⟨parsed, stages, hparsed, hlink, hblocks, hsources, by decide⟩

/-- A marker that quotes a path with line feeds may declare a version. -/
theorem quoted_path_declares_version :
    let text := r"Shader { GLSL A {" ++ "\nint a;\n" ++
      r"} Technique T { Pass { Vertex = A Fragment = A } } }"
    let root := "/a\n#version 1\n.glsl"
    let files := MemorySources.ofFiles [(⟨root⟩, text)]
    let settings : Settings := { Settings.standard with lineMarkers := .quoted }
    ∃ parsed stages,
      (parse ⟨MemorySources.provider, settings⟩ root).outcomeFrom files = .ok parsed ∧
      (link settings parsed.shader).outcome = .ok stages ∧
      (stages.map fun entry => (Text.lines entry.2.source.toList)[3]?) =
        List.replicate 2 (some "#version 1\n".toList) ∧
      Version.declared? (Text.bareLine "#version 1\n".toList) = some ['1'] := by
  intro text root files settings
  have hrun : ((parse ⟨MemorySources.provider, settings⟩ root).outcomeFrom
      files).toOption.any (fun parsed =>
        (link settings parsed.shader).outcome.toOption.any fun stages =>
          (stages.map fun entry => (Text.lines entry.2.source.toList)[3]?) =
            List.replicate 2 (some "#version 1\n".toList)) = true := by decide +kernel
  obtain ⟨parsed, hparsed, hstages⟩ := exists_of_toOption_any hrun
  obtain ⟨stages, hlink, hlines⟩ := exists_of_toOption_any hstages
  exact ⟨parsed, stages, hparsed, hlink, of_decide_eq_true hlines, by decide⟩

end Compiler

end ShaderAssembly
