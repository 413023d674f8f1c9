import ShaderAssembly.Proofs.BlockOrigins
import ShaderAssembly.Proofs.DeclaredEffects
import ShaderAssembly.Proofs.ReportedTokens
import ShaderAssembly.Proofs.TextTiles

/-!
# Positions of effect files point into the files

An effect file is read from its expanded text, and its positions are moved to the files afterwards.
A token stands on a line of the expanded text, which is the whole of a line of a file; so the moved
position is that of the same character in the file. Two things stand in the expanded text and in no
file. One is the line feed that ends an included text: what starts with it is found behind the last
character of the file. The other is the empty end of the expanded text behind its last line feed,
where only the end of the file is: its position is not moved.
-/

namespace ShaderAssembly

open Include (Edge Expands Expansion Fragment IsWholeLine)

/-- Whether a position is in one of some files, between its first and its last line, and what is
spelled stands there; a line feed may be missing at the end of the file. -/
structure Position.Shows (contents : Contents) (files : List SourcePath) (spelling : List Char)
    (position : Position) : Prop where
  /-- The file is listed. -/
  listed : position.file ∈ files
  /-- What is spelled stands in the text of the file. -/
  stands : ∃ text before after, contents position.file = .ok text ∧
    (1 ≤ position.line ∧ position.line ≤ text.toList.count '\n' + 1) ∧
      text.toList = before ++ after ∧
        position = .ofPlace position.file (Place.start.after before) ∧
          ∀ c ∈ spelling.head?, after.head? = some c ∨ c = '\n' ∧ after = []

/-- Whether a token of a text stands between two parts of it. -/
def Token.StandsBetween (file : SourcePath) (text before spelling after : List Char)
    (token : Token) : Prop :=
  text = before ++ (spelling ++ after) ∧
    Spells token.kind token.lexeme.toList spelling after ∧
      token.position = .ofPlace file (Place.start.after before)

namespace Effect

variable {contents : Contents} {path : SourcePath} {text : String} {openFiles : List SourcePath}
  {expansion : Expansion} {inner : Fragment}

/-- The files of an expansion: that of the text, and those that are included. -/
def filesOf (path : SourcePath) (expansion : Expansion) : List SourcePath :=
  path :: expansion.edges.map Edge.included

/-- The tokens of an expanded effect file. -/
def tokensOf (path : SourcePath) (source : ExpandedText) : List Token :=
  Token.scan (some blockRule) path source.text

/-- Whether a position of an effect file that is moved to the files is that of a token and shows
its spelling. -/
def IsLocated (contents : Contents) (path : SourcePath) (expansion : Expansion)
    (position : Position) : Prop :=
  ∃ token ∈ tokensOf path expansion.source, ∃ before spelling after,
    token.StandsBetween path expansion.source.text.toList before spelling after ∧
      position = located expansion.source.map token.position ∧
        position.Shows contents (filesOf path expansion) spelling

/-- Whether a position is the end of an expanded text behind its last line feed, or the start of an
empty one. -/
def IsBehindText (path : SourcePath) (source : ExpandedText) (position : Position) : Prop :=
  Text.EndsLine source.text.toList ∧
    position = ⟨path, source.text.toList.count '\n' + 1, 1⟩

/-- A character of an expanded text is moved to the file where it stands. -/
theorem shows_located (hread : contents path = .ok text) (hpath : path.IsRooted)
    (h : Expands contents openFiles path 1 (Text.lines text.toList) inner)
    {before rest : List Char} (hsource : inner.source.text.toList = before ++ rest)
    (hrest : Text.EndsLine before → rest ≠ []) {spelling : List Char}
    (hspelling : ∀ c ∈ spelling.head?, c ∈ rest.head?) :
    (located inner.source.map (.ofPlace path (Place.start.after before))).Shows contents
      (filesOf path inner.expansion) spelling := by
  obtain ⟨line, tail, hline, hparts, htail⟩ := Text.exists_line_of_append hrest
  rw [← hsource] at hline
  obtain ⟨found, hfound, rfl, -, hlocate⟩ := h.unfolds.exists_line_of_source hpath hline
  have hmem := List.mem_of_getElem? hfound
  have hlisted : found.origin.file ∈ filesOf path inner.expansion :=
    h.unfolds.file_of_mem_lines (P := (· ∈ filesOf path inner.expansion)) (List.mem_cons_self ..)
      (fun edge hedge _ => List.mem_cons_of_mem _ (List.mem_map.mpr ⟨edge, hedge, rfl⟩)) found hmem
  obtain ⟨fileText, index, source, hfile, hnumber, hsource', hsame⟩ :=
    h.isWholeLine hread found hmem
  obtain ⟨earlier, later, hsplit, hplace, hlater⟩ :=
    Text.exists_place_of_line hsource' (hsame.symm.trans hparts)
  have hposition : located inner.source.map (.ofPlace path (Place.start.after before)) =
      .ofPlace found.origin.file (Place.start.after earlier) := by
    rw [hplace, Place.start_after, located]
    simp only [Position.ofPlace, hlocate, hnumber]
  rw [hposition]
  refine ⟨hlisted, fileText, earlier, later, hfile, ?_, hsplit, rfl, fun c hc => ?_⟩
  · rw [Place.start_after, hsplit, List.count_append]
    exact ⟨Nat.succ_pos _, Nat.succ_le_succ (Nat.le_add_right _ _)⟩
  · exact hlater c (htail c (hspelling c hc))

/-- Behind the last line of an expanded text positions are not moved. -/
theorem located_of_endsLine (hpath : path.IsRooted)
    (h : Expands contents openFiles path 1 (Text.lines text.toList) inner)
    (hends : Text.EndsLine inner.source.text.toList) :
    located inner.source.map
        (.ofPlace path (Place.start.after inner.source.text.toList)) =
      ⟨path, inner.source.text.toList.count '\n' + 1, 1⟩ := by
  have hplace := Place.start_after_of_endsLine hends
  have hlength : (Text.lines inner.source.text.toList)[inner.source.text.toList.count
      '\n']? = none := by
    rw [List.getElem?_eq_none_iff, Text.length_lines_of_endsLine hends]
  rw [hplace, located]
  simp only [Position.ofPlace, h.unfolds.locate_eq_none hpath hlength]

/-- What stands for nothing at the end of a text is the end of the file. -/
theorem eq_endOfFile_of_spells_nil {kind : TokenKind} {lexeme before spelling after : List Char}
    (h : Spells kind lexeme spelling after) (hnil : spelling ++ after = [])
    (hcode : kind.isCode = true → before.getLast? = some '{')
    (hends : Text.EndsLine before) : kind = .endOfFile := by
  have hopen : before.getLast? ≠ some '{' := by
    rcases hends with rfl | hlast
    · nofun
    · rw [hlast]
      decide
  obtain ⟨hspelling, hafter⟩ := List.append_eq_nil_iff.mp hnil
  cases h with
  | endOfFile => rfl
  | unterminatedBlock => exact absurd (hcode rfl) hopen
  | body => cases hafter
  | name hname =>
    subst hspelling
    cases hname
  | number hnumber =>
    obtain ⟨-, h⟩ := List.append_eq_nil_iff.mp hspelling
    obtain ⟨hwhole, h⟩ := List.append_eq_nil_iff.mp h
    obtain ⟨hfraction, -⟩ := List.append_eq_nil_iff.mp h
    rcases hnumber.hasDigit with hne | hlength
    · exact absurd hwhole hne
    · rw [hfraction] at hlength
      exact absurd hlength (Nat.not_lt_zero _)
  | mark | string | unexpectedCharacter | unterminatedString | unterminatedComment =>
    cases hspelling

/-- A token of an expanded text is moved to the file where its spelling stands, unless it is the
end of the file behind the last line. -/
theorem isLocated_or_isBehindText (hread : contents path = .ok text) (hpath : path.IsRooted)
    (h : Expands contents openFiles path 1 (Text.lines text.toList) inner) {token : Token}
    (htoken : token ∈ tokensOf path inner.source) :
    IsLocated contents path inner.expansion (located inner.source.map token.position) ∨
      token.kind = .endOfFile ∧ IsBehindText path inner.source
        (located inner.source.map token.position) := by
  obtain ⟨before, spelling, after, hsplit, hspells, hposition, hcode⟩ :=
    Token.exists_spells_of_mem_scan htoken
  by_cases hbehind : Text.EndsLine before ∧ spelling ++ after = []
  · obtain ⟨hends, hnil⟩ := hbehind
    rw [hnil, List.append_nil] at hsplit
    subst hsplit
    refine .inr ⟨eq_endOfFile_of_spells_nil hspells hnil hcode hends, hends, ?_⟩
    rw [hposition]
    exact located_of_endsLine hpath h hends
  · refine .inl ⟨token, htoken, before, spelling, after, ⟨hsplit, hspells, hposition⟩, rfl, ?_⟩
    rw [hposition]
    refine shows_located hread hpath h hsplit (fun hends hnil => hbehind ⟨hends, hnil⟩) ?_
    intro c hc
    rw [List.head?_append, Option.mem_def.mp hc]
    rfl

/-- Whether a token that is read is one of an expanded effect file, or an end of the file that
stands where one of them does. -/
def IsReadFrom (path : SourcePath) (source : ExpandedText) (token : Token) : Prop :=
  ∃ other ∈ tokensOf path source, other.position = token.position ∧
    (other = token ∨ token.kind = .endOfFile)

/-- Where the text ends early, the end of the file stands where the last token does. -/
theorem all_ofTokens_tokensOf (path : SourcePath) (source : ExpandedText) :
    (TokenStream.ofTokens path (tokensOf path source)).All (IsReadFrom path source) := by
  obtain ⟨pending, last, htokens, -, -⟩ :=
    (ScanState.emits_scan (some blockRule) path source.text).exists_last
  have htokens : tokensOf path source = pending ++ [last] := htokens
  have hself : ∀ token ∈ tokensOf path source, IsReadFrom path source token :=
    fun token htoken => ⟨token, htoken, rfl, .inl rfl⟩
  have hlast : last ∈ tokensOf path source := by simp [htokens]
  unfold TokenStream.ofTokens
  rw [htokens, List.getLast?_concat, ← htokens]
  dsimp only
  split
  · refine ⟨fun token htoken => hself token ?_, hself last hlast⟩
    exact (List.dropLast_sublist _).subset htoken
  · exact ⟨hself, last, hlast, rfl, .inr rfl⟩

/-- In an effect file whose includes expand, the position of an error is that of a token in the
file where it stands, unless it is the end of the expanded text behind its last line; and all
positions of a shader are those of tokens in the files where they stand. -/
theorem positions_point_into_files {σ : Type} {provider : Provider σ} {sources : σ}
    (hserves : provider.Serves sources contents) (hpath : path.IsRooted)
    (hexpand : (Include.withOpen [] (Include.expandFile provider path)).outcomeFrom sources =
      .ok expansion) :
    (∀ error, (parse path expansion.source).outcome = .error error →
      ∃ position, error.position? = some position ∧
        (IsLocated contents path expansion position ∨
          IsBehindText path expansion.source position)) ∧
      ∀ shader, (parse path expansion.source).outcome = .ok shader →
        shader.Stands (IsLocated contents path expansion) := by
  obtain ⟨text, inner, hread, hinner, rfl⟩ := Include.expands_of_expandFile hserves hexpand
  have hlocated : ∀ token ∈ tokensOf path inner.source, _ := fun _ =>
    isLocated_or_isBehindText hread hpath hinner
  have hstream := all_ofTokens_tokensOf path inner.source
  have hreports : Parser.Reports (IsReadFrom path inner.source) _ (expectFile path) :=
    reports_expectFile path
  show (∀ error, (parse path inner.source).outcome = _ → _) ∧
    ∀ shader, (parse path inner.source).outcome = _ → _
  rw [outcome_parse]
  refine ⟨fun error herror => ?_, fun shader hshader => ?_⟩
  · split at herror
    · cases herror
    · rename_i found hfound
      cases herror
      obtain ⟨token, ⟨other, hother, hsame, -⟩, hposition⟩ := hreports.fails _ hstream found hfound
      refine ⟨located inner.source.map token.position, ?_, ?_⟩
      · rw [Error.position?_mapPosition, hposition]
        rfl
      · rw [← hsame]
        exact (hlocated other hother).imp_right And.right
  · split at hshader
    · rename_i declared hdeclared
      cases hshader
      refine ((hreports.yields _ hstream).2 declared hdeclared).locateShader ?_
      rintro position ⟨token, ⟨other, hother, -, hcases⟩, hkind, rfl⟩
      have hend : token.kind ≠ .endOfFile := by
        rcases hkind with hkind | hkind <;> rw [hkind] <;> nofun
      obtain rfl := hcases.resolve_right hend
      exact (hlocated other hother).resolve_right fun hbehind => hend hbehind.1
    · cases hshader

/-- All positions of an effect file with a header stand where its tokens do. -/
theorem positions_point_into_files_with_header :
    let sources := MemorySources.ofFiles
      [(⟨"/r.ogsfx"⟩, "#include \"h.glsl\"\nGLSLShader A {}\n" ++
          r"technique T { pass p {" ++ "\n" ++
          r"VertexShader(in s, out s) = A; PixelShader(in s, out s) = A; } }"),
        (⟨"/h.glsl"⟩, "uniform float a;\nattribute s {};")]
    ∃ expansion shader,
      (Include.withOpen [] (Include.expandFile MemorySources.provider ⟨"/r.ogsfx"⟩)).outcomeFrom
        sources = .ok expansion ∧
      (parse ⟨"/r.ogsfx"⟩ expansion.source).outcome = .ok shader ∧
      shader.uniforms.values.map Uniform.position = [⟨⟨"/h.glsl"⟩, 1, 15⟩] ∧
      shader.Stands (IsLocated sources.contents ⟨"/r.ogsfx"⟩ expansion) := by
  intro sources
  have hrun : ((Include.withOpen [] (Include.expandFile MemorySources.provider
      ⟨"/r.ogsfx"⟩)).outcomeFrom sources).toOption.any (fun expansion =>
        (parse ⟨"/r.ogsfx"⟩ expansion.source).outcome.toOption.any fun shader =>
          shader.uniforms.values.map Uniform.position = [⟨⟨"/h.glsl"⟩, 1, 15⟩]) = true := by
    decide +kernel
  obtain ⟨expansion, hexpand, hrun⟩ := exists_of_toOption_any hrun
  obtain ⟨shader, hshader, hrun⟩ := exists_of_toOption_any hrun
  refine ⟨expansion, shader, hexpand, hshader, of_decide_eq_true hrun, ?_⟩
  exact (positions_point_into_files (MemorySources.serves rfl)
    ⟨"/r.ogsfx", by decide +kernel⟩ hexpand).2 shader hshader

/-- Where nothing but an included header stands in a file, the missing technique is reported on a
line that the file does not have. -/
theorem missing_technique_behind_header :
    let sources := MemorySources.ofFiles [(⟨"/r.ogsfx"⟩, "#include \"h.glsl\"\n"),
      (⟨"/h.glsl"⟩, "uniform float a;\nuniform float b;\nuniform float c;\n")]
    ∃ expansion text error position,
      (Include.withOpen [] (Include.expandFile MemorySources.provider ⟨"/r.ogsfx"⟩)).outcomeFrom
        sources = .ok expansion ∧
      (parse ⟨"/r.ogsfx"⟩ expansion.source).outcome = .error error ∧
      error.position? = some position ∧
      sources.contents position.file = .ok text ∧
      text.toList.count '\n' + 1 < position.line := by
  intro sources
  have hrun : ((Include.withOpen [] (Include.expandFile MemorySources.provider
      ⟨"/r.ogsfx"⟩)).outcomeFrom sources).toOption.any (fun expansion =>
        (parse ⟨"/r.ogsfx"⟩ expansion.source).outcome = .error
          (.unexpected "a technique" "end of file" ⟨⟨"/r.ogsfx"⟩, 4, 1⟩)) = true := by
    decide +kernel
  obtain ⟨expansion, hexpand, hrun⟩ := exists_of_toOption_any hrun
  exact ⟨expansion, "#include \"h.glsl\"\n", _, _, hexpand, of_decide_eq_true hrun, rfl,
    by decide +kernel, by decide⟩

end Effect

end ShaderAssembly
