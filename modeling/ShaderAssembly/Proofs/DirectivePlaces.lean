import ShaderAssembly.Proofs.BlockOrigins
import ShaderAssembly.Proofs.CompileRules
import ShaderAssembly.Proofs.DescriptionParts

/-!
# Where errors of include lines point

An include line that cannot be replaced stops an expansion with an error about its directive. In an
included file the error is at the `#` of the line. The code of a block is expanded as a text of its
own that starts on the line of the block: on all of its lines but the first the error is at the `#`,
too. The first line starts behind the opening brace, and there the column is counted from the start
of the code.
-/

namespace ShaderAssembly

/-- Whether an error is one that only include lines have. -/
def Error.isOfInclude : Error → Bool
  | .missingInclude _ _ | .cyclicInclude _ _ => true
  | .unexpected expected _ _ => expected == "a quoted include path"
  | _ => false

namespace Include

/-- Whether an error at a position says why an include line of a file cannot be replaced. -/
inductive Refuses (file : SourcePath) (line : List Char) (position : Position) : Error → Prop
  | malformed (hline : Directive.ofLine line = .malformed) :
      Refuses file line position
        (.unexpected "a quoted include path" (String.ofList (Text.trim line)) position)
  | missing {target : String} (hline : Directive.ofLine line = .target target) :
      Refuses file line position (.missingInclude (file.resolveInclude target) position)
  | cyclic {target : String} {chain : List SourcePath}
      (hline : Directive.ofLine line = .target target) :
      Refuses file line position (.cyclicInclude (chain ++ [file.resolveInclude target]) position)

/-- Whether an include line is a part of a line of a file and the position is that of its `#`. -/
def ShowsDirective (contents : Contents) (line : List Char) (position : Position) : Prop :=
  ∃ text fileLine before after, contents position.file = .ok text ∧ 0 < position.line ∧
    (Text.lines text.toList)[position.line - 1]? = some fileLine ∧
      Text.unended fileLine = before ++ (Text.unended line ++ after) ∧
        position.column = before.length + Directive.column line ∧
          fileLine[position.column - 1]? = some '#'

section Lines

variable {contents : Contents} {openFiles : List SourcePath} {file : SourcePath} {number : Nat}
  {line fileLine : List Char} {lines : List (List Char)} {position : Position} {error : Error}

/-- Only include lines are refused. -/
theorem Refuses.ofLine_ne_none (h : Refuses file line position error) :
    Directive.ofLine line ≠ .none := by
  cases h with
  | malformed hline | missing hline | cyclic hline =>
    rw [hline]
    nofun

/-- The first character of an include line that is not blank is its `#`. -/
theorem Directive.exists_of_ofLine_ne_none (h : Directive.ofLine line ≠ .none) :
    ∃ rest, line = line.takeWhile Text.isBlank ++ '#' :: rest := by
  have hword : Directive.afterWord? line ≠ Option.none := fun hnone => h (by rw [ofLine, hnone])
  unfold afterWord? at hword
  split at hword
  · rename_i rest hstart
    refine ⟨rest, ?_⟩
    rw [← hstart]
    exact List.takeWhile_append_dropWhile.symm
  · exact absurd rfl hword

/-- Where an include line is a part of a line of a file, its `#` is at its column, counted from
where it starts there. -/
theorem getElem?_of_directive (hline : Directive.ofLine line ≠ .none) {before after : List Char}
    (hfile : Text.unended fileLine = before ++ (Text.unended line ++ after)) :
    fileLine[before.length + Directive.column line - 1]? = some '#' := by
  obtain ⟨rest, hrest⟩ := Directive.exists_of_ofLine_ne_none hline
  have hopen : (Text.unended ('#' :: rest)).head? = some '#' := Text.head?_unended rfl (by decide)
  obtain ⟨more, hmore⟩ := List.head?_eq_some_iff.mp hopen
  have hunended : Text.unended line = line.takeWhile Text.isBlank ++ '#' :: more := by
    rw [← hmore, ← Text.unended_append (List.cons_ne_nil _ _), ← hrest]
  obtain ⟨ending, hending⟩ : Text.unended fileLine <+: fileLine := by
    unfold Text.unended
    split
    · exact List.dropLast_prefix _
    · exact List.prefix_refl _
  have hfound : (Text.unended fileLine)[before.length + Directive.column line - 1]? = some '#' := by
    rw [hfile, hunended, Directive.column, ← Nat.add_assoc, Nat.add_sub_cancel, List.append_assoc,
      ← List.append_assoc, List.getElem?_append_right (by rw [List.length_append])]
    simp
  rw [← hending, List.getElem?_append_left (List.getElem?_eq_some_iff.mp hfound).1]
  exact hfound

/-- An include line that stops an expansion is one of the lines that are expanded, or a line of an
included file. -/
theorem Fails.exists_refuses (h : Fails contents openFiles file number lines error)
    (herror : error.isOfInclude = true) :
    ∃ line position, Refuses position.file line position error ∧
      position.column = Directive.column line ∧
        ((position.file = file ∧ ∃ index, lines[index]? = some line ∧
            position.line = number + index) ∨
          ∃ text index, contents position.file = .ok text ∧
            (Text.lines text.toList)[index]? = some line ∧ position.line = 1 + index) := by
  have hfirst : ∀ {file : SourcePath} {number column : Nat} {line : List Char}
      {rest : List (List Char)}, (⟨file, number, column⟩ : Position).file = file ∧
        ∃ index, (line :: rest)[index]? = some line ∧
          (⟨file, number, column⟩ : Position).line = number + index :=
    ⟨rfl, 0, rfl, rfl⟩
  induction h with
  | @malformed openFiles file number line rest hline =>
    exact ⟨line, ⟨file, number, Directive.column line⟩, .malformed hline, rfl, .inl hfirst⟩
  | @cyclic openFiles file number line rest target hline hopen =>
    exact ⟨line, ⟨file, number, Directive.column line⟩, .cyclic hline, rfl, .inl hfirst⟩
  | @unread openFiles file number line rest target failure hline hnew hread =>
    unfold includeFailure at herror ⊢
    split at herror
    · rename_i hmissing
      rw [if_pos hmissing]
      exact ⟨line, ⟨file, number, Directive.column line⟩, .missing hline, rfl, .inl hfirst⟩
    · cases herror
  | @included openFiles file number line rest target text error hline hnew hread hinner ih =>
    obtain ⟨other, position, hrefuses, hcolumn, hplace⟩ := ih herror
    refine ⟨other, position, hrefuses, hcolumn, .inr ?_⟩
    rcases hplace with ⟨hfile, index, hindex, hnumber⟩ | hplace
    · exact ⟨text, index, hfile ▸ hread, hindex, hnumber⟩
    · exact hplace
  | afterLine _ _ ih | afterInclude _ _ _ _ _ ih =>
    obtain ⟨other, position, hrefuses, hcolumn, hplace⟩ := ih herror
    refine ⟨other, position, hrefuses, hcolumn, hplace.imp_left ?_⟩
    rintro ⟨hfile, index, hindex, hnumber⟩
    exact ⟨hfile, index + 1, hindex, by rw [hnumber, Nat.add_assoc, Nat.add_comm 1]⟩

/-- A line of a file shows its own directive. -/
theorem showsDirective_of_line {text : String} {index : Nat}
    (hline : Directive.ofLine line ≠ .none) (hread : contents position.file = .ok text)
    (hindex : (Text.lines text.toList)[index]? = some line) (hnumber : position.line = 1 + index)
    (hcolumn : position.column = Directive.column line) :
    ShowsDirective contents line position := by
  have hparts : Text.unended line = [] ++ (Text.unended line ++ []) := by
    rw [List.nil_append, List.append_nil]
  have hcharacter := getElem?_of_directive hline hparts
  rw [List.length_nil, Nat.zero_add, ← hcolumn] at hcharacter
  refine ⟨text, line, [], [], hread, by omega, ?_, hparts, ?_, hcharacter⟩
  · rw [hnumber, Nat.add_sub_cancel_left]
    exact hindex
  · rw [hcolumn, List.length_nil, Nat.zero_add]

end Lines

end Include

namespace Compiler

variable {σ : Type} {compiler : Compiler σ} {contents : Contents} {path : SourcePath} {state : σ}
  {graph : IncludeGraph} {error : Error}

/-- Whether a block does not expand because of an include line, by the rules of expansion. -/
def BlockFails (contents : Contents) (path : SourcePath) (block : CodeBlock) (error : Error) :
    Prop :=
  Include.Fails contents [path] path block.position.line (Text.lines block.body.toList) error

/-- A block that does not expand because of an include line fails by the rules. -/
theorem blockFails_of_expandBlock (h : compiler.provider.Serves state contents) {block : CodeBlock}
    (hfail : (compiler.expandBlock path graph block).outcomeFrom state = .error error)
    (herror : error.isOfInclude = true) : BlockFails contents path block error := by
  rw [expandBlock, Action.outcomeFrom_bind_pure, Include.outcomeFrom_withOpen] at hfail
  cases houtcome : (Include.expandText compiler.provider path block.body
      block.position.line).outcomeFrom ⟨state, [path]⟩ with
  | ok expansion =>
    rw [houtcome] at hfail
    cases hfail
  | error other =>
    rw [houtcome] at hfail
    cases hfail
    have hfollows := (Include.expandText_follows [path] path block.body block.position.line h).2
    rw [houtcome] at hfollows
    rcases hfollows with ⟨position, hdeep⟩ | ⟨result, hfails, hresult⟩
    · cases hdeep
      cases herror
    · obtain rfl := eq_error_of_map_eq_error hresult.symm
      exact hfails

/-- Where named blocks do not expand because of an include line, one of them fails. -/
theorem exists_blockFails_of_expandEntries (h : compiler.provider.Serves state contents)
    {entries : List (String × CodeBlock)}
    (hfail : (compiler.expandEntries path graph entries).outcomeFrom state = .error error)
    (herror : error.isOfInclude = true) :
    ∃ entry ∈ entries, BlockFails contents path entry.2 error := by
  induction entries generalizing graph state with
  | nil => cases hfail
  | cons entry rest ih =>
    obtain ⟨name, block⟩ := entry
    rw [expandEntries, Action.outcomeFrom_bind_eq_error] at hfail
    rcases hfail with hfirst | ⟨first, -, hfail⟩
    · exact ⟨_, List.mem_cons_self .., blockFails_of_expandBlock h hfirst herror⟩
    · rcases Action.outcomeFrom_bind_eq_error.mp hfail with hothers | ⟨others, -, hresult⟩
      · obtain ⟨found, hfound, hfails⟩ := ih (h.later (reaches_expandBlock path h graph block))
          hothers
        exact ⟨found, List.mem_cons_of_mem _ hfound, hfails⟩
      · cases hresult

/-- Where the blocks of a shader do not expand because of an include line, one of them fails. -/
theorem exists_blockFails_of_expandBlocks (h : compiler.provider.Serves state contents)
    {parsed : ParsedShader}
    (hfail : (compiler.expandBlocks parsed).outcomeFrom state = .error error)
    (herror : error.isOfInclude = true) :
    ∃ block ∈ parsed.shader.allBlocks, BlockFails contents parsed.shader.path block error := by
  have hentries : ∀ {graph : IncludeGraph} {later : σ}, compiler.provider.Serves later contents →
      (compiler.expandEntries parsed.shader.path graph
        parsed.shader.blocks.entries).outcomeFrom later = .error error →
      ∃ block ∈ parsed.shader.allBlocks, BlockFails contents parsed.shader.path block error := by
    intro graph later hlater hfail
    obtain ⟨entry, hentry, hfails⟩ := exists_blockFails_of_expandEntries hlater hfail herror
    exact ⟨entry.2, List.mem_append_right _ (List.mem_map.mpr ⟨entry, hentry, rfl⟩), hfails⟩
  unfold expandBlocks at hfail
  cases hshared : parsed.shader.shared? with
  | none =>
    rw [hshared] at hfail
    rcases Action.outcomeFrom_bind_eq_error.mp hfail with hnone | ⟨first, hfirst, hfail⟩
    · cases hnone
    · cases hfirst
      rcases Action.outcomeFrom_bind_eq_error.mp hfail with hfail | ⟨others, -, hresult⟩
      · exact hentries h hfail
      · cases hresult
  | some block =>
    rw [hshared] at hfail
    have hblock : block ∈ parsed.shader.allBlocks :=
      List.mem_append_left _ (by rw [hshared]; exact List.mem_singleton_self block)
    have hreaches := reaches_expandBlock parsed.shader.path h parsed.dependencies block
    rcases Action.outcomeFrom_bind_eq_error.mp hfail with hfirst | ⟨first, hfirst, hfail⟩
    · exact ⟨block, hblock, blockFails_of_expandBlock h hfirst herror⟩
    · obtain ⟨expanded, -, hfail⟩ := (Action.outcomeFrom_bind_eq_error.mp hfail).resolve_left nofun
      rcases Action.outcomeFrom_bind_eq_error.mp hfail with hfail | ⟨others, -, hresult⟩
      · exact hentries (h.later hreaches) hfail
      · cases hresult

/-- Where the blocks of a description do not expand because of an include line, one of them
fails. -/
theorem exists_blockFails_of_parse {root text : String} {shader : Shader}
    (hserves : compiler.provider.Serves state contents)
    (hdialect : Dialect.ofPath (.rooted root) = .description)
    (hread : contents (.rooted root) = .ok text)
    (hshader : (Description.parse (.rooted root) text).outcome = .ok shader)
    (hfail : (compiler.parse root).outcomeFrom state = .error error)
    (herror : error.isOfInclude = true) :
    ∃ block ∈ shader.allBlocks, BlockFails contents shader.path block error := by
  have htext : (compiler.provider.readFile (.rooted root)).outcomeFrom state = .ok text := by
    rw [hserves.outcomeFrom_readFile, hread]
    rfl
  unfold parse at hfail
  simp only [hdialect] at hfail
  rcases Action.outcomeFrom_bind_eq_error.mp hfail with hfail | ⟨parsed, -, hresult⟩
  · unfold parseDescription at hfail
    replace hfail := (Action.outcomeFrom_bind_of_ok htext _).symm.trans hfail
    replace hfail := (Action.outcomeFrom_liftM_bind_of_ok hshader _ _).symm.trans hfail
    exact exists_blockFails_of_expandBlocks (hserves.later (.read _ .start)) hfail herror
  · cases hresult

/-- Why a block of a description does not expand: an include line of an included file, or one of
the block, whose first line starts behind the opening brace. -/
theorem exists_showsDirective_of_blockFails {text : String} {block : CodeBlock} {place : Place}
    (hread : contents path = .ok text)
    (hstands : StandsAt text.toList block.body.toList place)
    (hposition : block.position = .ofPlace path place)
    (h : BlockFails contents path block error) (herror : error.isOfInclude = true) :
    ∃ line position, Include.Refuses position.file line position error ∧
      (Include.ShowsDirective contents line position ∨
        position.file = path ∧ position.line = block.position.line ∧
          Include.ShowsDirective contents line
            { position with column := block.position.column - 1 + position.column }) := by
  obtain ⟨line, position, hrefuses, hcolumn, hplace⟩ := h.exists_refuses herror
  have hline := hrefuses.ofLine_ne_none
  refine ⟨line, position, hrefuses, ?_⟩
  rcases hplace with ⟨hfile, index, hindex, hnumber⟩ | ⟨other, index, hother, hindex, hnumber⟩
  · obtain ⟨textLine, hfound, before, after, hparts, hbefore, -⟩ :=
      exists_line_of_standsAt hstands hindex
    have hpositive := line_pos_of_standsAt hstands
    have hblock : block.position.line = place.line ∧ block.position.column = place.column := by
      rw [hposition]
      exact ⟨rfl, rfl⟩
    rw [hblock.1] at hnumber
    have hfileLine : (Text.lines text.toList)[position.line - 1]? = some textLine := by
      rw [hnumber, ← hfound, Nat.sub_add_comm hpositive]
    have hcharacter := Include.getElem?_of_directive hline hparts
    rcases hbefore with rfl | ⟨hzero, -, hstart⟩
    · refine .inl ⟨text, textLine, [], after, hfile ▸ hread, by omega, hfileLine, hparts, ?_, ?_⟩
      · rw [hcolumn, List.length_nil, Nat.zero_add]
      · rwa [List.length_nil, Nat.zero_add, ← hcolumn] at hcharacter
    · have hshift : block.position.column - 1 + position.column =
          before.length + Include.Directive.column line := by
        rw [hblock.2, hstart, Nat.add_sub_cancel, hcolumn]
      refine .inr ⟨hfile, by rw [hnumber, hzero, hblock.1, Nat.add_zero], text, textLine, before,
        after, hfile ▸ hread, by show 0 < position.line; omega, hfileLine, hparts, hshift, ?_⟩
      rw [← hshift] at hcharacter
      exact hcharacter
  · exact .inl (Include.showsDirective_of_line hline hother hindex hnumber hcolumn)

/-- An error about an include line that stops the expansion of a description is at the `#` of the
line, in the description or in an included file. Only on the line with the opening brace of a block
its column is counted from the start of the block's code. -/
theorem include_errors_show_directives {root text : String} {shader : Shader}
    (hserves : compiler.provider.Serves state contents)
    (hdialect : Dialect.ofPath (.rooted root) = .description)
    (hread : contents (.rooted root) = .ok text)
    (hshader : (Description.parse (.rooted root) text).outcome = .ok shader)
    (hfail : (compiler.parse root).outcomeFrom state = .error error)
    (herror : error.isOfInclude = true) :
    ∃ line position, Include.Refuses position.file line position error ∧
      (Include.ShowsDirective contents line position ∨
        ∃ block ∈ shader.allBlocks, position.file = .rooted root ∧
          position.line = block.position.line ∧
            Include.ShowsDirective contents line
              { position with column := block.position.column - 1 + position.column }) := by
  obtain ⟨block, hblock, hfails⟩ :=
    exists_blockFails_of_parse hserves hdialect hread hshader hfail herror
  have hmade := Description.madeOf_of_parse hshader
  have hbody : ∃ name, IsBlock (Token.IsFrom (.rooted root) text.toList) name block := by
    rcases List.mem_append.mp hblock with hshared | hentry
    · exact ⟨_, hmade.shared block (by simpa using hshared)⟩
    · obtain ⟨entry, hmem, rfl⟩ := List.mem_map.mp hentry
      exact ⟨_, hmade.blocks entry hmem⟩
  obtain ⟨name, token, htoken, hkind, rfl⟩ := hbody
  obtain ⟨place, hstands, hposition⟩ := htoken.body hkind
  rw [hmade.path_eq] at hfails
  obtain ⟨line, position, hrefuses, hshows⟩ :=
    exists_showsDirective_of_blockFails hread hstands hposition hfails herror
  refine ⟨line, position, hrefuses, hshows.imp_right fun ⟨hfile, hline, hshift⟩ => ?_⟩
  exact ⟨_, hblock, hfile, hline, hshift⟩

/-- A missing file is reported at the include line of a header. -/
theorem include_errors_show_directives_in_header :
    let compiler : Compiler MemorySources := ⟨MemorySources.provider, .standard⟩
    let text := MemorySources.sampleShader "#include \"h.glsl\"\n"
    let sources := MemorySources.ofFiles
      [(⟨"/s.glsl"⟩, text), (⟨"/h.glsl"⟩, "int h;\n  #include \"g.glsl\"\n")]
    ∃ shader, (Description.parse ⟨"/s.glsl"⟩ text).outcome = .ok shader ∧
      (compiler.parse "/s.glsl").outcomeFrom sources =
        .error (.missingInclude ⟨"/g.glsl"⟩ ⟨⟨"/h.glsl"⟩, 2, 3⟩) ∧
      ∃ line position, Include.Refuses position.file line position
          (.missingInclude ⟨"/g.glsl"⟩ ⟨⟨"/h.glsl"⟩, 2, 3⟩) ∧
        (Include.ShowsDirective sources.contents line position ∨
          ∃ block ∈ shader.allBlocks, position.file = .rooted "/s.glsl" ∧
            position.line = block.position.line ∧
              Include.ShowsDirective sources.contents line
                { position with column := block.position.column - 1 + position.column }) := by
  intro compiler text sources
  have hrun : (Description.parse ⟨"/s.glsl"⟩ text).outcome.toOption.any (fun _ =>
      (compiler.parse "/s.glsl").outcomeFrom sources =
        .error (.missingInclude ⟨"/g.glsl"⟩ ⟨⟨"/h.glsl"⟩, 2, 3⟩)) = true := by decide +kernel
  obtain ⟨shader, hshader, hrun⟩ := exists_of_toOption_any hrun
  have hroot : SourcePath.rooted "/s.glsl" = ⟨"/s.glsl"⟩ := by decide +kernel
  refine ⟨shader, hshader, of_decide_eq_true hrun, ?_⟩
  rw [← hroot] at hshader
  exact include_errors_show_directives (MemorySources.serves rfl)
    (by decide +kernel) (by decide +kernel) hshader (of_decide_eq_true hrun) rfl

/-- A missing file is reported at a character that is no `#` where the include line starts on the
line with the opening brace of its block. -/
theorem missing_include_behind_brace :
    let compiler : Compiler MemorySources := ⟨MemorySources.provider, .standard⟩
    let text := r#"Shader { GLSL A { #include "g.glsl""# ++ "\n" ++
      r"} Technique T { Pass { Vertex = A Fragment = A } } }"
    let sources := MemorySources.ofFiles [(⟨"/s.glsl"⟩, text)]
    (compiler.parse "/s.glsl").outcomeFrom sources =
        .error (.missingInclude ⟨"/g.glsl"⟩ ⟨⟨"/s.glsl"⟩, 1, 2⟩) ∧
      sources.contents ⟨"/s.glsl"⟩ = .ok text ∧
      (Text.lines text.toList)[1 - 1]?.bind (·[2 - 1]?) = some 'h' ∧
      (Text.lines text.toList)[1 - 1]?.bind (·[19 - 1]?) = some '#' := by
  intro compiler text sources
  exact ⟨by decide +kernel, by decide +kernel, by decide +kernel, by decide +kernel⟩

end Compiler

end ShaderAssembly
