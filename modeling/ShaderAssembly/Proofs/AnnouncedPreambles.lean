import ShaderAssembly.Proofs.MarkerReplay

/-!
# Announced preambles

Before its code a stage announces its version, the extension that quoted markers need, the macros,
the uniforms and its streams. Each of these is written as one string and counted as one line. So the
first line that comes from a block is found directly behind the announced strings, or behind the
marker that follows them; and if these are single lines, then it is found there in the source, too.
What a shader declares always is on single lines. The default version and the macros of the settings
need not be.
-/

namespace ShaderAssembly

/-- Whether texts have a line feed at their end at most. -/
def AreSingle (texts : List String) : Prop := ∀ text ∈ texts, '\n' ∉ Text.unended text.toList

/-! ### The first line from a block -/

namespace LinkedStage

variable {stage : LinkedStage}

/-- Whether a line is the first one of a stage that comes from a block. -/
def IsFirstLocated (stage : LinkedStage) (number : Nat) : Prop :=
  stage.locate number ≠ none ∧ ∀ earlier < number, stage.locate earlier = none

/-- There is only one first line. -/
theorem IsFirstLocated.unique {number other : Nat} (h : stage.IsFirstLocated number)
    (hother : stage.IsFirstLocated other) : number = other := by
  rcases Nat.lt_trichotomy number other with hlt | heq | hgt
  · exact absurd (hother.2 number hlt) h.1
  · exact heq
  · exact absurd (h.2 other hgt) hother.1

/-- A stage without lines from blocks has no such line under any number. -/
theorem locate_of_unlocated (h : ∀ line ∈ stage.lines, line.origin? = none) (number : Nat) :
    stage.locate number = none := by
  cases number with
  | zero => rfl
  | succ index =>
    rw [locate]
    exact Option.bind_eq_none_iff.mpr fun line hline => h line (List.mem_of_getElem? hline)

/-- Where all lines before a line from a block come from none, it is the first one. -/
theorem isFirstLocated_of_lines {before after : List StageLine} {line : StageLine}
    {origin : BlockOrigin} (h : stage.lines = before ++ line :: after)
    (hbefore : ∀ other ∈ before, other.origin? = none) (hline : line.origin? = some origin) :
    stage.IsFirstLocated (before.length + 1) ∧
      stage.locate (before.length + 1) = some origin := by
  have hlocate : stage.locate (before.length + 1) = some origin := by
    rw [locate, h, List.getElem?_append_right (Nat.le_refl _), Nat.sub_self,
      List.getElem?_cons_zero, Option.bind_some, hline]
  refine ⟨⟨by rw [hlocate]; exact Option.some_ne_none _, ?_⟩, hlocate⟩
  rintro (_ | earlier) hearlier
  · rfl
  · have hindex : earlier < before.length := Nat.lt_of_succ_lt_succ hearlier
    rw [locate, h, List.getElem?_append_left hindex, List.getElem?_eq_getElem hindex,
      Option.bind_some]
    exact hbefore _ (List.getElem_mem hindex)

end LinkedStage

namespace Linking

/-! ### What is announced -/

/-- Whether lines declare the streams of a stage that is bound: the one it reads, and then the one
it writes. -/
def DeclaresStreams (shader : Shader) (binding : BoundStage) (interface : List String) : Prop :=
  match binding.interface? with
  | none => interface = []
  | some streams => ∃ input output, resolveStream shader streams.input = .ok input ∧
      resolveStream shader streams.output = .ok output ∧
        interface = streamLines streams.input input ++ streamLines streams.output output

/-- What a stage announces before its code. -/
def announcedLines (settings : Settings) (shader : Shader) (version : String)
    (interface : List String) : List String :=
  s!"#version {version}" ::
    ((if settings.lineMarkers = .quoted then
        ["#extension GL_GOOGLE_cpp_style_line_directive : require"] else []) ++
      settings.defines.entries.map (fun entry => s!"#define {entry.1} {entry.2}") ++
      (shader.uniforms.values.filter Uniform.isDeclared).map (fun uniform =>
        s!"uniform {uniform.type} {uniform.name};") ++
      interface)

/-- Whether a stage opens with the lines it announces, and goes on with lines of blocks. -/
structure Opens (settings : Settings) (shader : Shader) (root : String) (binding : BoundStage)
    (stage : LinkedStage) (announced : List String) : Prop where
  /-- What is announced. -/
  layout : ∃ version interface, DeclaresStreams shader binding interface ∧
    announced = announcedLines settings shader version interface
  /-- Only the default version and the macros may have line feeds inside. -/
  single : ∀ line ∈ announced, '\n' ∉ Text.unended line.toList ∨
    line = s!"#version {settings.defaultVersion}" ∨
      ∃ entry ∈ settings.defines.entries, line = s!"#define {entry.1} {entry.2}"
  /-- The source starts with what is announced, each part ended. -/
  starts : ∃ rest, stage.source.toList =
    (announced.flatMap fun line => Text.terminated line.toList) ++ rest
  /-- If no part has a line feed inside, the parts are the first lines of the source. -/
  lines : AreSingle announced → (Text.lines stage.source.toList).take announced.length =
    announced.map fun line => Text.terminated line.toList
  /-- The first line from a block is counted directly behind the parts, or behind the marker that
  follows them and names its place. -/
  first : ∀ number, stage.IsFirstLocated number → number = announced.length + 1 ∨
    number = announced.length + 2 ∧
      (AreSingle announced → (settings.lineMarkers = .quoted → '\n' ∉ root.toList) →
        ∃ origin, ∃ name : String, stage.locate number = some origin ∧
          (Text.lines stage.source.toList)[announced.length]? =
            some s!"#line {origin.line} {name}\n".toList)

section Announcements

variable {settings : Settings} {shader : Shader} {root : SourcePath} {binding : BoundStage}
  {parts : StageParts}

/-- The lines that declare the streams of a stage are part of it. -/
theorem declaresStreams_of_stageParts (h : stageParts shader binding = .ok parts) :
    DeclaresStreams shader binding parts.interface := by
  obtain ⟨referenced, -, h⟩ := Except.bind_eq_ok.mp h
  unfold DeclaresStreams
  cases hstreams : binding.interface? with
  | none =>
    rw [hstreams] at h
    cases h
    rfl
  | some streams =>
    rw [hstreams] at h
    obtain ⟨interface, hinterface, h⟩ := Except.bind_eq_ok.mp h
    cases h
    obtain ⟨input, hinput, hinterface⟩ := Except.bind_eq_ok.mp hinterface
    obtain ⟨output, houtput, hinterface⟩ := Except.bind_eq_ok.mp hinterface
    cases hinterface
    exact ⟨input, output, hinput, houtput, rfl⟩

/-- What is announced has line feeds at most where the settings have them. -/
theorem StageParts.AreFor.single_preamble (h : parts.AreFor shader root binding)
    (hshader : shader.IsPlaced root) :
    ∀ line ∈ preamble settings shader parts.blocks parts.interface,
      '\n' ∉ Text.unended line.toList ∨ line = s!"#version {settings.defaultVersion}" ∨
        ∃ entry ∈ settings.defines.entries, line = s!"#define {entry.1} {entry.2}" := by
  intro line hline
  refine (of_mem_preamble (hshader.named.not_mem (by decide)) (h.interface _ (.inl rfl)) line
    hline).imp_left fun hplain => ?_
  rwa [Text.unended_of_not_mem hplain]

/-- Single lines, each ended, are the first lines of a text that starts with them. -/
theorem lines_flatMap_append {announced : List String} (h : AreSingle announced)
    (rest : List Char) :
    Text.lines ((announced.flatMap fun line => Text.terminated line.toList) ++ rest) =
      (announced.map fun line => Text.terminated line.toList) ++ Text.lines rest := by
  induction announced with
  | nil => rfl
  | cons line others ih =>
    obtain ⟨hline, hothers⟩ := List.forall_mem_cons.mp h
    rw [List.flatMap_cons, List.append_assoc, Text.lines_append (Text.endsLine_terminated _),
      Text.lines_terminated_of_unended hline, ih hothers, List.map_cons, List.singleton_append,
      List.cons_append]

/-- The source of a stage is what it announces and then its code. -/
theorem StageParts.toList_source (parts : StageParts) (settings : Settings) (shader : Shader) :
    (parts.assemble settings shader).source.toList =
      ((preamble settings shader parts.blocks parts.interface).flatMap fun line =>
        Text.terminated line.toList) ++
      (writeCode settings.lineMarkers none [] (parts.blocks.flatMap codeLines)).1.flatMap
        fun line => Text.terminated line.text := by
  rw [LinkedStage.source, String.toList_ofList]
  exact List.flatMap_append.trans (congrArg (· ++ _) (List.flatMap_map ..))

/-- Every line of code that a stage is put together from comes from a file. Its path stands on one
line if that of the root does. -/
theorem StageParts.AreFor.exists_origin (h : parts.AreFor shader root binding) :
    ∀ line ∈ parts.blocks.flatMap codeLines, ∃ origin, line.origin? = some origin ∧
      ('\n' ∉ root.text.toList → '\n' ∉ origin.file.text.toList) := by
  intro line hline
  obtain ⟨block, hblock, hmem⟩ := List.mem_flatMap.mp hline
  obtain ⟨index, hindex, heq⟩ := exists_line_of_mem_codeLines hmem
  obtain ⟨origin, hlocate, -, hplain⟩ := (h.placed block hblock).origin index line.text hindex
  exact ⟨origin, heq.trans hlocate, hplain⟩

/-- A marker names the line that it stands before. -/
theorem exists_marker_eq {style : LineMarkers} (hstyle : style ≠ .none) (files : List SourcePath)
    (origin : Origin) : ∃ name : String,
      (marker style files origin).1 = [.marker s!"#line {origin.line} {name}".toList] := by
  cases style with
  | none => exact absurd rfl hstyle
  | numeric => exact ⟨toString ((addFile files origin.file).idxOf origin.file), rfl⟩
  | quoted =>
    refine ⟨"\"" ++ toString origin.file ++ "\"", congrArg (fun text => [StageLine.marker text]) ?_⟩
    show ("#line " ++ toString origin.line ++ " \"" ++ toString origin.file ++ "\"").toList =
      ("#line " ++ toString origin.line ++ " " ++ ("\"" ++ toString origin.file ++ "\"")).toList
    simp only [String.toList_append, List.append_assoc]
    rfl

/-- Code starts with its first line, or with the marker of that. -/
theorem writeCode_starts (style : LineMarkers) {line : CodeLine} {origin : Origin}
    (horigin : line.origin? = some origin) (rest : List CodeLine) :
    (∃ more, (writeCode style none [] (line :: rest)).1 = line.written :: more) ∨
      ∃ name : String, ∃ more, (writeCode style none [] (line :: rest)).1 =
          .marker s!"#line {origin.line} {name}".toList :: line.written :: more ∧
        ((style = .quoted → '\n' ∉ origin.file.text.toList) →
          '\n' ∉ s!"#line {origin.line} {name}".toList) := by
  have hbefore : markersBefore style none [] line.origin? = marker style [] origin := by
    rw [horigin]
    rfl
  rw [writeCode_cons, hbefore]
  by_cases hstyle : style = .none
  · subst hstyle
    exact .inl ⟨_, rfl⟩
  · obtain ⟨name, hmarker⟩ := exists_marker_eq hstyle [] origin
    refine .inr ⟨name, _, by rw [hmarker]; rfl, fun hplain => ?_⟩
    exact not_mem_marker hplain _ (by rw [hmarker]; exact List.mem_singleton_self _)

/-- The first line from a block of a stage whose code stands behind lines of its own: it is the
first line of the code, unless the marker of that stands before it. -/
theorem first_of_code {stage : LinkedStage} {announced : List String} {style : LineMarkers}
    {code : List CodeLine} {number : Nat}
    (hlines : stage.lines = announced.map (fun line => .generated line.toList) ++
      (writeCode style none [] code).1)
    (horigins : ∀ line ∈ code, ∃ origin, line.origin? = some origin)
    (hfirst : stage.IsFirstLocated number) :
    number = announced.length + 1 ∨ number = announced.length + 2 ∧
      ∃ line ∈ code, ∃ origin, line.origin? = some origin ∧
        stage.locate number = some ⟨origin.file, origin.line, line.block⟩ ∧
        ∃ name : String, ∃ more, (writeCode style none [] code).1 =
            .marker s!"#line {origin.line} {name}".toList :: more ∧
          ((style = .quoted → '\n' ∉ origin.file.text.toList) →
            '\n' ∉ s!"#line {origin.line} {name}".toList) := by
  have hgenerated : ∀ other ∈ announced.map (fun line => StageLine.generated line.toList),
      other.origin? = none := by
    intro other hother
    obtain ⟨text, -, rfl⟩ := List.mem_map.mp hother
    rfl
  cases code with
  | nil =>
    -- Without code no line comes from a block.
    rw [writeCode, List.append_nil] at hlines
    exact absurd (LinkedStage.locate_of_unlocated (by rwa [hlines]) number) hfirst.1
  | cons line rest =>
    obtain ⟨origin, horigin⟩ := horigins line (List.mem_cons_self ..)
    have hwritten : line.written.origin? = some ⟨origin.file, origin.line, line.block⟩ := by
      rw [CodeLine.origin?_written, horigin]
      rfl
    rcases writeCode_starts style horigin rest with
      ⟨more, hstarts⟩ | ⟨name, more, hstarts, hplain⟩
    · rw [hstarts] at hlines
      have hline := (LinkedStage.isFirstLocated_of_lines hlines hgenerated hwritten).1
      rw [List.length_map] at hline
      exact .inl (hfirst.unique hline)
    · rw [hstarts] at hlines
      have hbefore : ∀ other ∈ announced.map (fun line => StageLine.generated line.toList) ++
          [.marker s!"#line {origin.line} {name}".toList], other.origin? = none :=
        List.forall_mem_append.mpr ⟨hgenerated, List.forall_mem_singleton.mpr rfl⟩
      obtain ⟨hline, hlocate⟩ := LinkedStage.isFirstLocated_of_lines
        (by rw [hlines, List.append_assoc]; rfl) hbefore hwritten
      rw [List.length_append, List.length_map, List.length_singleton] at hline hlocate
      obtain rfl := hfirst.unique hline
      exact .inr ⟨rfl, line, List.mem_cons_self .., origin, horigin, hlocate, name, _, hstarts,
        hplain⟩

/-- Behind single lines a line that is ended stands in the source. -/
theorem getElem?_lines_flatMap_append {announced : List String} (hsingle : AreSingle announced)
    {line : List Char} (hline : '\n' ∉ line) (rest : List Char) :
    (Text.lines ((announced.flatMap fun line => Text.terminated line.toList) ++
      (Text.terminated line ++ rest)))[announced.length]? = some (line ++ ['\n']) := by
  rw [lines_flatMap_append hsingle, List.getElem?_append_right (by rw [List.length_map]),
    List.length_map, Nat.sub_self, Text.lines_append (Text.endsLine_terminated _),
    Text.lines_terminated_of_unended (by rwa [Text.unended_of_not_mem hline]),
    Text.terminated_of_not_mem hline]
  rfl

/-- A stage whose parts are put together opens with what it announces. -/
theorem StageParts.AreFor.opens {root : String} (h : parts.AreFor shader (.rooted root) binding)
    (hparts : stageParts shader binding = .ok parts) (hshader : shader.IsPlaced (.rooted root)) :
    Opens settings shader root binding (parts.assemble settings shader)
      (preamble settings shader parts.blocks parts.interface) where
  layout := ⟨_, parts.interface, declaresStreams_of_stageParts hparts, rfl⟩
  single := h.single_preamble hshader
  starts := ⟨_, parts.toList_source settings shader⟩
  lines := by
    intro hsingle
    rw [parts.toList_source, lines_flatMap_append hsingle,
      List.take_append_of_le_length (by rw [List.length_map]), List.take_of_length_le]
    rw [List.length_map]
  first := by
    intro number hfirst
    have horigins : ∀ line ∈ parts.blocks.flatMap codeLines, ∃ origin,
        line.origin? = some origin := fun line hline =>
      (h.exists_origin line hline).imp fun _ horigin => horigin.1
    refine (first_of_code rfl horigins hfirst).imp_right ?_
    rintro ⟨hnumber, line, hline, origin, horigin, hlocate, name, more, hstarts, hmarker⟩
    refine ⟨hnumber, fun hsingle hroot => ⟨_, name, hlocate, ?_⟩⟩
    obtain ⟨_, hsame, hplain⟩ := h.exists_origin line hline
    obtain rfl := Option.some_inj.mp (hsame.symm.trans horigin)
    have hone := hmarker fun hquoted => hplain (SourcePath.not_mem_rooted (hroot hquoted))
    rw [parts.toList_source, hstarts, List.flatMap_cons, StageLine.text,
      getElem?_lines_flatMap_append hsingle hone]
    refine congrArg some ?_
    simp only [String.toList_append]
    rfl

end Announcements

end Linking

namespace Compiler

variable {σ : Type} {compiler : Compiler σ} {root : String} {state : σ} {parsed : ParsedShader}

open Linking

/-- However the stages of a shader that has been read are linked, each of them opens with what it
announces. -/
theorem opens_of_parse (h : (compiler.parse root).outcomeFrom state = .ok parsed)
    {settings : Settings} {stages : LinkedStages}
    (hok : (link settings parsed.shader).outcome = .ok stages) :
    ∀ entry ∈ stages, ∃ binding announced, (entry.1, binding) ∈ boundStages parsed.shader ∧
      Opens settings parsed.shader root binding entry.2 announced := by
  intro entry hentry
  obtain ⟨binding, hbound, hstage⟩ := exists_linkStage_of_link hok entry hentry
  rw [linkStage_eq] at hstage
  obtain ⟨parts, hparts, hstage⟩ := exists_of_map_eq_ok hstage
  have hplaced := isPlaced_of_parse h
  rw [← hstage]
  exact ⟨binding, _, hbound, (areFor_of_stageParts hplaced hbound hparts).opens hparts hplaced⟩

/-- The stages of an effect file with macros, quoted markers, a uniform and two streams. -/
theorem opens_of_parse_effect :
    let text := "uniform float a;\nuniform texture2D m;\n" ++
      "attribute s { vec3 p : POSITION; };\nattribute v { vec2 t : UV; };\n" ++
      "GLSLShader A {int x;}\n" ++
      r"technique T { pass p {" ++ "\n" ++
      r"VertexShader(in s, out v o) = A; PixelShader(in v o, out s) = A; } }"
    let files := MemorySources.ofFiles [(⟨"/e.ogsfx"⟩, text)]
    let settings : Settings :=
      (⟨"330 core", .empty, .quoted⟩ : Settings).define "B" "2" |>.define "A" "1\n"
    ∃ parsed stages,
      (parse ⟨MemorySources.provider, settings⟩ "e.ogsfx").outcomeFrom files = .ok parsed ∧
      (link settings parsed.shader).outcome = .ok stages ∧
      (stages.head?.map fun entry => entry.2.source) =
        some ("#version 330 core\n#extension GL_GOOGLE_cpp_style_line_directive : require\n" ++
          "#define B 2\n#define A 1\nuniform float a;\nin vec3 p;\n" ++
          r"out v {" ++ "\n    vec2 t;\n" ++ r"} o;" ++ "\n" ++
          "#line 5 \"/e.ogsfx\"\nint x;\n") ∧
      ∀ entry ∈ stages, ∃ binding announced, (entry.1, binding) ∈ boundStages parsed.shader ∧
        Opens settings parsed.shader "e.ogsfx" binding entry.2 announced := by
  intro text files settings
  have hrun : ((parse ⟨MemorySources.provider, settings⟩ "e.ogsfx").outcomeFrom
      files).toOption.any (fun parsed =>
        (link settings parsed.shader).outcome.toOption.any fun stages =>
          (stages.head?.map fun entry => entry.2.source) =
            some ("#version 330 core\n#extension GL_GOOGLE_cpp_style_line_directive : require\n" ++
              "#define B 2\n#define A 1\nuniform float a;\nin vec3 p;\n" ++
              r"out v {" ++ "\n    vec2 t;\n" ++ r"} o;" ++ "\n" ++
              "#line 5 \"/e.ogsfx\"\nint x;\n")) = true := by decide +kernel
  obtain ⟨parsed, hparsed, hstages⟩ := exists_of_toOption_any hrun
  obtain ⟨stages, hlink, hsource⟩ := exists_of_toOption_any hstages
  exact ⟨parsed, stages, hparsed, hlink, of_decide_eq_true hsource,
    opens_of_parse hparsed hlink⟩

/-- A macro whose value has a line feed inside takes two lines of the source and is counted as one:
the first line that is said to come from a block is the marker, which stands on the fourth line. -/
theorem macro_on_two_lines :
    let text := r"Shader { GLSL A {" ++ "\nint v1;\n" ++
      r"} Technique T { Pass { Vertex = A Fragment = A } } }"
    let files := MemorySources.ofFiles [(⟨"/s.glsl"⟩, text)]
    let settings := Settings.standard.define "A" "1\n2"
    ∃ parsed stages,
      (parse ⟨MemorySources.provider, settings⟩ "/s.glsl").outcomeFrom files = .ok parsed ∧
      (link settings parsed.shader).outcome = .ok stages ∧
      (stages.map fun entry => (Text.lines entry.2.source.toList).map String.ofList) =
        List.replicate 2 ["#version 330 core\n", "#define A 1\n", "2\n", "#line 1 0\n", "\n",
          "int v1;\n"] ∧
      ∀ entry ∈ stages, entry.2.IsFirstLocated 4 ∧
        entry.2.locate 4 = some ⟨⟨"/s.glsl"⟩, 1, "A"⟩ := by
  intro text files settings
  have hrun : ((parse ⟨MemorySources.provider, settings⟩ "/s.glsl").outcomeFrom
      files).toOption.any (fun parsed =>
        (link settings parsed.shader).outcome.toOption.any fun stages =>
          (stages.map fun entry => (Text.lines entry.2.source.toList).map String.ofList) =
            List.replicate 2 ["#version 330 core\n", "#define A 1\n", "2\n", "#line 1 0\n", "\n",
              "int v1;\n"] ∧
          ∀ entry ∈ stages, (∀ earlier < 4, entry.2.locate earlier = none) ∧
            entry.2.locate 4 = some ⟨⟨"/s.glsl"⟩, 1, "A"⟩) = true := by decide +kernel
  obtain ⟨parsed, hparsed, hstages⟩ := exists_of_toOption_any hrun
  obtain ⟨stages, hlink, hlines⟩ := exists_of_toOption_any hstages
  obtain ⟨hsources, hlocated⟩ := of_decide_eq_true hlines
  refine ⟨parsed, stages, hparsed, hlink, hsources, fun entry hentry => ?_⟩
  obtain ⟨hearlier, hfirst⟩ := hlocated entry hentry
  exact ⟨⟨by rw [hfirst]; exact Option.some_ne_none _, hearlier⟩, hfirst⟩

end Compiler

end ShaderAssembly
