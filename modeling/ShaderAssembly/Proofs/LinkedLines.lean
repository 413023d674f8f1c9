import Mathlib.Data.List.Forall2
import ShaderAssembly.Linking
import ShaderAssembly.Proofs.ShaderParts
import ShaderAssembly.Proofs.TextLines

/-!
# The lines of linked stages

A linked stage is a preamble and then, apart from markers, the lines of its blocks in order. All
generated lines are single lines of the source, whatever names a shader declares, so the lines of
the source are counted as the linker counts them.
-/

namespace ShaderAssembly

/-! ### Lists of results -/

section Results

variable {ε α β : Type}

/-- Two computations in a row give a result exactly when both do. -/
theorem Except.bind_eq_ok {outcome : Except ε α} {next : α → Except ε β} {result : β} :
    (outcome >>= next) = .ok result ↔ ∃ value, outcome = .ok value ∧ next value = .ok result := by
  cases outcome with
  | error error => simp [bind, Except.bind]
  | ok value => simp [bind, Except.bind]

/-- The results of a list are the results of its items. -/
theorem Except.forall₂_of_mapM {f : α → Except ε β} {items : List α} {results : List β}
    (h : items.mapM f = .ok results) :
    List.Forall₂ (fun item result => f item = .ok result) items results := by
  induction items generalizing results with
  | nil =>
    rw [List.mapM_nil] at h
    cases h
    exact .nil
  | cons item rest ih =>
    rw [List.mapM_cons] at h
    obtain ⟨result, hitem, h⟩ := Except.bind_eq_ok.mp h
    obtain ⟨others, hrest, h⟩ := Except.bind_eq_ok.mp h
    cases h
    exact .cons hitem (ih hrest)

/-- If every item has a result that is as it should be, then the list has such results. -/
theorem Except.exists_mapM_eq_ok {f : α → Except ε β} {relation : α → β → Prop} {items : List α}
    (h : ∀ item ∈ items, ∃ result, f item = .ok result ∧ relation item result) :
    ∃ results, items.mapM f = .ok results ∧ List.Forall₂ relation items results := by
  induction items with
  | nil => exact ⟨[], rfl, .nil⟩
  | cons item rest ih =>
    rw [List.forall_mem_cons] at h
    obtain ⟨⟨result, hitem, hresult⟩, hrest⟩ := h
    obtain ⟨results, hresults, hall⟩ := ih hrest
    refine ⟨result :: results, ?_, .cons hresult hall⟩
    rw [List.mapM_cons, hitem, hresults]
    rfl

/-- Lists whose items look alike one by one look alike. -/
theorem map_eq_of_forall₂ {γ : Type} {f : α → γ} {g : β → γ} {items : List α} {results : List β}
    (h : List.Forall₂ (fun item result => g result = f item) items results) :
    results.map g = items.map f := by
  induction h with
  | nil => rfl
  | cons hfirst _ ih => rw [List.map_cons, List.map_cons, hfirst, ih]

/-- Everything in a list that goes with another one goes with something in that. -/
theorem exists_of_mem_right {relation : α → β → Prop} {items : List α} {results : List β}
    (h : List.Forall₂ relation items results) {result : β} (hresult : result ∈ results) :
    ∃ item ∈ items, relation item result := by
  induction h with
  | nil => cases hresult
  | @cons item first items rest hfirst _ ih =>
    rcases List.mem_cons.mp hresult with rfl | hrest
    · exact ⟨item, List.mem_cons_self .., hfirst⟩
    · obtain ⟨other, hother, hrelation⟩ := ih hrest
      exact ⟨other, List.mem_cons_of_mem _ hother, hrelation⟩

/-- The result of computations with records for a list is that without the records. -/
theorem Traced.outcome_mapM (f : α → Traced ε β) (items : List α) :
    (items.mapM f).outcome = items.mapM fun item => (f item).outcome := by
  have hloop : ∀ results, (List.mapM.loop f items results).outcome =
      List.mapM.loop (fun item => (f item).outcome) items results := by
    induction items with
    | nil => exact fun _ => rfl
    | cons item rest ih =>
      intro results
      rw [List.mapM.loop, outcome_bind, List.mapM.loop]
      cases (f item).outcome with
      | error error => rfl
      | ok result => exact ih (result :: results)
  exact hloop []

end Results

/-- An item with a property stands, among all that have it, behind those that come before. -/
theorem getElem?_filter_countP {α : Type} {items : List α} {item : α} {index : Nat} {p : α → Bool}
    (h : items[index]? = some item) (hp : p item = true) :
    (items.filter p)[(items.take index).countP p]? = some item := by
  obtain ⟨hindex, hget⟩ := List.getElem?_eq_some_iff.mp h
  have hsplit : items.filter p = (items.take index).filter p ++
      item :: (items.drop (index + 1)).filter p := by
    rw [← List.filter_cons_of_pos hp, ← hget, List.getElem_cons_drop, ← List.filter_append,
      List.take_append_drop]
  rw [hsplit, List.countP_eq_length_filter, List.getElem?_append_right (Nat.le_refl _),
    Nat.sub_self, List.getElem?_cons_zero]

/-- The lines of blocks, one after the other, each as its block and its index there. -/
def blockLines (blocks : List CodeBlock) : List (CodeBlock × Nat) :=
  blocks.flatMap fun block =>
    (List.range block.expanded.lines.length).map fun index => (block, index)

/-- Whether a line of a stage is a line of a block. -/
def StageLine.isCode : StageLine → Bool
  | .code _ _ _ => true
  | _ => false

/-- Whether a line of a stage is one line of the source. -/
def StageLine.IsSingle (line : StageLine) : Prop :=
  Text.lines (Text.terminated line.text) = [Text.terminated line.text]

/-- The source of a stage is the texts of its lines, each ended. -/
theorem LinkedStage.source_eq (stage : LinkedStage) :
    stage.source = String.ofList ((stage.lines.map StageLine.text).flatMap Text.terminated) := by
  rw [source, List.flatMap_map]

/-- A line whose text has no line feed is one line of the source. -/
theorem StageLine.isSingle_of_not_mem {line : StageLine} (h : '\n' ∉ line.text) :
    line.IsSingle := by
  rw [IsSingle, Text.terminated_of_not_mem h]
  exact Text.lines_concat_newline h

namespace Linking

/-! ### Links -/

section Links

variable {settings : Settings} {shader : Shader}

/-- A stage that is linked is put together from the blocks that its references name and the lines
that declare its streams. -/
theorem exists_assemble_of_linkStage {binding : BoundStage} {stage : LinkedStage}
    (h : linkStage settings shader binding = .ok stage) :
    ∃ referenced interface,
      List.Forall₂ (fun reference block => resolveBlock shader reference = .ok block)
          binding.blocks referenced ∧
        (interface = [] ∨ ∃ streams ∈ binding.interface?,
          interfaceLines shader streams = .ok interface) ∧
          stage = assemble settings shader (shader.shared?.toList ++ referenced) interface := by
  obtain ⟨parts, hparts, h⟩ := Except.bind_eq_ok.mp h
  cases h
  obtain ⟨referenced, hreferenced, hparts⟩ := Except.bind_eq_ok.mp hparts
  refine ⟨referenced, ?_⟩
  cases hinterface : binding.interface? with
  | none =>
    rw [hinterface] at hparts
    cases hparts
    exact ⟨[], Except.forall₂_of_mapM hreferenced, .inl rfl, rfl⟩
  | some streams =>
    rw [hinterface] at hparts
    obtain ⟨interface, hlines, hparts⟩ := Except.bind_eq_ok.mp hparts
    cases hparts
    exact ⟨interface, Except.forall₂_of_mapM hreferenced, .inr ⟨streams, rfl, hlines⟩, rfl⟩

/-- What a pass binds to a stage is found in the pass. -/
theorem exists_of_mem_boundStages {key : StageKey} {binding : BoundStage}
    (h : (key, binding) ∈ boundStages shader) :
    ∃ technique ∈ shader.techniques.values, ∃ pass ∈ technique.passes,
      pass.stages.get? key.slot = some binding := by
  obtain ⟨technique, htechnique, h⟩ := List.mem_flatMap.mp h
  obtain ⟨⟨pass, index⟩, hpass, h⟩ := List.mem_flatMap.mp h
  obtain ⟨slot, -, hslot⟩ := List.mem_filterMap.mp h
  obtain ⟨found, hfound, heq⟩ := Option.map_eq_some_iff.mp hslot
  cases heq
  exact ⟨technique, htechnique, pass, List.fst_mem_of_mem_zipIdx hpass, hfound⟩

/-- The linked stages are those that are bound, in order, each linked as its pass says. -/
theorem forall₂_of_link {stages : LinkedStages}
    (h : (link settings shader).outcome = .ok stages) :
    List.Forall₂ (fun bound entry => entry.1 = bound.1 ∧
      linkStage settings shader bound.2 = .ok entry.2) (boundStages shader) stages := by
  rw [link, Traced.outcome_mapM] at h
  refine (Except.forall₂_of_mapM h).imp fun bound entry hlink => ?_
  obtain ⟨stage, hstage, hrest⟩ := Traced.outcome_bind_eq_ok.mp hlink
  obtain ⟨-, -, hrest⟩ := Traced.outcome_bind_eq_ok.mp hrest
  cases hrest
  exact ⟨rfl, hstage⟩

/-- The keys of linked stages are those of what is bound. -/
theorem keys_of_link {stages : LinkedStages} (h : (link settings shader).outcome = .ok stages) :
    stages.map Prod.fst = (boundStages shader).map Prod.fst :=
  map_eq_of_forall₂ ((forall₂_of_link h).imp fun _ _ hentry => hentry.1)

/-- Every linked stage is bound by a pass and linked as that says. -/
theorem exists_linkStage_of_link {stages : LinkedStages}
    (h : (link settings shader).outcome = .ok stages) :
    ∀ entry ∈ stages, ∃ binding, (entry.1, binding) ∈ boundStages shader ∧
      linkStage settings shader binding = .ok entry.2 := by
  intro entry hentry
  obtain ⟨bound, hbound, hkey, hstage⟩ := exists_of_mem_right (forall₂_of_link h) hentry
  exact ⟨bound.2, hkey ▸ hbound, hstage⟩

end Links

/-! ### Code -/

section Code

variable {style : LineMarkers} {files : List SourcePath}

/-- What stands in a stage for a line of code. -/
def CodeLine.written (line : CodeLine) : StageLine :=
  .code (keptText line.text) line.block line.origin?

/-- The markers that are written before a line with an origin or none, and the files markers refer
to after it. -/
def markersBefore (style : LineMarkers) (expected : Option Origin) (files : List SourcePath)
    (origin? : Option Origin) : List StageLine × List SourcePath :=
  match origin? with
  | some origin => if expected = some origin then ([], files) else marker style files origin
  | none => ([], files)

/-- A line is written behind its markers and before the other lines. -/
theorem writeCode_cons (expected : Option Origin) (line : CodeLine) (rest : List CodeLine) :
    (writeCode style expected files (line :: rest)).1 =
      (markersBefore style expected files line.origin?).1 ++ line.written ::
        (writeCode style (line.origin?.map following)
          (markersBefore style expected files line.origin?).2 rest).1 := rfl

/-- All that is written before a line is a marker that names its file. -/
theorem eq_marker_of_mem_markersBefore {expected : Option Origin} {origin? : Option Origin}
    {line : StageLine} (h : line ∈ (markersBefore style expected files origin?).1) :
    ∃ origin ∈ origin?, line ∈ (marker style files origin).1 := by
  unfold markersBefore at h
  split at h
  · rename_i origin
    split at h
    · cases h
    · exact ⟨origin, rfl, h⟩
  · cases h

/-- A marker starts with the word that says so. -/
theorem exists_text_of_mem_marker {origin : Origin} {line : StageLine}
    (h : line ∈ (marker style files origin).1) :
    ∃ text, line = .marker ("#line ".toList ++ text) := by
  cases style with
  | none => cases h
  | numeric =>
    obtain rfl := List.mem_singleton.mp h
    exact ⟨_, by rw [String.toList_append, String.toList_append, String.toList_append,
      List.append_assoc, List.append_assoc]; rfl⟩
  | quoted =>
    obtain rfl := List.mem_singleton.mp h
    exact ⟨_, by rw [String.toList_append, String.toList_append, String.toList_append,
      String.toList_append, List.append_assoc, List.append_assoc, List.append_assoc]; rfl⟩

/-- Without its markers, written code is the lines of the code in order. -/
theorem filter_writeCode (style : LineMarkers) (expected : Option Origin)
    (files : List SourcePath) (lines : List CodeLine) :
    (writeCode style expected files lines).1.filter StageLine.isCode =
      lines.map CodeLine.written := by
  induction lines generalizing expected files with
  | nil => rfl
  | cons line rest ih =>
    have hmarkers : (markersBefore style expected files line.origin?).1.filter
        StageLine.isCode = [] := by
      rw [List.filter_eq_nil_iff]
      intro other hother
      obtain ⟨origin, -, hmarker⟩ := eq_marker_of_mem_markersBefore hother
      obtain ⟨text, rfl⟩ := exists_text_of_mem_marker hmarker
      exact Bool.false_ne_true
    rw [writeCode_cons, List.filter_append, hmarkers, List.nil_append,
      List.filter_cons_of_pos rfl, ih, List.map_cons]

/-- A text that is put together from parts without a character does not have it. -/
theorem not_mem_append {c : Char} {left right : String} (hleft : c ∉ left.toList)
    (hright : c ∉ right.toList) : c ∉ (left ++ right).toList := by
  rw [String.toList_append, List.mem_append, not_or]
  exact ⟨hleft, hright⟩

/-- A number stands on one line. -/
theorem not_mem_toString (number : Nat) : '\n' ∉ (toString number).toList := by
  intro hmem
  have hdigits : '\n' ∈ Nat.toDigits 10 number := by
    rw [← Nat.toList_repr]
    exact hmem
  exact absurd (Nat.isDigit_of_mem_toDigits (by decide) (by decide) hdigits) (by decide)

/-- A marker stands on one line, unless it quotes the path of a file and that does not. -/
theorem not_mem_marker {origin : Origin}
    (h : style = .quoted → '\n' ∉ origin.file.text.toList) :
    ∀ line ∈ (marker style files origin).1, '\n' ∉ line.text := by
  have hplain : '\n' ∉ ("#line " : String).toList := by decide
  cases style with
  | none => exact nofun
  | numeric =>
    intro line hline
    obtain rfl := List.mem_singleton.mp hline
    refine not_mem_append (not_mem_append (not_mem_append hplain (not_mem_toString _)) ?_)
      (not_mem_toString _)
    decide
  | quoted =>
    intro line hline
    obtain rfl := List.mem_singleton.mp hline
    refine not_mem_append (not_mem_append (not_mem_append
      (not_mem_append hplain (not_mem_toString _)) ?_) (h rfl)) ?_
    · decide
    · decide

/-- A line of code is one line of the source, whether it is kept or not. -/
theorem isSingle_written {line : CodeLine} (h : Text.lines line.text = [line.text]) :
    line.written.IsSingle := by
  show Text.lines (Text.terminated (keptText line.text)) = [Text.terminated (keptText line.text)]
  unfold keptText
  split
  · rfl
  · exact Text.lines_terminated h

/-- What is written for code is its lines and markers that name their files. -/
theorem of_mem_writeCode {expected : Option Origin} {lines : List CodeLine} {line : StageLine}
    (h : line ∈ (writeCode style expected files lines).1) :
    ∃ code ∈ lines, line = code.written ∨
      ∃ origin ∈ code.origin?, ∃ known, line ∈ (marker style known origin).1 := by
  induction lines generalizing expected files with
  | nil => cases h
  | cons first rest ih =>
    rw [writeCode_cons] at h
    rcases List.mem_append.mp h with hmarker | hcode
    · obtain ⟨origin, horigin, hmem⟩ := eq_marker_of_mem_markersBefore hmarker
      exact ⟨first, List.mem_cons_self .., .inr ⟨origin, horigin, files, hmem⟩⟩
    · rcases List.mem_cons.mp hcode with rfl | hrest
      · exact ⟨first, List.mem_cons_self .., .inl rfl⟩
      · obtain ⟨code, hmem, hcases⟩ := ih hrest
        exact ⟨code, List.mem_cons_of_mem _ hmem, hcases⟩

/-- All written code is lines of the source if the files that markers quote have paths on one
line. -/
theorem isSingle_of_mem_writeCode {expected : Option Origin} {lines : List CodeLine}
    (hlines : ∀ line ∈ lines, Text.lines line.text = [line.text] ∧
      ∀ origin ∈ line.origin?, style = .quoted → '\n' ∉ origin.file.text.toList) :
    ∀ line ∈ (writeCode style expected files lines).1, line.IsSingle := by
  intro line hline
  obtain ⟨code, hmem, rfl | ⟨origin, horigin, known, hmarker⟩⟩ := of_mem_writeCode hline
  · exact isSingle_written (hlines code hmem).1
  · exact StageLine.isSingle_of_not_mem
      (not_mem_marker ((hlines code hmem).2 origin horigin) line hmarker)

/-- Without markers, what is written for code is its lines. -/
theorem writeCode_none (expected : Option Origin) (files : List SourcePath)
    (lines : List CodeLine) :
    (writeCode .none expected files lines).1 = lines.map CodeLine.written := by
  -- Leaving out what is no code changes nothing, as nothing else is written.
  have hcode : ∀ line ∈ (writeCode .none expected files lines).1, line.isCode = true := by
    intro line hline
    obtain ⟨code, -, rfl | ⟨origin, -, known, hmarker⟩⟩ := of_mem_writeCode hline
    · rfl
    · cases hmarker
  rw [← filter_writeCode .none expected files lines, List.filter_eq_self.mpr hcode]

end Code

/-! ### Preambles -/

section Preambles

variable {settings : Settings} {shader : Shader}

/-- The version that a line declares is part of the line. -/
theorem mem_of_declared? {line version : List Char} (h : Version.declared? line = some version)
    {c : Char} (hc : c ∈ version) : c ∈ line := by
  unfold Version.declared? at h
  split at h
  · rename_i rest hstart
    split at h
    · rename_i d other hword
      split at h
      · cases h
        have hsplit := List.isPrefixOf?_eq_some_iff_append_eq.mp hword
        have hother : c ∈ Text.trimStart rest := by
          rw [← hsplit]
          exact List.mem_append_right _ (List.mem_cons_of_mem _ (Text.mem_of_mem_trim hc))
        have hline : c ∈ Text.trimStart line := by
          rw [hstart]
          exact List.mem_cons_of_mem _ (Text.mem_of_mem_trimStart hother)
        exact Text.mem_of_mem_trimStart hline
      · cases h
    · cases h
  · cases h

/-- A version that blocks declare stands on one line. -/
theorem not_mem_declaredVersion? {blocks : List CodeBlock} {version : String}
    (h : declaredVersion? blocks = some version) : '\n' ∉ version.toList := by
  obtain ⟨line, hline, hdeclared⟩ := List.exists_of_findSome?_eq_some h
  obtain ⟨declared, hversion, rfl⟩ := Option.map_eq_some_iff.mp hdeclared
  obtain ⟨block, -, hmem⟩ := List.mem_flatMap.mp hline
  have hplain := Text.not_mem_bareLine (Text.lines_of_mem_lines hmem)
  rw [String.toList_ofList]
  exact fun hfeed => hplain (mem_of_declared? hversion hfeed)

/-- Characters that the declarations of uniforms and streams do not have, whatever their names
are: line feeds, and what a directive starts with. -/
def IsForeign (c : Char) : Prop := c = '\n' ∨ c = '#'

/-- The fields of a stream whose names do not have a foreign character are declared without it. -/
theorem not_mem_streamLines {c : Char} (hc : IsForeign c) {argument : StreamArgument}
    {stream : AttributeStream} (hargument : argument.Named fun word => c ∉ word.toList)
    (hstream : stream.Named fun word => c ∉ word.toList) :
    ∀ line ∈ streamLines argument stream, c ∉ line.toList := by
  have hkeyword : c ∉ argument.direction.keyword.toList := by
    rcases hc with rfl | rfl <;> cases argument.direction <;> decide
  have hspace : c ∉ (" " : String).toList := by rcases hc with rfl | rfl <;> decide
  have hopen : c ∉ (r"{" : String).toList := by rcases hc with rfl | rfl <;> decide
  have hclose : c ∉ (r"} " : String).toList := by rcases hc with rfl | rfl <;> decide
  have hsemicolon : c ∉ (";" : String).toList := by rcases hc with rfl | rfl <;> decide
  have hindent : c ∉ ("    " : String).toList := by rcases hc with rfl | rfl <;> decide
  intro line hline
  unfold streamLines at hline
  cases hinstance : argument.instance? with
  | none =>
    rw [hinstance] at hline
    obtain ⟨field, hfield, rfl⟩ := List.mem_map.mp hline
    obtain ⟨htype, hname⟩ := hstream field hfield
    exact not_mem_append (not_mem_append (not_mem_append (not_mem_append (not_mem_append hkeyword
      hspace) htype) hspace) hname) hsemicolon
  | some name =>
    rw [hinstance] at hline
    have hinstanceName := hargument.2 name hinstance
    rcases List.mem_append.mp hline with hfields | hlast
    · rcases List.mem_cons.mp hfields with rfl | hfields
      · exact not_mem_append (not_mem_append (not_mem_append (not_mem_append hkeyword hspace)
          hargument.1) hspace) hopen
      · obtain ⟨field, hfield, rfl⟩ := List.mem_map.mp hfields
        obtain ⟨htype, hname⟩ := hstream field hfield
        exact not_mem_append (not_mem_append (not_mem_append (not_mem_append hindent htype)
          hspace) hname) hsemicolon
    · obtain rfl := List.mem_singleton.mp hlast
      exact not_mem_append hclose (not_mem_append hinstanceName hsemicolon)

/-- The streams of a stage are declared without foreign characters. -/
theorem not_mem_interfaceLines {c : Char} (hc : IsForeign c) {streams : StageStreams}
    {lines : List String} (h : interfaceLines shader streams = .ok lines)
    (hshader : shader.Named fun word => c ∉ word.toList)
    (hinput : streams.input.Named fun word => c ∉ word.toList)
    (houtput : streams.output.Named fun word => c ∉ word.toList) :
    ∀ line ∈ lines, c ∉ line.toList := by
  have hresolved : ∀ {argument : StreamArgument} {stream : AttributeStream},
      resolveStream shader argument = .ok stream → stream ∈ shader.streams.values := by
    intro argument stream hstream
    unfold resolveStream at hstream
    split at hstream
    · rename_i found hfound
      cases hstream
      exact (OrderedMap.mem_of_get? hfound).2
    · cases hstream
  obtain ⟨input, hin, h⟩ := Except.bind_eq_ok.mp h
  obtain ⟨output, hout, h⟩ := Except.bind_eq_ok.mp h
  cases h
  intro line hline
  rcases List.mem_append.mp hline with hline | hline
  · exact not_mem_streamLines hc hinput (hshader.streams input (hresolved hin)) line hline
  · exact not_mem_streamLines hc houtput (hshader.streams output (hresolved hout)) line hline

/-- Uniforms are declared without foreign characters. -/
theorem not_mem_uniform {c : Char} (hc : IsForeign c) {uniform : Uniform}
    (h : uniform.Named fun word => c ∉ word.toList) :
    c ∉ s!"uniform {uniform.type} {uniform.name};".toList := by
  have hkeyword : c ∉ ("uniform " : String).toList := by rcases hc with rfl | rfl <;> decide
  have hspace : c ∉ (" " : String).toList := by rcases hc with rfl | rfl <;> decide
  have hsemicolon : c ∉ (";" : String).toList := by rcases hc with rfl | rfl <;> decide
  exact not_mem_append (not_mem_append (not_mem_append (not_mem_append hkeyword h.2) hspace) h.1)
    hsemicolon

/-- The lines of a preamble have no line feeds, but for the default version and the macros. -/
theorem of_mem_preamble {blocks : List CodeBlock} {interface : List String}
    (hshader : shader.Named fun word => '\n' ∉ word.toList)
    (hinterface : ∀ line ∈ interface, '\n' ∉ line.toList) :
    ∀ line ∈ preamble settings shader blocks interface, '\n' ∉ line.toList ∨
      line = Version.declaration settings.defaultVersion ∨
        ∃ entry ∈ settings.defines.entries, line = s!"#define {entry.1} {entry.2}" := by
  intro line hline
  unfold preamble at hline
  rcases List.mem_cons.mp hline with rfl | hline
  · cases hdeclared : declaredVersion? blocks with
    | none => exact .inr (.inl rfl)
    | some version => exact .inl (not_mem_append (by decide) (not_mem_declaredVersion? hdeclared))
  · rcases List.mem_append.mp hline with hline | hline
    · rcases List.mem_append.mp hline with hline | hline
      · rcases List.mem_append.mp hline with hline | hline
        · split at hline
          · obtain rfl := List.mem_singleton.mp hline
            exact .inl (by decide)
          · cases hline
        · obtain ⟨entry, hentry, rfl⟩ := List.mem_map.mp hline
          exact .inr (.inr ⟨entry, hentry, rfl⟩)
      · obtain ⟨uniform, huniform, rfl⟩ := List.mem_map.mp hline
        exact .inl (not_mem_uniform (.inl rfl)
          (hshader.uniforms uniform (List.mem_filter.mp huniform).1))
    · exact .inl (hinterface line hline)

/-- The lines of a preamble have no line feeds if what the settings and the shader give for it has
none. -/
theorem not_mem_preamble {blocks : List CodeBlock} {interface : List String}
    (hversion : '\n' ∉ settings.defaultVersion.toList)
    (hdefines : ∀ entry ∈ settings.defines.entries, '\n' ∉ entry.1.toList ∧ '\n' ∉ entry.2.toList)
    (hshader : shader.Named fun word => '\n' ∉ word.toList)
    (hinterface : ∀ line ∈ interface, '\n' ∉ line.toList) :
    ∀ line ∈ preamble settings shader blocks interface, '\n' ∉ line.toList := by
  have hspace : '\n' ∉ (" " : String).toList := by decide
  intro line hline
  rcases of_mem_preamble hshader hinterface line hline with hplain | rfl | ⟨entry, hentry, rfl⟩
  · exact hplain
  · exact not_mem_append (by decide) hversion
  · obtain ⟨hkey, hvalue⟩ := hdefines entry hentry
    exact not_mem_append (not_mem_append (not_mem_append (by decide) hkey) hspace) hvalue

end Preambles

/-! ### Stages -/

section Stages

variable {settings : Settings} {shader : Shader} {blocks : List CodeBlock}
  {interface : List String}

/-- Without its generated lines and markers, a stage is the lines of its blocks in order. -/
theorem filter_assemble (settings : Settings) (shader : Shader) (blocks : List CodeBlock)
    (interface : List String) :
    (assemble settings shader blocks interface).lines.filter StageLine.isCode =
      (blocks.flatMap codeLines).map CodeLine.written := by
  show (((preamble settings shader blocks interface).map fun line =>
    StageLine.generated line.toList) ++ (writeCode settings.lineMarkers none []
      (blocks.flatMap codeLines)).1).filter StageLine.isCode = _
  have hgenerated : ((preamble settings shader blocks interface).map fun line =>
      StageLine.generated line.toList).filter StageLine.isCode = [] := by
    rw [List.filter_eq_nil_iff]
    intro line hline
    obtain ⟨text, -, rfl⟩ := List.mem_map.mp hline
    exact Bool.false_ne_true
  rw [List.filter_append, hgenerated, List.nil_append, filter_writeCode]

/-- The texts of the lines of code of blocks are their lines. -/
theorem map_text_codeLines (blocks : List CodeBlock) :
    (blocks.flatMap codeLines).map CodeLine.text = blocks.flatMap (·.expanded.lines) := by
  rw [List.map_flatMap]
  congr 1
  funext block
  rw [codeLines, List.map_map]
  exact List.zipIdx_map_fst ..

/-- Without markers, the texts of a stage are its preamble and what is kept of its code. -/
theorem texts_assemble (hmarkers : settings.lineMarkers = .none) :
    (assemble settings shader blocks interface).lines.map StageLine.text =
      (preamble settings shader blocks interface).map String.toList ++
        (blocks.flatMap (·.expanded.lines)).map keptText := by
  have hcode : (assemble settings shader blocks interface).lines =
      (preamble settings shader blocks interface).map (fun line => .generated line.toList) ++
        (blocks.flatMap codeLines).map CodeLine.written := by
    rw [← writeCode_none none [], ← hmarkers]
    rfl
  rw [hcode, ← map_text_codeLines, List.map_append, List.map_map, List.map_map, List.map_map]
  rfl

/-- Every line of code of a block is a line of the block with its origin. -/
theorem exists_line_of_mem_codeLines {block : CodeBlock} {line : CodeLine}
    (h : line ∈ codeLines block) : ∃ index, block.expanded.lines[index]? = some line.text ∧
      line.origin? = block.expanded.locate (index + 1) := by
  obtain ⟨⟨text, index⟩, hindex, rfl⟩ := List.mem_map.mp h
  exact ⟨index, List.mem_zipIdx_iff_getElem?.mp hindex, rfl⟩

/-- A line of a block as a line of code. -/
def codeLine (entry : CodeBlock × Nat) : CodeLine :=
  ⟨entry.1.expanded.lines[entry.2]?.getD [], entry.1.name, entry.1.expanded.locate (entry.2 + 1)⟩

/-- The lines of code of blocks are their lines with the names of the blocks and the origins. -/
theorem flatMap_codeLines (blocks : List CodeBlock) :
    blocks.flatMap codeLines = (blockLines blocks).map codeLine := by
  have hblock : ∀ block : CodeBlock, codeLines block =
      ((List.range block.expanded.lines.length).map fun index => (block, index)).map codeLine := by
    intro block
    rw [List.map_map]
    refine List.ext_getElem (by simp [codeLines]) fun index hleft hright => ?_
    have hindex : index < block.expanded.lines.length := by simpa using hright
    simp only [codeLines, List.getElem_map, List.getElem_zipIdx, List.getElem_range,
      Function.comp_apply, codeLine, Nat.zero_add, List.getElem?_eq_getElem hindex,
      Option.getD_some]
  rw [blockLines, List.map_flatMap]
  congr 1
  funext block
  exact hblock block

/-- The line of code at a place among those of blocks is the line of a block there. -/
theorem getElem?_flatMap_codeLines {blocks : List CodeBlock} {number : Nat} {line : CodeLine}
    (h : (blocks.flatMap codeLines)[number]? = some line) :
    ∃ block index, (blockLines blocks)[number]? = some (block, index) ∧
      block.expanded.lines[index]? = some line.text ∧
        line = ⟨line.text, block.name, block.expanded.locate (index + 1)⟩ := by
  rw [flatMap_codeLines, List.getElem?_map] at h
  obtain ⟨⟨block, index⟩, hentry, rfl⟩ := Option.map_eq_some_iff.mp h
  obtain ⟨other, -, hother⟩ := List.mem_flatMap.mp (List.mem_of_getElem? hentry)
  obtain ⟨place, hplace, heq⟩ := List.mem_map.mp hother
  cases heq
  refine ⟨block, index, hentry, ?_, rfl⟩
  rw [codeLine, List.getElem?_eq_getElem (List.mem_range.mp hplace), Option.getD_some]

/-- The lines of code in a stage are the lines of its blocks, each at its turn. -/
theorem getElem?_assemble {position : Nat} {line : StageLine}
    (hline : (assemble settings shader blocks interface).lines[position]? = some line)
    (hcode : line.isCode = true) :
    ∃ block index text, (blockLines blocks)[((assemble settings shader blocks
        interface).lines.take position).countP StageLine.isCode]? = some (block, index) ∧
      block.expanded.lines[index]? = some text ∧
        line = .code (keptText text) block.name (block.expanded.locate (index + 1)) := by
  have hfound := getElem?_filter_countP hline hcode
  rw [filter_assemble, List.getElem?_map] at hfound
  obtain ⟨code, hnumber, rfl⟩ := Option.map_eq_some_iff.mp hfound
  obtain ⟨block, index, hentry, htext, heq⟩ := getElem?_flatMap_codeLines hnumber
  refine ⟨block, index, code.text, hentry, htext, ?_⟩
  rw [heq]
  rfl

/-- A stage has as many lines of code as its blocks have lines. -/
theorem countP_assemble (settings : Settings) (shader : Shader) (blocks : List CodeBlock)
    (interface : List String) :
    (assemble settings shader blocks interface).lines.countP StageLine.isCode =
      (blockLines blocks).length := by
  rw [List.countP_eq_length_filter, filter_assemble, List.length_map, flatMap_codeLines,
    List.length_map]

/-- A stage is its preamble and then lines of blocks and markers. -/
theorem exists_lines_eq_of_assemble (settings : Settings) (shader : Shader)
    (blocks : List CodeBlock) (interface : List String) :
    ∃ code, (assemble settings shader blocks interface).lines =
      ((preamble settings shader blocks interface).map fun line => .generated line.toList) ++ code ∧
        ∀ line ∈ code, line.isCode = true ∨ ∃ text, line = .marker ("#line ".toList ++ text) := by
  refine ⟨_, rfl, fun line hline => ?_⟩
  obtain ⟨code, -, rfl | ⟨origin, -, known, hmarker⟩⟩ := of_mem_writeCode hline
  · exact .inl rfl
  · exact .inr (exists_text_of_mem_marker hmarker)

/-- The lines of a stage are the lines of its source. -/
theorem lines_source_assemble
    (hpreamble : ∀ line ∈ preamble settings shader blocks interface, '\n' ∉ line.toList)
    (hblocks : ∀ block ∈ blocks, ∀ index line, block.expanded.lines[index]? = some line →
      ∀ origin ∈ block.expanded.locate (index + 1), settings.lineMarkers = .quoted →
        '\n' ∉ origin.file.text.toList) :
    Text.lines (assemble settings shader blocks interface).source.toList =
      (assemble settings shader blocks interface).lines.map fun line =>
        Text.terminated line.text := by
  have hsingle : ∀ line ∈ (assemble settings shader blocks interface).lines, line.IsSingle := by
    intro line hline
    rcases List.mem_append.mp hline with hgenerated | hcode
    · obtain ⟨text, htext, rfl⟩ := List.mem_map.mp hgenerated
      exact StageLine.isSingle_of_not_mem (hpreamble text htext)
    · refine isSingle_of_mem_writeCode (fun other hother => ?_) line hcode
      obtain ⟨block, hblock, hmem⟩ := List.mem_flatMap.mp hother
      obtain ⟨index, hindex, horigin⟩ := exists_line_of_mem_codeLines hmem
      have htext : other.text ∈ block.expanded.lines := List.mem_of_getElem? hindex
      refine ⟨Text.lines_of_mem_lines htext, fun origin hmem => ?_⟩
      rw [horigin] at hmem
      exact hblocks block hblock index other.text hindex origin hmem
  rw [LinkedStage.source_eq, String.toList_ofList, Text.lines_flatMap_terminated, List.map_map]
  · rfl
  · intro text htext
    obtain ⟨line, hline, rfl⟩ := List.mem_map.mp htext
    exact hsingle line hline

end Stages

end Linking

end ShaderAssembly
