import ShaderAssembly.Proofs.DeclaredEffects
import ShaderAssembly.Proofs.OrdinaryTexts
import ShaderAssembly.Proofs.WrittenShaders

/-!
# Shaders that are written as effect files

An outline without shared code can be written as an effect file, too. There each stage has to say
what it reads and writes, so the file declares one stream without fields, and all stages name it.
The file is read as the blocks and techniques of its outline, and if no line of the code is an
include line, none of the file is.
-/

namespace ShaderAssembly

open ShaderAssembly.Grammar

/-! ### Open braces -/

/-- Whether no head of a block is being read and a number of braces is open. -/
structure ScanState.IsWithin (depth : Nat) (state : ScanState) : Prop where
  /-- No head of a block is being read. -/
  head : state.head = .none
  /-- The number of open braces. -/
  depth : state.depth = depth

/-- How many braces are open behind a token, given how many are before it. -/
def TokenKind.depthBehind (depth : Nat) : TokenKind → Nat
  | .openBrace => depth + 1
  | .closeBrace => depth - 1
  | _ => depth

/-- Outside of all braces a declaration can start behind one that ends there. -/
theorem ScanState.IsWithin.isAtItem {rule : BlockRule} {state : ScanState} {kind : TokenKind}
    (h : state.IsWithin rule.depth) (hbehind : state.IsBehind kind)
    (hkind : kind.endsDeclaration = true) : state.IsAtItem rule := by
  refine ⟨h.head, ?_⟩
  unfold atDeclaration
  rw [h.depth, hbehind.previous]
  cases kind <;> simp_all [TokenKind.endsDeclaration]

namespace Word

variable {rule : BlockRule} {before : ScanState → Prop} {depth : Nat} {kind : TokenKind}
  {c : Char} {gap : List Char} {written : String}

/-- Behind a token as many braces are open as it leaves open. -/
theorem Follows.isWithin {lexeme : List Char} {next : ScanState}
    (h : Follows rule before kind lexeme next)
    (hbefore : ∀ state, before state → state.IsWithin depth) :
    next.IsWithin (kind.depthBehind depth) := by
  obtain ⟨state, hstate, rfl⟩ := h.taking
  obtain rfl : state.depth = depth := (hbefore state hstate).depth
  have hdepth : (state.taking (some rule) kind lexeme).depth = kind.depthBehind state.depth := by
    cases kind <;> rfl
  exact ⟨h.head, hdepth⟩

/-- Where another number of braces is open than around blocks, any name is read as one. -/
theorem readsName_of_isWithin (hdepth : depth ≠ rule.depth) {state : ScanState}
    (h : state.IsWithin depth) : ReadsName rule written state := by
  have hplain : state.atDeclaration rule = false := by
    simp [ScanState.atDeclaration, h.depth, hdepth]
  exact ⟨h.head, .inl hplain⟩

theorem leads_mark_within (hmark : Piece.punctuation? c = some kind)
    (hgap : ∀ c ∈ gap, Text.isBlank c = true) :
    Leads rule (·.IsWithin depth) [mark kind c gap] (·.IsWithin (kind.depthBehind depth)) :=
  (leads_mark_follows (fun _ hstate => hstate.head) hmark hgap).mono
    fun _ hnext => hnext.isWithin fun _ hstate => hstate

theorem leads_name_within (hdepth : depth ≠ rule.depth)
    (hname : Piece.isName written.toList = true) :
    Leads rule (·.IsWithin depth) [name written [' ']] (·.IsWithin depth) :=
  (leads_name_follows hname fun _ => readsName_of_isWithin hdepth).mono
    fun _ hnext => hnext.isWithin fun _ hstate => hstate

theorem leads_name_mark_within (hdepth : depth ≠ rule.depth)
    (hname : Piece.isName written.toList = true) (hmark : Piece.punctuation? c = some kind)
    (hgap : ∀ c ∈ gap, Text.isBlank c = true) :
    Leads rule (·.IsWithin depth) [name written [], mark kind c gap]
      (·.IsWithin (kind.depthBehind depth)) :=
  (leads_name_mark_follows hname (fun _ => readsName_of_isWithin hdepth) hmark hgap).mono
    fun _ hnext => hnext.isWithin fun _ hname => hname.isWithin fun _ hstate => hstate

end Word

/-! ### Stages without streams of their own -/

/-- Whether a stage reads and writes a stream by its name alone. -/
def StreamArgument.IsPlain (stream : String) (argument : StreamArgument) : Prop :=
  argument.stream = stream ∧ argument.instance? = none

/-- Whether all that a stage says of its streams is the name of one. -/
def BoundStage.UsesOnly (stream : String) (binding : BoundStage) : Prop :=
  ∀ interface ∈ binding.interface?,
    interface.input.IsPlain stream ∧ interface.output.IsPlain stream

/-- Whether all that the stages of a technique say of their streams is the name of one. -/
def Technique.UsesOnly (stream : String) (technique : Technique) : Prop :=
  ∀ pass ∈ technique.passes, ∀ binding ∈ pass.stages.values, binding.UsesOnly stream

namespace Effect

open ShaderAssembly.Parser ShaderAssembly.Word

/-! ### Writing -/

/-- The stream that every stage reads and writes. -/
def streamName : String := "s"

/-- `attribute s { }; ` -/
def streamWords : List Word :=
  [name "attribute" [' '], name streamName [' '], mark .openBrace '{' [' '],
    mark .closeBrace '}' [], mark .semicolon ';' [' ']]

/-- `A, B ` -/
def referenceWords : List String → List Word
  | [] => []
  | [last] => [name last [' ']]
  | first :: others => [name first [], mark .comma ',' [' ']] ++ referenceWords others

/-- `in s, out s) `, which is what follows the opening bracket of the streams of a stage. -/
def interfaceWords : List Word :=
  [name "in" [' '], name streamName [], mark .comma ',' [' '], name "out" [' '],
    name streamName [], mark .closeParen ')' [' ']]

/-- `SlotShader(in s, out s) = { A, B }; ` -/
def bindingWords (binding : Stage × List String) : List Word :=
  name binding.1.effectKeyword [] :: mark .openParen '(' [] :: (interfaceWords ++
    mark .equal '=' [' '] :: mark .openBrace '{' [' '] :: (referenceWords binding.2 ++
      [mark .closeBrace '}' [], mark .semicolon ';' [' ']]))

/-- `pass p { SlotShader(in s, out s) = { A, B }; ... } ` -/
def passWords (pass : List (Stage × List String)) : List Word :=
  name "pass" [' '] :: name "p" [' '] :: mark .openBrace '{' [' '] ::
    (pass.flatMap bindingWords ++ [mark .closeBrace '}' [' ']])

/-- `technique Name { pass p { ... } ... } ` -/
def techniqueWords (technique : TechniqueOutline) : List Word :=
  name "technique" [' '] :: name technique.name [' '] :: mark .openBrace '{' [' '] ::
    (technique.passes.flatMap passWords ++ [mark .closeBrace '}' [' ']])

/-- `attribute s { }; GLSLShader Name {code} ... technique Name { ... } ... `, with the code of a
block right between its braces -/
def words (outline : Outline) : List Word :=
  streamWords ++ (outline.blocks.flatMap (fun entry => block "GLSLShader" (some entry.1) entry.2) ++
    outline.techniques.flatMap techniqueWords)

/-- The effect file that has the blocks and techniques of an outline. -/
def text (outline : Outline) : String := String.ofList (Word.text (words outline))

example : text ⟨none, [("A", "")], [⟨"T", [[(.fragment, ["A", "A"])]]⟩]⟩ =
    r"attribute s { }; GLSLShader A {} technique T { pass p { " ++
      r"PixelShader(in s, out s) = { A, A }; } } " := by
  decide

/-! ### Legibility -/

section Legibility

variable {depth : Nat}

theorem leads_referenceWords (hdepth : depth ≠ blockRule.depth) {references : List String}
    (hnames : ∀ reference ∈ references, Piece.isName reference.toList = true) :
    Leads blockRule (·.IsWithin depth) (referenceWords references) (·.IsWithin depth) := by
  induction references with
  | nil => exact .nil
  | cons first others ih =>
    rw [List.forall_mem_cons] at hnames
    match others with
    | [] => exact leads_name_within hdepth hnames.1
    | second :: others =>
      exact (leads_name_mark_within hdepth hnames.1 rfl isBlank_gap).append (ih hnames.2)

theorem leads_interfaceWords (hdepth : depth ≠ blockRule.depth) :
    Leads blockRule (·.IsWithin depth) interfaceWords (·.IsWithin depth) := by
  have hin : Leads blockRule (·.IsWithin depth) [name "in" [' ']] (·.IsWithin depth) :=
    leads_name_within hdepth (by decide)
  have hinput : Leads blockRule (·.IsWithin depth) [name streamName [], mark .comma ',' [' ']]
      (·.IsWithin depth) := leads_name_mark_within hdepth (by decide) rfl isBlank_gap
  have hout : Leads blockRule (·.IsWithin depth) [name "out" [' ']] (·.IsWithin depth) :=
    leads_name_within hdepth (by decide)
  have houtput : Leads blockRule (·.IsWithin depth)
      [name streamName [], mark .closeParen ')' [' ']] (·.IsWithin depth) :=
    leads_name_mark_within hdepth (by decide) rfl isBlank_gap
  exact (hin.append hinput).append (hout.append houtput)

theorem leads_bindingWords (hdepth : depth ≠ 0) {binding : Stage × List String}
    (hnames : ∀ reference ∈ binding.2, Piece.isName reference.toList = true) :
    Leads blockRule (·.IsWithin depth) (bindingWords binding) (·.IsWithin depth) := by
  have hslot : Leads blockRule (·.IsWithin depth)
      [name binding.1.effectKeyword [], mark .openParen '(' []] (·.IsWithin depth) :=
    leads_name_mark_within hdepth (by cases binding.1 <;> decide) rfl nofun
  have hequal : Leads blockRule (·.IsWithin depth) [mark .equal '=' [' ']] (·.IsWithin depth) :=
    leads_mark_within rfl isBlank_gap
  have hopening : Leads blockRule (·.IsWithin depth) [mark .openBrace '{' [' ']]
      (·.IsWithin (depth + 1)) := leads_mark_within rfl isBlank_gap
  have hreferences := leads_referenceWords (Nat.succ_ne_zero depth) hnames
  have hclosing : Leads blockRule (·.IsWithin (depth + 1)) [mark .closeBrace '}' []]
      (·.IsWithin depth) := leads_mark_within rfl nofun
  have hend : Leads blockRule (·.IsWithin depth) [mark .semicolon ';' [' ']]
      (·.IsWithin depth) := leads_mark_within rfl isBlank_gap
  have hcode := (hequal.append hopening).append (hreferences.append (hclosing.append hend))
  exact hslot.append ((leads_interfaceWords hdepth).append hcode)

/-- The brace that opens a technique or a pass. -/
theorem leads_opening : Leads blockRule (·.IsWithin depth) [mark .openBrace '{' [' ']]
    (·.IsWithin (depth + 1)) :=
  leads_mark_within rfl isBlank_gap

/-- The brace that closes a technique or a pass. -/
theorem leads_closing : Leads blockRule (·.IsWithin (depth + 1)) [mark .closeBrace '}' [' ']]
    (·.IsWithin depth) :=
  leads_mark_within rfl isBlank_gap

theorem leads_passWords (hdepth : depth ≠ 0) {pass : List (Stage × List String)}
    (hnames : ∀ binding ∈ pass, ∀ reference ∈ binding.2,
      Piece.isName reference.toList = true) :
    Leads blockRule (·.IsWithin depth) (passWords pass) (·.IsWithin depth) := by
  have hkeyword : Leads blockRule (·.IsWithin depth) [name "pass" [' ']] (·.IsWithin depth) :=
    leads_name_within hdepth (by decide)
  have hname : Leads blockRule (·.IsWithin depth) [name "p" [' ']] (·.IsWithin depth) :=
    leads_name_within hdepth (by decide)
  have hbindings := Leads.flatMap fun binding hbinding =>
    leads_bindingWords (Nat.succ_ne_zero depth) (hnames binding hbinding)
  exact (hkeyword.append (hname.append leads_opening)).append (hbindings.append leads_closing)

/-- A word of the grammar outside of all braces that is not the keyword of blocks. -/
theorem leads_word {word : String} (hname : Piece.isName word.toList = true)
    (hword : word ≠ "GLSLShader") :
    Leads blockRule (·.IsWithin 0) [name word [' ']]
      (fun state => state.IsBehind .identifier ∧ state.IsWithin 0) :=
  (leads_name_follows hname fun _ hstate => ⟨hstate.head, .inr hword⟩).mono
    fun _ hnext => ⟨hnext.isBehind, hnext.isWithin fun _ hstate => hstate⟩

/-- Behind such a word any name is read as one. -/
theorem leads_declaredName {declared : String} (hname : Piece.isName declared.toList = true) :
    Leads blockRule (fun state => state.IsBehind .identifier ∧ state.IsWithin 0)
      [name declared [' ']] (·.IsWithin 0) := by
  have hreads : ∀ state : ScanState, state.IsBehind .identifier ∧ state.IsWithin 0 →
      ReadsName blockRule declared state := fun state hstate =>
    ⟨hstate.1.head, .inl (ScanState.not_atDeclaration_of_previous hstate.1.previous rfl)⟩
  exact (leads_name_follows hname hreads).mono
    fun _ hnext => hnext.isWithin fun _ hstate => hstate.2

theorem leads_techniqueWords {technique : TechniqueOutline} (h : technique.IsWritable) :
    Leads blockRule (·.IsWithin 0) (techniqueWords technique) (·.IsWithin 0) := by
  have hhead := (leads_word (by decide : Piece.isName "technique".toList = true)
    (by decide)).append (leads_declaredName h.name)
  have hpasses := Leads.flatMap fun pass hpass =>
    leads_passWords Nat.one_ne_zero fun binding hbinding =>
      (h.references pass hpass binding hbinding).2
  exact (hhead.append leads_opening).append (hpasses.append leads_closing)

/-- A block can start behind the stream. -/
theorem leads_streamWords : Leads blockRule (·.IsWithin 0) streamWords (·.IsAtItem blockRule) := by
  have hhead := (leads_word (by decide : Piece.isName "attribute".toList = true)
    (by decide)).append (leads_declaredName (by decide : Piece.isName streamName.toList = true))
  have hclosing : Leads blockRule (·.IsWithin 1) [mark .closeBrace '}' []] (·.IsWithin 0) :=
    leads_mark_within rfl nofun
  have hend : Leads blockRule (·.IsWithin 0) [mark .semicolon ';' [' ']]
      (·.IsAtItem blockRule) := by
    refine (leads_mark_follows (fun _ hstate => hstate.head) rfl isBlank_gap).mono
      fun _ hnext => ?_
    have hwithin := hnext.isWithin fun _ hstate => hstate
    exact hwithin.isAtItem hnext.isBehind rfl
  exact ((hhead.append leads_opening).append hclosing).append hend

/-- The words of an effect file are legible. -/
theorem isLegible_words {outline : Outline} (h : outline.IsWritable) :
    IsLegible (some blockRule) .start (words outline) := by
  have hblocks : Leads blockRule (·.IsAtItem blockRule)
      (outline.blocks.flatMap fun entry => block "GLSLShader" (some entry.1) entry.2)
      (·.IsWithin 0) := by
    refine Leads.mono (.flatMap fun entry hentry => ?_) fun state hstate => ?_
    · obtain ⟨hname, hcode⟩ := h.blocks entry hentry
      exact leads_block (by decide) (by rintro _ ⟨⟩; exact hname) hcode
    · have hdeclaration := hstate.declaration
      simp only [ScanState.atDeclaration, Bool.and_eq_true, beq_iff_eq] at hdeclaration
      exact ⟨hstate.head, hdeclaration.1⟩
  have htechniques := Leads.flatMap fun technique htechnique =>
    leads_techniqueWords (h.writable technique htechnique)
  have hwords := leads_streamWords.append (hblocks.append htechniques)
  rw [← List.append_nil (words outline)]
  exact hwords .start [] ⟨rfl, rfl⟩ fun next hnext => .finish (by simp [hnext.head])

end Legibility

/-! ### Include lines -/

theorem hasOrdinaryCode_referenceWords (references : List String) :
    HasOrdinaryCode (referenceWords references) := by
  induction references with
  | nil => exact hasOrdinaryCode_nil
  | cons first others ih =>
    match others with
    | [] => simp [referenceWords, name]
    | second :: others => simpa [referenceWords, name, mark] using ih

/-- An effect file whose code has no include line has none. -/
theorem isOrdinary_text {outline : Outline} (h : outline.IsWritable)
    (hordinary : ∀ block ∈ outline.blocks, Include.IsOrdinary block.2.toList) :
    Include.IsOrdinary (text outline).toList := by
  have hcode : HasOrdinaryCode (words outline) := by
    simpa [words, streamWords, techniqueWords, passWords, bindingWords, interfaceWords, block,
      name, mark, body, hasOrdinaryCode_referenceWords] using hordinary
  rw [text, String.toList_ofList]
  exact (isLegible_words h).isOrdinary hcode

/-! ### Reading -/

section Reading

variable {tokens : List Token}

theorem exists_references_of_spelled {references : List String} (hsome : references ≠ [])
    (h : tokens.map Token.spelled = (referenceWords references).map spelled) :
    ∃ values, CommaSeparated IsReference tokens values ∧
      values.map BlockReference.name = references := by
  induction references generalizing tokens with
  | nil => exact absurd rfl hsome
  | cons first others ih =>
    match others with
    | [] =>
      obtain ⟨name, _, rfl, hname, h⟩ := exists_name_of_spelled h
      obtain rfl := List.map_eq_nil_iff.mp h
      obtain ⟨hkind, hlexeme⟩ := isKeyword_iff.mp hname
      have hitems : CommaSeparated IsReference ([name] ++ []) [⟨name.lexeme, name.position⟩] :=
        .items (.name hkind) .nil
      exact ⟨_, hitems, congrArg (fun first => [first]) hlexeme⟩
    | second :: others =>
      obtain ⟨name, _, rfl, hname, h⟩ := exists_name_of_spelled h
      obtain ⟨comma, items, rfl, hcomma, h⟩ := exists_mark_of_spelled h
      obtain ⟨values, hitems, hvalues⟩ := ih nofun h
      obtain ⟨hkind, hlexeme⟩ := isKeyword_iff.mp hname
      have hitems : CommaSeparated IsReference ([name] ++ (comma :: items))
          (⟨name.lexeme, name.position⟩ :: values) := by
        obtain ⟨hsecond, hmore⟩ := hitems
        exact .items (.name hkind) (.cons (.mark hcomma hsecond) hmore)
      exact ⟨_, hitems, congrArg₂ List.cons hlexeme hvalues⟩

/-- The streams of a stage behind their opening bracket. -/
theorem exists_interface_of_spelled {opening : Token} (hopening : opening.kind = .openParen)
    (h : tokens.map Token.spelled = interfaceWords.map spelled) :
    ∃ interface, IsInterface (opening :: tokens) interface ∧
      interface.input.IsPlain streamName ∧ interface.output.IsPlain streamName := by
  obtain ⟨inWord, _, rfl, hin, h⟩ := exists_name_of_spelled h
  obtain ⟨input, _, rfl, hinput, h⟩ := exists_name_of_spelled h
  obtain ⟨comma, _, rfl, hcomma, h⟩ := exists_mark_of_spelled h
  obtain ⟨outWord, _, rfl, hout, h⟩ := exists_name_of_spelled h
  obtain ⟨output, _, rfl, houtput, h⟩ := exists_name_of_spelled h
  obtain ⟨closing, _, rfl, hclosing, h⟩ := exists_mark_of_spelled h
  obtain rfl := List.map_eq_nil_iff.mp h
  obtain ⟨hinputKind, hinputName⟩ := isKeyword_iff.mp hinput
  obtain ⟨houtputKind, houtputName⟩ := isKeyword_iff.mp houtput
  have hfirst : IsArgument .input [inWord, input] ⟨.input, input.lexeme, none, input.position⟩ :=
    .argument hin hinputKind .absent
  have hsecond : IsArgument .output [outWord, output]
      ⟨.output, output.lexeme, none, output.position⟩ :=
    .argument hout houtputKind .absent
  exact ⟨_, .interface hopening hfirst hcomma hsecond hclosing, ⟨hinputName, rfl⟩,
    ⟨houtputName, rfl⟩⟩

theorem exists_binding_of_spelled {binding : Stage × List String} (hsome : binding.2 ≠ [])
    (h : tokens.map Token.spelled = (bindingWords binding).map spelled) :
    ∃ value, (IsBinding tokens value ∧ value.2.UsesOnly streamName) ∧
      (value.1, value.2.blocks.map BlockReference.name) = binding := by
  obtain ⟨word, _, rfl, hword, h⟩ := exists_name_of_spelled h
  obtain ⟨opening, _, rfl, hopening, h⟩ := exists_mark_of_spelled h
  obtain ⟨streams, _, rfl, hstreams, h⟩ := exists_append_of_spelled h
  obtain ⟨equal, _, rfl, hequal, h⟩ := exists_mark_of_spelled h
  obtain ⟨brace, _, rfl, hbrace, h⟩ := exists_mark_of_spelled h
  obtain ⟨items, _, rfl, hitems, h⟩ := exists_append_of_spelled h
  obtain ⟨closing, _, rfl, hclosing, h⟩ := exists_mark_of_spelled h
  obtain ⟨semicolon, _, rfl, hsemicolon, h⟩ := exists_mark_of_spelled h
  obtain rfl := List.map_eq_nil_iff.mp h
  obtain ⟨interface, hinterface, hplain⟩ := exists_interface_of_spelled hopening hstreams
  obtain ⟨references, hreferences, hnames⟩ := exists_references_of_spelled hsome hitems
  obtain ⟨hkind, hlexeme⟩ := isKeyword_iff.mp hword
  have hslot : Stage.ofEffectKeyword? word.lexeme = some binding.1 :=
    hlexeme ▸ Stage.ofEffectKeyword?_effectKeyword _
  have hbinding := IsBinding.binding hkind hslot hinterface hequal
    (.several hbrace hreferences hclosing) hsemicolon
  refine ⟨_, ⟨by simpa using hbinding, ?_⟩, ?_⟩
  · rintro _ ⟨⟩
    exact hplain
  · rw [hnames]

theorem exists_pass_of_spelled {pass : List (Stage × List String)}
    (hsome : ∀ binding ∈ pass, binding.2 ≠ [])
    (h : tokens.map Token.spelled = (passWords pass).map spelled) :
    ∃ value, (IsPass tokens value ∧
      ∀ binding ∈ value.stages.values, binding.UsesOnly streamName) ∧ value.outline = pass := by
  obtain ⟨keyword, _, rfl, hkeyword, h⟩ := exists_name_of_spelled h
  obtain ⟨name, _, rfl, hname, h⟩ := exists_name_of_spelled h
  obtain ⟨opening, _, rfl, hopening, h⟩ := exists_mark_of_spelled h
  obtain ⟨inner, _, rfl, hinner, h⟩ := exists_append_of_spelled h
  obtain ⟨closing, _, rfl, hclosing, h⟩ := exists_mark_of_spelled h
  obtain rfl := List.map_eq_nil_iff.mp h
  obtain ⟨bindings, hbindings, hviews⟩ := exists_many_of_spelled
    (fun binding hbinding _ => exists_binding_of_spelled (hsome binding hbinding)) hinner
  obtain ⟨hbindings, hplain⟩ := many_and_iff.mp hbindings
  have hkind := (isKeyword_iff.mp hname).1
  refine ⟨_, ⟨.pass hkeyword hkind .absent hopening hbindings hclosing, ?_⟩, hviews⟩
  intro binding hbinding
  obtain ⟨entry, hentry, rfl⟩ := List.mem_map.mp hbinding
  exact hplain entry hentry

theorem exists_technique_of_spelled {technique : TechniqueOutline}
    (hwritable : technique.IsWritable)
    (h : tokens.map Token.spelled = (techniqueWords technique).map spelled) :
    ∃ value, (IsTechnique tokens value ∧ value.UsesOnly streamName) ∧
      value.outline = technique := by
  obtain ⟨keyword, _, rfl, hkeyword, h⟩ := exists_name_of_spelled h
  obtain ⟨name, _, rfl, hname, h⟩ := exists_name_of_spelled h
  obtain ⟨opening, _, rfl, hopening, h⟩ := exists_mark_of_spelled h
  obtain ⟨inner, _, rfl, hinner, h⟩ := exists_append_of_spelled h
  obtain ⟨closing, _, rfl, hclosing, h⟩ := exists_mark_of_spelled h
  obtain rfl := List.map_eq_nil_iff.mp h
  obtain ⟨passes, hpasses, hviews⟩ := exists_many_of_spelled (fun pass hpass _ =>
    exists_pass_of_spelled fun binding hbinding =>
      (hwritable.references pass hpass binding hbinding).1) hinner
  obtain ⟨hpasses, hplain⟩ := many_and_iff.mp hpasses
  obtain ⟨hkind, hlexeme⟩ := isKeyword_iff.mp hname
  have hsome : passes ≠ [] := by
    rintro rfl
    exact hwritable.passes hviews.symm
  refine ⟨_, ⟨.technique hkeyword hkind .absent hopening hpasses hsome hclosing, hplain⟩, ?_⟩
  rw [Technique.outline, hviews, hlexeme]

theorem exists_stream_of_spelled (h : tokens.map Token.spelled = streamWords.map spelled) :
    ∃ stream, IsStream tokens stream ∧ stream.name = streamName ∧ stream.fields = [] := by
  obtain ⟨keyword, _, rfl, hkeyword, h⟩ := exists_name_of_spelled h
  obtain ⟨name, _, rfl, hname, h⟩ := exists_name_of_spelled h
  obtain ⟨opening, _, rfl, hopening, h⟩ := exists_mark_of_spelled h
  obtain ⟨closing, _, rfl, hclosing, h⟩ := exists_mark_of_spelled h
  obtain ⟨semicolon, _, rfl, hsemicolon, h⟩ := exists_mark_of_spelled h
  obtain rfl := List.map_eq_nil_iff.mp h
  obtain ⟨hkind, hlexeme⟩ := isKeyword_iff.mp hname
  exact ⟨_, .stream hkeyword hkind hopening .nil hclosing hsemicolon, hlexeme, rfl⟩

theorem exists_block_of_spelled {entry : String × String}
    (h : tokens.map Token.spelled = (block "GLSLShader" (some entry.1) entry.2).map spelled) :
    ∃ value : CodeBlock, IsBlock tokens value ∧ (value.name, value.body) = entry := by
  obtain ⟨keyword, _, rfl, hkeyword, h⟩ := exists_name_of_spelled h
  obtain ⟨name, _, rfl, hname, h⟩ := exists_name_of_spelled h
  obtain ⟨opening, text, _, rfl, hopening, hbody, hcode⟩ := exists_body_of_spelled h
  obtain ⟨hkind, hlexeme⟩ := isKeyword_iff.mp hname
  refine ⟨_, .block hkeyword hkind hopening hbody, ?_⟩
  rw [CodeBlock.name_ofBody, hlexeme]
  exact congrArg (entry.1, ·) hcode

end Reading

/-! ### Whole files -/

section Whole

variable {outline : Outline} {tokens : List Token} {stream : AttributeStream}
  {named : List CodeBlock} {techniques : List Technique}

/-- A stream, code blocks and techniques in the order in which they are written. -/
def writtenItems (stream : AttributeStream) (named : List CodeBlock)
    (techniques : List Technique) : List Item :=
  .stream stream :: (named.map .block ++ techniques.map .technique)

theorem filterMap_stream?_writtenItems :
    (writtenItems stream named techniques).filterMap Item.stream? = [stream] := by
  simp [writtenItems, List.filterMap_map, Function.comp_def, Item.stream?]

theorem filterMap_block?_writtenItems :
    (writtenItems stream named techniques).filterMap Item.block? = named := by
  simp [writtenItems, List.filterMap_cons, List.filterMap_map, Function.comp_def, Item.block?]

theorem filterMap_technique?_writtenItems :
    (writtenItems stream named techniques).filterMap Item.technique? = techniques := by
  simp [writtenItems, List.filterMap_cons, List.filterMap_map, Function.comp_def, Item.technique?]

theorem filterMap_uniform?_writtenItems :
    (writtenItems stream named techniques).filterMap Item.uniform? = [] := by
  simp [writtenItems, List.filterMap_cons, List.filterMap_map, Function.comp_def, Item.uniform?]

/-- Whether a stream, code blocks and techniques are those that are written for an outline. -/
structure AreWrittenFor (outline : Outline) (stream : AttributeStream) (named : List CodeBlock)
    (techniques : List Technique) : Prop where
  /-- The stream has the name that all stages use. -/
  name : stream.name = streamName
  /-- The stream has no fields. -/
  fields : stream.fields = []
  /-- The blocks have the names and the code of the outline. -/
  blocks : named.map (fun block => (block.name, block.body)) = outline.blocks
  /-- The stages name no other stream. -/
  usesOnly : ∀ technique ∈ techniques, technique.UsesOnly streamName
  /-- The techniques are those of the outline. -/
  outlines : techniques.map Technique.outline = outline.techniques

/-- Tokens that are spelled like the words of an outline are a file of its blocks and techniques,
with the stream before them. -/
theorem exists_isFile_of_spelled (h : outline.IsWritable)
    (htokens : tokens.map Token.spelled = (words outline).map spelled ++ [(.endOfFile, "")]) :
    ∃ stream named techniques, IsFile tokens (writtenItems stream named techniques) ∧
      AreWrittenFor outline stream named techniques := by
  obtain ⟨written, _, rfl, hwritten, hends⟩ := List.map_eq_append_iff.mp htokens
  obtain ⟨last, _, rfl, hlast, hnothing⟩ := List.map_eq_cons_iff.mp hends
  obtain rfl := List.map_eq_nil_iff.mp hnothing
  obtain ⟨streamTokens, items, rfl, hstream, hitems⟩ := exists_append_of_spelled hwritten
  obtain ⟨blockTokens, techniqueTokens, rfl, hblocks, htechniques⟩ :=
    exists_append_of_spelled hitems
  obtain ⟨stream, hstream, hname, hfields⟩ := exists_stream_of_spelled hstream
  obtain ⟨named, hnamed, hnamedView⟩ :=
    exists_many_of_spelled (fun entry _ _ => exists_block_of_spelled) hblocks
  obtain ⟨techniques, htechniques, htechniqueView⟩ := exists_many_of_spelled
    (fun technique htechnique _ => exists_technique_of_spelled (h.writable technique htechnique))
    htechniques
  obtain ⟨htechniques, husesOnly⟩ := many_and_iff.mp htechniques
  have hblockItems : Many IsItem blockTokens (named.map .block) :=
    (hnamed.mono fun _ _ => IsItem.block).map
  have htechniqueItems : Many IsItem techniqueTokens (techniques.map .technique) :=
    (htechniques.mono fun _ _ => IsItem.technique).map
  have hitems : Many IsItem (streamTokens ++ (blockTokens ++ techniqueTokens))
      (writtenItems stream named techniques) :=
    .cons (.stream hstream) (hblockItems.append htechniqueItems)
  have hend : last.kind = .endOfFile := congrArg Prod.fst hlast
  exact ⟨stream, named, techniques, .file hitems hend,
    ⟨hname, hfields, hnamedView, husesOnly, htechniqueView⟩⟩

/-- What is written for a writable outline can stand in one file. -/
theorem AreWrittenFor.consistent (hwritten : AreWrittenFor outline stream named techniques)
    (h : outline.IsWritable) : Consistent (writtenItems stream named techniques) where
  uniforms := by simp [filterMap_uniform?_writtenItems]
  resolves := by simp [filterMap_uniform?_writtenItems]
  streams := by simp [filterMap_stream?_writtenItems]
  blocks := by
    have hnames := h.blockNames
    rw [← hwritten.blocks, List.map_map] at hnames
    rw [filterMap_block?_writtenItems]
    exact hnames
  techniques := by
    have hnames := h.techniqueNames
    rw [← hwritten.outlines, List.map_map] at hnames
    rw [filterMap_technique?_writtenItems]
    exact hnames
  complete := by
    rw [filterMap_technique?_writtenItems]
    intro technique htechnique
    have houtline : technique.outline ∈ outline.techniques :=
      hwritten.outlines ▸ List.mem_map_of_mem htechnique
    exact Description.Pass.isComplete_of_isWritable (h.writable _ houtline)

/-- A writable outline that is written as an effect file is read as what is written for it. -/
theorem exists_declares_of_isWritable (path : SourcePath) (h : outline.IsWritable) :
    ∃ stream named techniques declared, AreWrittenFor outline stream named techniques ∧
      (expectFile path).outcomeFrom
        (.ofTokens path (Token.scan (some blockRule) path (text outline))) = .ok declared ∧
        Declares path (writtenItems stream named techniques) declared := by
  obtain ⟨stream, named, techniques, hfile, hwritten⟩ :=
    exists_isFile_of_spelled h (map_spelled_scan (isLegible_words h) path)
  have hsome : (writtenItems stream named techniques).filterMap Item.technique? ≠ [] := by
    rw [filterMap_technique?_writtenItems]
    rintro rfl
    exact h.techniques hwritten.outlines.symm
  obtain ⟨declared, hdeclared, hdeclares⟩ :=
    exists_declares_of_isFile hfile (hwritten.consistent h) hsome
  exact ⟨stream, named, techniques, declared, hwritten, hdeclared, hdeclares⟩

end Whole

end Effect

end ShaderAssembly
