import ShaderAssembly.Proofs.BodyRequests
import ShaderAssembly.Proofs.DeclaredEffects
import ShaderAssembly.Proofs.DescribedShaders

/-!
# Blocks on which reading and parsing agree

Reading a text takes the inside of a code block as one token, and decides where a block starts by
the tokens before it. A parser decides that by the grammar. Both agree: all that a parser has read
before a block leaves the depth of braces as it was and ends where a declaration can start, so that
behind the head of a block its body stands, or the error of a block that is not closed. So a parser
never misses a body, and a shader that is read has as many blocks as its text has bodies.
-/

namespace ShaderAssembly

open ShaderAssembly.Grammar ShaderAssembly.Parser

/-! ### Heads of blocks -/

/-- `keyword [ident] {` -/
inductive Grammar.IsBlockHead (word : String) : Phrase (Option Token)
  | head {keyword opening : Token} {tokens : List Token} {name? : Option Token}
      (hkeyword : keyword.isKeyword word = true)
      (hname : Optional (Single .identifier) tokens name?) (hopening : opening.kind = .openBrace) :
      IsBlockHead word (keyword :: (tokens ++ [opening])) name?

namespace ScanState

variable {rule : BlockRule} {state : ScanState} {tokens head : List Token} {name? : Option Token}

/-- After some tokens the one before the next is the last of them. -/
theorem previous_after {rule : Option BlockRule} {last : Token}
    (h : tokens.getLast? = some last) : (state.after rule tokens).previous = some last.kind := by
  obtain ⟨before, rfl⟩ := List.getLast?_eq_some_iff.mp h
  rw [after_append]
  rfl

/-- Where braces are closed, a declaration can start after a brace or a semicolon. -/
theorem atDeclaration_of_closed (htokens : IsClosed tokens) (hdepth : state.depth = rule.depth) :
    (state.after (some rule) tokens).atDeclaration rule = true := by
  obtain ⟨last, hlast, hkind⟩ := htokens.ends
  unfold atDeclaration
  rw [htokens.balanced, previous_after hlast, hdepth]
  rcases hkind with hkind | hkind <;> simp [hkind]

/-- Where a declaration can start, the head of a block is read as one. -/
theorem head_after_blockHead (h : state.atDeclaration rule = true)
    (hhead : IsBlockHead rule.keyword head name?) :
    (state.after (some rule) head).head = .brace := by
  obtain ⟨hkeyword, hname, hopening⟩ := hhead
  obtain ⟨hkind, hlexeme⟩ := isKeyword_iff.mp hkeyword
  have hfirst := head_taking_keyword h (String.ofList_toList.trans hlexeme)
  cases hname with
  | absent =>
    simp only [after, List.nil_append, List.foldl_cons, List.foldl_nil, hkind, hopening]
    exact head_taking_brace (.inl hfirst)
  | present hname =>
    obtain ⟨hname⟩ := hname
    simp only [after, List.cons_append, List.nil_append, List.foldl_cons, List.foldl_nil, hkind,
      hname, hopening]
    exact head_taking_brace (.inr (head_taking_name (not_atDeclaration_of_previous rfl rfl) hfirst))

end ScanState

/-- Whether the body of a block and its closing brace stand next, or the error of a block that is
not closed. -/
def TokenStream.HasBody (stream : TokenStream) : Prop :=
  (∃ body closing rest, stream.pending = body :: closing :: rest ∧ body.kind = .body ∧
    closing.kind = .closeBrace) ∨ stream.next.kind = .error .unterminatedBlock

/-- Behind the head of a block that starts where a declaration can start, its body stands. -/
theorem Token.IsStreamOf.hasBody {rule : BlockRule} {tokens before head rest : List Token}
    {last : Token} {name? : Option Token}
    (hstream : IsStreamOf tokens ⟨before ++ (head ++ rest), last⟩)
    (hemits : ScanState.Emits (some rule) .start tokens)
    (hbefore : (ScanState.start.after (some rule) before).atDeclaration rule = true)
    (hhead : IsBlockHead rule.keyword head name?) : TokenStream.HasBody ⟨rest, last⟩ := by
  have hbrace := ScanState.head_after_blockHead hbefore hhead
  rw [← ScanState.after_append] at hbrace
  cases hstream with
  | whole hlast hpending htokens =>
    rw [htokens, ← List.append_assoc, List.append_assoc] at hemits
    rcases (hemits.drop (by simp)).of_brace hbrace with
      ⟨body, closing, more, hmore, hbody, hclosing⟩ | ⟨fault, hfault, hkind⟩
    · -- The end of the file is neither the body nor its closing brace.
      match rest with
      | [] => simp at hmore
      | [_] =>
        obtain ⟨-, rfl, -⟩ := by simpa using hmore
        simp [hclosing] at hlast
      | _ :: _ :: _ =>
        obtain ⟨rfl, rfl, -⟩ := by simpa using hmore
        exact .inl ⟨_, _, _, rfl, hbody, hclosing⟩
    · match rest with
      | [] =>
        obtain rfl := by simpa using hfault
        simp [hkind] at hlast
      | _ :: _ => simp at hfault
  | @early inner fault _ issue _ _ hfault htokens =>
    rw [← List.append_assoc] at hemits
    have hrest : rest ≠ [] := by
      -- The tokens of the text do not end with the opening brace.
      rintro rfl
      obtain ⟨-, -, hopening⟩ := hhead
      obtain rfl : _ = fault := by
        simpa [List.getLast?_cons] using congrArg List.getLast? htokens
      simp [hopening] at hfault
    rcases (hemits.drop hrest).of_brace hbrace with
      ⟨body, closing, more, rfl, hbody, hclosing⟩ | ⟨fault, rfl, hkind⟩
    · exact .inl ⟨_, _, _, rfl, hbody, hclosing⟩
    · exact .inr hkind

/-! ### Parsers of blocks -/

namespace Parser

variable {α β : Type} {stream : TokenStream} {expected : String}

/-- Where the body of a block stands, its parser does not miss it. -/
theorem asksNoBodyOn_expectBody (h : stream.HasBody) :
    AsksNoBodyOn stream (expectBody expected) := by
  have hbody : AsksNoBodyOn stream (expect .body expected) := by
    refine (asksNoBody_sees .body stream).bind ?_
    rintro _ _ ⟨⟨⟩, rfl⟩
    split
    · exact asksNoBody_take stream
    · rename_i hsees
      have hfault : stream.next.kind = .error .unterminatedBlock := by
        rcases h with ⟨body, closing, rest, hpending, hbody, -⟩ | hfault
        · simp [TokenStream.next, hpending, hbody] at hsees
        · exact hfault
      refine (asksNoBody_peek stream).bind ?_
      rintro _ _ ⟨⟨⟩, rfl⟩
      rw [hfault]
      exact AsksNoBody.throw rfl stream
  exact hbody.bind fun body after _ => ((asksNoBody_expectMark _).bind fun _ => .pure _) after

/-- A parser that is only tried where a keyword stands next. -/
theorem AsksNoBodyOn.orElse {word : String} {parser other : Parser α}
    (hparser : stream.next.isKeyword word = true → AsksNoBodyOn stream parser)
    (hother : AsksNoBodyOn stream other) :
    AsksNoBodyOn stream (do if ← seesKeyword word then parser else other) := by
  refine (asksNoBody_seesKeyword word stream).bind ?_
  rintro _ _ ⟨⟨⟩, rfl⟩
  split
  · exact hparser ‹_›
  · exact hother

/-- What a repetition has taken when it comes to a stream are items. -/
theorem Between.exists_many {stop : TokenKind} {step : β → Parser β} {item : Phrase α}
    {add : β → α → Option β} {follow : TokenKind → Prop} {value result : β} {last : Token}
    {tokens : List Token} {after : TokenStream}
    (h : Between stop step value ⟨tokens, last⟩ result after) (hlast : last.kind = .endOfFile)
    (hstep : ∀ value, Recognizes (step value)
      (fun tokens next => ∃ entry, item tokens entry ∧ add value entry = some next) follow) :
    ∃ taken rest items, tokens = taken ++ rest ∧ after = ⟨rest, last⟩ ∧ Many item taken items := by
  induction h with
  | start => exact ⟨[], tokens, [], rfl, rfl, .nil⟩
  | step hbefore hstop hreads ih =>
    obtain ⟨taken, _, items, rfl, rfl, hitems⟩ := ih
    obtain ⟨more, rest, rfl, rfl, entry, hentry, -⟩ := (hstep _).sound hlast _ _ hreads
    exact ⟨taken ++ more, rest, items ++ [entry], (List.append_assoc ..).symm, rfl,
      hitems.append (.single hentry)⟩

end Parser

/-- Whether reading a text and parsing its tokens agree about the code blocks in it, where a parser
comes to some streams behind the heads of blocks and asks for bodies with some words. -/
structure Token.InStep (tokens : List Token) (isBehindHead : TokenStream → Prop)
    (expected : String) (outcome : Except Error Shader) : Prop where
  /-- Behind the head of a block its body and the closing brace stand, or the error of a block that
  is not closed. -/
  hasBody : ∀ stream, isBehindHead stream → stream.HasBody
  /-- No body is missing. -/
  noneMissing : ∀ found position, outcome ≠ .error (.unexpected expected found position)
  /-- A shader that is read has a block for each body in the text. -/
  counted : ∀ shader, outcome = .ok shader → countBodies tokens = shader.allBlocks.length

namespace Description

variable {path : SourcePath} {tokens : List Token} {draft : Draft} {stream : TokenStream}

/-- Reads the head of a block: its keyword, its name if it has one, and the opening brace. -/
def expectBlockHead : Parser (Option Token) := do
  let _ ← take
  let name? ← takeIf .identifier
  expectMark .openBrace
  return name?

/-- Whether the parser of descriptions, inside the braces of the shader and behind its first items,
comes to a stream when it has read the head of a block. -/
inductive IsBehindHead (path : SourcePath) (tokens : List Token) : TokenStream → Prop
  | intro {inside before after : TokenStream} {draft : Draft} {name? : Option Token}
      (hinside : Reads (do let _ ← expectKeyword "Shader"; expectMark .openBrace)
        (.ofTokens path tokens) () inside)
      (hbefore : Between .closeBrace readItem ⟨.empty path, false⟩ inside draft before)
      (hkeyword : before.next.isKeyword "GLSL" = true)
      (hhead : Reads expectBlockHead before name? after) : IsBehindHead path tokens after

theorem ensures_expectBlockHead {last : Token} (hlast : last.kind = .endOfFile)
    (hkeyword : (TokenStream.next ⟨tokens, last⟩).isKeyword "GLSL" = true) :
    Ensures expectBlockHead ⟨tokens, last⟩ fun name? after => ∃ head rest,
      tokens = head ++ rest ∧ after = ⟨rest, last⟩ ∧ IsBlockHead "GLSL" head name? := by
  obtain ⟨rest, hrest⟩ := exists_cons_of_next hlast (kind_ne_of_isKeyword hkeyword)
  rw [hrest]
  refine ensures_take_cons ?_
  refine (tries_takeIf .identifier).ensures (by simp [hlast]) ?_ fun _ => ?_
  · rintro name _ rfl hname
    refine ensures_mark .openBrace nofun hlast ?_
    rintro opening rest rfl hopening
    exact ensures_pure ⟨_, rest, by simp, rfl, .head hkeyword (.present (.token hname)) hopening⟩
  · refine ensures_mark .openBrace nofun hlast ?_
    rintro opening rest rfl hopening
    exact ensures_pure ⟨_, rest, by simp, rfl, .head hkeyword .absent hopening⟩

/-- Inside the braces of the shader a declaration can start behind any items. -/
theorem atDeclaration_of_items {keyword opening : Token} {items : List Item}
    (hkeyword : keyword.isKeyword "Shader" = true) (hopening : opening.kind = .openBrace)
    (hitems : Many IsItem tokens items) :
    (ScanState.start.after (some blockRule) (keyword :: opening :: tokens)).atDeclaration
      blockRule = true := by
  have hkind := (isKeyword_iff.mp hkeyword).1
  rw [show keyword :: opening :: tokens = [keyword, opening] ++ tokens from rfl,
    ScanState.after_append]
  rcases hitems.isClosed IsItem.isClosed with rfl | hclosed
  · simp [ScanState.after, ScanState.taking, ScanState.atDeclaration, hkind, hopening,
      ScanState.start, blockRule]
  · refine ScanState.atDeclaration_of_closed hclosed ?_
    simp [ScanState.after, ScanState.taking, hkind, hopening, ScanState.start, blockRule]

theorem hasBody_of_isBehindHead (path : SourcePath) (text : String)
    (h : IsBehindHead path (Token.scan (some blockRule) path text) stream) : stream.HasBody := by
  have hemits := ScanState.emits_scan (some blockRule) path text
  have hstream := ScanState.isStreamOf_scan (some blockRule) path text
  obtain ⟨hinside, hbetween, hkeyword, hhead⟩ := h
  generalize TokenStream.ofTokens path (Token.scan (some blockRule) path text) = whole at *
  obtain ⟨pending, last⟩ := whole
  have hlast : last.kind = .endOfFile := by cases hstream <;> assumption
  obtain ⟨shader, _, hshader, hopening⟩ := reads_bind.mp hinside
  obtain ⟨_, _, rfl, rfl, rfl, hword⟩ :=
    (recognizes_expectKeyword "Shader").sound hlast _ _ hshader
  obtain ⟨_, _, rfl, rfl, opening, rfl, hbrace⟩ :=
    (recognizes_expectMark .openBrace nofun).sound hlast _ _ hopening
  obtain ⟨taken, _, items, rfl, rfl, hitems⟩ :=
    hbetween.exists_many hlast fun draft => recognizes_readItem draft
  obtain ⟨head, rest, rfl, rfl, hphrase⟩ := ensures_expectBlockHead hlast hkeyword _ _ hhead
  have hsplit : Token.IsStreamOf (Token.scan (some blockRule) path text)
      ⟨(shader :: opening :: taken) ++ (head ++ rest), last⟩ := hstream
  exact hsplit.hasBody hemits (atDeclaration_of_items hword hbrace hitems) hphrase

/-- Where the body of each block stands behind its head, a block does not miss it. -/
theorem asksNoBodyOn_readBlock
    (h : ∀ name? after, Reads expectBlockHead stream name? after → after.HasBody) :
    AsksNoBodyOn stream (readBlock draft) := by
  refine (asksNoBody_take _).bind fun keyword _ hkeyword => ?_
  refine (asksNoBody_takeIf _ _).bind fun name? _ hname => ?_
  refine (asksNoBody_expectMark _ _).bind fun _ after hopening => ?_
  have hhead : Reads expectBlockHead stream name? after := reads_bind.mpr ⟨_, _, hkeyword,
    reads_bind.mpr ⟨_, _, hname, reads_bind.mpr ⟨_, _, hopening, reads_pure _ _⟩⟩⟩
  refine (asksNoBodyOn_expectBody (h name? after hhead)).bind fun body final _ => ?_
  cases name? with
  | none =>
    refine AsksNoBody.refusing (asksNoBody_refuseDuplicate _ keyword) ?_ final
    exact (AsksNoBody.record _ _).bind fun _ => .pure _
  | some name =>
    refine AsksNoBody.refusing (asksNoBody_refuseDuplicate _ name) ?_ final
    exact (AsksNoBody.record _ _).bind fun _ => .pure _

theorem asksNoBodyOn_expectShader
    (h : ∀ stream, IsBehindHead path tokens stream → stream.HasBody) :
    AsksNoBodyOn (.ofTokens path tokens) (expectShader path) := by
  refine AsksNoBodyOn.bind (asksNoBody_expectKeyword _ rfl _) fun keyword _ hkeyword => ?_
  refine (asksNoBody_expectMark _ _).bind fun _ inside hopening => ?_
  have hinside : Reads (do let _ ← expectKeyword "Shader"; expectMark .openBrace)
      (.ofTokens path tokens) () inside := reads_bind.mpr ⟨_, _, hkeyword, hopening⟩
  have hitem : ∀ draft before, Between .closeBrace readItem ⟨.empty path, false⟩ inside draft
      before → before.next.kind ≠ .closeBrace → AsksNoBodyOn before (readItem draft) := by
    intro draft before hbefore _
    refine .orElse (fun _ => asksNoBody_readProperties draft before) ?_
    refine .orElse (fun hkeyword => ?_) ?_
    · exact asksNoBodyOn_readBlock fun name? after hhead =>
        h after ⟨hinside, hbefore, hkeyword, hhead⟩
    · exact .orElse (fun _ => asksNoBody_readTechnique draft before)
        (asksNoBody_unexpected rfl before)
  refine (AsksNoBodyOn.foldUntil hitem).bind fun draft after _ => ?_
  refine AsksNoBody.bind asksNoBody_take (fun close => ?_) after
  refine (asksNoBody_expectMark _).bind fun _ => ?_
  exact .refusing (asksNoBody_refuse close rfl) (.pure _)

/-- What is read is a description whose tokens end with the end of the file. -/
theorem exists_isDescription_of_expectShader {shader : Shader}
    (hstream : Token.IsStreamOf tokens stream)
    (h : (expectShader path).outcomeFrom stream = .ok shader) :
    ∃ items, IsDescription tokens items ∧ Consistent items ∧ Declares path items shader := by
  cases hstream with
  | whole hlast hpending htokens =>
    have hshader : (ofTokens path tokens).outcome = .ok shader := by
      rw [htokens, ofTokens, ofTokens_append hlast]
      exact h
    obtain ⟨items, hitems, hconsistent, -, hdeclares⟩ :=
      exists_isDescription_of_ofTokens ⟨_, _, htokens, hlast, hpending⟩ hshader
    exact ⟨items, hitems, hconsistent, hdeclares⟩
  | @early before fault last _ hlast hpending hfault htokens =>
    -- A description does not end with the error that ends the text early.
    obtain ⟨items, draft, hitems, -⟩ := ensures_expectShader hlast hpending shader _ ⟨h, rfl⟩
    have hend : tokens ++ [last] = before ++ [fault, last] := by simp [htokens]
    rw [hend] at hitems
    generalize htokens : before ++ [fault, last] = tokens at hitems
    obtain ⟨hkeyword, hopening, hitems, hclosing, -⟩ := hitems
    rw [← List.cons_append, ← List.cons_append] at htokens
    obtain ⟨-, hends⟩ := List.append_inj' htokens rfl
    obtain ⟨rfl, -⟩ := by simpa using hends
    simp [hclosing] at hfault

/-- A shader that items of a description make has a block for each body among their tokens. -/
theorem countBodies_eq_length {shader : Shader} {items : List Item}
    (hitems : IsDescription tokens items) (hconsistent : Consistent items)
    (hdeclares : Declares path items shader) :
    countBodies tokens = shader.allBlocks.length := by
  obtain ⟨hkeyword, hopening, hitems, hclosing, hlast⟩ := hitems
  have hshared : (items.filterMap Item.shared?).length = shader.shared?.toList.length := by
    have honce := hconsistent.shared
    rw [hdeclares.shared]
    match h : items.filterMap Item.shared? with
    | [] => rfl
    | [_] => rfl
    | _ :: _ :: _ => simp [h] at honce
  have hkind := (isKeyword_iff.mp hkeyword).1
  have hbodies := countBodies_items hitems
  rw [countBodies] at hbodies ⊢
  simp [Shader.allBlocks, OrderedMap.values, hdeclares.blocks, hkind, hopening, hclosing, hlast,
    hbodies, hshared]

/-- Reading and parsing a description agree about its blocks. -/
theorem inStep (path : SourcePath) (text : String) :
    Token.InStep (Token.scan (some blockRule) path text)
      (IsBehindHead path (Token.scan (some blockRule) path text)) "a GLSL block body"
      (parse path text).outcome where
  hasBody _ := hasBody_of_isBehindHead path text
  noneMissing found position h := by
    have hbody := asksNoBodyOn_expectShader (fun _ => hasBody_of_isBehindHead path text) _ h
    exact nomatch hbody
  counted shader h := by
    obtain ⟨items, hitems, hconsistent, hdeclares⟩ := exists_isDescription_of_expectShader
      (ScanState.isStreamOf_scan (some blockRule) path text) h
    exact countBodies_eq_length hitems hconsistent hdeclares

end Description

namespace Effect

variable {path : SourcePath} {tokens : List Token} {draft : Draft} {stream : TokenStream}

/-- Reads the head of a block: its keyword, its name and the opening brace. -/
def expectBlockHead : Parser Token := do
  let _ ← take
  let name ← expectName "a GLSLShader name"
  expectMark .openBrace
  return name

/-- Whether the parser of effect files, behind the first items, comes to a stream when it has read
the head of a block. -/
inductive IsBehindHead (path : SourcePath) (tokens : List Token) : TokenStream → Prop
  | intro {before after : TokenStream} {draft : Draft} {name : Token}
      (hbefore : Between .endOfFile readItem ⟨.empty path, .empty⟩ (.ofTokens path tokens) draft
        before)
      (hkeyword : before.next.isKeyword "GLSLShader" = true)
      (hhead : Reads expectBlockHead before name after) : IsBehindHead path tokens after

theorem ensures_expectBlockHead {last : Token} (hlast : last.kind = .endOfFile)
    (hkeyword : (TokenStream.next ⟨tokens, last⟩).isKeyword "GLSLShader" = true) :
    Ensures expectBlockHead ⟨tokens, last⟩ fun name after => ∃ head rest,
      tokens = head ++ rest ∧ after = ⟨rest, last⟩ ∧ IsBlockHead "GLSLShader" head (some name) := by
  obtain ⟨rest, hrest⟩ := exists_cons_of_next hlast (kind_ne_of_isKeyword hkeyword)
  rw [hrest]
  refine ensures_take_cons ?_
  refine (recognizes_expectName "a GLSLShader name").ensures hlast ?_
  rintro _ name _ rfl hname
  refine ensures_mark .openBrace nofun hlast ?_
  rintro opening rest rfl hopening
  exact ensures_pure ⟨_, rest, by simp, rfl, .head hkeyword (.present hname) hopening⟩

/-- A declaration can start at the start of a file and behind any items. -/
theorem atDeclaration_of_items {items : List Item} (hitems : Many IsItem tokens items) :
    (ScanState.start.after (some blockRule) tokens).atDeclaration blockRule = true := by
  rcases hitems.isClosed IsItem.isClosed with rfl | hclosed
  · rfl
  · exact ScanState.atDeclaration_of_closed hclosed rfl

theorem hasBody_of_isBehindHead (path : SourcePath) (text : String)
    (h : IsBehindHead path (Token.scan (some blockRule) path text) stream) : stream.HasBody := by
  have hemits := ScanState.emits_scan (some blockRule) path text
  have hstream := ScanState.isStreamOf_scan (some blockRule) path text
  obtain ⟨hbetween, hkeyword, hhead⟩ := h
  generalize TokenStream.ofTokens path (Token.scan (some blockRule) path text) = whole at *
  obtain ⟨pending, last⟩ := whole
  have hlast : last.kind = .endOfFile := by cases hstream <;> assumption
  obtain ⟨taken, _, items, rfl, rfl, hitems⟩ :=
    hbetween.exists_many hlast fun draft => recognizes_readItem draft
  obtain ⟨head, rest, rfl, rfl, hphrase⟩ := ensures_expectBlockHead hlast hkeyword _ _ hhead
  exact hstream.hasBody hemits (atDeclaration_of_items hitems) hphrase

/-- Where the body of each block stands behind its head, a block does not miss it. -/
theorem asksNoBodyOn_readBlock
    (h : ∀ name after, Reads expectBlockHead stream name after → after.HasBody) :
    AsksNoBodyOn stream (readBlock draft) := by
  refine (asksNoBody_take _).bind fun _ _ hkeyword => ?_
  refine AsksNoBodyOn.bind (asksNoBody_expectName rfl _) fun name _ hname => ?_
  refine (asksNoBody_expectMark _ _).bind fun _ after hopening => ?_
  have hhead : Reads expectBlockHead stream name after := reads_bind.mpr ⟨_, _, hkeyword,
    reads_bind.mpr ⟨_, _, hname, reads_bind.mpr ⟨_, _, hopening, reads_pure _ _⟩⟩⟩
  refine (asksNoBodyOn_expectBody (h name after hhead)).bind fun body final _ => ?_
  refine (show AsksNoBody _ from ?_) final
  exact .refusing (asksNoBody_refuseDuplicate _ name) (.pure _)

theorem asksNoBodyOn_expectFile
    (h : ∀ stream, IsBehindHead path tokens stream → stream.HasBody) :
    AsksNoBodyOn (.ofTokens path tokens) (expectFile path) := by
  have hitem : ∀ draft before, Between .endOfFile readItem ⟨.empty path, .empty⟩
      (.ofTokens path tokens) draft before → before.next.kind ≠ .endOfFile →
        AsksNoBodyOn before (readItem draft) := by
    intro draft before hbefore _
    refine .orElse (fun _ => asksNoBody_readUniform draft before) ?_
    refine .orElse (fun _ => asksNoBody_readStream draft before) ?_
    refine .orElse (fun hkeyword => ?_) ?_
    · exact asksNoBodyOn_readBlock fun name after hhead => h after ⟨hbefore, hkeyword, hhead⟩
    · exact .orElse (fun _ => asksNoBody_readTechnique draft before)
        (asksNoBody_unexpected rfl before)
  refine (AsksNoBodyOn.foldUntil hitem).bind fun draft after _ => ?_
  refine (show AsksNoBody _ from .refusing (asksNoBody_unexpected rfl) ?_) after
  exact (AsksNoBody.foldlM (asksNoBody_addProperty draft) _ _).bind fun _ => .pure _

/-- A shader that is read has a block for each body among its tokens. -/
theorem countBodies_of_expectFile {declared : Shader} (hstream : Token.IsStreamOf tokens stream)
    (h : (expectFile path).outcomeFrom stream = .ok declared) :
    countBodies tokens = declared.allBlocks.length := by
  obtain ⟨items, ⟨hitems, hlast⟩, -, -, hdeclares⟩ := exists_isFile_of_expectFile hstream h
  have hbodies := countBodies_items hitems
  rw [countBodies_append, hbodies]
  simp [Shader.allBlocks, OrderedMap.values, hdeclares.shared, hdeclares.blocks, countBodies, hlast]

/-- Moving positions keeps the number of blocks. -/
theorem length_allBlocks_locateShader (map : LineMap) (shader : Shader) :
    (locateShader map shader).allBlocks.length = shader.allBlocks.length := by
  simp only [Shader.allBlocks, locateShader, OrderedMap.values, OrderedMap.mapValues,
    List.length_append, List.length_map]
  cases shader.shared? <;> rfl

/-- Reading and parsing an effect file agree about its blocks. -/
theorem inStep (path : SourcePath) (source : ExpandedText) :
    Token.InStep (Token.scan (some blockRule) path source.text)
      (IsBehindHead path (Token.scan (some blockRule) path source.text)) "a GLSLShader body"
      (parse path source).outcome where
  hasBody _ := hasBody_of_isBehindHead path source.text
  noneMissing found position h := by
    rw [outcome_parse] at h
    split at h
    · cases h
    · rename_i error herror
      have hbody := asksNoBodyOn_expectFile
        (fun _ => hasBody_of_isBehindHead path source.text) error herror
      cases error <;> cases h
      exact nomatch hbody
  counted shader h := by
    obtain ⟨declared, hdeclared, rfl⟩ := parse_eq_ok.mp h
    rw [length_allBlocks_locateShader]
    exact countBodies_of_expectFile (ScanState.isStreamOf_scan _ path source.text) hdeclared

end Effect

/-- Reading a text and parsing its tokens agree about code blocks, in both dialects: behind the
head of a block its body and a closing brace stand, or the error of a block that is not closed; so
no parser misses a body, and a shader that is read has one block for each body. -/
theorem parsers_in_step_with_scan (path : SourcePath) (text : String) (map : LineMap) :
    Token.InStep (Token.scan (some Description.blockRule) path text)
        (Description.IsBehindHead path (Token.scan (some Description.blockRule) path text))
        "a GLSL block body" (Description.parse path text).outcome ∧
      Token.InStep (Token.scan (some Effect.blockRule) path text)
        (Effect.IsBehindHead path (Token.scan (some Effect.blockRule) path text))
        "a GLSLShader body" (Effect.parse path ⟨text, map⟩).outcome :=
  ⟨Description.inStep path text, Effect.inStep path ⟨text, map⟩⟩

end ShaderAssembly
