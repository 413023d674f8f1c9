import ShaderAssembly.Token.Piece

/-!
# Tokens of a text

`Token.scan` reads a whole text. A dialect may have a block keyword: after the keyword, an
optional name and an opening brace, everything up to the matching brace is one body token, and its
inside is not read. The keyword only counts where a declaration can start, which is at the rule's
brace depth and either first or right after a brace or a semicolon; elsewhere it is a name.

The stream is finite. It ends with an end-of-file token, or early with the error token of a
comment or block that the text does not close.
-/

namespace ShaderAssembly

/-- The keyword that opens code blocks and the brace depth at which it does. -/
structure BlockRule where
  /-- The keyword. -/
  keyword : String
  /-- How many braces are open around a block. -/
  depth : Nat
  deriving DecidableEq, Repr

/-- How much of `keyword [name] {` has been read. -/
inductive BlockHead where
  /-- Nothing. -/
  | none
  /-- The keyword. -/
  | keyword
  /-- The keyword and a name. -/
  | name
  /-- All of it: the body comes next. -/
  | brace
  deriving DecidableEq, Repr

/-- What reading a token depends on, besides the text that is left. -/
structure ScanState where
  /-- Where the text that is left starts. -/
  place : Place
  /-- How many braces are open. -/
  depth : Nat
  /-- The kind of the token before, if there was one. -/
  previous : Option TokenKind
  /-- How much of a block's head has been read. -/
  head : BlockHead
  deriving DecidableEq, Repr

namespace ScanState

/-- The state before the first character. -/
def start : ScanState := ⟨Place.start, 0, none, .none⟩

/-- The state with the given text passed over. -/
def passing (state : ScanState) (text : List Char) : ScanState :=
  { state with place := state.place.after text }

/-- Whether a declaration can start with the next token. -/
def atDeclaration (state : ScanState) (rule : BlockRule) : Bool :=
  state.depth == rule.depth &&
    match state.previous with
    | none => true
    | some kind => kind == .openBrace || kind == .closeBrace || kind == .semicolon

/-- How much of a block's head has been read after one more token. -/
def headAfter (state : ScanState) (rule : BlockRule) (kind : TokenKind) (lexeme : List Char) :
    BlockHead :=
  match kind with
  | .identifier =>
    if state.atDeclaration rule && String.ofList lexeme == rule.keyword then .keyword
    else if state.head = .keyword then .name
    else .none
  | .openBrace => if state.head = .keyword ∨ state.head = .name then .brace else .none
  | _ => .none

/-- The state after a token; the place is moved by `passing`. -/
def taking (state : ScanState) (rule : Option BlockRule) (kind : TokenKind)
    (lexeme : List Char) : ScanState :=
  { place := state.place
    depth :=
      match kind with
      | .openBrace => state.depth + 1
      | .closeBrace => state.depth - 1
      | _ => state.depth
    previous := some kind
    head :=
      match rule with
      | none => .none
      | some rule => state.headAfter rule kind lexeme }

end ScanState

/-- Reads a block's body with `inner` braces open inside it: the body, and what follows the brace
that closes it. -/
def readBody? : (inner : Nat) → List Char → Option (List Char × List Char)
  | _, [] => none
  | inner, c :: rest =>
    let extend := fun (body : List Char × List Char) => (c :: body.1, body.2)
    if c = '{' then (readBody? (inner + 1) rest).map extend
    else if c = '}' then
      match inner with
      | 0 => some ([], rest)
      | inner + 1 => (readBody? inner rest).map extend
    else (readBody? inner rest).map extend

/-- A body, its closing brace and what follows are the text. -/
theorem readBody?_append {inner : Nat} {text body rest : List Char}
    (h : readBody? inner text = some (body, rest)) : body ++ '}' :: rest = text := by
  induction text generalizing inner body with
  | nil => simp [readBody?] at h
  | cons c more ih =>
    have extended : ∀ {n : Nat}, (readBody? n more).map (fun b => (c :: b.1, b.2)) =
        some (body, rest) → body ++ '}' :: rest = c :: more := by
      intro n hn
      obtain ⟨⟨body', rest'⟩, hbody, heq⟩ := Option.map_eq_some_iff.1 hn
      simp only [Prod.mk.injEq] at heq
      obtain ⟨rfl, rfl⟩ := heq
      simp [ih hbody]
    unfold readBody? at h
    simp only at h
    split at h
    · exact extended h
    · split at h
      · rename_i hc
        split at h
        · simp only [Option.some.injEq, Prod.mk.injEq] at h
          simp [← h.1, h.2, hc]
        · exact extended h
      · exact extended h

namespace Token

/-- Reads the tokens of a text in a given state. -/
def scanFrom (rule : Option BlockRule) (file : SourcePath) (state : ScanState)
    (text : List Char) : List Token :=
  let position := Position.ofPlace file state.place
  if state.head = .brace then
    match _hbody : readBody? 0 text with
    | none => [⟨.error .unterminatedBlock, String.ofList text, position⟩]
    | some (body, rest) =>
      let closing := state.passing body
      ⟨.body, String.ofList body, position⟩ ::
        ⟨.closeBrace, r"}", Position.ofPlace file closing.place⟩ ::
          scanFrom rule file ((closing.taking rule .closeBrace ['}']).passing ['}']) rest
  else
    match text with
    | [] => [⟨.endOfFile, "", position⟩]
    | c :: rest =>
      let piece := (Piece.read c rest).1
      let after := (Piece.read c rest).2
      match piece.content with
      | none => scanFrom rule file (state.passing piece.spelling) after
      | some (kind, lexeme) =>
        let token : Token := ⟨kind, String.ofList lexeme, position⟩
        if kind = .error .unterminatedComment then [token]
        else
          token :: scanFrom rule file ((state.taking rule kind lexeme).passing piece.spelling) after
termination_by text.length
decreasing_by
  · have := congrArg List.length (readBody?_append _hbody)
    simp only [List.length_append, List.length_cons] at this
    omega
  · exact Piece.length_read_lt c rest
  · exact Piece.length_read_lt c rest

/-- Reads all tokens of a text. -/
def scan (rule : Option BlockRule) (file : SourcePath) (text : String) : List Token :=
  scanFrom rule file .start text.toList

end Token

end ShaderAssembly
