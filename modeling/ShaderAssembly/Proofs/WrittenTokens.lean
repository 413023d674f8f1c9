import Mathlib.Data.List.Infix
import ShaderAssembly.Proofs.ScannedTokens

/-!
# Tokens that are written

A text can be written token by token, with blanks behind each of them. Such a text is read as the
tokens that were written, whatever stands in the bodies of code, if three things are right: where a
body stands the head of a block has been read, the braces of the body match, and no name runs into
the next one. This is a judgment about what is written and the states in which it is read.
-/

namespace ShaderAssembly

/-! ### Bodies whose braces match -/

/-- Whether every closing brace of a text has an opening one before it, and the other way round. -/
structure IsBraced (text : List Char) : Prop where
  /-- No part from the start on has more closing braces than opening ones. -/
  closes : ∀ start, start <+: text → start.count '}' ≤ start.count '{'
  /-- There are as many closing braces as opening ones. -/
  total : text.count '}' = text.count '{'

instance (text : List Char) : Decidable (IsBraced text) :=
  decidable_of_iff ((∀ start ∈ text.inits, start.count '}' ≤ start.count '{') ∧
      text.count '}' = text.count '{')
    ⟨fun h => ⟨fun start hstart => h.1 start ((List.mem_inits _ _).mpr hstart), h.2⟩,
      fun h => ⟨fun start hstart => h.closes start ((List.mem_inits _ _).mp hstart), h.total⟩⟩

/-- Whether the braces of a text match but for a number of closing ones. -/
structure ClosesBraces (inner : Nat) (text : List Char) : Prop where
  /-- No prefix closes more braces than are open. -/
  prefixes : ∀ start, start <+: text → start.count '}' ≤ start.count '{' + inner
  /-- All open braces are closed. -/
  total : text.count '}' = text.count '{' + inner

/-- A text that closes the braces that are open around it, and none besides, is read as a body up
to the next closing brace. -/
theorem ClosesBraces.readBody? {inner : Nat} {text : List Char} (h : ClosesBraces inner text)
    (rest : List Char) :
    ShaderAssembly.readBody? inner (text ++ '}' :: rest) = some (text, rest) := by
  obtain ⟨hcloses, htotal⟩ := h
  induction text generalizing inner with
  | nil =>
    obtain rfl : inner = 0 := by simpa using htotal.symm
    rfl
  | cons c text ih =>
    have hstart : ∀ start, start <+: text → (c :: start).count '}' ≤
        (c :: start).count '{' + inner := fun start hstart =>
      hcloses (c :: start) (List.cons_prefix_cons.mpr ⟨rfl, hstart⟩)
    rw [List.cons_append, readBody?.eq_def]
    by_cases hopen : c = '{'
    · have hrest := @ih (inner + 1) (by grind) (by grind)
      simp [hopen, hrest]
    · by_cases hclose : c = '}'
      · obtain ⟨less, rfl⟩ : ∃ less, inner = less + 1 :=
          Nat.exists_eq_add_one.mpr (by have hfirst := hstart [] List.nil_prefix; grind)
        have hrest := @ih less (by grind) (by grind)
        simp [hclose, hrest]
      · have hrest := @ih inner (by grind) (by grind)
        simp [hopen, hclose, hrest]

/-- A text whose braces match is read as a body as a whole. -/
theorem IsBraced.readBody? {text : List Char} (h : IsBraced text) (rest : List Char) :
    ShaderAssembly.readBody? 0 (text ++ '}' :: rest) = some (text, rest) :=
  ClosesBraces.readBody? ⟨h.closes, h.total⟩ rest

/-! ### Names and marks -/

namespace Piece

/-- Whether a text is a name. -/
def isName : List Char → Bool
  | [] => false
  | c :: rest => startsName c && rest.all continuesName

/-- A name has only characters that can continue one. -/
theorem continuesName_of_mem_name {name : List Char} (h : isName name = true) {c : Char}
    (hc : c ∈ name) : continuesName c = true := by
  match name with
  | [] => cases hc
  | first :: rest =>
    obtain ⟨hstarts, hcontinues⟩ := Bool.and_eq_true_iff.mp h
    rcases List.mem_cons.mp hc with rfl | hrest
    · exact continuesName_of_startsName hstarts
    · exact List.all_eq_true.mp hcontinues c hrest

/-- A name starts with a letter or an underscore. -/
theorem range_of_startsName {c : Char} (h : startsName c = true) :
    (65 ≤ c.toNat ∧ c.toNat ≤ 90) ∨ (97 ≤ c.toNat ∧ c.toNat ≤ 122) ∨ c.toNat = 95 := by
  rcases Bool.or_eq_true_iff.mp h with hletter | hline
  · rcases Bool.or_eq_true_iff.mp hletter with hupper | hlower
    · exact .inl (of_decide_eq_true hupper)
    · obtain ⟨hfirst, hlast⟩ := Bool.and_eq_true_iff.mp hlower
      exact .inr (.inl ⟨of_decide_eq_true hfirst, of_decide_eq_true hlast⟩)
  · exact .inr (.inr (congrArg Char.toNat (beq_iff_eq.mp hline)))

theorem isBlank_of_startsName {c : Char} (h : startsName c = true) : Text.isBlank c = false := by
  have hrange := range_of_startsName h
  simp only [Text.isBlank, Bool.or_eq_false_iff, Bool.and_eq_false_iff, decide_eq_false_iff_not,
    beq_eq_false_iff_ne]
  omega

theorem punctuation?_of_startsName {c : Char} (h : startsName c = true) :
    punctuation? c = none := by
  unfold punctuation?
  split <;> first | rfl | exact absurd h (by decide)

/-- A mark does not continue a name. -/
theorem continuesName_of_punctuation? {c : Char} {kind : TokenKind}
    (h : punctuation? c = some kind) : continuesName c = false := by
  unfold punctuation? at h
  split at h <;> cases h <;> decide

/-- A mark is read as such. -/
theorem read_mark {c : Char} {kind : TokenKind} (h : punctuation? c = some kind)
    (rest : List Char) : read c rest = (⟨[c], some (kind, [c])⟩, rest) := by
  unfold punctuation? at h
  split at h <;> cases h <;> rfl

/-- Characters that can go on are taken up to one that cannot. -/
theorem takeWhile_and_dropWhile_append {p : Char → Bool} {text rest : List Char}
    (htext : ∀ c ∈ text, p c = true) (hrest : ∀ c ∈ rest.head?, p c = false) :
    (text ++ rest).takeWhile p = text ∧ (text ++ rest).dropWhile p = rest := by
  rw [List.takeWhile_append_of_pos htext, List.dropWhile_append_of_pos htext]
  cases rest with
  | nil => simp
  | cons c rest => simp [hrest c rfl]

/-- A name is read up to a character that cannot continue it. -/
theorem read_name {c : Char} {name rest : List Char} (hname : isName (c :: name) = true)
    (hrest : ∀ d ∈ rest.head?, continuesName d = false) :
    read c (name ++ rest) = (⟨c :: name, some (.identifier, c :: name)⟩, rest) := by
  obtain ⟨hstarts, hcontinues⟩ := Bool.and_eq_true_iff.mp hname
  rw [List.all_eq_true] at hcontinues
  obtain ⟨htake, hdrop⟩ := takeWhile_and_dropWhile_append hcontinues hrest
  unfold read
  rw [isBlank_of_startsName hstarts, if_neg Bool.false_ne_true]
  split
  · exact absurd hstarts (by decide)
  · exact absurd hstarts (by decide)
  · rw [punctuation?_of_startsName hstarts]
    simp [readWord, hstarts, htake, hdrop]

end Piece

/-! ### Written tokens -/

/-- A token as it is written, with the blanks behind it. -/
structure Word where
  /-- What the token is. -/
  kind : TokenKind
  /-- How it is spelled. -/
  lexeme : List Char
  /-- The blanks behind it. -/
  gap : List Char
  deriving DecidableEq, Repr

namespace Word

/-- A mark of one character. -/
def mark (kind : TokenKind) (c : Char) (gap : List Char) : Word := ⟨kind, [c], gap⟩

/-- A name. -/
def name (name : String) (gap : List Char) : Word := ⟨.identifier, name.toList, gap⟩

/-- The body of a code block, right behind the brace that opens it. -/
def body (text : String) : Word := ⟨.body, text.toList, []⟩

/-- The text of words one after the other. -/
def text (words : List Word) : List Char := words.flatMap fun word => word.lexeme ++ word.gap

/-- The kind and the lexeme of the token that is written. -/
def spelled (word : Word) : TokenKind × String := (word.kind, String.ofList word.lexeme)

@[simp]
theorem text_cons (word : Word) (words : List Word) :
    text (word :: words) = word.lexeme ++ (word.gap ++ text words) := by
  simp [text]

/-- Whether words that are written in a state are read as they were written. -/
inductive IsLegible (rule : Option BlockRule) : ScanState → List Word → Prop
  | finish {state : ScanState} (hhead : state.head ≠ .brace) : IsLegible rule state []
  | mark {state : ScanState} {c : Char} {kind : TokenKind} {gap : List Char} {words : List Word}
      (hhead : state.head ≠ .brace) (hmark : Piece.punctuation? c = some kind)
      (hgap : ∀ c ∈ gap, Text.isBlank c = true)
      (hbody : (state.taking rule kind [c]).head = .brace → gap = [])
      (hwords : IsLegible rule (state.taking rule kind [c]) words) :
      IsLegible rule state (⟨kind, [c], gap⟩ :: words)
  | name {state : ScanState} {name gap : List Char} {words : List Word}
      (hhead : state.head ≠ .brace) (hname : Piece.isName name = true)
      (hgap : ∀ c ∈ gap, Text.isBlank c = true)
      (hends : ∀ c ∈ (gap ++ text words).head?, Piece.continuesName c = false)
      (hwords : IsLegible rule (state.taking rule .identifier name) words) :
      IsLegible rule state (⟨.identifier, name, gap⟩ :: words)
  | body {state : ScanState} {text gap : List Char} {words : List Word}
      (hhead : state.head = .brace) (htext : IsBraced text)
      (hgap : ∀ c ∈ gap, Text.isBlank c = true)
      (hwords : IsLegible rule (state.taking rule .closeBrace ['}']) words) :
      IsLegible rule state (⟨.body, text, []⟩ :: ⟨.closeBrace, ['}'], gap⟩ :: words)

end Word

/-- The kind and the lexeme of a token. -/
def Token.spelled (token : Token) : TokenKind × String := (token.kind, token.lexeme)

namespace Token

variable {rule : Option BlockRule} {file : SourcePath} {state : ScanState} {c : Char}
  {text rest : List Char}

theorem scanFrom_nil (hhead : state.head ≠ .brace) :
    scanFrom rule file state [] = [⟨.endOfFile, "", .ofPlace file state.place⟩] := by
  rw [scanFrom.eq_def, if_neg hhead]

/-- A blank or a comment only moves the place where the rest is read. -/
theorem scanFrom_trivia {after : List Char} {piece : Piece} (hhead : state.head ≠ .brace)
    (hread : Piece.read c text = (piece, after)) (hcontent : piece.content = none) :
    scanFrom rule file state (c :: text) =
      scanFrom rule file (state.passing piece.spelling) after := by
  rw [scanFrom.eq_def, if_neg hhead]
  dsimp only
  rw [hread, hcontent]

theorem scanFrom_blank (hhead : state.head ≠ .brace) (hblank : Text.isBlank c = true) :
    scanFrom rule file state (c :: rest) = scanFrom rule file (state.passing [c]) rest :=
  scanFrom_trivia hhead (if_pos hblank : Piece.read c rest = (⟨[c], none⟩, rest)) rfl

/-- A comment that is not closed ends the text. -/
theorem scanFrom_openComment {after lexeme : List Char} {piece : Piece}
    (hhead : state.head ≠ .brace) (hread : Piece.read c text = (piece, after))
    (hcontent : piece.content = some (.error .unterminatedComment, lexeme)) :
    scanFrom rule file state (c :: text) =
      [⟨.error .unterminatedComment, String.ofList lexeme, .ofPlace file state.place⟩] := by
  rw [scanFrom.eq_def, if_neg hhead]
  dsimp only
  rw [hread, hcontent]
  exact if_pos rfl

/-- A token that does not end the text stands before the tokens of the rest. -/
theorem scanFrom_token {after lexeme : List Char} {piece : Piece} {kind : TokenKind}
    (hhead : state.head ≠ .brace) (hread : Piece.read c text = (piece, after))
    (hcontent : piece.content = some (kind, lexeme)) (hkind : kind ≠ .error .unterminatedComment) :
    scanFrom rule file state (c :: text) =
      ⟨kind, String.ofList lexeme, .ofPlace file state.place⟩ ::
        scanFrom rule file ((state.taking rule kind lexeme).passing piece.spelling) after := by
  rw [scanFrom.eq_def, if_neg hhead]
  dsimp only
  rw [hread, hcontent]
  exact if_neg hkind

/-- A block that is not closed ends the text. -/
theorem scanFrom_openBody (hhead : state.head = .brace) (hbody : readBody? 0 text = none) :
    scanFrom rule file state text =
      [⟨.error .unterminatedBlock, String.ofList text, .ofPlace file state.place⟩] := by
  rw [scanFrom.eq_def, if_pos hhead]
  split
  · rfl
  · rename_i hsome
    rw [hbody] at hsome
    cases hsome

theorem scanFrom_body {body : List Char} (hhead : state.head = .brace)
    (hbody : readBody? 0 text = some (body, rest)) :
    scanFrom rule file state text =
      ⟨.body, String.ofList body, .ofPlace file state.place⟩ ::
        ⟨.closeBrace, r"}", .ofPlace file (state.passing body).place⟩ ::
          scanFrom rule file
            (((state.passing body).taking rule .closeBrace ['}']).passing ['}']) rest := by
  rw [scanFrom.eq_def, if_pos hhead]
  split
  · rename_i hnone
    simp [hbody] at hnone
  · rename_i hsome
    rw [hbody] at hsome
    cases hsome
    rfl

/-- Blanks only move the place where the rest is read. -/
theorem exists_scanFrom_gap {gap : List Char} (hhead : state.head = .brace → gap = [])
    (hgap : ∀ c ∈ gap, Text.isBlank c = true) :
    ∃ place, scanFrom rule file state (gap ++ text) =
      scanFrom rule file { state with place } text := by
  induction gap generalizing state with
  | nil => exact ⟨state.place, rfl⟩
  | cons c gap ih =>
    rw [List.forall_mem_cons] at hgap
    have hbrace : state.head ≠ .brace := fun h => nomatch hhead h
    rw [List.cons_append, scanFrom_blank hbrace hgap.1]
    exact @ih (state.passing [c]) (fun h => absurd h hbrace) hgap.2

/-- A token that is read as a piece, and the blanks behind it. -/
theorem exists_scanFrom_word {kind : TokenKind} {lexeme gap : List Char}
    (hhead : state.head ≠ .brace)
    (hread : Piece.read c rest = (⟨lexeme, some (kind, lexeme)⟩, gap ++ text))
    (hkind : kind ≠ .error .unterminatedComment)
    (hdirect : (state.taking rule kind lexeme).head = .brace → gap = [])
    (hgap : ∀ c ∈ gap, Text.isBlank c = true) :
    ∃ position place, scanFrom rule file state (c :: rest) =
      ⟨kind, String.ofList lexeme, position⟩ ::
        scanFrom rule file { state.taking rule kind lexeme with place } text := by
  rw [scanFrom_token hhead hread rfl hkind]
  obtain ⟨place, hplace⟩ :=
    @exists_scanFrom_gap rule file ((state.taking rule kind lexeme).passing lexeme) text gap
      hdirect hgap
  exact ⟨_, place, congrArg (List.cons _) hplace⟩

end Token

/-- Words that are legible are read as they were written. -/
theorem Word.IsLegible.map_spelled_scanFrom {rule : Option BlockRule} {state : ScanState}
    {words : List Word} (h : IsLegible rule state words) (file : SourcePath) (place : Place) :
    (Token.scanFrom rule file { state with place } (text words)).map Token.spelled =
      words.map spelled ++ [(.endOfFile, "")] := by
  -- The place does not matter for what is read, so that it is another one for each word.
  induction h generalizing place with
  | @finish state hhead =>
    have hplaced : ({ state with place } : ScanState).head ≠ .brace := hhead
    rw [Word.text, List.flatMap_nil, Token.scanFrom_nil hplaced]
    rfl
  | @mark state c kind gap words hhead hmark hgap hdirect _ ih =>
    have hplaced : ({ state with place } : ScanState).head ≠ .brace := hhead
    obtain ⟨position, next, hnext⟩ := Token.exists_scanFrom_word hplaced
      (Piece.read_mark hmark (gap ++ text words)) ((Piece.punctuation?_ne_end hmark).2 _) hdirect
      hgap
    rw [text_cons, List.singleton_append, hnext]
    exact congrArg (List.cons _) (ih next)
  | @name state name gap words hhead hname hgap hends _ ih =>
    have hplaced : ({ state with place } : ScanState).head ≠ .brace := hhead
    match name with
    | [] => exact nomatch hname
    | c :: name =>
      obtain ⟨position, next, hnext⟩ := Token.exists_scanFrom_word hplaced
        (Piece.read_name hname hends) nofun
        (fun hbrace => nomatch Token.head_taking_eq_brace hbrace) hgap
      rw [text_cons, List.cons_append, hnext]
      exact congrArg (List.cons _) (ih next)
  | @body state body gap words hhead hbody hgap _ ih =>
    have hplaced : ({ state with place } : ScanState).head = .brace := hhead
    have hread := hbody.readBody? (gap ++ text words)
    have hclosed : (state.taking rule .closeBrace ['}']).head = .brace → gap = [] :=
      fun hbrace => nomatch Token.head_taking_eq_brace hbrace
    let before : ScanState := { state with place }
    obtain ⟨next, hnext⟩ := @Token.exists_scanFrom_gap rule file
      (((before.passing body).taking rule .closeBrace ['}']).passing ['}']) (text words) gap
      hclosed hgap
    rw [text_cons, text_cons, List.nil_append, List.singleton_append,
      Token.scanFrom_body hplaced hread, hnext]
    exact congrArg (fun rest => spelled ⟨.body, body, []⟩ :: (.closeBrace, r"}") :: rest)
      (ih next)

/-- The tokens of a text that is written in legible words. -/
theorem Word.map_spelled_scan {rule : Option BlockRule} {words : List Word}
    (h : IsLegible rule .start words) (file : SourcePath) :
    (Token.scan rule file (String.ofList (text words))).map Token.spelled =
      words.map spelled ++ [(.endOfFile, "")] := by
  rw [Token.scan, String.toList_ofList]
  exact h.map_spelled_scanFrom file Place.start

/-! ### States between words -/

/-- Whether no head of a block is being read, right behind a token of a kind. -/
structure ScanState.IsBehind (kind : TokenKind) (state : ScanState) : Prop where
  /-- No head of a block is being read. -/
  head : state.head = .none
  /-- The token before is of the kind. -/
  previous : state.previous = some kind

/-- Whether no head of a block is being read and one can start. -/
structure ScanState.IsAtItem (rule : BlockRule) (state : ScanState) : Prop where
  /-- No head of a block is being read. -/
  head : state.head = .none
  /-- A declaration can start. -/
  declaration : state.atDeclaration rule = true

namespace Word

variable {rule : BlockRule} {before middle after : ScanState → Prop} {words more : List Word}

/-- Whether words are legible in every state that satisfies a condition, and lead to states that
satisfy another one. -/
def Leads (rule : BlockRule) (before : ScanState → Prop) (words : List Word)
    (after : ScanState → Prop) : Prop :=
  ∀ state rest, before state → (∀ next, after next → IsLegible (some rule) next rest) →
    IsLegible (some rule) state (words ++ rest)

theorem Leads.nil : Leads rule before [] before := fun state _ hbefore hrest => hrest state hbefore

/-- Words one after the other. -/
theorem Leads.append (h : Leads rule before words middle) (hmore : Leads rule middle more after) :
    Leads rule before (words ++ more) after := by
  intro state rest hbefore hrest
  rw [List.append_assoc]
  exact h state (more ++ rest) hbefore fun next hnext => hmore next rest hnext hrest

theorem Leads.mono {result : ScanState → Prop} (h : Leads rule before words after)
    (hafter : ∀ state, after state → result state) : Leads rule before words result :=
  fun state rest hstate hrest =>
    h state rest hstate fun next hnext => hrest next (hafter next hnext)

/-- Items that all lead back to where they start. -/
theorem Leads.flatMap {α : Type} {write : α → List Word} {items : List α}
    (h : ∀ item ∈ items, Leads rule before (write item) before) :
    Leads rule before (items.flatMap write) before := by
  induction items with
  | nil => exact .nil
  | cons item items ih =>
    rw [List.forall_mem_cons] at h
    exact h.1.append (ih h.2)

/-- The gap of one blank. -/
theorem isBlank_gap : ∀ c ∈ [' '], Text.isBlank c = true := List.forall_mem_singleton.mpr rfl

/-- Whether a state is one behind a token that does not open a body, which is read in a state that
satisfies a condition. -/
structure Follows (rule : BlockRule) (before : ScanState → Prop) (kind : TokenKind)
    (lexeme : List Char) (next : ScanState) : Prop where
  /-- No head of a block is being read. -/
  head : next.head = .none
  /-- The state in which the token is read. -/
  taking : ∃ state, before state ∧ next = state.taking (some rule) kind lexeme

theorem Follows.isBehind {kind : TokenKind} {lexeme : List Char} {next : ScanState}
    (h : Follows rule before kind lexeme next) : next.IsBehind kind := by
  obtain ⟨state, -, rfl⟩ := h.taking
  exact ⟨h.head, rfl⟩

/-- A mark outside of the heads of blocks leads to the states right behind it. -/
theorem leads_mark_follows {kind : TokenKind} {c : Char} {gap : List Char}
    (hbefore : ∀ state, before state → state.head = .none)
    (hmark : Piece.punctuation? c = some kind) (hgap : ∀ c ∈ gap, Text.isBlank c = true) :
    Leads rule before [mark kind c gap] (Follows rule before kind [c]) := by
  intro state rest hstate hrest
  have hhead := hbefore state hstate
  have hkind : (state.taking (some rule) kind [c]).head = .none := by
    have hne := (Piece.punctuation?_ne hmark).1
    unfold ScanState.taking ScanState.headAfter
    split <;> simp_all
  refine .mark (by simp [hhead]) hmark hgap (fun hbrace => ?_)
    (hrest _ ⟨hkind, state, hstate, rfl⟩)
  rw [hkind] at hbrace
  exact nomatch hbrace

/-- A mark outside of the heads of blocks. -/
theorem leads_mark {kind : TokenKind} {c : Char} {gap : List Char}
    (hbefore : ∀ state, before state → state.head = .none)
    (hmark : Piece.punctuation? c = some kind) (hgap : ∀ c ∈ gap, Text.isBlank c = true) :
    Leads rule before [mark kind c gap] (·.IsBehind kind) :=
  (leads_mark_follows hbefore hmark hgap).mono fun _ => Follows.isBehind

/-- Whether a name that stands next in a state is not read as the keyword of blocks. -/
structure ReadsName (rule : BlockRule) (name : String) (state : ScanState) : Prop where
  /-- No head of a block is being read. -/
  head : state.head = .none
  /-- No declaration can start, or the name is another one. -/
  plain : state.atDeclaration rule = false ∨ name ≠ rule.keyword

/-- A name outside of the heads of blocks starts none. -/
theorem ReadsName.follows {name : String} {state : ScanState} (h : ReadsName rule name state)
    (hstate : before state) : Follows rule before .identifier name.toList
      (state.taking (some rule) .identifier name.toList) := by
  refine ⟨?_, state, hstate, rfl⟩
  rcases h.plain with hplain | hplain <;>
    simp [ScanState.taking, ScanState.headAfter, h.head, hplain]

/-- A name and a blank lead to the states right behind the name. -/
theorem leads_name_follows {name : String} (hname : Piece.isName name.toList = true)
    (hbefore : ∀ state, before state → ReadsName rule name state) :
    Leads rule before [Word.name name [' ']] (Follows rule before .identifier name.toList) := by
  intro state rest hstate hrest
  have hreads := hbefore state hstate
  refine .name (by simp [hreads.head]) hname isBlank_gap ?_ (hrest _ (hreads.follows hstate))
  rintro _ ⟨⟩
  rfl

/-- A name and a blank. -/
theorem leads_name {name : String} (hname : Piece.isName name.toList = true)
    (hbefore : ∀ state, before state → ReadsName rule name state) :
    Leads rule before [Word.name name [' ']] (·.IsBehind .identifier) :=
  (leads_name_follows hname hbefore).mono fun _ => Follows.isBehind

/-- A name and a mark right behind it lead to the states right behind the mark. -/
theorem leads_name_mark_follows {name : String} {kind : TokenKind} {c : Char} {gap : List Char}
    (hname : Piece.isName name.toList = true)
    (hbefore : ∀ state, before state → ReadsName rule name state)
    (hmark : Piece.punctuation? c = some kind) (hgap : ∀ c ∈ gap, Text.isBlank c = true) :
    Leads rule before [Word.name name [], mark kind c gap]
      (Follows rule (Follows rule before .identifier name.toList) kind [c]) := by
  intro state rest hstate hrest
  have hreads := hbefore state hstate
  refine .name (by simp [hreads.head]) hname nofun ?_
    (leads_mark_follows (fun _ hnext => hnext.head) hmark hgap _ rest (hreads.follows hstate) hrest)
  rintro _ ⟨⟩
  exact Piece.continuesName_of_punctuation? hmark

/-- A name and a mark right behind it. -/
theorem leads_name_mark {name : String} {kind : TokenKind} {c : Char} {gap : List Char}
    (hname : Piece.isName name.toList = true)
    (hbefore : ∀ state, before state → ReadsName rule name state)
    (hmark : Piece.punctuation? c = some kind) (hgap : ∀ c ∈ gap, Text.isBlank c = true) :
    Leads rule before [Word.name name [], mark kind c gap] (·.IsBehind kind) :=
  (leads_name_mark_follows hname hbefore hmark hgap).mono fun _ => Follows.isBehind

/-- The words of a code block. -/
def block (keyword : String) (name? : Option String) (code : String) : List Word :=
  name keyword [' '] :: (name?.toList.map (name · [' ']) ++
    [mark .openBrace '{' [], body code, mark .closeBrace '}' [' ']])

/-- A code block where one can start. -/
theorem leads_block {name? : Option String} {code : String}
    (hkeyword : Piece.isName rule.keyword.toList = true)
    (hname : ∀ name ∈ name?, Piece.isName name.toList = true) (hcode : IsBraced code.toList) :
    Leads rule (·.IsAtItem rule) (block rule.keyword name? code) (·.IsAtItem rule) := by
  rintro state rest ⟨hhead, hat⟩ hrest
  have hfirst : (state.taking (some rule) .identifier rule.keyword.toList).head = .keyword :=
    ScanState.head_taking_keyword hat String.ofList_toList
  have hdepth : state.depth = rule.depth := by
    simp only [ScanState.atDeclaration, Bool.and_eq_true, beq_iff_eq] at hat
    exact hat.1
  refine .name (by simp [hhead]) hkeyword isBlank_gap (by rintro _ ⟨⟩; rfl) ?_
  cases name? with
  | none =>
    refine .mark (by simp [hfirst]) rfl nofun (fun _ => rfl) ?_
    refine .body (ScanState.head_taking_brace (.inl hfirst)) hcode isBlank_gap (hrest _ ⟨rfl, ?_⟩)
    simp [ScanState.taking, ScanState.atDeclaration, hdepth]
  | some name =>
    have hsecond : ((state.taking (some rule) .identifier rule.keyword.toList).taking (some rule)
        .identifier name.toList).head = .name :=
      ScanState.head_taking_name (ScanState.not_atDeclaration_of_previous rfl rfl) hfirst
    refine .name (by simp [hfirst]) (hname name rfl) isBlank_gap (by rintro _ ⟨⟩; rfl) ?_
    refine .mark (by simp [hsecond]) rfl nofun (fun _ => rfl) ?_
    refine .body (ScanState.head_taking_brace (.inr hsecond)) hcode isBlank_gap (hrest _ ⟨rfl, ?_⟩)
    simp [ScanState.taking, ScanState.atDeclaration, hdepth]

/-! ### Tokens that are spelled like words -/

section Spelling

variable {tokens : List Token} {word : Word}

/-- Tokens that are spelled like a word and others start with one that is spelled like the word. -/
theorem exists_cons_of_spelled
    (h : tokens.map Token.spelled = (word :: words).map spelled) :
    ∃ token rest, tokens = token :: rest ∧ token.spelled = word.spelled ∧
      rest.map Token.spelled = words.map spelled := by
  obtain ⟨token, rest, rfl, htoken, hrest⟩ := List.map_eq_cons_iff.mp h
  exact ⟨token, rest, rfl, htoken, hrest⟩

theorem exists_mark_of_spelled {kind : TokenKind} {c : Char} {gap : List Char}
    (h : tokens.map Token.spelled = (mark kind c gap :: words).map spelled) :
    ∃ token rest, tokens = token :: rest ∧ token.kind = kind ∧
      rest.map Token.spelled = words.map spelled := by
  obtain ⟨token, rest, htokens, htoken, hrest⟩ := exists_cons_of_spelled h
  exact ⟨token, rest, htokens, congrArg Prod.fst htoken, hrest⟩

theorem exists_name_of_spelled {written : String} {gap : List Char}
    (h : tokens.map Token.spelled = (name written gap :: words).map spelled) :
    ∃ token rest, tokens = token :: rest ∧ token.isKeyword written = true ∧
      rest.map Token.spelled = words.map spelled := by
  obtain ⟨token, rest, htokens, htoken, hrest⟩ := exists_cons_of_spelled h
  refine ⟨token, rest, htokens, Parser.isKeyword_iff.mpr ⟨congrArg Prod.fst htoken, ?_⟩, hrest⟩
  exact (congrArg Prod.snd htoken).trans String.ofList_toList

/-- Tokens that are spelled like words one after the other fall into two parts. -/
theorem exists_append_of_spelled
    (h : tokens.map Token.spelled = (words ++ more).map spelled) :
    ∃ first rest, tokens = first ++ rest ∧ first.map Token.spelled = words.map spelled ∧
      rest.map Token.spelled = more.map spelled := by
  rw [List.map_append] at h
  exact List.map_eq_append_iff.mp h

/-- If items are spelled like phrases with their views, then items one after the other are. -/
theorem exists_many_of_spelled {α β : Type} {write : β → List Word} {phrase : Grammar.Phrase α}
    {view : α → β} {items : List β}
    (hitem : ∀ item ∈ items, ∀ tokens : List Token,
      tokens.map Token.spelled = (write item).map spelled →
        ∃ value, phrase tokens value ∧ view value = item)
    (h : tokens.map Token.spelled = (items.flatMap write).map spelled) :
    ∃ values, Grammar.Many phrase tokens values ∧ values.map view = items := by
  induction items generalizing tokens with
  | nil =>
    obtain rfl : tokens = [] := by simpa using h
    exact ⟨[], .nil, rfl⟩
  | cons item items ih =>
    rw [List.forall_mem_cons] at hitem
    rw [List.flatMap_cons] at h
    obtain ⟨first, rest, rfl, hfirst, hrest⟩ := exists_append_of_spelled h
    obtain ⟨value, hvalue, hview⟩ := hitem.1 first hfirst
    obtain ⟨values, hvalues, hviews⟩ := ih hitem.2 hrest
    exact ⟨value :: values, .cons hvalue hvalues, by rw [List.map_cons, hview, hviews]⟩

/-- The code of a block in braces. -/
theorem exists_body_of_spelled {code : String} (h : tokens.map Token.spelled =
      [mark .openBrace '{' [], body code, mark .closeBrace '}' [' ']].map spelled) :
    ∃ opening text rest, tokens = opening :: rest ∧ opening.kind = .openBrace ∧
      Grammar.IsBody rest text ∧ text.lexeme = code := by
  obtain ⟨opening, _, rfl, hopening, h⟩ := exists_mark_of_spelled h
  obtain ⟨text, _, rfl, htext, h⟩ := exists_cons_of_spelled h
  obtain ⟨closing, _, rfl, hclosing, h⟩ := exists_mark_of_spelled h
  obtain rfl := List.map_eq_nil_iff.mp h
  exact ⟨opening, text, _, rfl, hopening, .body (congrArg Prod.fst htext) hclosing,
    (congrArg Prod.snd htext).trans String.ofList_toList⟩

end Spelling

end Word

end ShaderAssembly
