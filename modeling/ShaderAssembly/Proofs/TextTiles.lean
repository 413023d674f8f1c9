import ShaderAssembly.Proofs.LinePlaces
import ShaderAssembly.Proofs.WrittenTokens

/-!
# A text is tiled by its tokens

The tokens of a text and what stands between them are a division of the text: put one after the
other as they are written, they are the text again. What stands between tokens is a blank or a
comment. What a token is written as follows from its kind and its lexeme; for most kinds it is the
lexeme. A token stands where the line and the column of its position say.

The judgments below say what a text may be divided into without reading it. Reading is then shown
to divide every text in this way.
-/

namespace ShaderAssembly

/-! ### What may be written -/

/-- Whether characters between the quotes of a string stand for its contents: each for itself, or
behind a backslash. -/
inductive IsQuoted : (written contents : List Char) → Prop
  | nil : IsQuoted [] []
  | plain {c : Char} {written contents : List Char} (hquote : c ≠ '"') (hescape : c ≠ '\\')
      (hline : c ≠ '\n') (hrest : IsQuoted written contents) :
      IsQuoted (c :: written) (c :: contents)
  | escaped {c : Char} {written contents : List Char} (hline : c ≠ '\n')
      (hrest : IsQuoted written contents) : IsQuoted ('\\' :: c :: written) (c :: contents)

/-- Whether a text may stand for the sign of a number. -/
def IsSign (text : List Char) : Prop := text ∈ [[], ['-'], ['+']]

instance : DecidablePred IsSign := fun _ => List.instDecidableMemOfLawfulBEq _ _

/-- Whether a text has only digits. -/
def IsDigits (text : List Char) : Prop := ∀ c ∈ text, c.isDigit = true

instance : DecidablePred IsDigits := fun text => List.decidableBAll _ text

/-- Whether the parts make a number; each of them may be missing, but there is a digit before or
behind the point. -/
structure IsNumber (sign whole fraction exponent suffix : List Char) : Prop where
  isSign : IsSign sign
  isWhole : IsDigits whole
  isFraction : fraction = [] ∨ ∃ digits, fraction = '.' :: digits ∧ IsDigits digits
  isExponent : exponent = [] ∨ ∃ mark sign digits, exponent = mark :: (sign ++ digits) ∧
    (mark = 'e' ∨ mark = 'E') ∧ IsSign sign ∧ digits ≠ [] ∧ IsDigits digits
  isSuffix : suffix ∈ [[], ['f'], ['F']]
  hasDigit : whole ≠ [] ∨ 1 < fraction.length

/-- Whether no more of a line stands at the start of a text. -/
def EndsHere (text : List Char) : Prop := ∀ c ∈ text.head?, c = '\n'

/-- Whether a piece of a text is a blank or a comment, before the rest of the text. -/
inductive IsTrivia : (spelling after : List Char) → Prop
  | blank {c : Char} {after : List Char} (hblank : Text.isBlank c = true) : IsTrivia [c] after
  | lineComment {comment after : List Char} (hline : '\n' ∉ comment) (hafter : EndsHere after) :
      IsTrivia ('/' :: '/' :: comment) after
  | blockComment {comment after : List Char} (hopen : ¬ ['*', '/'] <:+: comment) :
      IsTrivia ('/' :: '*' :: (comment ++ ['*', '/'])) after

/-- Whether a token of a kind and lexeme is written as a piece of a text, before the rest of the
text. -/
inductive Spells : (kind : TokenKind) → (lexeme spelling after : List Char) → Prop
  | name {name after : List Char} (hname : Piece.isName name = true)
      (hafter : ∀ c ∈ after.head?, Piece.continuesName c = false) :
      Spells .identifier name name after
  | number {sign whole fraction exponent suffix after : List Char}
      (hnumber : IsNumber sign whole fraction exponent suffix) :
      Spells .number (sign ++ (whole ++ (fraction ++ (exponent ++ suffix))))
        (sign ++ (whole ++ (fraction ++ (exponent ++ suffix)))) after
  | mark {kind : TokenKind} {c : Char} {after : List Char}
      (hmark : Piece.punctuation? c = some kind) : Spells kind [c] [c] after
  | string {written contents after : List Char} (hwritten : IsQuoted written contents) :
      Spells .string contents ('"' :: (written ++ ['"'])) after
  | body {body after : List Char} (hbody : IsBraced body) : Spells .body body body ('}' :: after)
  | unexpectedCharacter {c : Char} {after : List Char} (hname : Piece.startsName c = false)
      (hquote : c ≠ '"') :
      Spells (.error .unexpectedCharacter) [c] [c] after
  | unterminatedString {written contents escape after : List Char}
      (hwritten : IsQuoted written contents) (hescape : escape = [] ∨ escape = ['\\'])
      (hafter : EndsHere after) :
      Spells (.error .unterminatedString) contents ('"' :: (written ++ escape)) after
  | unterminatedComment {comment : List Char} (hopen : ¬ ['*', '/'] <:+: comment) :
      Spells (.error .unterminatedComment) ['/', '*'] ('/' :: '*' :: comment) []
  | unterminatedBlock {text : List Char}
      (hopen : ∀ body, IsBraced body → ¬ body ++ ['}'] <+: text) :
      Spells (.error .unterminatedBlock) text text []
  | endOfFile : Spells .endOfFile [] [] []

/-- Whether a token is the code of a block, which the text may leave open. -/
def TokenKind.isCode : TokenKind → Bool
  | .body | .error .unterminatedBlock => true
  | _ => false

/-- A piece of a text and the token it makes, if it makes one. -/
structure Tile where
  /-- The characters of the piece as written. -/
  spelling : List Char
  /-- The token. -/
  token? : Option Token

namespace Tile

/-- The text that pieces make one after the other. -/
def textOf (tiles : List Tile) : List Char := tiles.flatMap spelling

/-- Whether a piece stands between two parts of a text of a file: it is a blank or a comment, or
it makes a token whose position names its first character. Code stands behind a brace. -/
def StandsBetween (file : SourcePath) (before : List Char) (tile : Tile) (after : List Char) :
    Prop :=
  match tile.token? with
  | none => IsTrivia tile.spelling after
  | some token =>
    Spells token.kind token.lexeme.toList tile.spelling after ∧
      token.position = ⟨file, before.count '\n' + 1, (Text.openLine before).length + 1⟩ ∧
        (token.kind.isCode = true → before.getLast? = some '{')

/-- Whether the pieces are a division of a text with the given tokens; the text stands behind
another one in a file. -/
structure Divide (file : SourcePath) (before text : List Char) (tokens : List Token)
    (tiles : List Tile) : Prop where
  /-- One after the other the pieces are the text. -/
  text : textOf tiles = text
  /-- The pieces make the tokens, in order. -/
  tokens : tiles.filterMap token? = tokens
  /-- Each piece may stand where it does. -/
  standsBetween : ∀ earlier tile later, tiles = earlier ++ tile :: later →
    tile.StandsBetween file (before ++ textOf earlier) (textOf later)

@[simp]
theorem textOf_nil : textOf [] = [] := rfl

@[simp]
theorem textOf_cons (tile : Tile) (tiles : List Tile) :
    textOf (tile :: tiles) = tile.spelling ++ textOf tiles := List.flatMap_cons

@[simp]
theorem textOf_append (left right : List Tile) :
    textOf (left ++ right) = textOf left ++ textOf right := List.flatMap_append

end Tile

/-! ### What is read -/

/-- A character before a text opens or closes a brace, or neither. -/
theorem ClosesBraces.cons {c : Char} {inner others : Nat} {text : List Char}
    (h : ClosesBraces others text)
    (hcount : [c].count '}' + others = [c].count '{' + inner)
    (hfirst : [c].count '}' ≤ [c].count '{' + inner) : ClosesBraces inner (c :: text) := by
  have hsplit : ∀ (brace : Char) (start : List Char),
      (c :: start).count brace = [c].count brace + start.count brace := by
    intro brace start
    rw [← List.count_append, List.singleton_append]
  refine ⟨fun start hstart => ?_, ?_⟩
  · cases start with
    | nil => simp
    | cons d start =>
      obtain ⟨rfl, hmore⟩ := List.cons_prefix_cons.mp hstart
      have hrest := h.prefixes start hmore
      rw [hsplit '}', hsplit '{']
      omega
  · have htotal := h.total
    rw [hsplit '}', hsplit '{']
    omega

/-- What is read of a body closes no brace that is open around it but those counted. -/
theorem closesBraces_of_readBody? {inner : Nat} {text body rest : List Char}
    (h : readBody? inner text = some (body, rest)) : ClosesBraces inner body := by
  induction text generalizing inner body with
  | nil => simp [readBody?] at h
  | cons c text ih =>
    have later : ∀ {others : Nat}, (readBody? others text).map (fun b => (c :: b.1, b.2)) =
        some (body, rest) → ∃ more, ClosesBraces others more ∧ body = c :: more := by
      intro others hothers
      obtain ⟨⟨more, rest'⟩, hmore, heq⟩ := Option.map_eq_some_iff.mp hothers
      obtain ⟨rfl, rfl⟩ := Prod.mk.inj heq
      exact ⟨more, ih hmore, rfl⟩
    unfold readBody? at h
    simp only at h
    split at h
    · rename_i hc
      obtain ⟨more, hmore, rfl⟩ := later h
      exact hmore.cons (by simp [hc]; omega) (by simp [hc])
    · rename_i hopen
      split at h
      · rename_i hc
        split at h
        · obtain ⟨rfl, -⟩ := Prod.mk.inj (Option.some.inj h)
          exact ⟨fun start hstart => by simp [List.prefix_nil.mp hstart], by simp⟩
        · obtain ⟨more, hmore, rfl⟩ := later h
          exact hmore.cons (by simp [hc]; omega) (by simp [hc])
      · rename_i hclose
        obtain ⟨more, hmore, rfl⟩ := later h
        exact hmore.cons (by simp [hopen, hclose]) (by simp [hclose])

/-- What is read as a body has matching braces. -/
theorem isBraced_of_readBody? {text body rest : List Char}
    (h : readBody? 0 text = some (body, rest)) : IsBraced body :=
  ⟨(closesBraces_of_readBody? h).prefixes, (closesBraces_of_readBody? h).total⟩

namespace Piece

/-- What is read of a block comment ends with the first closing mark. -/
theorem exists_of_readBlockComment? {text comment after : List Char}
    (h : readBlockComment? text = some (comment, after)) :
    ∃ inside, comment = inside ++ ['*', '/'] ∧ ¬ ['*', '/'] <:+: inside := by
  induction text using readBlockComment?.induct generalizing comment with
  | case1 => simp [readBlockComment?] at h
  | case2 rest =>
    obtain ⟨rfl, -⟩ := Prod.mk.inj (Option.some.inj h)
    exact ⟨[], rfl, by simp [List.infix_nil]⟩
  | case3 c rest hne ih =>
    rw [readBlockComment?.eq_3 c rest hne, Option.map_eq_some_iff] at h
    obtain ⟨⟨inner, after'⟩, hinner, heq⟩ := h
    obtain ⟨rfl, rfl⟩ := Prod.mk.inj heq
    obtain ⟨inside, rfl, hinside⟩ := ih hinner
    refine ⟨c :: inside, rfl, fun hinfix => ?_⟩
    rcases List.infix_cons_iff.mp hinfix with hprefix | hinfix
    · obtain ⟨rfl, more, rfl⟩ : c = '*' ∧ ∃ more, inside = '/' :: more := by
        obtain ⟨more, hmore⟩ := hprefix
        obtain ⟨rfl, rfl⟩ := List.cons.inj hmore
        exact ⟨rfl, more, rfl⟩
      have htext := readBlockComment?_append hinner
      exact hne _ rfl htext.symm
    · exact hinside hinfix

/-- A block comment that is not read is not closed. -/
theorem not_infix_of_readBlockComment? {text : List Char} (h : readBlockComment? text = none) :
    ¬ ['*', '/'] <:+: text := by
  induction text using readBlockComment?.induct with
  | case1 => simp
  | case2 rest => simp [readBlockComment?] at h
  | case3 c rest hne ih =>
    rw [readBlockComment?.eq_3 c rest hne, Option.map_eq_none_iff] at h
    intro hinfix
    rcases List.infix_cons_iff.mp hinfix with ⟨more, hmore⟩ | hinfix
    · obtain ⟨rfl, rfl⟩ := List.cons.inj hmore
      exact hne more rfl rfl
    · exact ih h hinfix

/-- What is read of a string stands for its contents, up to the closing quote or the end of the
line. -/
theorem exists_of_readString (text : List Char) :
    ∃ written tail, (readString text).spelling = written ++ tail ∧
      IsQuoted written (readString text).contents ∧
      ((readString text).closed = true ∧ tail = ['"'] ∨
        (readString text).closed = false ∧ (tail = [] ∨ tail = ['\\']) ∧
          EndsHere (readString text).rest) := by
  fun_induction readString text with
  | case1 => exact ⟨[], [], rfl, .nil, .inr ⟨rfl, .inl rfl, by simp [EndsHere]⟩⟩
  | case2 rest => exact ⟨[], ['"'], rfl, .nil, .inl ⟨rfl, rfl⟩⟩
  | case3 rest => exact ⟨[], [], rfl, .nil, .inr ⟨rfl, .inl rfl, by simp [EndsHere]⟩⟩
  | case4 => exact ⟨[], ['\\'], rfl, .nil, .inr ⟨rfl, .inr rfl, by simp [EndsHere]⟩⟩
  | case5 rest => exact ⟨[], ['\\'], rfl, .nil, .inr ⟨rfl, .inr rfl, by simp [EndsHere]⟩⟩
  | case6 c rest hline ih =>
    obtain ⟨written, tail, hspelling, hwritten, htail⟩ := ih
    refine ⟨'\\' :: c :: written, tail, ?_, .escaped (fun h => hline h) hwritten, htail⟩
    simp [StringPiece.prepend, hspelling]
  | case7 c rest hquote hline hlast _ hescaped ih =>
    obtain ⟨written, tail, hspelling, hwritten, htail⟩ := ih
    have hescape : c ≠ '\\' := fun hc => by
      cases rest with
      | nil => exact hlast hc rfl
      | cons d more => exact hescaped d more hc rfl
    refine ⟨c :: written, tail, ?_, .plain hquote hescape hline hwritten, htail⟩
    simp [StringPiece.prepend, hspelling]

theorem isSign_readSign (text : List Char) : IsSign (readSign text).1 := by
  cases text with
  | nil => simp [readSign, IsSign]
  | cons c rest =>
    rw [readSign]
    split
    · rename_i hsign
      rcases hsign with rfl | rfl <;> simp [IsSign]
    · simp [IsSign]

theorem isDigits_readDigits (text : List Char) : IsDigits (readDigits text).1 :=
  fun _ hc => List.mem_takeWhile_imp hc

theorem isFraction_readFraction (text : List Char) : (readFraction text).1 = [] ∨
    ∃ digits, (readFraction text).1 = '.' :: digits ∧ IsDigits digits := by
  cases text with
  | nil => exact .inl rfl
  | cons c rest =>
    rw [readFraction]
    split
    · rename_i hpoint
      exact .inr ⟨_, by rw [hpoint], isDigits_readDigits rest⟩
    · exact .inl rfl

theorem isExponent_readExponent (text : List Char) : (readExponent text).1 = [] ∨
    ∃ mark sign digits, (readExponent text).1 = mark :: (sign ++ digits) ∧
      (mark = 'e' ∨ mark = 'E') ∧ IsSign sign ∧ digits ≠ [] ∧ IsDigits digits := by
  cases text with
  | nil => exact .inl rfl
  | cons c rest =>
    simp only [readExponent]
    split
    · rename_i hmark
      exact .inr ⟨c, _, _, rfl, hmark.1, isSign_readSign rest, hmark.2, isDigits_readDigits _⟩
    · exact .inl rfl

theorem isSuffix_readSuffix (text : List Char) : (readSuffix text).1 ∈ [[], ['f'], ['F']] := by
  cases text with
  | nil => simp [readSuffix]
  | cons c rest =>
    rw [readSuffix]
    split
    · rename_i hsuffix
      rcases hsuffix with rfl | rfl <;> simp
    · simp

/-- Where a number starts behind its sign, there is a digit before or behind the point. -/
theorem hasDigit_of_startsUnsigned {text : List Char} (h : startsUnsigned text = true) :
    (readDigits text).1 ≠ [] ∨ 1 < (readFraction (readDigits text).2).1.length := by
  unfold startsUnsigned at h
  split at h
  · right
    simp [readDigits, readFraction, h]
  · left
    simp [readDigits, h]
  · cases h

/-- Where a number starts, a number is read. -/
theorem isNumber_of_startsNumber {text : List Char} (h : startsNumber text = true) :
    ∃ sign whole fraction exponent suffix,
      (readNumber text).1 = sign ++ (whole ++ (fraction ++ (exponent ++ suffix))) ∧
        IsNumber sign whole fraction exponent suffix :=
  ⟨_, _, _, _, _, rfl, isSign_readSign text, isDigits_readDigits _, isFraction_readFraction _,
    isExponent_readExponent _, isSuffix_readSuffix _, hasDigit_of_startsUnsigned h⟩

/-- What follows the characters that go on is a character that does not. -/
theorem head?_dropWhile_eq_false {p : Char → Bool} {text : List Char} :
    ∀ c ∈ (text.dropWhile p).head?, p c = false := by
  intro c hc
  have hfound := List.head?_dropWhile_not p text
  rw [Option.mem_def.mp hc] at hfound
  exact hfound

/-- A word is read as the token that it spells. -/
theorem spells_of_readWord (c : Char) (rest : List Char) :
    ∃ kind lexeme, (readWord c rest).1.content = some (kind, lexeme) ∧
      Spells kind lexeme (readWord c rest).1.spelling (readWord c rest).2 := by
  unfold readWord
  split
  · rename_i hstarts
    refine ⟨_, _, rfl, .name ?_ head?_dropWhile_eq_false⟩
    exact Bool.and_eq_true_iff.mpr
      ⟨hstarts, List.all_eq_true.mpr fun _ hd => List.mem_takeWhile_imp hd⟩
  · split
    · rename_i hstarts
      obtain ⟨_, _, _, _, _, hnumber, hparts⟩ := isNumber_of_startsNumber hstarts
      refine ⟨_, _, rfl, ?_⟩
      dsimp only
      rw [hnumber]
      exact .number hparts
    · split
      · rename_i hquote
        subst hquote
        obtain ⟨written, tail, hspelling, hwritten, ⟨hclosed, rfl⟩ | ⟨hclosed, htail, hafter⟩⟩ :=
          exists_of_readString rest
        · refine ⟨_, _, rfl, ?_⟩
          dsimp only
          rw [if_pos hclosed, hspelling]
          exact .string hwritten
        · refine ⟨_, _, rfl, ?_⟩
          dsimp only
          rw [if_neg (by simp [hclosed]), hspelling]
          exact .unterminatedString hwritten htail hafter
      · rename_i hname _ hquote
        exact ⟨_, _, rfl, .unexpectedCharacter (Bool.eq_false_iff.mpr hname) hquote⟩

/-- Whether a piece before the rest of a text is written as its content says. -/
def IsWritten (piece : Piece) (after : List Char) : Prop :=
  match piece.content with
  | none => IsTrivia piece.spelling after
  | some (kind, lexeme) => Spells kind lexeme piece.spelling after

/-- The first piece of a text is written as its content says. -/
theorem isWritten_read (c : Char) (rest : List Char) :
    (read c rest).1.IsWritten (read c rest).2 := by
  unfold read
  split
  · rename_i hblank
    exact .blank hblank
  · split
    · rename_i more _
      refine .lineComment (fun hline => ?_) fun c hc => ?_
      · simpa using List.mem_takeWhile_imp hline
      · simpa using head?_dropWhile_eq_false c hc
    · split
      · rename_i hcomment
        obtain ⟨inside, rfl, hopen⟩ := exists_of_readBlockComment? hcomment
        exact .blockComment hopen
      · rename_i hcomment
        exact .unterminatedComment (not_infix_of_readBlockComment? hcomment)
    · split
      · rename_i hmark
        exact .mark hmark
      · obtain ⟨kind, lexeme, hcontent, hspells⟩ := spells_of_readWord c rest
        rw [IsWritten, hcontent]
        exact hspells

/-- What makes no token is a blank or a comment. -/
theorem isTrivia_of_read {c : Char} {rest : List Char}
    (hcontent : (read c rest).1.content = none) :
    IsTrivia (read c rest).1.spelling (read c rest).2 := by
  have hwritten := isWritten_read c rest
  unfold IsWritten at hwritten
  rw [hcontent] at hwritten
  exact hwritten

/-- What makes a token is written as the token is. -/
theorem spells_of_read {c : Char} {rest : List Char} {kind : TokenKind} {lexeme : List Char}
    (hcontent : (read c rest).1.content = some (kind, lexeme)) :
    Spells kind lexeme (read c rest).1.spelling (read c rest).2 := by
  have hwritten := isWritten_read c rest
  unfold IsWritten at hwritten
  rw [hcontent] at hwritten
  exact hwritten

/-- What is read as a piece is not the code of a block. -/
theorem isCode_of_read {c : Char} {rest : List Char} {kind : TokenKind} {lexeme : List Char}
    (hcontent : (read c rest).1.content = some (kind, lexeme)) : kind.isCode = false := by
  have hbody := (isRead_of_read rfl hcontent).ne_body
  have hblock := (read_ne_end hcontent).2
  unfold TokenKind.isCode
  split
  · exact absurd rfl hbody
  · exact absurd rfl hblock
  · rfl

end Piece

/-- Nothing stands behind a token that ends a text. -/
theorem Spells.eq_nil_of_endsText {kind : TokenKind} {lexeme spelling after : List Char}
    (h : Spells kind lexeme spelling after) (hend : kind.EndsText) : after = [] := by
  cases h with
  | unterminatedComment | unterminatedBlock | endOfFile => rfl
  | mark hmark =>
    have hne := Piece.punctuation?_ne_end hmark
    rcases hend with hend | hend | hend
    · exact absurd hend hne.1
    · exact absurd hend (hne.2 _)
    · exact absurd hend (hne.2 _)
  | name | number | string | body | unexpectedCharacter | unterminatedString =>
    rcases hend with hend | hend | hend <;> cases hend

/-! ### The division of a text -/

namespace Tile

variable {file : SourcePath} {before text : List Char} {tokens : List Token} {tiles : List Tile}

theorem Divide.nil : Divide file before [] [] [] :=
  ⟨rfl, rfl, fun earlier _ _ h => by simp at h⟩

/-- A piece before the division of a text. -/
theorem Divide.cons (tile : Tile) (htile : tile.StandsBetween file before text)
    (h : Divide file (before ++ tile.spelling) text tokens tiles) :
    Divide file before (tile.spelling ++ text) (tile.token?.toList ++ tokens) (tile :: tiles) := by
  refine ⟨?_, ?_, fun earlier other later hsplit => ?_⟩
  · rw [textOf_cons, h.text]
  · rw [← h.tokens]
    cases htoken : tile.token? <;> simp [htoken]
  · cases earlier with
    | nil =>
      obtain ⟨rfl, rfl⟩ := List.cons.inj hsplit
      rw [textOf_nil, List.append_nil, h.text]
      exact htile
    | cons first earlier =>
      obtain ⟨rfl, rfl⟩ := List.cons.inj hsplit
      rw [textOf_cons, ← List.append_assoc]
      exact h.standsBetween earlier other later rfl

/-- A blank or a comment before the division of a text. -/
theorem Divide.trivia {spelling : List Char} (htrivia : IsTrivia spelling text)
    (h : Divide file (before ++ spelling) text tokens tiles) :
    Divide file before (spelling ++ text) tokens (⟨spelling, none⟩ :: tiles) :=
  Divide.cons ⟨spelling, none⟩ htrivia h

/-- A token before the division of a text. -/
theorem Divide.token {kind : TokenKind} {lexeme spelling : List Char} {place : Place}
    (hspells : Spells kind lexeme spelling text) (hplace : place = Place.start.after before)
    (hcode : kind.isCode = true → before.getLast? = some '{')
    (h : Divide file (before ++ spelling) text tokens tiles) :
    Divide file before (spelling ++ text)
      (⟨kind, String.ofList lexeme, .ofPlace file place⟩ :: tokens)
      (⟨spelling, some ⟨kind, String.ofList lexeme, .ofPlace file place⟩⟩ :: tiles) := by
  refine Divide.cons ⟨spelling, some ⟨kind, String.ofList lexeme, .ofPlace file place⟩⟩
    ⟨?_, ?_, hcode⟩ h
  · rw [String.toList_ofList]
    exact hspells
  · rw [hplace, Place.start_after]
    rfl

/-- A token that ends a text is all that is left of it. -/
theorem Divide.last {kind : TokenKind} {lexeme spelling after : List Char} {place : Place}
    (hspells : Spells kind lexeme spelling after) (hplace : place = Place.start.after before)
    (hcode : kind.isCode = true → before.getLast? = some '{') (hend : kind.EndsText)
    (htext : spelling ++ after = text) :
    ∃ tiles, Divide file before text [⟨kind, String.ofList lexeme, .ofPlace file place⟩] tiles := by
  obtain rfl := hspells.eq_nil_of_endsText hend
  rw [← htext]
  exact ⟨_, .token hspells hplace hcode .nil⟩

end Tile

namespace Token

open Tile

variable {rule : Option BlockRule} {file : SourcePath}

/-- A block that is not closed is what an unterminated block is written as. -/
theorem spells_unterminatedBlock {text : List Char} (hbody : readBody? 0 text = none) :
    Spells (.error .unterminatedBlock) text text [] := by
  refine .unterminatedBlock fun body hbraced hprefix => ?_
  obtain ⟨rest, rfl⟩ := hprefix
  rw [List.append_assoc, List.singleton_append, hbraced.readBody? rest] at hbody
  cases hbody

/-- A body, the brace that closes it and what follows are divided as such. -/
theorem Divide.body {before body rest : List Char} {place : Place} {tokens : List Token}
    {tiles : List Tile} (hplace : place = Place.start.after before)
    (hbrace : before.getLast? = some '{') (hbraced : IsBraced body)
    (h : Divide file (before ++ (body ++ ['}'])) rest tokens tiles) :
    ∃ tiles, Divide file before (body ++ '}' :: rest)
      (⟨.body, String.ofList body, .ofPlace file place⟩ ::
        ⟨.closeBrace, r"}", .ofPlace file (place.after body)⟩ :: tokens) tiles := by
  rw [← List.append_assoc] at h
  refine ⟨_, .token (.body hbraced) hplace (fun _ => hbrace) (.token (.mark rfl) ?_ nofun h)⟩
  rw [hplace, Place.after_append]

/-- The tokens of what is left of a text divide it. -/
theorem exists_divide_scanFrom {state : ScanState} {before text : List Char}
    (hplace : state.place = Place.start.after before)
    (hhead : state.head = .brace → before.getLast? = some '{') :
    ∃ tiles, Divide file before text (scanFrom rule file state text) tiles := by
  -- What is before the rest of the text grows by the piece that is read.
  fun_induction scanFrom rule file state text generalizing before with
  | case1 state text position hbrace =>
    rename_i hbody
    exact Divide.last (spells_unterminatedBlock hbody) hplace (fun _ => hhead hbrace)
      (.inr (.inr rfl)) (List.append_nil text)
  | case2 state text position hbrace body rest hbody closing =>
    rename_i ih
    have hafter : (closing.place.after ['}']) =
        Place.start.after (before ++ (body ++ ['}'])) := by
      rw [Place.after_append, Place.after_append, ← hplace]
      rfl
    obtain ⟨tiles, htiles⟩ := ih hafter fun h => absurd (head_taking_eq_brace h) (by simp)
    rw [← readBody?_append hbody]
    exact Divide.body hplace (hhead hbrace) (isBraced_of_readBody? hbody) htiles
  | case3 state position =>
    exact Divide.last .endOfFile hplace nofun (.inl rfl) rfl
  | case4 state hbrace c rest piece after hcontent =>
    rename_i ih
    have hafter : state.place.after piece.spelling =
        Place.start.after (before ++ piece.spelling) := by
      rw [Place.after_append, ← hplace]
    obtain ⟨tiles, htiles⟩ := ih hafter fun h => absurd h hbrace
    rw [← Piece.read_append c rest]
    exact ⟨_, htiles.trivia (Piece.isTrivia_of_read hcontent)⟩
  | case5 state position hbrace c rest piece lexeme hcontent =>
    have hcode : TokenKind.isCode (.error .unterminatedComment) = false := rfl
    exact Divide.last (Piece.spells_of_read hcontent) hplace (by rw [hcode]; exact nofun)
      (.inr (.inl rfl)) (Piece.read_append c rest)
  | case6 state position hbrace c rest piece after kind lexeme hcontent token hkind =>
    rename_i ih
    have hafter : state.place.after piece.spelling =
        Place.start.after (before ++ piece.spelling) := by
      rw [Place.after_append, ← hplace]
    have hopening : ((state.taking rule kind lexeme).passing piece.spelling).head = .brace →
        (before ++ piece.spelling).getLast? = some '{' := by
      intro h
      have hspelling : piece.spelling = ['{'] :=
        (Piece.isRead_of_read rfl hcontent).brace (head_taking_eq_brace h)
      rw [hspelling, List.getLast?_concat]
    obtain ⟨tiles, htiles⟩ := ih hafter hopening
    have hcode : kind.isCode = true → before.getLast? = some '{' := by
      rw [Piece.isCode_of_read hcontent]
      exact nofun
    rw [← Piece.read_append c rest]
    exact ⟨_, htiles.token (Piece.spells_of_read hcontent) hplace hcode⟩

/-- Every token of a text stands in it as it is written. -/
theorem exists_spells_of_mem_scan {text : String} {token : Token}
    (h : token ∈ scan rule file text) :
    ∃ before spelling after, text.toList = before ++ (spelling ++ after) ∧
      Spells token.kind token.lexeme.toList spelling after ∧
      token.position = .ofPlace file (Place.start.after before) ∧
        (token.kind.isCode = true → before.getLast? = some '{') := by
  obtain ⟨tiles, htiles⟩ : ∃ tiles, Divide file [] text.toList (scan rule file text) tiles :=
    exists_divide_scanFrom rfl nofun
  rw [← htiles.tokens] at h
  obtain ⟨tile, htile, htoken⟩ := List.mem_filterMap.mp h
  obtain ⟨earlier, later, rfl⟩ := List.append_of_mem htile
  have hstands := htiles.standsBetween earlier tile later rfl
  rw [StandsBetween, htoken] at hstands
  refine ⟨textOf earlier, tile.spelling, textOf later, ?_, hstands.1, ?_, hstands.2.2⟩
  · rw [← htiles.text, textOf_append, textOf_cons]
  · rw [hstands.2.1, Place.start_after]
    rfl

/-- A text is divided by its tokens, the last of which ends the text, and no other one does. -/
theorem scan_divides_text (rule : Option BlockRule) (file : SourcePath) (text : String) :
    (∃ tiles, Divide file [] text.toList (scan rule file text) tiles) ∧
      ∃ pending last, scan rule file text = pending ++ [last] ∧ last.kind.EndsText ∧
        ∀ token ∈ pending, ¬ token.kind.EndsText :=
  ⟨exists_divide_scanFrom rfl nofun, (ScanState.emits_scan rule file text).exists_last⟩

end Token

end ShaderAssembly
