import ShaderAssembly.Text.Blank
import ShaderAssembly.Token

/-!
# The pieces of a text

Outside of code blocks a text is a sequence of pieces: single blanks, comments and tokens.
`readPiece` takes the first piece off a text. A piece is never empty and it keeps its spelling, so
the spellings of the pieces, one after the other, are the text.
-/

namespace ShaderAssembly

/-- The first piece of a text. -/
structure Piece where
  /-- The characters of the piece as written. -/
  spelling : List Char
  /-- The kind and lexeme of the token it makes; a blank or a comment makes none. -/
  content : Option (TokenKind × List Char)
  deriving DecidableEq, Repr

namespace Piece

/-- Whether a character can start a name. -/
def startsName (c : Char) : Bool := c.isAlpha || c == '_'

/-- Whether a character can continue a name. -/
def continuesName (c : Char) : Bool := c.isAlphanum || c == '_'

/-- The token a character makes on its own. -/
def punctuation? : Char → Option TokenKind
  | '{' => some .openBrace
  | '}' => some .closeBrace
  | '(' => some .openParen
  | ')' => some .closeParen
  | '[' => some .openBracket
  | ']' => some .closeBracket
  | '<' => some .less
  | '>' => some .greater
  | '=' => some .equal
  | ',' => some .comma
  | ':' => some .colon
  | ';' => some .semicolon
  | _ => none

/-- Takes a sign off a text. -/
def readSign : List Char → List Char × List Char
  | [] => ([], [])
  | c :: rest => if c = '-' ∨ c = '+' then ([c], rest) else ([], c :: rest)

/-- Takes decimal digits off a text. -/
def readDigits (text : List Char) : List Char × List Char :=
  (text.takeWhile Char.isDigit, text.dropWhile Char.isDigit)

/-- Takes a point and the digits after it off a text. -/
def readFraction : List Char → List Char × List Char
  | [] => ([], [])
  | c :: rest =>
    if c = '.' then (c :: (readDigits rest).1, (readDigits rest).2) else ([], c :: rest)

/-- Takes an exponent off a text; without a digit the mark is not part of the number. -/
def readExponent : List Char → List Char × List Char
  | [] => ([], [])
  | c :: rest =>
    let sign := readSign rest
    let digits := readDigits sign.2
    if (c = 'e' ∨ c = 'E') ∧ digits.1 ≠ [] then (c :: (sign.1 ++ digits.1), digits.2)
    else ([], c :: rest)

/-- Takes the suffix of a float off a text. -/
def readSuffix : List Char → List Char × List Char
  | [] => ([], [])
  | c :: rest => if c = 'f' ∨ c = 'F' then ([c], rest) else ([], c :: rest)

/-- Takes a number off a text: sign, digits, fraction, exponent and suffix, each as far as it
goes. -/
def readNumber (text : List Char) : List Char × List Char :=
  let sign := readSign text
  let whole := readDigits sign.2
  let fraction := readFraction whole.2
  let exponent := readExponent fraction.2
  let suffix := readSuffix exponent.2
  (sign.1 ++ (whole.1 ++ (fraction.1 ++ (exponent.1 ++ suffix.1))), suffix.2)

/-- Whether a text starts with a digit, or with a point and a digit. -/
def startsUnsigned : List Char → Bool
  | '.' :: c :: _ => c.isDigit
  | c :: _ => c.isDigit
  | [] => false

/-- Whether a number stands at the start of a text, possibly after a sign. -/
def startsNumber (text : List Char) : Bool := startsUnsigned (readSign text).2

/-- The rest of a string after its opening quote. -/
structure StringPiece where
  /-- The characters as written, up to and with the closing quote if there is one. -/
  spelling : List Char
  /-- The characters that the string holds. -/
  contents : List Char
  /-- Whether the closing quote was found. -/
  closed : Bool
  /-- What follows. -/
  rest : List Char
  deriving DecidableEq, Repr

/-- Adds a character of a string in front. -/
def StringPiece.prepend (spelling : List Char) (c : Char) (piece : StringPiece) : StringPiece :=
  ⟨spelling ++ piece.spelling, c :: piece.contents, piece.closed, piece.rest⟩

/-- Reads a string after its opening quote. A backslash stands for the character after it; the
string does not go beyond its line. -/
def readString : List Char → StringPiece
  | [] => ⟨[], [], false, []⟩
  | '"' :: rest => ⟨['"'], [], true, rest⟩
  | '\n' :: rest => ⟨[], [], false, '\n' :: rest⟩
  | ['\\'] => ⟨['\\'], [], false, []⟩
  | '\\' :: '\n' :: rest => ⟨['\\'], [], false, '\n' :: rest⟩
  | '\\' :: c :: rest => (readString rest).prepend ['\\', c] c
  | c :: rest => (readString rest).prepend [c] c

/-- Reads a block comment after its opening mark: the comment through its closing mark, and what
follows. -/
def readBlockComment? : List Char → Option (List Char × List Char)
  | [] => none
  | '*' :: '/' :: rest => some (['*', '/'], rest)
  | c :: rest => (readBlockComment? rest).map fun (comment, after) => (c :: comment, after)

/-- Reads a token that is no punctuation mark. -/
def readWord (c : Char) (rest : List Char) : Piece × List Char :=
  if startsName c then
    let name := c :: rest.takeWhile continuesName
    (⟨name, some (.identifier, name)⟩, rest.dropWhile continuesName)
  else if startsNumber (c :: rest) then
    let number := readNumber (c :: rest)
    (⟨number.1, some (.number, number.1)⟩, number.2)
  else if c = '"' then
    let string := readString rest
    let kind := if string.closed then .string else .error .unterminatedString
    (⟨c :: string.spelling, some (kind, string.contents)⟩, string.rest)
  else (⟨[c], some (.error .unexpectedCharacter, [c])⟩, rest)

/-- Takes the first piece off the text `c :: rest`. -/
def read (c : Char) (rest : List Char) : Piece × List Char :=
  if Text.isBlank c then (⟨[c], none⟩, rest)
  else
    match c, rest with
    | '/', '/' :: more =>
      (⟨'/' :: '/' :: more.takeWhile (· != '\n'), none⟩, more.dropWhile (· != '\n'))
    | '/', '*' :: more =>
      match readBlockComment? more with
      | some (comment, after) => (⟨'/' :: '*' :: comment, none⟩, after)
      | none => (⟨'/' :: '*' :: more, some (.error .unterminatedComment, ['/', '*'])⟩, [])
    | _, _ =>
      match punctuation? c with
      | some kind => (⟨[c], some (kind, [c])⟩, rest)
      | none => readWord c rest

/-! ### Spellings tile the text -/

theorem readSign_append (text : List Char) : (readSign text).1 ++ (readSign text).2 = text := by
  cases text with
  | nil => rfl
  | cons c rest => by_cases h : c = '-' ∨ c = '+' <;> simp [readSign, h]

theorem readDigits_append (text : List Char) :
    (readDigits text).1 ++ (readDigits text).2 = text :=
  List.takeWhile_append_dropWhile

theorem readFraction_append (text : List Char) :
    (readFraction text).1 ++ (readFraction text).2 = text := by
  cases text with
  | nil => rfl
  | cons c rest => by_cases h : c = '.' <;> simp [readFraction, h, readDigits_append]

theorem readExponent_append (text : List Char) :
    (readExponent text).1 ++ (readExponent text).2 = text := by
  cases text with
  | nil => rfl
  | cons c rest =>
    simp only [readExponent]
    split
    · simp only [List.cons_append, List.append_assoc, readDigits_append, readSign_append]
    · rfl

theorem readSuffix_append (text : List Char) :
    (readSuffix text).1 ++ (readSuffix text).2 = text := by
  cases text with
  | nil => rfl
  | cons c rest => by_cases h : c = 'f' ∨ c = 'F' <;> simp [readSuffix, h]

/-- A number and what follows it are the text. -/
theorem readNumber_append (text : List Char) :
    (readNumber text).1 ++ (readNumber text).2 = text := by
  simp only [readNumber, List.append_assoc, readSuffix_append, readExponent_append,
    readFraction_append, readDigits_append, readSign_append]

/-- Where a number starts, at least one character is read. -/
theorem readNumber_ne_nil {text : List Char} (h : startsNumber text = true) :
    (readNumber text).1 ≠ [] := by
  unfold startsNumber startsUnsigned at h
  intro hnil
  simp only [readNumber, List.append_eq_nil_iff] at hnil
  obtain ⟨_, hwhole, hfraction, _⟩ := hnil
  split at h
  · rename_i c rest heq
    rw [heq] at hwhole hfraction
    simp [readDigits, readFraction] at hfraction
  · rename_i c rest hdot heq
    rw [heq] at hwhole
    simp [readDigits, h] at hwhole
  · simp at h

/-- The spelling of a string and what follows it are the text after the opening quote. -/
theorem readString_append (text : List Char) :
    (readString text).spelling ++ (readString text).rest = text := by
  fun_induction readString text <;> simp_all [StringPiece.prepend]

/-- A block comment and what follows it are the text after the opening mark. -/
theorem readBlockComment?_append {text comment after : List Char}
    (h : readBlockComment? text = some (comment, after)) : comment ++ after = text := by
  induction text using readBlockComment?.induct generalizing comment with
  | case1 => simp [readBlockComment?] at h
  | case2 rest =>
    simp only [readBlockComment?, Option.some.injEq, Prod.mk.injEq] at h
    simp [← h.1, h.2]
  | case3 c rest hne ih =>
    rw [readBlockComment?.eq_3 c rest hne, Option.map_eq_some_iff] at h
    obtain ⟨⟨inner, after'⟩, hinner, heq⟩ := h
    simp only [Prod.mk.injEq] at heq
    obtain ⟨rfl, rfl⟩ := heq
    simp [ih hinner]

/-- The spelling of a word and what follows it are the text. -/
theorem readWord_append (c : Char) (rest : List Char) :
    (readWord c rest).1.spelling ++ (readWord c rest).2 = c :: rest := by
  unfold readWord
  split
  · simp [List.takeWhile_append_dropWhile]
  · split
    · exact readNumber_append _
    · split
      · simp [readString_append]
      · rfl

theorem readWord_spelling_ne_nil (c : Char) (rest : List Char) :
    (readWord c rest).1.spelling ≠ [] := by
  unfold readWord
  split
  · simp
  · split
    · rename_i h
      exact readNumber_ne_nil h
    · split <;> simp

/-- The spelling of the first piece and what follows it are the text. -/
theorem read_append (c : Char) (rest : List Char) :
    (read c rest).1.spelling ++ (read c rest).2 = c :: rest := by
  unfold read
  split
  · rfl
  · split
    · simp [List.takeWhile_append_dropWhile]
    · split
      · rename_i h
        simp [readBlockComment?_append h]
      · simp
    · split
      · rfl
      · exact readWord_append _ _

/-- A piece has at least one character. -/
theorem read_spelling_ne_nil (c : Char) (rest : List Char) :
    (read c rest).1.spelling ≠ [] := by
  unfold read
  split
  · simp
  · split
    · simp
    · split <;> simp
    · split
      · simp
      · exact readWord_spelling_ne_nil _ _

/-- What follows the first piece is shorter than the text. -/
theorem length_read_lt (c : Char) (rest : List Char) :
    (read c rest).2.length < (c :: rest).length := by
  have happend := congrArg List.length (read_append c rest)
  have hpos := List.length_pos_iff.2 (read_spelling_ne_nil c rest)
  simp only [List.length_append] at happend
  omega

end Piece

end ShaderAssembly
