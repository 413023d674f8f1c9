import ShaderAssembly.Proofs.ParserRuns
import ShaderAssembly.Proofs.ScannedParts
import ShaderAssembly.Proofs.TextTiles
import ShaderAssembly.Proofs.WholeNumbers

/-!
# Scanned numbers are parsed numbers

Numbers are described twice. Scanning takes a sign, digits, a fraction, an exponent and a suffix off
a text, each as far as it goes; parsing drops the suffix of a lexeme and reads the rest as a decimal
text. Both descriptions are of the same texts: what is scanned as a number is parsed as one, so that
no parser refuses it, and each part stops where the next one starts, so that a number that stands
alone is scanned as a whole.
-/

namespace ShaderAssembly

/-! ### How parts of a number start -/

/-- Whether a text is empty or starts with one of some characters. -/
def StartsIn (allowed text : List Char) : Prop := ∀ c ∈ text.head?, c ∈ allowed

theorem StartsIn.append {allowed others left right : List Char} (hleft : StartsIn allowed left)
    (hright : StartsIn others right) : StartsIn (allowed ++ others) (left ++ right) := by
  intro c hc
  cases left with
  | nil => exact List.mem_append_right _ (hright c hc)
  | cons d left => exact List.mem_append_left _ (hleft c hc)

/-- What all of the characters have, the first one has. -/
theorem StartsIn.imp {allowed text : List Char} {p : Char → Prop} (h : StartsIn allowed text)
    (hp : ∀ c ∈ allowed, p c) : ∀ c ∈ text.head?, p c :=
  fun c hc => hp c (h c hc)

theorem isSign_iff {text : List Char} : IsSign text ↔ text = [] ∨ text = ['-'] ∨ text = ['+'] := by
  simp [IsSign]

/-- What starts an unsigned number is no sign. -/
theorem ne_sign_of_unsigned {c : Char} (h : c.isDigit = true ∨ c = '.') : c ≠ '-' ∧ c ≠ '+' := by
  constructor <;> rintro rfl <;> exact absurd h (by decide)

theorem IsDigits.ne_sign {digits : List Char} (h : IsDigits digits) :
    ∀ c ∈ digits.head?, c ≠ '-' ∧ c ≠ '+' :=
  fun c hc => ne_sign_of_unsigned (.inl (h c (List.mem_of_mem_head? hc)))

/-- An unsigned number starts with a digit or with a point. -/
theorem Piece.first_of_startsUnsigned {c : Char} {rest : List Char}
    (h : startsUnsigned (c :: rest) = true) : c.isDigit = true ∨ c = '.' := by
  by_cases hpoint : c = '.'
  · exact .inr hpoint
  · exact .inl (by simpa [startsUnsigned, hpoint] using h)

namespace IsNumber

variable {sign whole fraction exponent suffix : List Char}

theorem suffix_eq (h : IsNumber sign whole fraction exponent suffix) :
    suffix = [] ∨ suffix = ['f'] ∨ suffix = ['F'] := by
  simpa using h.isSuffix

theorem startsIn_suffix (h : IsNumber sign whole fraction exponent suffix) :
    StartsIn ['f', 'F'] suffix := by
  obtain rfl | rfl | rfl := h.suffix_eq <;> simp [StartsIn]

theorem startsIn_exponent (h : IsNumber sign whole fraction exponent suffix) :
    StartsIn ['e', 'E'] exponent := by
  obtain rfl | ⟨mark, _, _, rfl, hmark, -⟩ := h.isExponent
  · simp [StartsIn]
  · simpa [StartsIn] using hmark

theorem startsIn_fraction (h : IsNumber sign whole fraction exponent suffix) :
    StartsIn ['.'] fraction := by
  obtain rfl | ⟨_, rfl, -⟩ := h.isFraction <;> simp [StartsIn]

/-- Behind the sign a number starts with a digit, or with a point and a digit. -/
theorem exists_first (h : IsNumber sign whole fraction exponent suffix) (rest : List Char) :
    ∃ first others, whole ++ (fraction ++ rest) = first :: others ∧
      Piece.startsUnsigned (first :: others) = true := by
  cases whole with
  | cons first whole =>
    have hfirst : first.isDigit = true := h.isWhole first List.mem_cons_self
    have hpoint : first ≠ '.' := by
      rintro rfl
      exact absurd hfirst (by decide)
    exact ⟨first, _, rfl, by simpa [Piece.startsUnsigned, hpoint] using hfirst⟩
  | nil =>
    have hlength : 1 < fraction.length := h.hasDigit.resolve_left (absurd rfl)
    obtain rfl | ⟨digits, rfl, hdigits⟩ := h.isFraction
    · cases hlength
    · obtain ⟨digit, digits, rfl⟩ :=
        List.exists_cons_of_length_pos (Nat.succ_lt_succ_iff.mp hlength)
      exact ⟨'.', _, rfl, hdigits digit List.mem_cons_self⟩

end IsNumber

/-! ### What is scanned

Each part of a number is read up to where the next one starts.
-/

namespace Piece

variable {sign digits fraction exponent suffix rest : List Char}

theorem readSign_sign (hsign : IsSign sign) (hrest : ∀ c ∈ rest.head?, c ≠ '-' ∧ c ≠ '+') :
    readSign (sign ++ rest) = (sign, rest) := by
  obtain rfl | rfl | rfl := isSign_iff.mp hsign
  · cases rest with
    | nil => rfl
    | cons c rest => exact if_neg (not_or.mpr (hrest c rfl))
  · rfl
  · rfl

theorem readDigits_digits (hdigits : IsDigits digits)
    (hrest : ∀ c ∈ rest.head?, c.isDigit = false) :
    readDigits (digits ++ rest) = (digits, rest) := by
  obtain ⟨htake, hdrop⟩ := takeWhile_and_dropWhile_append hdigits hrest
  rw [readDigits, htake, hdrop]

theorem readFraction_fraction
    (hfraction : fraction = [] ∨ ∃ digits, fraction = '.' :: digits ∧ IsDigits digits)
    (hrest : ∀ c ∈ rest.head?, c ≠ '.' ∧ c.isDigit = false) :
    readFraction (fraction ++ rest) = (fraction, rest) := by
  obtain rfl | ⟨digits, rfl, hdigits⟩ := hfraction
  · cases rest with
    | nil => rfl
    | cons c rest => exact if_neg (hrest c rfl).1
  · rw [List.cons_append, readFraction, if_pos rfl,
      readDigits_digits hdigits fun c hc => (hrest c hc).2]

theorem readExponent_exponent
    (hexponent : exponent = [] ∨ ∃ mark sign digits, exponent = mark :: (sign ++ digits) ∧
      (mark = 'e' ∨ mark = 'E') ∧ IsSign sign ∧ digits ≠ [] ∧ IsDigits digits)
    (hrest : ∀ c ∈ rest.head?, ¬ (c = 'e' ∨ c = 'E') ∧ c.isDigit = false) :
    readExponent (exponent ++ rest) = (exponent, rest) := by
  obtain rfl | ⟨mark, sign, digits, rfl, hmark, hsign, hsome, hdigits⟩ := hexponent
  · cases rest with
    | nil => rfl
    | cons c rest => exact if_neg fun hc => (hrest c rfl).1 hc.1
  · have hunsigned : ∀ c ∈ (digits ++ rest).head?, c ≠ '-' ∧ c ≠ '+' := by
      rw [List.head?_append_of_ne_nil _ hsome]
      exact hdigits.ne_sign
    have hread := readDigits_digits hdigits fun c hc => (hrest c hc).2
    simp only [List.cons_append, List.append_assoc, readExponent,
      readSign_sign hsign hunsigned, hread, if_pos (And.intro hmark hsome)]

theorem readSuffix_suffix (hsuffix : suffix = [] ∨ suffix = ['f'] ∨ suffix = ['F']) :
    readSuffix suffix = (suffix, []) := by
  obtain rfl | rfl | rfl := hsuffix <;> rfl

/-- Whether a character is neither a blank nor a mark and starts neither a comment nor a name. -/
def IsOrdinary (c : Char) : Prop :=
  Text.isBlank c = false ∧ c ≠ '/' ∧ punctuation? c = none ∧ startsName c = false

instance : DecidablePred IsOrdinary := fun _ => inferInstanceAs (Decidable (_ ∧ _ ∧ _ ∧ _))

theorem isOrdinary_of_isDigit {c : Char} (h : c.isDigit = true) : IsOrdinary c := by
  have hrange : 48 ≤ c.toNat ∧ c.toNat ≤ 57 := by
    simpa [Char.isDigit, UInt32.le_iff_toNat_le] using h
  refine ⟨?_, ?_, ?_, ?_⟩
  · simp only [Text.isBlank, Bool.or_eq_false_iff, Bool.and_eq_false_iff,
      decide_eq_false_iff_not, beq_eq_false_iff_ne]
    omega
  · rintro rfl
    exact absurd h (by decide)
  · unfold punctuation?
    split <;> first | rfl | exact absurd h (by decide)
  · refine Bool.eq_false_iff.mpr fun hname => ?_
    have hletter := range_of_startsName hname
    omega

/-- What stands at the start of a number is read as no other piece. -/
theorem isOrdinary_of_startsNumber {c : Char} (h : startsNumber (c :: rest) = true) :
    IsOrdinary c := by
  rw [startsNumber, readSign] at h
  split at h
  · rename_i hsign
    rcases hsign with rfl | rfl <;> decide
  · obtain hdigit | rfl := first_of_startsUnsigned h
    · exact isOrdinary_of_isDigit hdigit
    · decide

/-- Where a number starts, a number is the next piece of a text. -/
theorem read_number {c : Char} (h : startsNumber (c :: rest) = true) :
    read c rest =
      (⟨(readNumber (c :: rest)).1, some (.number, (readNumber (c :: rest)).1)⟩,
        (readNumber (c :: rest)).2) := by
  obtain ⟨hblank, hslash, hmark, hname⟩ := isOrdinary_of_startsNumber h
  rw [read_of_ordinary rest (by simp [hblank]) (fun _ hc => absurd hc hslash)
    (fun _ hc => absurd hc hslash), hmark]
  simp [readWord, hname, h]

end Piece

namespace IsNumber

variable {sign whole fraction exponent suffix : List Char}
  (h : IsNumber sign whole fraction exponent suffix)

include h

/-- Behind the sign of a number there is no sign. -/
theorem ne_sign (rest : List Char) :
    ∀ c ∈ (whole ++ (fraction ++ rest)).head?, c ≠ '-' ∧ c ≠ '+' := by
  obtain ⟨first, others, hunsigned, hfirst⟩ := h.exists_first rest
  intro c hc
  rw [hunsigned] at hc
  obtain rfl := Option.some.inj hc
  exact ne_sign_of_unsigned (Piece.first_of_startsUnsigned hfirst)

/-- A number is read as a whole. -/
theorem readNumber_eq :
    Piece.readNumber (sign ++ (whole ++ (fraction ++ (exponent ++ suffix)))) =
      (sign ++ (whole ++ (fraction ++ (exponent ++ suffix))), []) := by
  have hexponent := h.startsIn_exponent.append h.startsIn_suffix
  have hfraction := h.startsIn_fraction.append hexponent
  rw [Piece.readNumber, Piece.readSign_sign h.isSign (h.ne_sign _),
    Piece.readDigits_digits h.isWhole (hfraction.imp (by simp)),
    Piece.readFraction_fraction h.isFraction (hexponent.imp (by simp)),
    Piece.readExponent_exponent h.isExponent (h.startsIn_suffix.imp (by simp)),
    Piece.readSuffix_suffix h.suffix_eq]

/-- A number starts where it stands. -/
theorem startsNumber_eq :
    Piece.startsNumber (sign ++ (whole ++ (fraction ++ (exponent ++ suffix)))) = true := by
  rw [Piece.startsNumber, Piece.readSign_sign h.isSign (h.ne_sign _)]
  obtain ⟨first, others, hunsigned, hfirst⟩ := h.exists_first (exponent ++ suffix)
  rw [hunsigned]
  exact hfirst

end IsNumber

/-- A number that stands alone is scanned as one token. -/
theorem Token.scan_number {sign whole fraction exponent suffix : List Char}
    (h : IsNumber sign whole fraction exponent suffix) (rule : Option BlockRule)
    (file : SourcePath) {text : List Char}
    (htext : text = sign ++ (whole ++ (fraction ++ (exponent ++ suffix)))) :
    scan rule file (String.ofList text) =
      [⟨.number, String.ofList text, .ofPlace file .start⟩,
        ⟨.endOfFile, "", .ofPlace file (Place.start.after text)⟩] := by
  have hread := h.readNumber_eq
  have hstarts := h.startsNumber_eq
  rw [← htext] at hread hstarts
  cases text with
  | nil => cases hstarts
  | cons c rest =>
    have hpiece := Piece.read_number hstarts
    rw [hread] at hpiece
    rw [scan, String.toList_ofList, scanFrom_token (by decide) hpiece rfl (by simp), scanFrom_nil]
    · rfl
    · exact fun hbrace => absurd (head_taking_eq_brace hbrace) (by simp)

/-! ### What is parsed -/

/-- A sign is told apart from what follows it. -/
theorem Decimal.takeSign_append {sign unsigned : List Char} (hsign : IsSign sign)
    (hunsigned : ∀ c ∈ unsigned.head?, c ≠ '-' ∧ c ≠ '+') :
    takeSign (sign ++ unsigned) = (decide (sign = ['-']), unsigned) := by
  obtain rfl | rfl | rfl := isSign_iff.mp hsign
  · cases unsigned with
    | nil => rfl
    | cons c rest =>
      have hc := hunsigned c rfl
      simp [takeSign, hc.1, hc.2]
  · rfl
  · rfl

section Marks

open Number (isSuffix marksFloat)

variable {text : List Char}

/-- A sign is neither a suffix nor a mark of floats. -/
theorem IsSign.plain (h : IsSign text) : ∀ c ∈ text, isSuffix c = false ∧ marksFloat c = false := by
  obtain rfl | rfl | rfl := isSign_iff.mp h <;> simp [isSuffix, marksFloat]

theorem IsDigits.plain (h : IsDigits text) :
    ∀ c ∈ text, isSuffix c = false ∧ marksFloat c = false :=
  fun c hc => Number.plain_of_isDigit (h c hc)

end Marks

namespace IsNumber

variable {sign whole fraction exponent suffix : List Char}
  (h : IsNumber sign whole fraction exponent suffix)

include h

/-- An exponent is read as one. -/
theorem exists_readExponent? : ∃ n, Decimal.readExponent? exponent = some n := by
  obtain rfl | ⟨mark, sign, digits, rfl, hmark, hsign, hsome, hdigits⟩ := h.isExponent
  · exact ⟨0, rfl⟩
  · simp [Decimal.readExponent?, hmark, Decimal.takeSign_append hsign hdigits.ne_sign,
      isDigits_iff.mpr ⟨hsome, hdigits⟩]

/-- A number without its sign and its suffix is read as a decimal number. -/
theorem exists_readUnsigned? (negative : Bool) :
    ∃ decimal, Decimal.readUnsigned? negative (whole ++ (fraction ++ exponent)) = some decimal := by
  obtain ⟨n, hn⟩ := h.exists_readExponent?
  have hfraction := h.startsIn_fraction.append h.startsIn_exponent
  obtain ⟨htake, hdrop⟩ :=
    Piece.takeWhile_and_dropWhile_append h.isWhole (hfraction.imp (by simp))
  unfold Decimal.readUnsigned?
  rw [htake, hdrop]
  obtain rfl | ⟨digits, rfl, hdigits⟩ := h.isFraction
  · have hwhole : whole ≠ [] := h.hasDigit.resolve_right (by simp)
    have hpoint : ∀ more, exponent ≠ '.' :: more := by
      rintro more rfl
      exact absurd (h.startsIn_exponent '.' rfl) (by decide)
    simp [hn, hwhole]
  · have hsome : ¬ (whole = [] ∧ digits = []) := by
      rintro ⟨rfl, rfl⟩
      simpa using h.hasDigit
    obtain ⟨hdigitsTake, hdigitsDrop⟩ :=
      Piece.takeWhile_and_dropWhile_append hdigits (h.startsIn_exponent.imp (by simp))
    simp only [List.cons_append, hdigitsTake, hdigitsDrop, if_neg hsome, hn, Option.map_some,
      Option.some.injEq, exists_eq']

/-- No character before the suffix of a number is one. -/
theorem isSuffix_eq_false :
    ∀ c ∈ sign ++ (whole ++ (fraction ++ exponent)), Number.isSuffix c = false := by
  intro c hc
  simp only [List.mem_append] at hc
  rcases hc with hc | hc | hc | hc
  · exact (h.isSign.plain c hc).1
  · exact (h.isWhole.plain c hc).1
  · obtain rfl | ⟨digits, rfl, hdigits⟩ := h.isFraction
    · cases hc
    · rcases List.mem_cons.mp hc with rfl | hc
      · decide
      · exact (hdigits.plain c hc).1
  · obtain rfl | ⟨mark, sign, digits, rfl, hmark, hsign, -, hdigits⟩ := h.isExponent
    · cases hc
    · rcases List.mem_cons.mp hc with rfl | hc
      · rcases hmark with rfl | rfl <;> decide
      · rcases List.mem_append.mp hc with hc | hc
        · exact (hsign.plain c hc).1
        · exact (hdigits.plain c hc).1

/-- Before the suffix of a number, a fraction or an exponent marks it as a float. -/
theorem any_marksFloat : (sign ++ (whole ++ (fraction ++ exponent))).any Number.marksFloat = true ↔
    fraction ≠ [] ∨ exponent ≠ [] := by
  have hfraction : fraction.any Number.marksFloat = true ↔ fraction ≠ [] := by
    obtain rfl | ⟨digits, rfl, -⟩ := h.isFraction <;> simp [Number.marksFloat]
  have hexponent : exponent.any Number.marksFloat = true ↔ exponent ≠ [] := by
    obtain rfl | ⟨mark, sign, digits, rfl, rfl | rfl, -⟩ := h.isExponent <;>
      simp [Number.marksFloat]
  have hsign : sign.any Number.marksFloat = false :=
    List.any_eq_false.mpr fun c hc => by simp [(h.isSign.plain c hc).2]
  have hwhole : whole.any Number.marksFloat = false :=
    List.any_eq_false.mpr fun c hc => by simp [(h.isWhole.plain c hc).2]
  rw [List.any_append, List.any_append, List.any_append, hsign, hwhole, Bool.false_or,
    Bool.false_or, Bool.or_eq_true, hfraction, hexponent]

/-- A number is parsed, and its fraction, exponent and suffix make it a float. -/
theorem exists_parse? :
    ∃ number, Number.parse?
        (String.ofList (sign ++ (whole ++ (fraction ++ (exponent ++ suffix))))) = some number ∧
      (number.isFloat = true ↔ fraction ≠ [] ∨ exponent ≠ [] ∨ suffix ≠ []) := by
  have hsuffix : ∀ c ∈ suffix, Number.isSuffix c = true := by
    obtain rfl | rfl | rfl := h.suffix_eq <;> simp [Number.isSuffix]
  obtain ⟨first, others, hunsigned, hfirst⟩ := h.exists_first exponent
  have hletter : first.toLower ≠ 'i' ∧ first.toLower ≠ 'n' := by
    obtain hdigit | rfl := Piece.first_of_startsUnsigned hfirst
    · exact toLower_ne_of_isDigit hdigit
    · decide
  have hsign := Decimal.takeSign_append h.isSign (h.ne_sign exponent)
  rw [hunsigned] at hsign
  obtain ⟨decimal, hdecimal⟩ := h.exists_readUnsigned? (decide (sign = ['-']))
  have hread : readBinary64? (sign ++ (whole ++ (fraction ++ exponent))) =
      some decimal.toBinary64 := by
    rw [hunsigned, readBinary64?_of_unsigned hsign hletter, ← hunsigned, hdecimal,
      Option.map_some]
  have hparse := Number.parse?_append h.isSuffix_eq_false hsuffix
  simp only [List.append_assoc] at hparse
  rw [hparse, hread, Option.map_some]
  refine ⟨_, rfl, ?_⟩
  dsimp only
  rw [Bool.or_eq_true, h.any_marksFloat, decide_eq_true_eq, or_comm, or_assoc]

end IsNumber

/-- A token that is parsed as a number is taken as that number. -/
theorem Parser.reads_expectNumber {stream : TokenStream} {number : Number}
    (hkind : stream.next.kind = .number)
    (hnumber : Number.parse? stream.next.lexeme = some number) :
    Reads expectNumber stream number stream.rest := by
  have hexpect : Reads (expect .number "a number") stream stream.next stream.rest := by
    rw [expect, reads_bind_of_run (sees_run .number stream), hkind, beq_self_eq_true, if_pos rfl]
    exact reads_of_run (take_run stream)
  rw [expectNumber, reads_bind_of_reads hexpect, hnumber]
  exact reads_pure number stream.rest

namespace Token

/-- Whether a token writes a number by some parts, and is parsed as that number. -/
structure WritesNumber (token : Token) (sign whole fraction exponent suffix : List Char)
    (number : Number) : Prop where
  /-- The parts make a number. -/
  isNumber : IsNumber sign whole fraction exponent suffix
  /-- The lexeme has the parts and nothing else. -/
  lexeme : token.lexeme.toList = sign ++ (whole ++ (fraction ++ (exponent ++ suffix)))
  /-- The lexeme is parsed as the number. -/
  parse : Number.parse? token.lexeme = some number
  /-- The number is a float exactly if there is a point, an exponent or a suffix. -/
  isFloat : number.isFloat = true ↔ fraction ≠ [] ∨ exponent ≠ [] ∨ suffix ≠ []
  /-- Where the token comes next, a parser that asks for a number takes it as that number. -/
  reads : ∀ stream : TokenStream, stream.next = token →
    Parser.Reads Parser.expectNumber stream number stream.rest

/-- Whether a token writes some number that it is parsed as. -/
def IsParsedNumber (token : Token) : Prop :=
  ∃ sign whole fraction exponent suffix number,
    token.WritesNumber sign whole fraction exponent suffix number

/-- A token that is written as a number is parsed as one. -/
theorem isParsedNumber_of_isNumber {token : Token} (hkind : token.kind = .number)
    {sign whole fraction exponent suffix : List Char}
    (hlexeme : token.lexeme.toList = sign ++ (whole ++ (fraction ++ (exponent ++ suffix))))
    (h : IsNumber sign whole fraction exponent suffix) : token.IsParsedNumber := by
  obtain ⟨number, hnumber, hfloat⟩ := h.exists_parse?
  rw [← hlexeme, String.ofList_toList] at hnumber
  refine ⟨sign, whole, fraction, exponent, suffix, number, h, hlexeme, hnumber, hfloat, ?_⟩
  rintro stream rfl
  exact Parser.reads_expectNumber hkind hnumber

/-- What is scanned as a number is parsed as one, and a number that stands alone is scanned as one
token. -/
theorem scanned_numbers_are_parsed (rule : Option BlockRule) (file : SourcePath) :
    (∀ text, ∀ token ∈ scan rule file text, token.kind = .number → token.IsParsedNumber) ∧
      ∀ text sign whole fraction exponent suffix, IsNumber sign whole fraction exponent suffix →
        text = sign ++ (whole ++ (fraction ++ (exponent ++ suffix))) →
          scan rule file (String.ofList text) =
            [⟨.number, String.ofList text, .ofPlace file .start⟩,
              ⟨.endOfFile, "", .ofPlace file (Place.start.after text)⟩] := by
  constructor
  · intro text token htoken hkind
    obtain ⟨_, spelling, after, -, hspells, -⟩ := exists_spells_of_mem_scan htoken
    rw [hkind] at hspells
    generalize hlexeme : token.lexeme.toList = lexeme at hspells
    cases hspells with
    | number hnumber => exact isParsedNumber_of_isNumber hkind hlexeme hnumber
    | mark hmark =>
      unfold Piece.punctuation? at hmark
      split at hmark <;> cases hmark
  · intro text sign whole fraction exponent suffix h htext
    exact scan_number h rule file htext

/-- A number may have all parts but the digits before its point. -/
theorem parsed_number_without_whole :
    scan none ⟨"/a.glsl"⟩ "-.5e+3f" =
        [⟨.number, "-.5e+3f", ⟨⟨"/a.glsl"⟩, 1, 1⟩⟩, ⟨.endOfFile, "", ⟨⟨"/a.glsl"⟩, 1, 8⟩⟩] ∧
      (⟨.number, "-.5e+3f", ⟨⟨"/a.glsl"⟩, 1, 1⟩⟩ : Token).IsParsedNumber := by
  have hscan := (scanned_numbers_are_parsed none ⟨"/a.glsl"⟩).2 "-.5e+3f".toList
    ['-'] [] ['.', '5'] ['e', '+', '3'] ['f']
    ⟨by decide, by decide, .inr ⟨['5'], rfl, by decide⟩,
      .inr ⟨'e', ['+'], ['3'], rfl, .inl rfl, by decide, by decide, by decide⟩, by decide,
      .inr (by decide)⟩ rfl
  refine ⟨hscan, (scanned_numbers_are_parsed none ⟨"/a.glsl"⟩).1 "-.5e+3f" _ ?_ rfl⟩
  exact hscan ▸ List.mem_cons_self

end Token

end ShaderAssembly
