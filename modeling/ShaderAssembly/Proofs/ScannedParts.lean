import ShaderAssembly.Proofs.MovedItems
import ShaderAssembly.Proofs.TextTiles

/-!
# Reading a text part by part

No piece of a text goes beyond a line feed, except block comments and bodies, which go on until they
are closed. So a text that is read to its end is read in the same way if a line feed and another
text stand behind it, and the other text is read in the state that the first one leads to. Where a
text stands only moves the positions of its tokens.
-/

namespace ShaderAssembly

/-! ### Readers that stop at line feeds -/

namespace Piece

/-- Whether what is taken off a text stays the same if a line feed and more stand behind it. -/
def StopsAtLine (read : List Char → List Char × List Char) : Prop :=
  ∀ text more, read (text ++ '\n' :: more) = ((read text).1, (read text).2 ++ '\n' :: more)

section Lines

variable {p : Char → Bool} (text more : List Char)

theorem takeWhile_append_line (hp : p '\n' = false) :
    (text ++ '\n' :: more).takeWhile p = text.takeWhile p := by
  induction text with
  | nil => simp [hp]
  | cons c text ih => by_cases hc : p c = true <;> simp [hc, ih]

theorem dropWhile_append_line (hp : p '\n' = false) :
    (text ++ '\n' :: more).dropWhile p = text.dropWhile p ++ '\n' :: more := by
  induction text with
  | nil => simp [hp]
  | cons c text ih => by_cases hc : p c = true <;> simp [hc, ih]

theorem stopsAtLine_readSign : StopsAtLine readSign := by
  rintro (_ | ⟨c, text⟩) more
  · rfl
  · by_cases h : c = '-' ∨ c = '+' <;> simp [readSign, h]

theorem stopsAtLine_readDigits : StopsAtLine readDigits := fun text more =>
  Prod.ext (takeWhile_append_line text more rfl) (dropWhile_append_line text more rfl)

theorem stopsAtLine_readFraction : StopsAtLine readFraction := by
  rintro (_ | ⟨c, text⟩) more
  · rfl
  · by_cases h : c = '.' <;> simp [readFraction, h, stopsAtLine_readDigits text more]

theorem stopsAtLine_readExponent : StopsAtLine readExponent := by
  rintro (_ | ⟨c, text⟩) more
  · rfl
  · simp only [List.cons_append, readExponent, stopsAtLine_readSign text more,
      stopsAtLine_readDigits _ more]
    split <;> rfl

theorem stopsAtLine_readSuffix : StopsAtLine readSuffix := by
  rintro (_ | ⟨c, text⟩) more
  · rfl
  · by_cases h : c = 'f' ∨ c = 'F' <;> simp [readSuffix, h]

theorem stopsAtLine_readNumber : StopsAtLine readNumber := by
  intro text more
  simp only [readNumber, stopsAtLine_readSign text more, stopsAtLine_readDigits _ more,
    stopsAtLine_readFraction _ more, stopsAtLine_readExponent _ more,
    stopsAtLine_readSuffix _ more]

theorem startsNumber_append_line :
    startsNumber (text ++ '\n' :: more) = startsNumber text := by
  have hunsigned : ∀ text : List Char,
      startsUnsigned (text ++ '\n' :: more) = startsUnsigned text := by
    rintro (_ | ⟨c, _ | ⟨d, text⟩⟩)
    · rfl
    · by_cases hc : c = '.'
      · subst hc
        rfl
      · simp [startsUnsigned, hc]
    · by_cases hc : c = '.' <;> simp [startsUnsigned, hc]
  rw [startsNumber, stopsAtLine_readSign, hunsigned]
  rfl

/-- A string does not go beyond its line. -/
theorem readString_append_line : readString (text ++ '\n' :: more) =
    { readString text with rest := (readString text).rest ++ '\n' :: more } := by
  fun_induction readString text with
  | case6 c text hend ih => simp [readString, ih, StringPiece.prepend]
  | case7 c text hquote hend hnone hline hother ih =>
    have hslash : c ≠ '\\' := by
      intro hc
      cases text with
      | nil => exact hnone hc rfl
      | cons d text => exact hother d text hc rfl
    rw [List.cons_append, readString.eq_7 c _ hquote hend (fun hc => absurd hc hslash)
      (fun _ hc => absurd hc hslash) (fun _ _ hc => absurd hc hslash), ih]
    rfl
  | _ => rfl

/-- A block comment that is closed is the same whatever stands behind it. -/
theorem readBlockComment?_append_of_some {comment after : List Char}
    (h : readBlockComment? text = some (comment, after)) :
    readBlockComment? (text ++ more) = some (comment, after ++ more) := by
  fun_induction readBlockComment? text generalizing comment with
  | case1 => cases h
  | case2 rest =>
    cases h
    rfl
  | case3 c rest hne ih =>
    obtain ⟨⟨inner, behind⟩, hinner, heq⟩ := Option.map_eq_some_iff.mp h
    obtain ⟨rfl, rfl⟩ := Prod.mk.inj heq
    have hother : ∀ others, c = '*' → rest ++ more = '/' :: others → False := by
      intro others hc hmore
      cases rest with
      | nil => simp [readBlockComment?] at hinner
      | cons d rest => exact hne rest hc (by rw [(List.cons.inj hmore).1])
    rw [List.cons_append, readBlockComment?.eq_3 c _ hother, ih hinner]
    rfl

/-- A word does not go beyond its line. -/
theorem readWord_append_line (c : Char) : readWord c (text ++ '\n' :: more) =
    ((readWord c text).1, (readWord c text).2 ++ '\n' :: more) := by
  have hname := takeWhile_append_line text more (p := continuesName) rfl
  have hrest := dropWhile_append_line text more (p := continuesName) rfl
  have hnumber : readNumber (c :: (text ++ '\n' :: more)) =
      ((readNumber (c :: text)).1, (readNumber (c :: text)).2 ++ '\n' :: more) :=
    stopsAtLine_readNumber (c :: text) more
  have hstarts : startsNumber (c :: (text ++ '\n' :: more)) = startsNumber (c :: text) :=
    startsNumber_append_line (c :: text) more
  unfold readWord
  rw [hname, hrest, hnumber, hstarts, readString_append_line]
  split
  · rfl
  · split
    · rfl
    · split <;> rfl

/-- What is no blank and starts no comment is a mark or a word. -/
theorem read_of_ordinary {c : Char} (hblank : ¬ Text.isBlank c = true)
    (hline : ∀ others, c = '/' → text = '/' :: others → False)
    (hblock : ∀ others, c = '/' → text = '*' :: others → False) :
    read c text = match punctuation? c with
      | some kind => (⟨[c], some (kind, [c])⟩, text)
      | none => readWord c text := by
  unfold read
  rw [if_neg hblank]
  split
  · exact absurd rfl (hline _ rfl)
  · exact absurd rfl (hblock _ rfl)
  · rfl

/-- A piece does not go beyond its line, but for block comments that are not closed there. -/
theorem read_append_line (c : Char)
    (h : ∀ lexeme, (read c text).1.content ≠ some (.error .unterminatedComment, lexeme)) :
    read c (text ++ '\n' :: more) = ((read c text).1, (read c text).2 ++ '\n' :: more) := by
  by_cases hblank : Text.isBlank c = true
  · unfold read
    rw [if_pos hblank, if_pos hblank]
  by_cases hline : ∃ others, c = '/' ∧ text = '/' :: others
  · obtain ⟨others, rfl, rfl⟩ := hline
    have hcomment := takeWhile_append_line others more (p := (· != '\n')) rfl
    have hrest := dropWhile_append_line others more (p := (· != '\n')) rfl
    unfold read
    simp [hblank, hcomment, hrest]
  by_cases hblock : ∃ others, c = '/' ∧ text = '*' :: others
  · obtain ⟨others, rfl, rfl⟩ := hblock
    cases hcomment : readBlockComment? others with
    | none =>
      refine absurd ?_ (h ['/', '*'])
      unfold read
      simp [hblank, hcomment]
    | some parts =>
      have hlonger := readBlockComment?_append_of_some others ('\n' :: more) hcomment
      unfold read
      simp [hblank, hcomment, hlonger]
  have hmark : ∀ d others, d ≠ '\n' → text ++ '\n' :: more = d :: others →
      ∃ rest, text = d :: rest := by
    intro d others hd heq
    cases text with
    | nil => exact absurd (List.cons.inj heq).1.symm hd
    | cons e rest => exact ⟨rest, by rw [(List.cons.inj heq).1]⟩
  rw [read_of_ordinary text hblank (fun others hc htext => hline ⟨others, hc, htext⟩)
      (fun others hc htext => hblock ⟨others, hc, htext⟩),
    read_of_ordinary (text ++ '\n' :: more) hblank ?_ ?_]
  · cases punctuation? c with
    | some kind => rfl
    | none => exact readWord_append_line text more c
  · intro others hc htext
    obtain ⟨rest, hrest⟩ := hmark '/' others (by decide) htext
    exact hline ⟨rest, hc, hrest⟩
  · intro others hc htext
    obtain ⟨rest, hrest⟩ := hmark '*' others (by decide) htext
    exact hblock ⟨rest, hc, hrest⟩

end Lines

end Piece

/-! ### Texts behind other texts -/

namespace ScanState

variable {rule : Option BlockRule} {state : ScanState}

/-- What is passed over does not matter to what tokens lead to, but for the place. -/
theorem after_passing (text : List Char) (tokens : List Token) :
    (state.passing text).after rule tokens = (state.after rule tokens).passing text := by
  induction tokens generalizing state with
  | nil => rfl
  | cons token tokens ih => exact @ih (state.taking rule token.kind token.lexeme.toList)

/-- Tokens do not move the place. -/
theorem place_after (tokens : List Token) : (state.after rule tokens).place = state.place := by
  induction tokens generalizing state with
  | nil => rfl
  | cons token tokens ih => exact @ih (state.taking rule token.kind token.lexeme.toList)

/-- Passing over two texts one after the other is passing over both. -/
theorem passing_append (left right : List Char) :
    state.passing (left ++ right) = (state.passing left).passing right :=
  congrArg (fun place => { state with place }) (state.place.after_append left right)

/-- Behind a body the state is that of the brace before it, but for what stands before. -/
theorem after_body {body : Token} (hbody : body.kind = .body) (tokens : List Token) (text : String)
    (position : Position) :
    state.after rule (body :: ⟨.closeBrace, text, position⟩ :: tokens) =
      (state.taking rule .closeBrace text.toList).after rule tokens := by
  have hclosing : (state.taking rule body.kind body.lexeme.toList).taking rule .closeBrace
      text.toList = state.taking rule .closeBrace text.toList := by
    cases rule <;> simp [taking, headAfter, hbody]
  simp only [after, List.foldl_cons, hclosing]

end ScanState

namespace Token

variable {rule : Option BlockRule} {file : SourcePath} {state : ScanState}

/-- A body that is read is the same whatever stands behind it. -/
theorem readBody?_append_of_some {text body after : List Char} (more : List Char)
    (h : readBody? 0 text = some (body, after)) :
    readBody? 0 (text ++ more) = some (body, after ++ more) := by
  rw [← readBody?_append h, List.append_assoc]
  exact (isBraced_of_readBody? h).readBody? (after ++ more)

/-- A token that is not the end of the file stands before it. -/
theorem exists_of_cons_eq_endAt {token : Token} {more tokens : List Token} {position : Position}
    (h : token :: more = tokens ++ [TokenStream.endAt position]) (hkind : token.kind ≠ .endOfFile) :
    ∃ others, tokens = token :: others ∧ more = others ++ [TokenStream.endAt position] := by
  rcases List.cons_eq_append_iff.mp h with ⟨-, hend⟩ | hmore
  · obtain ⟨rfl, -⟩ := List.cons.inj hend
    exact absurd rfl hkind
  · exact hmore

/-- Where a text is read to its end, a line feed and another text may stand behind it: it is read as
before, and the other one in the state that its tokens lead to. -/
theorem scanFrom_append_line {text : List Char} {tokens : List Token} {position : Position}
    (rest : List Char)
    (h : scanFrom rule file state text = tokens ++ [TokenStream.endAt position]) :
    scanFrom rule file state (text ++ '\n' :: rest) =
      tokens ++ scanFrom rule file ((state.after rule tokens).passing (text ++ ['\n'])) rest := by
  fun_induction scanFrom rule file state text generalizing tokens with
  | case1 state text _ hbrace =>
    obtain ⟨others, -, hend⟩ := exists_of_cons_eq_endAt h (by simp)
    simp at hend
  | case2 state text _ hbrace body after hbody closing =>
    rename_i ih
    obtain ⟨_, rfl, hclosing⟩ := exists_of_cons_eq_endAt h (by simp)
    obtain ⟨others, rfl, hafter⟩ := exists_of_cons_eq_endAt hclosing (by simp)
    have hpassed : text ++ ['\n'] = body ++ (['}'] ++ (after ++ ['\n'])) := by
      rw [← readBody?_append hbody]
      simp
    rw [scanFrom_body hbrace (readBody?_append_of_some ('\n' :: rest) hbody), ih hafter,
      ScanState.after_body rfl, hpassed, ScanState.passing_append, ScanState.passing_append,
      ScanState.after_passing]
    simp only [ScanState.passing_append, ← ScanState.after_passing]
    rfl
  | case3 state =>
    rename_i hhead
    obtain rfl : tokens = [] := by
      rcases List.singleton_eq_append_iff.mp h with ⟨rfl, -⟩ | ⟨-, hend⟩
      · rfl
      · cases hend
    exact scanFrom_blank hhead rfl
  | case4 state hbrace c text piece after hcontent =>
    rename_i ih
    have hpassed : c :: text ++ ['\n'] = piece.spelling ++ (after ++ ['\n']) := by
      rw [← List.append_assoc, Piece.read_append]
    have hread := Piece.read_append_line text rest c (by rw [hcontent]; simp)
    rw [List.cons_append, scanFrom_trivia hbrace hread hcontent, ih h, hpassed]
    simp only [ScanState.passing_append, ScanState.after_passing, piece]
  | case5 state _ hbrace c text piece lexeme hcontent =>
    obtain ⟨others, -, hend⟩ := exists_of_cons_eq_endAt h (by simp)
    simp at hend
  | case6 state _ hbrace c text piece after kind lexeme hcontent token hkind =>
    rename_i ih
    obtain ⟨others, rfl, hafter⟩ := exists_of_cons_eq_endAt h (Piece.read_ne_end hcontent).1
    have hpassed : c :: text ++ ['\n'] = piece.spelling ++ (after ++ ['\n']) := by
      rw [← List.append_assoc, Piece.read_append]
    have hread := Piece.read_append_line text rest c (by rw [hcontent]; simp [hkind])
    have htaking : state.after rule (token :: others) =
        (state.taking rule kind lexeme).after rule others := by
      simp [ScanState.after, token]
    rw [List.cons_append, scanFrom_token hbrace hread hcontent hkind, ih hafter, hpassed, htaking]
    simp only [ScanState.passing_append, ScanState.after_passing, List.cons_append, token, piece]
    rfl

end Token

/-! ### Texts further down -/

/-- The place that is a number of lines further down. -/
def Place.below (place : Place) (lines : Nat) : Place := ⟨place.line + lines, place.column⟩

/-- The position that is a number of lines further down. -/
def Position.below (lines : Nat) (position : Position) : Position :=
  ⟨position.file, position.line + lines, position.column⟩

/-- A text leads as many lines further as it has line feeds, wherever it starts. -/
theorem Place.after_below (place : Place) (lines : Nat) (text : List Char) :
    (place.below lines).after text = (place.after text).below lines := by
  induction text generalizing place with
  | nil => rfl
  | cons c text ih =>
    rw [after_cons, after_cons, ← ih]
    congr 1
    by_cases hc : c = '\n' <;> simp [next, below, hc, Nat.add_right_comm]

/-- Whether two states read the same tokens, in the second one a number of lines further down. -/
structure ScanState.IsBelow (rule : BlockRule) (lines : Nat) (state other : ScanState) : Prop where
  /-- The texts that are left start that far from each other. -/
  place : other.place = state.place.below lines
  /-- As many braces are open. -/
  depth : other.depth = state.depth
  /-- As much of the head of a block has been read. -/
  head : other.head = state.head
  /-- A declaration can start in both or in neither. -/
  declaration : other.atDeclaration rule = state.atDeclaration rule

namespace ScanState.IsBelow

variable {rule : BlockRule} {lines : Nat} {state other : ScanState}

theorem passing (h : IsBelow rule lines state other) (text : List Char) :
    IsBelow rule lines (state.passing text) (other.passing text) where
  place := (congrArg (·.after text) h.place).trans (state.place.after_below lines text)
  depth := h.depth
  head := h.head
  declaration := h.declaration

theorem taking (h : IsBelow rule lines state other) (kind : TokenKind) (lexeme : List Char) :
    IsBelow rule lines (state.taking (some rule) kind lexeme)
      (other.taking (some rule) kind lexeme) where
  place := h.place
  depth := by simp only [ScanState.taking, h.depth]
  head := by simp only [ScanState.taking, headAfter, h.head, h.declaration]
  declaration := by simp only [ScanState.taking, atDeclaration, h.depth]

/-- A text that is read further down has the same tokens further down. -/
theorem scanFrom (h : IsBelow rule lines state other) (file : SourcePath) (text : List Char) :
    Token.scanFrom (some rule) file other text =
      (Token.scanFrom (some rule) file state text).map (·.mapPosition (Position.below lines)) := by
  have hposition : ∀ {state other : ScanState}, IsBelow rule lines state other →
      Position.ofPlace file other.place = (Position.ofPlace file state.place).below lines := by
    intro state other hstates
    rw [hstates.place]
    rfl
  fun_induction Token.scanFrom (some rule) file state text generalizing other with
  | case1 state text position hbrace =>
    rename_i hbody
    rw [Token.scanFrom_openBody (h.head.trans hbrace) hbody]
    simp [Token.mapPosition, hposition h, position]
  | case2 state text position hbrace body after hbody closing =>
    rename_i ih
    rw [Token.scanFrom_body (h.head.trans hbrace) hbody,
      ih (((h.passing body).taking _ _).passing _)]
    simp [Token.mapPosition, hposition h, hposition (h.passing body), position, closing]
  | case3 state position =>
    rename_i hhead
    rw [Token.scanFrom_nil (h.head ▸ hhead)]
    simp [Token.mapPosition, hposition h, position]
  | case4 state hhead c text piece after hcontent =>
    rename_i ih
    have hread : Piece.read c text = (piece, after) := rfl
    rw [Token.scanFrom_trivia (h.head ▸ hhead) hread hcontent, ih (h.passing _)]
  | case5 state position hhead c text piece lexeme hcontent =>
    have hread : Piece.read c text = (piece, (Piece.read c text).2) := rfl
    rw [Token.scanFrom_openComment (h.head ▸ hhead) hread hcontent, hposition h]
    rfl
  | case6 state position hhead c text piece after kind lexeme hcontent token hkind =>
    rename_i ih
    have hread : Piece.read c text = (piece, after) := rfl
    rw [Token.scanFrom_token (h.head ▸ hhead) hread hcontent hkind,
      ih ((h.taking kind lexeme).passing _)]
    simp [Token.mapPosition, hposition h, token, position]

end ScanState.IsBelow

end ShaderAssembly
