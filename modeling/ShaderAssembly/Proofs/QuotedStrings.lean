import ShaderAssembly.Proofs.TextTiles

/-!
# Quoted strings

A string is written between quotes, with a backslash before each quote and each backslash in it.
What is written so is read back, whatever follows it. A string that its line or the text ends before
the closing quote is an error that stops there, so that what follows is read as if there had been no
quote.
-/

namespace ShaderAssembly

/-- The characters that write the contents of a string between its quotes: a backslash stands before
each quote and each backslash. -/
def escaped (contents : List Char) : List Char :=
  contents.flatMap fun c => if c = '"' ∨ c = '\\' then ['\\', c] else [c]

/-- Whether the text behind an opening quote is written as contents up to where its line or the text
ends. A backslash may stand last; then it stands for nothing. -/
structure IsUnclosed (written contents escape after : List Char) : Prop where
  /-- There is no closing quote. -/
  isQuoted : IsQuoted written contents
  /-- There may be a backslash. -/
  escape : escape = [] ∨ escape = ['\\']
  /-- No more stands on the line. -/
  endsHere : EndsHere after

/-- Contents that stand on one line are written by their characters. -/
theorem isQuoted_escaped {contents : List Char} (hline : '\n' ∉ contents) :
    IsQuoted (escaped contents) contents := by
  induction contents with
  | nil => exact .nil
  | cons c contents ih =>
    obtain ⟨hc, hcontents⟩ := not_or.mp (List.mem_cons.not.mp hline)
    have hrest := ih hcontents
    rw [escaped, List.flatMap_cons]
    split
    · exact .escaped (Ne.symm hc) hrest
    · rename_i hplain
      obtain ⟨hquote, hescape⟩ := not_or.mp hplain
      exact .plain hquote hescape (Ne.symm hc) hrest

namespace Piece

variable {written contents escape after : List Char}

/-- What stands for contents is read as such, before what is read of the rest. -/
theorem readString_of_isQuoted (h : IsQuoted written contents) (rest : List Char) :
    readString (written ++ rest) =
      ⟨written ++ (readString rest).spelling, contents ++ (readString rest).contents,
        (readString rest).closed, (readString rest).rest⟩ := by
  induction h with
  | nil => rfl
  | plain hquote hescape hline _ ih =>
    rw [List.cons_append, readString.eq_7 _ _ hquote hline (fun h => absurd h hescape)
      (fun _ h => absurd h hescape) (fun _ _ h => absurd h hescape), ih]
    rfl
  | escaped hline _ ih =>
    rw [List.cons_append, List.cons_append, readString.eq_6 _ _ hline, ih]
    rfl

/-- A string that is not closed on its line is read up to the end of the line. -/
theorem readString_of_isUnclosed (h : IsUnclosed written contents escape after) :
    readString (written ++ (escape ++ after)) = ⟨written ++ escape, contents, false, after⟩ := by
  have hend : readString (escape ++ after) = ⟨escape, [], false, after⟩ := by
    cases after with
    | nil => obtain rfl | rfl := h.escape <;> rfl
    | cons c after =>
      obtain rfl := h.endsHere c rfl
      obtain rfl | rfl := h.escape <;> rfl
  rw [readString_of_isQuoted h.isQuoted, hend, List.append_nil]

/-- A string is closed by the first quote that no backslash stands before. -/
theorem readString_of_closed (h : IsQuoted written contents) (after : List Char) :
    readString (written ++ '"' :: after) = ⟨written ++ ['"'], contents, true, after⟩ := by
  have hend : readString ('"' :: after) = ⟨['"'], [], true, after⟩ := rfl
  rw [readString_of_isQuoted h, hend, List.append_nil]

/-- Behind a quote a string is the next piece of a text. -/
theorem read_quote (rest : List Char) :
    read '"' rest =
      (⟨'"' :: (readString rest).spelling,
        some (if (readString rest).closed then .string else .error .unterminatedString,
          (readString rest).contents)⟩, (readString rest).rest) :=
  rfl

/-- What stands behind a quote is closed or not. -/
theorem closed_or_unclosed (text : List Char) :
    (∃ written contents after, text = written ++ '"' :: after ∧ IsQuoted written contents) ∨
      ∃ written contents escape after, text = written ++ (escape ++ after) ∧
        IsUnclosed written contents escape after := by
  have htext := readString_append text
  obtain ⟨written, tail, hspelling, hwritten, ⟨-, rfl⟩ | ⟨-, htail, hafter⟩⟩ :=
    exists_of_readString text
  · rw [hspelling, List.append_assoc] at htext
    exact .inl ⟨written, _, _, htext.symm, hwritten⟩
  · rw [hspelling, List.append_assoc] at htext
    exact .inr ⟨written, _, tail, _, htext.symm, hwritten, htail, hafter⟩

end Piece

namespace Token

variable {rule : Option BlockRule} {file : SourcePath} {state : ScanState}
  {written contents escape after : List Char}

/-- Whether the first token of a text that is read in a state is made by a piece of the text, and
the others are those of what stands behind the piece. -/
def ScansFirst (rule : Option BlockRule) (file : SourcePath) (state : ScanState) (kind : TokenKind)
    (lexeme spelling after : List Char) : Prop :=
  scanFrom rule file state (spelling ++ after) =
    ⟨kind, String.ofList lexeme, .ofPlace file state.place⟩ ::
      scanFrom rule file ((state.taking rule kind lexeme).passing spelling) after

/-- A closed string makes a token of its contents. -/
theorem scansFirst_of_closed (hhead : state.head ≠ .brace) (h : IsQuoted written contents) :
    ScansFirst rule file state .string contents ('"' :: (written ++ ['"'])) after := by
  have hread := Piece.read_quote (written ++ '"' :: after)
  rw [Piece.readString_of_closed h after] at hread
  rw [ScansFirst, List.cons_append, List.append_assoc]
  exact scanFrom_token hhead hread rfl nofun

/-- A string that is not closed makes an error of its contents. -/
theorem scansFirst_of_isUnclosed (hhead : state.head ≠ .brace)
    (h : IsUnclosed written contents escape after) :
    ScansFirst rule file state (.error .unterminatedString) contents ('"' :: (written ++ escape))
      after := by
  have hread := Piece.read_quote (written ++ (escape ++ after))
  rw [Piece.readString_of_isUnclosed h] at hread
  rw [ScansFirst, List.cons_append, List.append_assoc]
  exact scanFrom_token hhead hread rfl nofun

/-- Where no code block comes next, a string is read back as it was before it was written, whatever
follows it. Every other quote opens a string that is closed later on its line, or an error that ends
before the end of the line. -/
theorem strings_are_read_back (rule : Option BlockRule) (file : SourcePath) (state : ScanState)
    (hhead : state.head ≠ .brace) :
    (∀ contents after, '\n' ∉ contents →
      ScansFirst rule file state .string contents ('"' :: (escaped contents ++ ['"'])) after) ∧
    (∀ written contents escape after, IsUnclosed written contents escape after →
      ScansFirst rule file state (.error .unterminatedString) contents
        ('"' :: (written ++ escape)) after) ∧
    ∀ text,
      (∃ written contents after, text = written ++ '"' :: after ∧ IsQuoted written contents ∧
        ScansFirst rule file state .string contents ('"' :: (written ++ ['"'])) after) ∨
      ∃ written contents escape after, text = written ++ (escape ++ after) ∧
        IsUnclosed written contents escape after := by
  refine ⟨fun contents after hline => ?_, fun written contents escape after h => ?_, fun text => ?_⟩
  · exact scansFirst_of_closed hhead (isQuoted_escaped hline)
  · exact scansFirst_of_isUnclosed hhead h
  · refine (Piece.closed_or_unclosed text).imp_left ?_
    rintro ⟨written, contents, after, htext, h⟩
    exact ⟨written, contents, after, htext, h, scansFirst_of_closed hhead h⟩

/-- Quotes behind backslashes do not close a string, and a backslash does not join two lines. -/
theorem strings_are_read_back_at_start :
    scanFrom none ⟨"/a.glsl"⟩ .start "\"say \\\"hi\\\" \\\\\";".toList =
        ⟨.string, "say \"hi\" \\", ⟨⟨"/a.glsl"⟩, 1, 1⟩⟩ ::
          scanFrom none ⟨"/a.glsl"⟩ ⟨⟨1, 16⟩, 0, some .string, .none⟩ [';'] ∧
      scanFrom none ⟨"/a.glsl"⟩ .start "\"say\\\n;".toList =
        ⟨.error .unterminatedString, "say", ⟨⟨"/a.glsl"⟩, 1, 1⟩⟩ ::
          scanFrom none ⟨"/a.glsl"⟩ ⟨⟨1, 6⟩, 0, some (.error .unterminatedString), .none⟩
            ['\n', ';'] := by
  obtain ⟨hclosed, hunclosed, -⟩ :=
    strings_are_read_back none ⟨"/a.glsl"⟩ .start (by decide)
  have hsay := @isQuoted_escaped "say".toList (by decide)
  exact ⟨hclosed "say \"hi\" \\".toList [';'] (by decide),
    hunclosed _ "say".toList ['\\'] ['\n', ';'] ⟨hsay, .inr rfl, by simp [EndsHere]⟩⟩

end Token

end ShaderAssembly
