import ShaderAssembly.Proofs.Actions
import ShaderAssembly.Proofs.GrammarPhrases

/-!
# Runs of parsers

A run of a parser takes tokens off a stream and gives a value. A parser recognizes a phrase if its
runs take exactly the lists of tokens that write a value of the phrase, and give that value. Some
parsers look one token further to see where to stop; of those the phrases are only recognized
before tokens that cannot continue them. The end of a file is never taken, so that all of this is
about streams that end with it.
-/

namespace ShaderAssembly.Parser

open Grammar

variable {α β γ : Type}

/-- Whether a parser that is run on a stream gives a value and leaves another stream. -/
def Reads (parser : Parser α) (stream : TokenStream) (value : α) (after : TokenStream) : Prop :=
  parser.outcomeFrom stream = .ok value ∧ parser.stateFrom stream = after

/-- Whether all that a run of a parser on a stream can give has a property. -/
def Ensures (parser : Parser α) (stream : TokenStream) (post : α → TokenStream → Prop) : Prop :=
  ∀ value after, Reads parser stream value after → post value after

/-- Whether a parser takes exactly the tokens that write a value of a phrase, where a token of a
kind in `follow` comes next. -/
structure Recognizes (parser : Parser α) (phrase : Phrase α)
    (follow : TokenKind → Prop := fun _ => True) : Prop where
  /-- What is taken is a phrase, and the value is what it writes. -/
  sound : ∀ {last : Token} {tokens : List Token}, last.kind = .endOfFile →
    Ensures parser ⟨tokens, last⟩ fun value after =>
      ∃ taken rest, tokens = taken ++ rest ∧ after = ⟨rest, last⟩ ∧ phrase taken value
  /-- A phrase is taken and gives what it writes. -/
  complete : ∀ {last : Token} {taken rest : List Token} {value : α},
    last.kind = .endOfFile → phrase taken value → follow (TokenStream.next ⟨rest, last⟩).kind →
      Reads parser ⟨taken ++ rest, last⟩ value ⟨rest, last⟩

/-! ### Single steps -/

section Steps

variable {parser : Parser α} {next : α → Parser β} {stream final : TokenStream} {result : β}
  {post : β → TokenStream → Prop}

/-- A run of two parsers in a row is a run of one and then of the other. -/
theorem reads_bind : Reads (parser >>= next) stream result final ↔
    ∃ value after, Reads parser stream value after ∧ Reads (next value) after result final := by
  constructor
  · rintro ⟨houtcome, hstate⟩
    obtain ⟨value, hvalue, hresult⟩ := Action.outcomeFrom_bind_eq_ok.mp houtcome
    rw [Action.stateFrom_bind_of_ok hvalue] at hstate
    exact ⟨value, _, ⟨hvalue, rfl⟩, hresult, hstate⟩
  · rintro ⟨value, _, ⟨hvalue, rfl⟩, hresult, hstate⟩
    refine ⟨Action.outcomeFrom_bind_eq_ok.mpr ⟨value, hvalue, hresult⟩, ?_⟩
    rw [Action.stateFrom_bind_of_ok hvalue, hstate]

/-- What follows a parser that gives a value starts where that stops. -/
theorem reads_bind_of_reads {value : α} {after : TokenStream}
    (h : Reads parser stream value after) :
    Reads (parser >>= next) stream result final ↔ Reads (next value) after result final := by
  obtain ⟨houtcome, hstate⟩ := h
  simp [Reads, Action.outcomeFrom_bind, Action.stateFrom_bind, houtcome, hstate, Except.bind]

/-- The same for what is ensured. -/
theorem ensures_bind_of_reads {value : α} {after : TokenStream}
    (h : Reads parser stream value after) :
    Ensures (parser >>= next) stream post ↔ Ensures (next value) after post :=
  forall₂_congr fun _ _ => by rw [reads_bind_of_reads h]

/-- What a run is equal to is read. -/
theorem reads_of_run {value : α} {after : TokenStream} (h : parser stream = (pure value, after)) :
    Reads parser stream value after := by
  rw [Reads, Action.outcomeFrom, Action.stateFrom, h]
  exact ⟨rfl, rfl⟩

theorem reads_bind_of_run {value : α} {after : TokenStream}
    (h : parser stream = (pure value, after)) :
    Reads (parser >>= next) stream result final ↔ Reads (next value) after result final :=
  reads_bind_of_reads (reads_of_run h)

theorem ensures_bind_of_run {value : α} {after : TokenStream}
    (h : parser stream = (pure value, after)) :
    Ensures (parser >>= next) stream post ↔ Ensures (next value) after post :=
  ensures_bind_of_reads (reads_of_run h)

theorem reads_pure (value : α) (stream : TokenStream) :
    Reads (pure value : Parser α) stream value stream :=
  ⟨rfl, rfl⟩

/-- A record in the journal takes no tokens. -/
theorem reads_record (level : Level) (message : String) (stream : TokenStream) :
    Reads (Action.record level message : Parser Unit) stream () stream :=
  ⟨rfl, rfl⟩

theorem ensures_pure {value : α} {post : α → TokenStream → Prop} (h : post value stream) :
    Ensures (pure value : Parser α) stream post := by
  rintro _ _ ⟨⟨⟩, rfl⟩
  exact h

/-- A failure gives no value. -/
theorem not_reads_throw {error : Error} {value : α} {after : TokenStream} :
    ¬ Reads (throw error : Parser α) stream value after :=
  fun h => nomatch h.1

theorem not_reads_unexpected {expected : String} {value : α} {after : TokenStream} :
    ¬ Reads (unexpected expected : Parser α) stream value after := by
  intro h
  obtain ⟨token, _, -, h⟩ := reads_bind.mp h
  split at h <;> exact not_reads_throw h

theorem ensures_throw {error : Error} {post : α → TokenStream → Prop} :
    Ensures (throw error : Parser α) stream post :=
  fun _ _ h => absurd h not_reads_throw

theorem ensures_unexpected {expected : String} {post : α → TokenStream → Prop} :
    Ensures (unexpected expected : Parser α) stream post :=
  fun _ _ h => absurd h not_reads_unexpected

theorem ensures_bind {middle : α → TokenStream → Prop} (h : Ensures parser stream middle)
    (hnext : ∀ value after, middle value after → Ensures (next value) after post) :
    Ensures (parser >>= next) stream post := by
  intro result final hreads
  obtain ⟨value, after, hvalue, hresult⟩ := reads_bind.mp hreads
  exact hnext value after (h value after hvalue) result final hresult

theorem ensures_throw_bind {error : Error} :
    Ensures ((throw error : Parser α) >>= next) stream post := fun _ _ h => by
  obtain ⟨_, _, h, -⟩ := reads_bind.mp h
  exact absurd h not_reads_throw

/-- A value that is changed before it is used. -/
theorem reads_map_bind {f : α → γ} {next : γ → Parser β} :
    Reads (f <$> parser >>= next) stream result final ↔
      Reads (parser >>= fun value => next (f value)) stream result final := by
  have hmap : f <$> parser = parser >>= fun value => pure (f value) := rfl
  simp only [hmap, reads_bind]
  constructor
  · rintro ⟨_, _, ⟨value, after, hvalue, ⟨⟨⟩, rfl⟩⟩, hresult⟩
    exact ⟨value, _, hvalue, hresult⟩
  · rintro ⟨value, after, hvalue, hresult⟩
    exact ⟨_, _, ⟨value, after, hvalue, rfl, rfl⟩, hresult⟩

/-- A refusal on some condition, and what follows it otherwise. -/
theorem ensures_refusing {condition : Prop} [Decidable condition] {refusal : Parser PUnit}
    {next : PUnit → Parser β} (hrefusal : Ensures refusal stream fun _ _ => False)
    (hnext : ¬ condition → Ensures (next ⟨⟩) stream post) :
    Ensures (if condition then refusal >>= next else next ⟨⟩) stream post := by
  by_cases hcondition : condition
  · rw [if_pos hcondition]
    exact ensures_bind hrefusal nofun
  · rw [if_neg hcondition]
    exact hnext hcondition

end Steps

/-! ### Phrases one after the other -/

section Sequence

variable {parser : Parser α} {phrase : Phrase α} {follow : TokenKind → Prop}
  {next : α → Parser β} {last : Token} {tokens taken rest : List Token} {value : α}
  {final : TokenStream} {result : β} {post : β → TokenStream → Prop}

/-- A run that starts with a phrase goes on after the tokens of the phrase. -/
theorem Recognizes.ensures (h : Recognizes parser phrase follow) (hlast : last.kind = .endOfFile)
    (hnext : ∀ taken value rest, tokens = taken ++ rest → phrase taken value →
      Ensures (next value) ⟨rest, last⟩ post) :
    Ensures (parser >>= next) ⟨tokens, last⟩ post := by
  refine ensures_bind (h.sound hlast) ?_
  rintro value _ ⟨taken, rest, htokens, rfl, hphrase⟩
  exact hnext taken value rest htokens hphrase

/-- Before the tokens of a phrase a run may start with the phrase. -/
theorem Recognizes.then (h : Recognizes parser phrase follow) (hlast : last.kind = .endOfFile)
    (hphrase : phrase taken value) (hfollow : follow (TokenStream.next ⟨rest, last⟩).kind)
    (hreads : Reads (next value) ⟨rest, last⟩ result final) :
    Reads (parser >>= next) ⟨taken ++ rest, last⟩ result final :=
  reads_bind.mpr ⟨value, _, h.complete hlast hphrase hfollow, hreads⟩

/-- Before a token that is a phrase a run may start with the phrase. -/
theorem Recognizes.thenToken {token : Token} (h : Recognizes parser phrase follow)
    (hlast : last.kind = .endOfFile) (hphrase : phrase [token] value)
    (hfollow : follow (TokenStream.next ⟨rest, last⟩).kind)
    (hreads : Reads (next value) ⟨rest, last⟩ result final) :
    Reads (parser >>= next) ⟨token :: rest, last⟩ result final :=
  h.then hlast hphrase hfollow hreads

/-- A phrase whose value is changed. -/
theorem Recognizes.map (h : Recognizes parser phrase follow) (f : α → γ) :
    Recognizes (do return f (← parser))
      (fun tokens changed => ∃ value, phrase tokens value ∧ changed = f value) follow where
  sound := by
    intro last tokens hlast
    refine h.ensures hlast fun taken value rest htokens hphrase => ?_
    exact ensures_pure ⟨taken, rest, htokens, rfl, value, hphrase, rfl⟩
  complete := by
    rintro last taken rest _ hlast ⟨value, hphrase, rfl⟩ hfollow
    exact h.then hlast hphrase hfollow (reads_pure _ _)

/-- The same phrase in other words. -/
theorem Recognizes.congr (h : Recognizes parser phrase follow) {other : Phrase α}
    (hother : ∀ tokens value, other tokens value ↔ phrase tokens value) :
    Recognizes parser other follow where
  sound hlast value after hreads := by
    obtain ⟨taken, rest, htokens, hafter, hphrase⟩ := h.sound hlast value after hreads
    exact ⟨taken, rest, htokens, hafter, (hother _ _).mpr hphrase⟩
  complete hlast hphrase hfollow := h.complete hlast ((hother _ _).mp hphrase) hfollow

end Sequence

/-! ### Tokens -/

section Tokens

variable {last token : Token} {tokens rest : List Token} {kind : TokenKind}

theorem isKeyword_iff {word : String} :
    token.isKeyword word = true ↔ token.kind = .identifier ∧ token.lexeme = word := by
  simp [Token.isKeyword]

/-- A keyword is no end of a file. -/
theorem kind_ne_of_isKeyword {word : String} (h : token.isKeyword word = true) :
    token.kind ≠ .endOfFile := by
  intro hkind
  simp [Token.isKeyword, hkind] at h

/-- A token is only one keyword. -/
theorem not_isKeyword_of_isKeyword {word other : String} (hne : word ≠ other)
    (h : token.isKeyword word = true) : ¬ token.isKeyword other = true := fun hother =>
  hne ((isKeyword_iff.mp h).2.symm.trans (isKeyword_iff.mp hother).2)

/-- Only names are keywords. -/
theorem not_isKeyword_of_kind {word : String} (h : token.kind ≠ .identifier) :
    ¬ token.isKeyword word = true := by
  simp [Token.isKeyword, h]

/-- Before the end of the file there is a token to take. -/
theorem exists_cons_of_next (hlast : last.kind = .endOfFile)
    (hnext : (TokenStream.next ⟨tokens, last⟩).kind ≠ .endOfFile) :
    ∃ rest, tokens = TokenStream.next ⟨tokens, last⟩ :: rest := by
  cases tokens with
  | nil => exact absurd hlast hnext
  | cons token rest => exact ⟨rest, rfl⟩

/-- Taking a token that is not the end of the file. -/
theorem ensures_take {post : Token → TokenStream → Prop} (hlast : last.kind = .endOfFile)
    (hnext : (TokenStream.next ⟨tokens, last⟩).kind ≠ .endOfFile)
    (hpost : ∀ token rest, tokens = token :: rest → post token ⟨rest, last⟩) :
    Ensures take ⟨tokens, last⟩ post := by
  obtain ⟨rest, hrest⟩ := exists_cons_of_next hlast hnext
  rintro _ _ ⟨⟨⟩, rfl⟩
  have hpost := hpost _ rest hrest
  rwa [hrest]

theorem sees_run (kind : TokenKind) (stream : TokenStream) :
    sees kind stream = (pure (stream.next.kind == kind), stream) := rfl

theorem seesKeyword_run (word : String) (stream : TokenStream) :
    seesKeyword word stream = (pure (stream.next.isKeyword word), stream) := rfl

theorem peek_run (stream : TokenStream) : peek stream = (pure stream.next, stream) := rfl

theorem take_run (stream : TokenStream) : take stream = (pure stream.next, stream.rest) := rfl

/-- A token that is known to stand next is taken. -/
theorem ensures_take_cons {next : Token → Parser β} {post : β → TokenStream → Prop}
    (hnext : Ensures (next token) ⟨rest, last⟩ post) :
    Ensures (take >>= next) ⟨token :: rest, last⟩ post :=
  (ensures_bind_of_run (take_run _)).mpr hnext

theorem reads_take_cons {next : Token → Parser β} {result : β} {final : TokenStream}
    (hreads : Reads (next token) ⟨rest, last⟩ result final) :
    Reads (take >>= next) ⟨token :: rest, last⟩ result final :=
  (reads_bind_of_run (take_run _)).mpr hreads

/-- A token that is not the end of the file is taken before more follows. -/
theorem ensures_take_bind {next : Token → Parser β} {post : β → TokenStream → Prop}
    (hlast : last.kind = .endOfFile)
    (hkind : (TokenStream.next ⟨tokens, last⟩).kind ≠ .endOfFile)
    (hnext : ∀ token rest, tokens = token :: rest → Ensures (next token) ⟨rest, last⟩ post) :
    Ensures (take >>= next) ⟨tokens, last⟩ post := by
  cases tokens with
  | nil => exact absurd hlast hkind
  | cons token rest => exact ensures_take_cons (hnext token rest rfl)

/-- A token of the right kind is taken if it is asked for. -/
theorem reads_expect (expected : String) (hkind : token.kind = kind) :
    Reads (expect kind expected) ⟨token :: rest, last⟩ token ⟨rest, last⟩ := by
  have hsees : (TokenStream.next ⟨token :: rest, last⟩).kind = kind := hkind
  rw [expect, reads_bind_of_run (sees_run kind _), hsees, beq_self_eq_true, if_pos rfl]
  exact ⟨rfl, rfl⟩

/-- A token that is asked for is taken if it is of the right kind. -/
theorem recognizes_expect (kind : TokenKind) (expected : String) (hkind : kind ≠ .endOfFile) :
    Recognizes (expect kind expected) (Single kind) where
  sound := by
    intro last tokens hlast
    rw [expect, ensures_bind_of_run (sees_run kind _)]
    split
    · rename_i hsees
      have hnext : (TokenStream.next ⟨tokens, last⟩).kind = kind := by simpa using hsees
      refine ensures_take hlast (hnext ▸ hkind) ?_
      rintro token rest rfl
      exact ⟨[token], rest, rfl, rfl, .token hnext⟩
    · exact ensures_unexpected
  complete := by
    rintro last _ rest token - ⟨hkind⟩ -
    exact reads_expect expected hkind

/-- A mark that is asked for is taken. -/
theorem recognizes_expectMark (kind : TokenKind) (hkind : kind ≠ .endOfFile) :
    Recognizes (expectMark kind) fun tokens _ => ∃ mark, tokens = [mark] ∧ mark.kind = kind := by
  refine ((recognizes_expect kind kind.description hkind).map fun _ => ()).congr fun tokens _ => ?_
  constructor
  · rintro ⟨mark, rfl, hmark⟩
    exact ⟨mark, .token hmark, rfl⟩
  · rintro ⟨mark, ⟨hmark⟩, -⟩
    exact ⟨mark, rfl, hmark⟩

/-- A run that starts with a mark goes on after the mark. -/
theorem ensures_mark {next : Unit → Parser β} {post : β → TokenStream → Prop} (kind : TokenKind)
    (hkind : kind ≠ .endOfFile) (hlast : last.kind = .endOfFile)
    (hnext : ∀ mark rest, tokens = mark :: rest → mark.kind = kind →
      Ensures (next ()) ⟨rest, last⟩ post) :
    Ensures (expectMark kind >>= next) ⟨tokens, last⟩ post := by
  refine (recognizes_expectMark kind hkind).ensures hlast ?_
  rintro _ _ rest rfl ⟨mark, rfl, hmark⟩
  exact hnext mark rest rfl hmark

/-- Before a mark a run may start with the mark. -/
theorem thenMark {next : Unit → Parser β} {result : β} {final : TokenStream}
    (hmark : token.kind = kind) (hreads : Reads (next ()) ⟨rest, last⟩ result final) :
    Reads (expectMark kind >>= next) ⟨token :: rest, last⟩ result final := by
  have htake : Reads (expectMark kind) ⟨token :: rest, last⟩ () ⟨rest, last⟩ :=
    reads_bind.2 ⟨token, _, reads_expect _ hmark, reads_pure _ _⟩
  exact (reads_bind_of_reads htake).mpr hreads

/-- The end of the file is only read where it stands next. -/
theorem ensures_end {stream : TokenStream} : Ensures (expectMark .endOfFile) stream fun _ _ =>
    stream.next.kind = .endOfFile := by
  have hexpect : Ensures (expect .endOfFile (TokenKind.description .endOfFile)) stream
      fun _ _ => stream.next.kind = .endOfFile := by
    rw [expect, ensures_bind_of_run (sees_run _ _)]
    split
    · rename_i hsees
      exact fun _ _ _ => by simpa using hsees
    · exact ensures_unexpected
  exact ensures_bind hexpect fun _ _ hnext => ensures_pure hnext

theorem reads_end (hlast : last.kind = .endOfFile) :
    Reads (expectMark .endOfFile) ⟨[], last⟩ () ⟨[], last⟩ := by
  have hsees : (TokenStream.next ⟨[], last⟩).kind = .endOfFile := hlast
  rw [expectMark, expect]
  refine reads_bind.mpr ⟨last, ⟨[], last⟩, ?_, reads_pure _ _⟩
  rw [reads_bind_of_run (sees_run _ _), hsees, beq_self_eq_true, if_pos rfl]
  exact ⟨rfl, rfl⟩

/-- Whether the end of the file is the last token, and only that. -/
def EndsOnce (tokens : List Token) : Prop :=
  ∃ pending last, tokens = pending ++ [last] ∧ last.kind = .endOfFile ∧
    ∀ token ∈ pending, token.kind ≠ .endOfFile

theorem ofTokens_append {path : SourcePath} (hlast : last.kind = .endOfFile) :
    TokenStream.ofTokens path (tokens ++ [last]) = ⟨tokens, last⟩ := by
  simp [TokenStream.ofTokens, hlast]

/-- Where no token before the last one is the end of the file, that stands next after all of
them only. -/
theorem eq_nil_of_next (hnext : (TokenStream.next ⟨rest, last⟩).kind = .endOfFile)
    (hrest : ∀ token ∈ rest, token.kind ≠ .endOfFile) : rest = [] := by
  cases rest with
  | nil => rfl
  | cons token more => exact absurd hnext (hrest token List.mem_cons_self)

theorem recognizes_expectName (expected : String) :
    Recognizes (expectName expected) (Single .identifier) :=
  recognizes_expect .identifier expected nofun

theorem recognizes_expectString (expected : String) :
    Recognizes (expectString expected) (fun tokens text =>
      ∃ token, Single .string tokens token ∧ text = token.lexeme) :=
  (recognizes_expect .string expected nofun).map Token.lexeme

theorem recognizes_expectNumber : Recognizes expectNumber IsNumber where
  sound := by
    intro last tokens hlast
    refine (recognizes_expect .number "a number" nofun).ensures hlast ?_
    rintro _ token rest rfl ⟨hkind⟩
    split
    · rename_i hvalue
      exact ensures_pure ⟨_, rest, rfl, rfl, .number hkind hvalue⟩
    · exact ensures_throw
  complete := by
    rintro last _ rest number hlast ⟨hkind, hvalue⟩ -
    refine (recognizes_expect .number "a number" nofun).then hlast (.token hkind) trivial ?_
    rw [hvalue]
    exact reads_pure _ _

theorem recognizes_expectKeyword (word : String) :
    Recognizes (expectKeyword word)
      (fun tokens token => tokens = [token] ∧ token.isKeyword word = true) where
  sound := by
    intro last tokens hlast
    rw [expectKeyword, ensures_bind_of_run (seesKeyword_run word _)]
    split
    · rename_i hsees
      refine ensures_take hlast (kind_ne_of_isKeyword hsees) ?_
      rintro token rest rfl
      exact ⟨[token], rest, rfl, rfl, rfl, hsees⟩
    · exact ensures_unexpected
  complete := by
    rintro last _ rest token - ⟨rfl, hsees⟩ -
    have hnext : (TokenStream.next ⟨[token] ++ rest, last⟩).isKeyword word = true := hsees
    rw [expectKeyword, reads_bind_of_run (seesKeyword_run word _), hnext, if_pos rfl]
    exact ⟨rfl, rfl⟩

end Tokens

/-! ### Tokens that may be missing -/

section Attempts

variable {condition : Token → Prop} {yes : Token → γ} {no : γ} {parser : Parser γ}
  {next : γ → Parser β} {last token : Token} {tokens rest : List Token} {final : TokenStream}
  {result : β} {post : β → TokenStream → Prop}

/-- Whether a parser takes the next token if that satisfies a condition, and says so. -/
structure Tries (parser : Parser γ) (condition : Token → Prop) (yes : Token → γ) (no : γ) :
    Prop where
  /-- The token is taken. -/
  taken : ∀ {stream : TokenStream}, condition stream.next →
    parser stream = (pure (yes stream.next), stream.rest)
  /-- The token is left. -/
  left : ∀ {stream : TokenStream}, ¬ condition stream.next → parser stream = (pure no, stream)

theorem tries_takeIf (kind : TokenKind) : Tries (takeIf kind) (·.kind = kind) some none := by
  have hstep : ∀ stream, takeIf kind stream = (if stream.next.kind == kind then
      (some <$> take : Parser (Option Token)) else pure none) stream := fun _ => rfl
  refine ⟨fun {stream} hkind => ?_, fun {stream} hkind => ?_⟩
  · rw [hstep, if_pos (by simpa using hkind)]
    rfl
  · rw [hstep, if_neg (by simpa using hkind)]
    rfl

theorem tries_accept (kind : TokenKind) :
    Tries (accept kind) (·.kind = kind) (fun _ => true) false := by
  have hstep : ∀ stream, accept kind stream =
      (takeIf kind).andThen (fun token? => pure token?.isSome) stream := fun _ => rfl
  refine ⟨fun {stream} hkind => ?_, fun {stream} hkind => ?_⟩
  · rw [hstep, Action.andThen, (tries_takeIf kind).taken hkind]
    rfl
  · rw [hstep, Action.andThen, (tries_takeIf kind).left hkind]
    rfl

theorem tries_acceptKeyword (word : String) :
    Tries (acceptKeyword word) (·.isKeyword word = true) (fun _ => true) false := by
  have hstep : ∀ stream, acceptKeyword word stream = (if stream.next.isKeyword word = true then
      (do let _ ← take; return true) else pure false : Parser Bool) stream := fun _ => rfl
  refine ⟨fun {stream} hword => ?_, fun {stream} hword => ?_⟩
  · rw [hstep, if_pos hword]
    rfl
  · rw [hstep, if_neg hword]
    rfl

/-- A run that tries a token either takes it or goes on without it. -/
theorem Tries.ensures (h : Tries parser condition yes no) (hlast : ¬ condition last)
    (htaken : ∀ token rest, tokens = token :: rest → condition token →
      Ensures (next (yes token)) ⟨rest, last⟩ post)
    (hleft : ¬ condition (TokenStream.next ⟨tokens, last⟩) →
      Ensures (next no) ⟨tokens, last⟩ post) :
    Ensures (parser >>= next) ⟨tokens, last⟩ post := by
  by_cases hcondition : condition (TokenStream.next ⟨tokens, last⟩)
  · rw [ensures_bind_of_run (h.taken hcondition)]
    cases tokens with
    | nil => exact absurd hcondition hlast
    | cons token rest => exact htaken token rest rfl hcondition
  · rw [ensures_bind_of_run (h.left hcondition)]
    exact hleft hcondition

/-- A token that is tried and stands next is taken. -/
theorem Tries.thenTake (h : Tries parser condition yes no) (htoken : condition token)
    (hreads : Reads (next (yes token)) ⟨rest, last⟩ result final) :
    Reads (parser >>= next) ⟨token :: rest, last⟩ result final := by
  have hrun : parser ⟨token :: rest, last⟩ = (pure (yes token), ⟨rest, last⟩) := h.taken htoken
  exact (reads_bind_of_run hrun).mpr hreads

/-- Where a token that is tried does not stand next, nothing is taken. -/
theorem Tries.thenLeave (h : Tries parser condition yes no)
    (hnext : ¬ condition (TokenStream.next ⟨tokens, last⟩))
    (hreads : Reads (next no) ⟨tokens, last⟩ result final) :
    Reads (parser >>= next) ⟨tokens, last⟩ result final :=
  (reads_bind_of_run (h.left hnext)).mpr hreads

/-- Where the word `true` stands next it is taken. -/
theorem acceptBoolean_true (stream : TokenStream) (h : stream.next.isKeyword "true" = true) :
    acceptBoolean stream = (pure (some true), stream.rest) := by
  show Action.andThen (acceptKeyword "true") _ stream = _
  rw [Action.andThen, (tries_acceptKeyword "true").taken h]
  rfl

/-- Where the word `false` stands next it is taken. -/
theorem acceptBoolean_false (stream : TokenStream) (h : stream.next.isKeyword "false" = true) :
    acceptBoolean stream = (pure (some false), stream.rest) := by
  have hother : ¬ stream.next.isKeyword "true" = true := by
    simp only [Token.isKeyword, Bool.and_eq_true, beq_iff_eq] at h ⊢
    rw [h.2]
    exact fun hword => absurd hword.2 (by decide)
  show Action.andThen (acceptKeyword "true") _ stream = _
  rw [Action.andThen, (tries_acceptKeyword "true").left hother]
  show (Action.andThen (acceptKeyword "false") _ stream) = _
  rw [Action.andThen, (tries_acceptKeyword "false").taken h]
  rfl

/-- Where neither word stands next nothing is taken. -/
theorem acceptBoolean_none (stream : TokenStream) (htrue : ¬ stream.next.isKeyword "true" = true)
    (hfalse : ¬ stream.next.isKeyword "false" = true) :
    acceptBoolean stream = (pure none, stream) := by
  show Action.andThen (acceptKeyword "true") _ stream = _
  rw [Action.andThen, (tries_acceptKeyword "true").left htrue]
  show (Action.andThen (acceptKeyword "false") _ stream) = _
  rw [Action.andThen, (tries_acceptKeyword "false").left hfalse]
  rfl

end Attempts

end ShaderAssembly.Parser
