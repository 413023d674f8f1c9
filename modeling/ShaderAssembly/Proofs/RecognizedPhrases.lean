import ShaderAssembly.Proofs.ParserRuns

/-!
# Phrases that parsers recognize

The ways in which both dialects put parsers together recognize options, repetitions and lists with
commas, if the parts are recognized. A repetition ends at a mark that starts none of its items.
From this follows which parsers recognize the phrases that the dialects share.
-/

namespace ShaderAssembly.Parser

open Grammar

variable {α β : Type}

/-! ### Options -/

section Options

variable {parser : Parser α} {phrase : Phrase α} {mark : TokenKind} {next : Option α → Parser β}
  {last : Token} {tokens taken rest : List Token} {value? : Option α} {final : TokenStream}
  {result : β} {post : β → TokenStream → Prop}

/-- A run that may start with a part after a mark goes on behind it. -/
theorem Recognizes.ensures_optional (h : Recognizes parser phrase) (hmark : mark ≠ .endOfFile)
    (hlast : last.kind = .endOfFile) (hnext : ∀ taken value? rest, tokens = taken ++ rest →
      Optional (After phrase mark) taken value? → Ensures (next value?) ⟨rest, last⟩ post) :
    Ensures (do
      if ← accept mark then
        let value? ← some <$> parser
        next value?
      else
        let value? ← pure none
        next value?) ⟨tokens, last⟩ post := by
  refine (tries_accept mark).ensures (hlast ▸ hmark.symm) ?_ fun _ => ?_
  · rintro token rest rfl htoken
    intro result final hreads
    rw [if_pos rfl, reads_map_bind] at hreads
    refine h.ensures hlast ?_ result final hreads
    rintro taken value rest rfl hphrase
    exact hnext (token :: taken) (some value) rest rfl (.present (.mark htoken hphrase))
  · exact (ensures_bind_of_run rfl).mpr (hnext [] none tokens rfl .absent)

/-- Before a part after a mark, or if there is none, a run may go on behind it. -/
theorem Recognizes.thenOptional (h : Recognizes parser phrase) (hlast : last.kind = .endOfFile)
    (hphrase : Optional (After phrase mark) taken value?)
    (hstop : (TokenStream.next ⟨rest, last⟩).kind ≠ mark)
    (hreads : Reads (next value?) ⟨rest, last⟩ result final) :
    Reads (do
      if ← accept mark then
        let value? ← some <$> parser
        next value?
      else
        let value? ← pure none
        next value?) ⟨taken ++ rest, last⟩ result final := by
  cases hphrase with
  | absent =>
    exact (tries_accept mark).thenLeave hstop ((reads_bind_of_run rfl).mpr hreads)
  | present hafter =>
    obtain ⟨hmark, hphrase⟩ := hafter
    refine (tries_accept mark).thenTake hmark ?_
    rw [if_pos rfl, reads_map_bind]
    exact h.then hlast hphrase trivial hreads

end Options

/-- Whether tokens, if there are any, start with one of a kind. -/
def MayStart (kind : TokenKind) (tokens : List Token) : Prop :=
  ∀ token more, tokens = token :: more → token.kind = kind

/-- What stands next at a part that may be missing is told from something else by its mark. -/
theorem MayStart.next_ne {kind other : TokenKind} {last : Token} {tokens rest : List Token}
    (h : MayStart kind tokens) (hother : kind ≠ other)
    (hrest : (TokenStream.next ⟨rest, last⟩).kind ≠ other) :
    (TokenStream.next ⟨tokens ++ rest, last⟩).kind ≠ other := by
  cases tokens with
  | nil => exact hrest
  | cons token more => exact fun hkind => hother ((h token more rfl).symm.trans hkind)

theorem mayStart_of_optional {phrase : Phrase α} {mark : TokenKind} {tokens : List Token}
    {value? : Option α} (h : Optional (After phrase mark) tokens value?) :
    MayStart mark tokens := by
  cases h with
  | absent => exact nofun
  | present hafter =>
    obtain ⟨hmark, -⟩ := hafter
    rintro _ _ ⟨⟩
    exact hmark

/-! ### Repetition -/

section Repetition

variable {stop : TokenKind} {step : β → Parser β} {item : Phrase α} {add : β → α → Option β}
  {follow : TokenKind → Prop} {value result : β} {stream final : TokenStream} {last : Token}
  {tokens rest : List Token} {items : List α}

/-- A repetition after a step of it, which has to have taken a token off a stream. -/
def repeatAfter (stop : TokenKind) (step : β → Parser β) (stream : TokenStream) (value : β) :
    Parser β := fun after =>
  if after.pending.length < stream.pending.length then foldUntil stop step value after
  else unexpected stop.description after

/-- A repetition that does not stop is a step and the repetition after it. -/
theorem foldUntil_run (hstop : stream.next.kind ≠ stop) :
    foldUntil stop step value stream = (step value >>= repeatAfter stop step stream) stream := by
  rw [foldUntil, if_neg hstop]
  show _ = Action.andThen (step value) _ stream
  unfold Action.andThen
  cases step value stream with
  | mk traced after =>
    dsimp only
    cases traced.outcome with
    | error error => rfl
    | ok middle =>
      dsimp only
      rw [repeatAfter]
      split <;> rfl

/-- A repetition either stops or makes a step that takes a token, and goes on. -/
theorem reads_foldUntil : Reads (foldUntil stop step value) stream result final ↔
    (stream.next.kind = stop ∧ result = value ∧ final = stream) ∨
      (stream.next.kind ≠ stop ∧ ∃ middle after, Reads (step value) stream middle after ∧
        after.pending.length < stream.pending.length ∧
          Reads (foldUntil stop step middle) after result final) := by
  by_cases hstop : stream.next.kind = stop
  · have hrun : foldUntil stop step value stream = (pure value, stream) := by
      rw [foldUntil, if_pos hstop]
    simp only [Reads, Action.outcomeFrom, Action.stateFrom, hrun, hstop, ne_eq,
      not_true_eq_false, false_and, or_false, true_and]
    constructor
    · rintro ⟨⟨⟩, rfl⟩
      exact ⟨rfl, rfl⟩
    · rintro ⟨rfl, rfl⟩
      exact ⟨rfl, rfl⟩
  · have hreads : Reads (foldUntil stop step value) stream result final ↔
        Reads (step value >>= repeatAfter stop step stream) stream result final := by
      unfold Reads Action.outcomeFrom Action.stateFrom
      rw [foldUntil_run hstop]
    rw [hreads, reads_bind]
    simp only [hstop, ne_eq, not_false_eq_true, false_and, false_or, true_and]
    refine exists₂_congr fun middle after => and_congr_right fun _ => ?_
    unfold Reads Action.outcomeFrom Action.stateFrom repeatAfter
    by_cases hshorter : after.pending.length < stream.pending.length
    · simp only [hshorter, if_true, true_and]
    · simp only [hshorter, if_false, false_and, iff_false]
      exact not_reads_unexpected

/-- Whether a repetition that starts on a stream comes to another stream with some value, before it
looks whether to stop there. -/
inductive Between (stop : TokenKind) (step : β → Parser β) (value : β) (stream : TokenStream) :
    β → TokenStream → Prop
  | start : Between stop step value stream value stream
  | step {middle result : β} {before after : TokenStream}
      (hbefore : Between stop step value stream middle before) (hstop : before.next.kind ≠ stop)
      (hreads : Reads (step middle) before result after) :
      Between stop step value stream result after

/-- Whether every phrase starts with a token that satisfies a condition. -/
def StartsWith (phrase : Phrase α) (first : Token → Prop) : Prop :=
  ∀ tokens value, phrase tokens value → ∃ token more, tokens = token :: more ∧ first token

theorem StartsWith.mono {phrase : Phrase α} {first condition : Token → Prop}
    (h : StartsWith phrase first) (hcondition : ∀ token, first token → condition token) :
    StartsWith phrase condition := by
  intro tokens value hphrase
  obtain ⟨token, more, htokens, hfirst⟩ := h tokens value hphrase
  exact ⟨token, more, htokens, hcondition token hfirst⟩

theorem StartsWith.or {phrase other : Phrase α} {first : Token → Prop}
    (h : StartsWith phrase first) (hother : StartsWith other first) :
    StartsWith (fun tokens value => phrase tokens value ∨ other tokens value) first := by
  rintro tokens value (hphrase | hphrase)
  · exact h tokens value hphrase
  · exact hother tokens value hphrase

/-- Whether a parser stops only before tokens of a kind. -/
def StopsAt (parser : Parser α) (stop : TokenKind) : Prop :=
  ∀ stream, Ensures parser stream fun _ after => after.next.kind = stop

/-- A repetition stops before the mark that ends it. -/
theorem stopsAt_foldUntil (value : β) : StopsAt (foldUntil stop step value) stop := by
  intro stream result final h
  induction hlength : stream.pending.length using Nat.strongRecOn generalizing stream value with
  | _ length ih =>
    subst hlength
    rcases reads_foldUntil.mp h with ⟨hstop, -, rfl⟩ | ⟨-, middle, after, -, hshorter, h⟩
    · exact hstop
    · exact ih _ hshorter _ _ h rfl

/-- If a step recognizes an item and adds it to a value, then the repetition recognizes any number
of items before the mark that ends it, and adds them one after the other. -/
theorem recognizes_foldUntil
    (hstep : ∀ value, Recognizes (step value)
      (fun tokens next => ∃ entry, item tokens entry ∧ add value entry = some next) follow)
    (hstarts : StartsWith item fun token => token.kind ≠ stop ∧ follow token.kind)
    (hstop : follow stop)
    (value : β) :
    Recognizes (foldUntil stop step value)
      (fun tokens result => ∃ items, Many item tokens items ∧ items.foldlM add value = some result)
      (· = stop) where
  sound := by
    intro last tokens hlast result final h
    induction hlength : tokens.length using Nat.strongRecOn generalizing tokens value with
    | _ length ih =>
      subst hlength
      rcases reads_foldUntil.mp h with ⟨-, rfl, rfl⟩ | ⟨-, middle, after, hfirst, hshorter, h⟩
      · exact ⟨[], tokens, rfl, rfl, [], .nil, rfl⟩
      · obtain ⟨taken, rest, rfl, rfl, entry, hentry, hadd⟩ :=
          (hstep value).sound hlast _ _ hfirst
        obtain ⟨more, rest, rfl, rfl, items, hitems, hfold⟩ := ih _ hshorter _ h rfl
        refine ⟨taken ++ more, rest, by rw [List.append_assoc], rfl, entry :: items,
          .cons hentry hitems, ?_⟩
        rw [List.foldlM_cons, hadd]
        exact hfold
  complete := by
    rintro last taken rest result hlast ⟨items, hitems, hfold⟩ hnext
    induction hitems generalizing value with
    | nil =>
      rw [List.foldlM_nil] at hfold
      cases hfold
      exact reads_foldUntil.mpr (.inl ⟨hnext, rfl, rfl⟩)
    | @cons first more entry items hfirst hmore ih =>
      rw [List.foldlM_cons] at hfold
      obtain ⟨middle, hadd, hfold⟩ := Option.bind_eq_some_iff.mp hfold
      have hfollow : follow (TokenStream.next ⟨more ++ rest, last⟩).kind := by
        cases hmore with
        | nil => exact hnext ▸ hstop
        | cons hsecond _ =>
          obtain ⟨token, others, rfl, -, hkind⟩ := hstarts _ _ hsecond
          exact hkind
      have hreads := (hstep value).complete hlast ⟨entry, hfirst, hadd⟩ hfollow
      obtain ⟨token, others, rfl, hkind, -⟩ := hstarts _ _ hfirst
      rw [List.append_assoc]
      refine reads_foldUntil.mpr (.inr ⟨hkind, middle, _, hreads, ?_, ih middle hfold⟩)
      simp only [List.length_append, List.length_cons]
      omega

end Repetition

section Lists

variable {item : Parser α} {phrase : Phrase α} {stop close : TokenKind}
  {follow : TokenKind → Prop}

/-- A run of a parser that stops at a mark, which is taken next. -/
theorem Recognizes.ensures_closing {next : α → Token → Parser β} {last : Token}
    {tokens : List Token} {post : β → TokenStream → Prop} (h : Recognizes item phrase follow)
    (hstops : StopsAt item stop) (hstop : stop ≠ .endOfFile) (hlast : last.kind = .endOfFile)
    (hnext : ∀ taken value closing rest, tokens = taken ++ closing :: rest →
      phrase taken value → closing.kind = stop →
        Ensures (next value closing) ⟨rest, last⟩ post) :
    Ensures (item >>= fun value => take >>= next value) ⟨tokens, last⟩ post := by
  intro result final hreads
  obtain ⟨value, after, hvalue, hresult⟩ := reads_bind.mp hreads
  have hkind := hstops _ _ _ hvalue
  obtain ⟨taken, rest, rfl, rfl, hphrase⟩ := h.sound hlast _ _ hvalue
  cases rest with
  | nil => exact absurd hlast (hkind ▸ hstop)
  | cons closing rest => exact hnext taken value closing rest rfl hphrase hkind result final hresult

theorem stopsAt_manyUntil : StopsAt (manyUntil stop item) stop := by
  intro stream
  refine ensures_bind (stopsAt_foldUntil [] stream) fun items after hafter => ?_
  exact ensures_pure hafter

theorem foldlM_cons_eq (items done : List α) :
    items.foldlM (fun done entry => some (entry :: done)) done = some (items.reverse ++ done) := by
  induction items generalizing done with
  | nil => rfl
  | cons entry items ih => simp [List.foldlM_cons, ih]

/-- If items are recognized, then any number of them is, before the mark that ends them. -/
theorem recognizes_manyUntil (h : Recognizes item phrase follow)
    (hstarts : StartsWith phrase fun token => token.kind ≠ stop ∧ follow token.kind)
    (hstop : follow stop) :
    Recognizes (manyUntil stop item) (Many phrase) (· = stop) := by
  have hstep : ∀ done : List α, Recognizes (do return (← item) :: done)
      (fun tokens next => ∃ entry, phrase tokens entry ∧ some (entry :: done) = some next)
      follow := fun done =>
    (h.map (· :: done)).congr fun tokens next => by simp [eq_comm]
  refine ((recognizes_foldUntil hstep hstarts hstop []).map List.reverse).congr
    fun tokens values => ?_
  simp only [foldlM_cons_eq, List.append_nil, Option.some.injEq]
  constructor
  · intro hmany
    exact ⟨values.reverse, ⟨values, hmany, rfl⟩, (List.reverse_reverse values).symm⟩
  · rintro ⟨_, ⟨items, hmany, rfl⟩, rfl⟩
    rwa [List.reverse_reverse]

/-- An item after a comma. -/
theorem recognizes_afterComma (h : Recognizes item phrase) (expected : String) :
    Recognizes (do if ← accept .comma then item else unexpected expected)
      (After phrase .comma) where
  sound := by
    intro last tokens hlast
    refine (tries_accept .comma).ensures (by simp [hlast]) ?_ fun _ => ensures_unexpected
    rintro comma rest rfl hcomma
    rw [if_pos rfl]
    rintro value _ hvalue
    obtain ⟨taken, rest, rfl, rfl, hphrase⟩ := h.sound hlast value _ hvalue
    exact ⟨comma :: taken, rest, rfl, rfl, .mark hcomma hphrase⟩
  complete := by
    rintro last _ rest value hlast ⟨hcomma, hphrase⟩ -
    refine (tries_accept .comma).thenTake hcomma ?_
    rw [if_pos rfl]
    exact h.complete hlast hphrase trivial

/-- If items are recognized, then a list of them with commas is, up to a closing mark. -/
theorem recognizes_commaSeparated (h : Recognizes item phrase) (hcomma : close ≠ .comma)
    (hclose : close ≠ .endOfFile) :
    Recognizes (commaSeparated item close) (fun tokens values => ∃ items closing,
      tokens = items ++ [closing] ∧ CommaSeparated phrase items values ∧ closing.kind = close) := by
  have hstarts : StartsWith (After phrase .comma) fun token => token.kind ≠ close ∧ True := by
    rintro _ _ ⟨hmark, -⟩
    exact ⟨_, _, rfl, hmark ▸ hcomma.symm, trivial⟩
  have hmany := recognizes_manyUntil (recognizes_afterComma h s!"`,` or {close.description}")
    hstarts trivial
  constructor
  · intro last tokens hlast
    refine h.ensures hlast ?_
    rintro taken first _ rfl hfirst
    refine hmany.ensures hlast ?_
    rintro more others _ rfl hmore
    refine ensures_mark close hclose hlast ?_
    rintro closing rest rfl hclosing
    refine ensures_pure ⟨_, rest, ?_, rfl, taken ++ more, closing, rfl,
      .items hfirst hmore, hclosing⟩
    simp
  · rintro last _ rest values hlast ⟨_, closing, rfl, ⟨hfirst, hmore⟩, hclosing⟩ -
    simp only [List.append_assoc, List.singleton_append]
    refine h.then hlast hfirst trivial ?_
    refine hmany.then hlast hmore hclosing ?_
    exact thenMark hclosing (reads_pure _ _)

end Lists

section Keywords

variable {word : String} {parser other : Parser α} {phrase others : Phrase α}

/-- Whether a parser, where a keyword stands next, takes exactly the tokens that write a value of
a phrase, which all start with the keyword. -/
structure RecognizesAt (word : String) (parser : Parser α) (phrase : Phrase α) : Prop where
  /-- The phrase starts with the keyword. -/
  starts : StartsWith phrase (·.isKeyword word = true)
  /-- What is taken is a phrase, and the value is what it writes. -/
  sound : ∀ {last keyword : Token} {tokens : List Token}, last.kind = .endOfFile →
    keyword.isKeyword word = true → Ensures parser ⟨keyword :: tokens, last⟩ fun value after =>
      ∃ taken rest, keyword :: tokens = taken ++ rest ∧ after = ⟨rest, last⟩ ∧ phrase taken value
  /-- A phrase is taken and gives what it writes. -/
  complete : ∀ {last : Token} {taken rest : List Token} {value : α},
    last.kind = .endOfFile → phrase taken value →
      Reads parser ⟨taken ++ rest, last⟩ value ⟨rest, last⟩

/-- A parser that is only tried where a keyword stands next, and another one for other tokens. -/
theorem RecognizesAt.orElse (h : RecognizesAt word parser phrase) (hother : Recognizes other others)
    (hdistinct : StartsWith others (¬ ·.isKeyword word = true)) :
    Recognizes (do if ← seesKeyword word then parser else other)
      (fun tokens value => phrase tokens value ∨ others tokens value) where
  sound := by
    intro last tokens hlast
    rw [ensures_bind_of_run (seesKeyword_run word _)]
    split
    · rename_i hword
      obtain ⟨rest, hrest⟩ := exists_cons_of_next hlast (kind_ne_of_isKeyword hword)
      rw [hrest]
      intro value after hreads
      obtain ⟨taken, rest, htaken, hafter, hphrase⟩ := h.sound hlast hword value after hreads
      exact ⟨taken, rest, htaken, hafter, .inl hphrase⟩
    · intro value after hreads
      obtain ⟨taken, rest, htaken, hafter, hphrase⟩ := hother.sound hlast value after hreads
      exact ⟨taken, rest, htaken, hafter, .inr hphrase⟩
  complete := by
    rintro last taken rest value hlast (hphrase | hphrase) -
    · obtain ⟨keyword, more, rfl, hword⟩ := h.starts taken value hphrase
      rw [reads_bind_of_run (seesKeyword_run word _),
        if_pos (show (TokenStream.next ⟨keyword :: more ++ rest, last⟩).isKeyword word = true from
          hword)]
      exact h.complete hlast hphrase
    · obtain ⟨token, more, rfl, hword⟩ := hdistinct taken value hphrase
      rw [reads_bind_of_run (seesKeyword_run word _),
        if_neg (show ¬ (TokenStream.next ⟨token :: more ++ rest, last⟩).isKeyword word = true from
          hword)]
      exact hother.complete hlast hphrase trivial

/-- A parser that is only tried where a keyword stands next, and nothing else. -/
theorem RecognizesAt.orUnexpected (h : RecognizesAt word parser phrase) (expected : String) :
    Recognizes (do if ← seesKeyword word then parser else unexpected expected) phrase := by
  have hnothing : Recognizes (unexpected expected : Parser α) fun _ _ => False :=
    ⟨fun _ => ensures_unexpected, nofun⟩
  exact (h.orElse hnothing nofun).congr fun tokens value => (or_false _).symm.to_iff

end Keywords

/-! ### Phrases of both dialects -/

section Shared

variable {brackets : Brackets}

theorem recognizes_expectBounds : Recognizes expectBounds IsBounds where
  sound := by
    intro last tokens hlast
    refine ensures_mark .openParen nofun hlast ?_
    rintro opening _ rfl hopening
    refine Recognizes.ensures recognizes_expectNumber hlast ?_
    rintro lower least _ rfl hleast
    refine ensures_mark .comma nofun hlast ?_
    rintro comma _ rfl hcomma
    refine Recognizes.ensures recognizes_expectNumber hlast ?_
    rintro upper greatest _ rfl hgreatest
    refine ensures_mark .closeParen nofun hlast ?_
    rintro closing rest rfl hclosing
    refine ensures_pure ⟨_, rest, ?_, rfl, .bounds hopening hleast hcomma hgreatest hclosing⟩
    simp
  complete := by
    rintro last _ rest _ hlast ⟨hopening, hleast, hcomma, hgreatest, hclosing⟩ -
    simp only [List.cons_append, List.append_assoc, List.nil_append]
    refine thenMark hopening ?_
    refine Recognizes.then recognizes_expectNumber hlast hleast trivial ?_
    refine thenMark hcomma ?_
    refine Recognizes.then recognizes_expectNumber hlast hgreatest trivial ?_
    exact thenMark hclosing (reads_pure _ _)

/-- If items are recognized, then a list of them with commas is, up to the end of brackets. -/
theorem recognizes_listed {α : Type} {item : Parser α} {phrase : Phrase α}
    (hbrackets : brackets = .round ∨ brackets = .curly) (h : Recognizes item phrase) :
    Recognizes (commaSeparated item brackets.closing) (fun tokens values =>
      ∃ items closing, tokens = items ++ [closing] ∧ CommaSeparated phrase items values ∧
        closing.kind = brackets.closing) := by
  rcases hbrackets with rfl | rfl
  · exact recognizes_commaSeparated h nofun nofun
  · exact recognizes_commaSeparated h nofun nofun

/-- The mark that opens brackets is neither the end of a file nor a word, text or number. -/
theorem opening_ne (hbrackets : brackets = .round ∨ brackets = .curly) :
    brackets.opening ≠ .endOfFile ∧ brackets.opening ≠ .identifier ∧
      brackets.opening ≠ .string ∧ brackets.opening ≠ .number := by
  rcases hbrackets with rfl | rfl <;> decide

theorem sound_expectLiteral (hbrackets : brackets = .round ∨ brackets = .curly)
    (expected : String) {last : Token} {tokens : List Token} (hlast : last.kind = .endOfFile) :
    Ensures (expectLiteral brackets expected) ⟨tokens, last⟩ fun value after =>
      ∃ taken rest, tokens = taken ++ rest ∧ after = ⟨rest, last⟩ ∧
        IsLiteral brackets taken value := by
  rw [expectLiteral]
  by_cases htrue : (TokenStream.next ⟨tokens, last⟩).isKeyword "true" = true
  · rw [ensures_bind_of_run (acceptBoolean_true _ htrue)]
    cases tokens with
    | nil => exact absurd hlast (kind_ne_of_isKeyword htrue)
    | cons token rest => exact ensures_pure ⟨[token], rest, rfl, rfl, .yes htrue⟩
  by_cases hfalse : (TokenStream.next ⟨tokens, last⟩).isKeyword "false" = true
  · rw [ensures_bind_of_run (acceptBoolean_false _ hfalse)]
    cases tokens with
    | nil => exact absurd hlast (kind_ne_of_isKeyword hfalse)
    | cons token rest => exact ensures_pure ⟨[token], rest, rfl, rfl, .no hfalse⟩
  rw [ensures_bind_of_run (acceptBoolean_none _ htrue hfalse)]
  dsimp only
  rw [ensures_bind_of_run (peek_run _)]
  split
  · rename_i hkind
    refine ensures_take_bind hlast (by simp [hkind]) ?_
    rintro token rest rfl
    exact ensures_pure ⟨[token], rest, rfl, rfl, .string hkind⟩
  · refine Recognizes.ensures recognizes_expectNumber hlast ?_
    rintro taken number rest rfl hnumber
    exact ensures_pure ⟨taken, rest, rfl, rfl, .number hnumber⟩
  · split
    · rename_i hopening
      refine ensures_take_bind hlast (hopening ▸ (opening_ne hbrackets).1) ?_
      rintro opening _ rfl
      refine (recognizes_listed hbrackets recognizes_expectNumber).ensures hlast ?_
      rintro _ components rest rfl ⟨items, closing, rfl, hitems, hclosing⟩
      exact ensures_pure ⟨_, rest, rfl, rfl, .tuple hopening hitems hclosing⟩
    · exact ensures_unexpected

theorem complete_expectLiteral (hbrackets : brackets = .round ∨ brackets = .curly)
    (expected : String) {last : Token} {taken rest : List Token} {literal : Literal}
    (hlast : last.kind = .endOfFile) (h : IsLiteral brackets taken literal) :
    Reads (expectLiteral brackets expected) ⟨taken ++ rest, last⟩ literal ⟨rest, last⟩ := by
  -- After a token that is no word the choice is made by its kind.
  have hskip : ∀ (token : Token) (more : List Token), token.kind ≠ .identifier →
      acceptBoolean ⟨token :: more, last⟩ = (pure none, ⟨token :: more, last⟩) :=
    fun token more hkind =>
      acceptBoolean_none _ (not_isKeyword_of_kind hkind) (not_isKeyword_of_kind hkind)
  have hnext : ∀ (token : Token) (more : List Token),
      TokenStream.next ⟨token :: more, last⟩ = token := fun _ _ => rfl
  rw [expectLiteral]
  cases h with
  | @yes token hword =>
    rw [List.singleton_append, reads_bind_of_run (acceptBoolean_true ⟨token :: rest, last⟩ hword)]
    exact reads_pure _ _
  | @no token hword =>
    rw [List.singleton_append, reads_bind_of_run (acceptBoolean_false ⟨token :: rest, last⟩ hword)]
    exact reads_pure _ _
  | @string token hkind =>
    rw [List.singleton_append, reads_bind_of_run (hskip token rest (by simp [hkind]))]
    dsimp only
    rw [reads_bind_of_run (peek_run _), hnext, hkind]
    exact (reads_bind_of_run (take_run _)).mpr (reads_pure _ _)
  | number hnumber =>
    obtain ⟨hkind, hvalue⟩ := hnumber
    rw [List.singleton_append, reads_bind_of_run (hskip _ rest (by simp [hkind]))]
    dsimp only
    rw [reads_bind_of_run (peek_run _), hnext, hkind]
    exact Recognizes.thenToken recognizes_expectNumber hlast (.number hkind hvalue) trivial
      (reads_pure _ _)
  | @tuple opening closing items components hopening hcomponents hclosing =>
    obtain ⟨-, hword, hstring, hnumber⟩ := opening_ne hbrackets
    rw [List.cons_append, reads_bind_of_run (hskip opening _ (hopening ▸ hword))]
    dsimp only
    rw [reads_bind_of_run (peek_run _), hnext, hopening]
    split
    · exact absurd ‹_› hstring
    · exact absurd ‹_› hnumber
    · rw [if_pos rfl, reads_bind_of_run (take_run _)]
      exact (recognizes_listed hbrackets recognizes_expectNumber).then hlast
        ⟨items, closing, rfl, hcomponents, hclosing⟩ trivial (reads_pure _ _)

theorem recognizes_expectLiteral (hbrackets : brackets = .round ∨ brackets = .curly)
    (expected : String) : Recognizes (expectLiteral brackets expected) (IsLiteral brackets) where
  sound := sound_expectLiteral hbrackets expected
  complete hlast h _ := complete_expectLiteral hbrackets expected hlast h

theorem recognizes_expectReference (expected : String) :
    Recognizes (expectReference expected) IsReference := by
  refine ((recognizes_expectName expected).map fun name =>
    (⟨name.lexeme, name.position⟩ : BlockReference)).congr fun tokens reference => ?_
  constructor
  · rintro ⟨hname⟩
    exact ⟨_, .token hname, rfl⟩
  · rintro ⟨_, ⟨hname⟩, rfl⟩
    exact .name hname

theorem recognizes_expectReferences (hbrackets : brackets = .round ∨ brackets = .curly)
    (expected : String) :
    Recognizes (expectReferences brackets expected) (IsReferences brackets) := by
  obtain ⟨hend, hword, -, -⟩ := opening_ne hbrackets
  have hlist := recognizes_listed hbrackets (recognizes_expectReference expected)
  constructor
  · intro last tokens hlast
    refine (tries_accept brackets.opening).ensures (hlast ▸ hend.symm) ?_ fun _ => ?_
    · rintro opening _ rfl hopening
      rw [if_pos rfl]
      intro references _ hreads
      obtain ⟨_, rest, rfl, rfl, items, closing, rfl, hitems, hclosing⟩ :=
        hlist.sound hlast _ _ hreads
      exact ⟨_, rest, rfl, rfl, .several hopening hitems hclosing⟩
    · rw [if_neg Bool.false_ne_true]
      refine (recognizes_expectReference expected).ensures hlast ?_
      rintro taken reference rest rfl hreference
      exact ensures_pure ⟨taken, rest, rfl, rfl, .one hreference⟩
  · rintro last _ rest _ hlast hreferences -
    cases hreferences with
    | one hreference =>
      obtain ⟨hname⟩ := hreference
      refine (tries_accept brackets.opening).thenLeave (fun hkind => hword (hkind ▸ hname)) ?_
      rw [if_neg Bool.false_ne_true]
      exact (recognizes_expectReference expected).then hlast (.name hname) trivial (reads_pure _ _)
    | several hopening hitems hclosing =>
      refine (tries_accept brackets.opening).thenTake hopening ?_
      rw [if_pos rfl]
      exact hlist.complete hlast ⟨_, _, rfl, hitems, hclosing⟩ trivial

theorem recognizes_expectBody (expected : String) :
    Recognizes (expectBody expected) IsBody where
  sound := by
    intro last tokens hlast
    refine (recognizes_expect .body expected nofun).ensures hlast ?_
    rintro _ body _ rfl ⟨hbody⟩
    refine ensures_mark .closeBrace nofun hlast ?_
    rintro closing rest rfl hclosing
    exact ensures_pure ⟨_, rest, rfl, rfl, .body hbody hclosing⟩
  complete := by
    rintro last _ rest _ hlast ⟨hbody, hclosing⟩ -
    refine (recognizes_expect .body expected nofun).thenToken hlast (.token hbody) trivial ?_
    exact thenMark hclosing (reads_pure _ _)

end Shared

end ShaderAssembly.Parser
