import ShaderAssembly.Proofs.RecognizedPhrases

/-!
# Tokens that parsers heed

A parser looks at a token before it takes it, and what it takes is never a piece of text that makes
no token: it stops there at the latest. So whatever is known of the tokens of a stream up to the
first such piece is known of all that a parser takes, and its errors are about those tokens or
about the one that stands next. A watch says what is known and which errors there may be. That
parsers heed every watch is shown once for each way of putting parsers together and for the phrases
that both dialects share.
-/

namespace ShaderAssembly

/-- Whether a kind is that of a piece of text that makes no token. -/
def TokenKind.isError : TokenKind → Bool
  | .error _ => true
  | _ => false

/-- The error of a parser that expects something else than a token. -/
def Token.refused (token : Token) (expected : String) : Error :=
  match token.kind with
  | .error .unexpectedCharacter => .unexpected expected token.description token.position
  | .error issue => .lexical issue token.position
  | _ => .unexpected expected token.description token.position

/-- The error is about the token. -/
theorem Token.position?_refused (token : Token) (expected : String) :
    (token.refused expected).position? = some token.position := by
  unfold refused
  split <;> rfl

/-- Whether a position is that of a name or a body with a property. -/
def Position.Marks (property : Token → Prop) (position : Position) : Prop :=
  ∃ token, property token ∧ (token.kind = .identifier ∨ token.kind = .body) ∧
    token.position = position

/-- What is known of the tokens of a stream while it is read, and what errors may say. -/
structure Watch where
  /-- The streams that may be left to read. -/
  covers : TokenStream → Prop
  /-- What is known of a token that is taken. -/
  knows : Token → Prop
  /-- The errors that may come up. -/
  admits : Error → Prop
  /-- A proper token that stands next may be taken. -/
  take : ∀ stream, covers stream → stream.next.kind.isError = false →
    knows stream.next ∧ covers stream.rest
  /-- Whatever stands next may be refused. -/
  refuse : ∀ stream, covers stream → ∀ expected, admits (stream.next.refused expected)
  /-- A token that has been taken may be refused. -/
  about : ∀ token, knows token → ∀ error : Error, error.position? = some token.position →
    admits error

namespace Parser

variable {α β : Type} {watch : Watch} {Q : α → Prop} {R : β → Prop}

/-- Whether a parser that is run on a stream heeds a watch: it gives a value with a property of it
and of the tokens that are left, or fails with an error that is admitted. -/
structure HeedsFrom (watch : Watch) (parser : Parser α) (stream : TokenStream)
    (post : α → TokenStream → Prop) : Prop where
  /-- What is given. -/
  gives : Ensures parser stream post
  /-- What an error says. -/
  fails : ∀ error, parser.outcomeFrom stream = .error error → watch.admits error

/-- Whether a parser heeds a watch: on streams that are covered it gives what satisfies `Q` and
leaves a stream that is covered, or fails with an error that is admitted. -/
def Heeds (watch : Watch) (Q : α → Prop) (parser : Parser α) : Prop :=
  ∀ stream, watch.covers stream →
    HeedsFrom watch parser stream fun value after => Q value ∧ watch.covers after

/-- Whether a parser heeds a watch, whatever it gives. -/
abbrev Obeys (watch : Watch) (parser : Parser α) : Prop := Heeds watch (fun _ => True) parser

/-! ### Ways to put parsers together -/

section Runs

variable {parser other : Parser α} {next : α → Parser β} {stream : TokenStream}
  {middle : α → TokenStream → Prop} {post : β → TokenStream → Prop}

theorem HeedsFrom.throw {error : Error} (h : watch.admits error) :
    HeedsFrom watch (throw error : Parser α) stream middle := by
  refine ⟨ensures_throw, fun other hother => ?_⟩
  cases hother
  exact h

/-- What does the same on a stream heeds the same. -/
theorem HeedsFrom.of_run (hrun : parser stream = other stream)
    (h : HeedsFrom watch other stream middle) : HeedsFrom watch parser stream middle := by
  constructor
  · intro value after hreads
    refine h.gives value after ?_
    rwa [Reads, Action.outcomeFrom, Action.stateFrom, ← hrun]
  · intro error herror
    refine h.fails error ?_
    rwa [Action.outcomeFrom, ← hrun]

/-- A value that is known to be given. -/
theorem HeedsFrom.of_reads {value : α} {after : TokenStream}
    (h : Reads parser stream value after) (hmiddle : middle value after) :
    HeedsFrom watch parser stream middle := by
  obtain ⟨houtcome, rfl⟩ := h
  constructor
  · rintro other _ ⟨hother, rfl⟩
    rw [houtcome] at hother
    cases hother
    exact hmiddle
  · intro error herror
    rw [houtcome] at herror
    cases herror

theorem HeedsFrom.pure {value : α} (h : middle value stream) :
    HeedsFrom watch (Pure.pure value : Parser α) stream middle :=
  .of_reads (reads_pure value stream) h

/-- A weaker fact about the result. -/
theorem HeedsFrom.mono (h : HeedsFrom watch parser stream middle)
    {weaker : α → TokenStream → Prop} (hweaker : ∀ value after, middle value after →
      weaker value after) : HeedsFrom watch parser stream weaker :=
  ⟨fun value after hreads => hweaker value after (h.gives value after hreads), h.fails⟩

/-- One parser after another. -/
theorem HeedsFrom.bind (h : HeedsFrom watch parser stream middle)
    (hnext : ∀ value after, middle value after → HeedsFrom watch (next value) after post) :
    HeedsFrom watch (parser >>= next) stream post := by
  refine ⟨ensures_bind h.gives fun value after hvalue => (hnext value after hvalue).gives, ?_⟩
  intro error herror
  rcases Action.outcomeFrom_bind_eq_error.mp herror with herror | ⟨value, hvalue, herror⟩
  · exact h.fails error herror
  · exact (hnext value _ (h.gives value _ ⟨hvalue, rfl⟩)).fails error herror

/-- A step whose result is known, and what follows it. -/
theorem HeedsFrom.bind_of_run {value : α} {after : TokenStream}
    (hrun : parser stream = (Pure.pure value, after))
    (h : HeedsFrom watch (next value) after post) :
    HeedsFrom watch (parser >>= next) stream post := by
  have hreads := reads_of_run hrun
  refine ⟨(ensures_bind_of_reads hreads).mpr h.gives, fun error herror => h.fails error ?_⟩
  rwa [Action.outcomeFrom_bind_of_ok hreads.1, hreads.2] at herror

end Runs

section Combination

variable {parser other : Parser α} {next : α → Parser β}

theorem Heeds.pure {value : α} (h : Q value) : Heeds watch Q (Pure.pure value : Parser α) :=
  fun _ hstream => .pure ⟨h, hstream⟩

theorem Heeds.record {level : Level} {message : String} :
    Obeys watch (Action.record level message : Parser Unit) := fun stream hstream =>
  .of_reads (reads_record level message stream) ⟨trivial, hstream⟩

theorem Heeds.throw {error : Error} (h : watch.admits error) :
    Heeds watch Q (throw error : Parser α) := fun _ _ => .throw h

/-- A weaker fact about the result. -/
theorem Heeds.mono (h : Heeds watch Q parser) {Q' : α → Prop}
    (hQ : ∀ value, Q value → Q' value) : Heeds watch Q' parser := fun stream hstream =>
  (h stream hstream).mono fun value _ hvalue => hvalue.imp_left (hQ value)

/-- One parser after another. -/
theorem Heeds.bind (h : Heeds watch Q parser) (hnext : ∀ value, Q value →
    Heeds watch R (next value)) : Heeds watch R (parser >>= next) := fun stream hstream =>
  (h stream hstream).bind fun value after hvalue => hnext value hvalue.1 after hvalue.2

/-- A parser after a value. -/
theorem Heeds.pure_bind {value : α} (h : Heeds watch R (next value)) :
    Heeds watch R (Pure.pure value >>= next) := h

/-- A parser whose value is changed. -/
theorem Heeds.map (h : Heeds watch Q parser) {f : α → β}
    (hf : ∀ value, Q value → R (f value)) : Heeds watch R (f <$> parser) :=
  h.bind fun value hvalue => .pure (hf value hvalue)

/-- A parser that is chosen by a condition. -/
theorem Heeds.ite {condition : Prop} [Decidable condition] (hthen : Heeds watch Q parser)
    (helse : Heeds watch Q other) : Heeds watch Q (if condition then parser else other) := by
  by_cases hcondition : condition
  · rwa [if_pos hcondition]
  · rwa [if_neg hcondition]

/-- A refusal on some condition, and what follows it otherwise. -/
theorem Heeds.refusing {condition : Prop} [Decidable condition] {refusal : Parser PUnit}
    {next : PUnit → Parser β} (hrefusal : Heeds watch (fun _ => False) refusal)
    (hnext : Heeds watch R (next ⟨⟩)) :
    Heeds watch R (if condition then refusal >>= next else next ⟨⟩) :=
  .ite (hrefusal.bind nofun) hnext

end Combination

/-! ### Single tokens -/

section Tokens

variable {kind : TokenKind}

/-- A proper token that stands next is taken. -/
theorem heedsFrom_take {stream : TokenStream} (h : watch.covers stream)
    (hproper : stream.next.kind.isError = false) :
    HeedsFrom watch take stream fun token after =>
      (watch.knows token ∧ token = stream.next) ∧ watch.covers after := by
  obtain ⟨hknown, hrest⟩ := watch.take stream h hproper
  exact .of_reads (reads_of_run (take_run stream)) ⟨⟨hknown, rfl⟩, hrest⟩

theorem obeys_seesKeyword (word : String) : Obeys watch (seesKeyword word) :=
  fun stream hstream =>
    .of_reads (reads_of_run (seesKeyword_run word stream)) ⟨trivial, hstream⟩

theorem heeds_refuse (expected : String) {token : Token} (h : watch.knows token) :
    Heeds watch Q (refuse expected token : Parser α) := .throw (watch.about token h _ rfl)

theorem heeds_refuseDuplicate (kind : DeclarationKind) {token : Token} (h : watch.knows token) :
    Heeds watch Q (refuseDuplicate kind token : Parser α) := .throw (watch.about token h _ rfl)

/-- The token that stands next is refused. -/
theorem unexpected_run (expected : String) (stream : TokenStream) :
    (unexpected expected : Parser α) stream =
      (throw (stream.next.refused expected) : Parser α) stream := by
  have hstep : (unexpected expected : Parser α) stream = (match stream.next.kind with
      | .error .unexpectedCharacter => refuse expected stream.next
      | .error issue => throw (.lexical issue stream.next.position)
      | _ => refuse expected stream.next : Parser α) stream := rfl
  rw [hstep]
  rcases stream.next with ⟨kind, lexeme, position⟩
  cases kind with
  | error issue => cases issue <;> rfl
  | _ => rfl

theorem heeds_unexpected (expected : String) :
    Heeds watch Q (unexpected expected : Parser α) := fun stream hstream =>
  .of_run (unexpected_run expected stream) (.throw (watch.refuse stream hstream expected))

/-- A token of a proper kind is taken if it stands next. -/
theorem heeds_takeIf (hkind : kind.isError = false) :
    Heeds watch (fun token? => ∀ token ∈ token?, watch.knows token ∧ token.kind = kind)
      (takeIf kind) := by
  intro stream hstream
  refine .bind_of_run (sees_run kind stream) ?_
  split
  · rename_i hsees
    have hnext : stream.next.kind = kind := eq_of_beq hsees
    refine (heedsFrom_take hstream (hnext ▸ hkind)).bind fun token after htoken => ?_
    refine .pure ⟨?_, htoken.2⟩
    rintro _ ⟨⟩
    exact ⟨htoken.1.1, htoken.1.2 ▸ hnext⟩
  · exact .pure ⟨nofun, hstream⟩

/-- A token that is asked for is taken if it is of the kind that is asked for. -/
theorem heeds_expect (hkind : kind.isError = false) (expected : String) :
    Heeds watch (fun token => watch.knows token ∧ token.kind = kind) (expect kind expected) := by
  intro stream hstream
  refine .bind_of_run (sees_run kind stream) ?_
  split
  · rename_i hsees
    have hnext : stream.next.kind = kind := eq_of_beq hsees
    refine (heedsFrom_take hstream (hnext ▸ hkind)).mono fun token after htoken => ?_
    exact ⟨⟨htoken.1.1, htoken.1.2 ▸ hnext⟩, htoken.2⟩
  · exact heeds_unexpected expected stream hstream

theorem obeys_accept (hkind : kind.isError = false) : Obeys watch (accept kind) :=
  (heeds_takeIf hkind).bind fun _ _ => .pure trivial

theorem obeys_expectMark (hkind : kind.isError = false) : Obeys watch (expectMark kind) :=
  (heeds_expect hkind _).bind fun _ _ => .pure trivial

/-- A name that is asked for is marked. -/
theorem heeds_expectName (expected : String) :
    Heeds watch (fun token => watch.knows token ∧ token.position.Marks watch.knows)
      (expectName expected) :=
  (heeds_expect rfl expected).mono fun token h => ⟨h.1, token, h.1, .inl h.2, rfl⟩

theorem obeys_expectString (expected : String) : Obeys watch (expectString expected) :=
  (heeds_expect rfl expected).bind fun _ _ => .pure trivial

theorem obeys_expectNumber : Obeys watch expectNumber := by
  refine (heeds_expect rfl _).bind fun token htoken => ?_
  split
  · exact .pure trivial
  · exact heeds_refuse _ htoken.1

/-- A keyword is taken where it stands next, and is marked. -/
theorem heeds_keyword {word : String} {next : Token → Parser β} {other : Parser β}
    (hnext : ∀ token, watch.knows token ∧ token.position.Marks watch.knows →
      Heeds watch R (next token)) (hother : Heeds watch R other) :
    Heeds watch R (do if ← seesKeyword word then take >>= next else other) := by
  intro stream hstream
  refine .bind_of_run (seesKeyword_run word stream) ?_
  split
  · rename_i hword
    have hkind := (isKeyword_iff.mp hword).1
    refine (heedsFrom_take hstream (by rw [hkind]; rfl)).bind ?_
    rintro token after ⟨⟨hknown, rfl⟩, hafter⟩
    exact hnext _ ⟨hknown, _, hknown, .inl hkind, rfl⟩ after hafter
  · exact hother stream hstream

theorem heeds_expectKeyword (word : String) :
    Heeds watch watch.knows (expectKeyword word) := by
  have hnext : ∀ token, watch.knows token ∧ token.position.Marks watch.knows →
      Heeds watch watch.knows (pure token) := fun _ h => .pure h.1
  exact heeds_keyword hnext (heeds_unexpected _)

theorem obeys_acceptKeyword (word : String) : Obeys watch (acceptKeyword word) :=
  heeds_keyword (fun _ _ => .pure trivial) (.pure trivial)

theorem obeys_acceptBoolean : Obeys watch acceptBoolean := by
  refine (obeys_acceptKeyword "true").bind fun _ _ => .ite (.pure trivial) ?_
  exact (obeys_acceptKeyword "false").bind fun _ _ => .ite (.pure trivial) (.pure trivial)

end Tokens

/-- An optional part after a mark, and what follows it in either case. -/
theorem heeds_optional {parser : Parser α} {next : Option α → Parser β} {kind : TokenKind}
    (hkind : kind.isError = false) (hparser : Heeds watch Q parser)
    (hnext : ∀ value?, Heeds watch R (next value?)) :
    Heeds watch R (do
      if ← accept kind then
        let value? ← some <$> parser
        next value?
      else
        let value? ← pure none
        next value?) := by
  refine (obeys_accept hkind).bind fun _ _ => .ite ?_ (.pure_bind (hnext none))
  exact (hparser.map (R := fun _ => True) fun _ _ => trivial).bind fun value? _ => hnext value?

/-! ### Repetition -/

section Repetition

variable {stop : TokenKind}

/-- What each step keeps holds in the end. -/
theorem heeds_foldUntil {step : α → Parser α}
    (hstep : ∀ value, Q value → Heeds watch Q (step value)) {value : α} (hvalue : Q value) :
    Heeds watch Q (foldUntil stop step value) := by
  intro stream
  induction hlength : stream.pending.length using Nat.strongRecOn
    generalizing stream value with
  | _ length ih =>
    subst hlength
    intro hstream
    by_cases hstop : stream.next.kind = stop
    · exact .of_reads (reads_foldUntil.mpr (.inl ⟨hstop, rfl, rfl⟩)) ⟨hvalue, hstream⟩
    · refine .of_run (foldUntil_run hstop) ((hstep value hvalue stream hstream).bind ?_)
      rintro middle after ⟨hmiddle, hafter⟩
      by_cases hshorter : after.pending.length < stream.pending.length
      · exact .of_run (if_pos hshorter) (ih _ hshorter hmiddle after rfl hafter)
      · exact .of_run (if_neg hshorter) (heeds_unexpected _ after hafter)

/-- What holds of each item holds of all. -/
theorem heeds_manyUntil {item : Parser α} (hitem : Heeds watch Q item) :
    Heeds watch (fun items => ∀ value ∈ items, Q value) (manyUntil stop item) := by
  have hfold : Heeds watch (fun items => ∀ value ∈ items, Q value)
      (foldUntil stop (fun items => do return (← item) :: items) []) := by
    refine heeds_foldUntil (fun items hitems => hitem.bind fun value hvalue => .pure ?_) nofun
    exact List.forall_mem_cons.mpr ⟨hvalue, hitems⟩
  exact hfold.bind fun items hitems => .pure fun value hmem =>
    hitems value (List.mem_reverse.mp hmem)

/-- What holds of each item holds of all. -/
theorem heeds_commaSeparated {item : Parser α} (hitem : Heeds watch Q item) {close : TokenKind}
    (hclose : close.isError = false) :
    Heeds watch (fun items => ∀ value ∈ items, Q value) (commaSeparated item close) := by
  refine hitem.bind fun first hfirst => ?_
  refine (heeds_manyUntil (Q := Q) ?_).bind fun others hothers => ?_
  · exact (obeys_accept rfl).bind fun _ _ => .ite hitem (heeds_unexpected _)
  · refine (obeys_expectMark hclose).bind fun _ _ => .pure ?_
    exact List.forall_mem_cons.mpr ⟨hfirst, hothers⟩

/-- Where a parser stops, a token of a kind stands next. -/
theorem Heeds.from_stopsAt {parser : Parser α} (h : Heeds watch Q parser)
    (hstops : StopsAt parser stop) {stream : TokenStream} (hstream : watch.covers stream) :
    HeedsFrom watch parser stream fun value after =>
      (Q value ∧ watch.covers after) ∧ after.next.kind = stop where
  gives value after hreads :=
    ⟨(h stream hstream).gives value after hreads, hstops stream value after hreads⟩
  fails := (h stream hstream).fails

/-- A token of the kind before which a parser stops stands next in a stream that is covered. -/
theorem Heeds.stopping {parser : Parser α} (h : Heeds watch Q parser)
    (hstops : StopsAt parser stop) : Heeds watch (fun value =>
      Q value ∧ ∃ stream, watch.covers stream ∧ stream.next.kind = stop) parser :=
  fun _ hstream => (h.from_stopsAt hstops hstream).mono fun _ after hvalue =>
    ⟨⟨hvalue.1.1, after, hvalue.1.2, hvalue.2⟩, hvalue.1.2⟩

/-- Behind a parser that stops before a proper mark, the mark is taken. -/
theorem Heeds.closing {parser : Parser α} {next : α → Token → Parser β}
    (h : Heeds watch Q parser) (hstops : StopsAt parser stop) (hproper : stop.isError = false)
    (hnext : ∀ value, Q value → ∀ close, watch.knows close → Heeds watch R (next value close)) :
    Heeds watch R (parser >>= fun value => take >>= next value) := by
  intro stream hstream
  refine (h.from_stopsAt hstops hstream).bind ?_
  rintro value after ⟨⟨hvalue, hafter⟩, hstop⟩
  refine (heedsFrom_take hafter (hstop ▸ hproper)).bind fun close rest hclose => ?_
  exact hnext value hvalue close hclose.1.1 rest hclose.2

/-- What each item of a list keeps holds in the end. -/
theorem heeds_foldlM {γ : Type} {step : α → γ → Parser α} {items : List γ}
    (hstep : ∀ value, ∀ item ∈ items, Q value → Heeds watch Q (step value item))
    {value : α} (hvalue : Q value) : Heeds watch Q (items.foldlM step value) := by
  induction items generalizing value with
  | nil => exact .pure hvalue
  | cons item rest ih =>
    rw [List.foldlM_cons]
    refine (hstep value item (List.mem_cons_self ..) hvalue).bind fun _ hnext => ?_
    exact ih (fun value other hother => hstep value other (List.mem_cons_of_mem _ hother)) hnext

/-- Doing something for each item of a list. -/
theorem obeys_forM {γ : Type} {step : γ → Parser PUnit} (hstep : ∀ item, Obeys watch (step item))
    (items : List γ) : Obeys watch (items.forM step) := by
  induction items with
  | nil => exact .pure trivial
  | cons item rest ih => exact (hstep item).bind fun _ _ => ih

end Repetition

/-! ### Phrases of both dialects -/

section Shared

variable {brackets : Brackets}

theorem obeys_expectBounds : Obeys watch expectBounds := by
  refine (obeys_expectMark rfl).bind fun _ _ => ?_
  refine obeys_expectNumber.bind fun _ _ => ?_
  refine (obeys_expectMark rfl).bind fun _ _ => ?_
  refine obeys_expectNumber.bind fun _ _ => ?_
  exact (obeys_expectMark rfl).bind fun _ _ => .pure trivial

theorem obeys_expectLiteral (hopening : brackets.opening.isError = false)
    (hclosing : brackets.closing.isError = false) (expected : String) :
    Obeys watch (expectLiteral brackets expected) := by
  refine obeys_acceptBoolean.bind fun value? _ => ?_
  split
  · exact .pure trivial
  intro stream hstream
  refine .bind_of_run (peek_run stream) ?_
  split
  · rename_i hkind
    refine (heedsFrom_take hstream (by rw [hkind]; rfl)).bind fun token after htoken => ?_
    exact .pure ⟨trivial, htoken.2⟩
  · exact (obeys_expectNumber.bind fun _ _ => .pure trivial) stream hstream
  · split
    · rename_i hkind
      refine (heedsFrom_take hstream (hkind ▸ hopening)).bind fun token after htoken => ?_
      exact ((heeds_commaSeparated obeys_expectNumber hclosing).bind fun _ _ => .pure trivial)
        after htoken.2
    · exact heeds_unexpected _ stream hstream

theorem heeds_expectReference (expected : String) :
    Heeds watch (fun reference => reference.position.Marks watch.knows)
      (expectReference expected) :=
  (heeds_expectName expected).bind fun _ hname => .pure hname.2

theorem heeds_expectReferences (hopening : brackets.opening.isError = false)
    (hclosing : brackets.closing.isError = false) (expected : String) :
    Heeds watch (fun references => ∀ reference ∈ references,
      reference.position.Marks watch.knows) (expectReferences brackets expected) := by
  refine (obeys_accept hopening).bind fun _ _ => .ite ?_ ?_
  · exact heeds_commaSeparated (heeds_expectReference expected) hclosing
  · refine (heeds_expectReference expected).bind fun reference hmarks => .pure ?_
    exact List.forall_mem_singleton.mpr hmarks

/-- The body of a block is marked. -/
theorem heeds_expectBody (expected : String) :
    Heeds watch (fun token => token.position.Marks watch.knows) (expectBody expected) := by
  refine (heeds_expect rfl expected).bind fun body hbody => ?_
  exact (obeys_expectMark rfl).bind fun _ _ => .pure ⟨body, hbody.1, .inr hbody.2, rfl⟩

theorem obeys_requireStages (stages : OrderedMap Stage BoundStage) {close : Token}
    (h : watch.knows close) : Obeys watch (requireStages stages close) := by
  unfold requireStages
  split
  · exact .pure trivial
  · exact heeds_refuse _ h

/-- A property stands where it is declared, and so do the errors about it. -/
theorem PropertyDeclaration.position_of_resolve (declaration : PropertyDeclaration) :
    match declaration.resolve with
    | .ok property => property.position = declaration.position
    | .error error => error.position? = some declaration.position := by
  cases hresolve : declaration.resolve with
  | error error =>
    unfold PropertyDeclaration.resolve at hresolve
    split at hresolve
    · cases hresolve
      rfl
    · dsimp only at hresolve
      split at hresolve
      · cases hresolve
      · split at hresolve
        · cases hresolve
        · cases hresolve
          rfl
  | ok property =>
    unfold PropertyDeclaration.resolve at hresolve
    split at hresolve
    · cases hresolve
    · dsimp only at hresolve
      split at hresolve
      · cases hresolve
        rfl
      · split at hresolve
        · cases hresolve
          rfl
        · cases hresolve

/-- An error about a position that is marked may come up. -/
theorem heeds_throw_marked {position : Position} (h : position.Marks watch.knows) {error : Error}
    (herror : error.position? = some position) : Heeds watch Q (throw error : Parser α) := by
  obtain ⟨token, hknown, -, rfl⟩ := h
  exact .throw (watch.about token hknown error herror)

theorem heeds_resolveProperty {declaration : PropertyDeclaration}
    (h : declaration.position.Marks watch.knows) :
    Heeds watch (fun resolved => resolved.position.Marks watch.knows)
      (resolveProperty declaration) := by
  have hposition := PropertyDeclaration.position_of_resolve declaration
  unfold resolveProperty
  split
  · rename_i hresolve
    rw [hresolve] at hposition
    exact heeds_throw_marked h hposition
  · rename_i hresolve
    rw [hresolve] at hposition
    dsimp only at hposition
    rw [← hposition] at h
    exact Heeds.record.bind fun _ _ => .pure h

end Shared

end Parser

end ShaderAssembly
