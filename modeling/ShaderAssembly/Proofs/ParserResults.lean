import ShaderAssembly.Phrase
import ShaderAssembly.Proofs.Actions

/-!
# What parsers make of tokens

A parser takes tokens off a stream and puts nothing back. So if all tokens of a stream have some
property, the tokens that are left have it, and what the parser gives is made of tokens that have
it. This is stated once for every way in which parsers are put together; of a grammar only the
parts that keep tokens have to be looked at.
-/

namespace ShaderAssembly

/-- Whether all tokens of a stream have a property. -/
def TokenStream.All (stream : TokenStream) (property : Token → Prop) : Prop :=
  (∀ token ∈ stream.pending, property token) ∧ property stream.last

namespace TokenStream

variable {stream : TokenStream} {property : Token → Prop}

/-- The next token is one of the stream. -/
theorem All.next (h : stream.All property) : property stream.next := by
  unfold TokenStream.next
  cases hpending : stream.pending with
  | nil => exact h.2
  | cons token rest => exact h.1 token (by rw [hpending]; simp)

/-- The tokens after the next one are tokens of the stream. -/
theorem All.rest (h : stream.All property) : stream.rest.All property :=
  ⟨fun token htoken => h.1 token (List.mem_of_mem_tail htoken), h.2⟩

/-- A stream that is made of tokens with a property has tokens with the property, if the token for
the end has it. -/
theorem all_ofTokens {file : SourcePath} {tokens : List Token}
    (h : ∀ token ∈ tokens, property token) (hend : ∀ position, property (endAt position)) :
    (ofTokens file tokens).All property := by
  unfold ofTokens
  cases hlast : tokens.getLast? with
  | none => exact ⟨nofun, hend _⟩
  | some last =>
    dsimp only
    split
    · refine ⟨fun token htoken => ?_, h last (List.mem_of_getLast? hlast)⟩
      exact h token ((List.dropLast_sublist _).subset htoken)
    · exact ⟨h, hend _⟩

end TokenStream

namespace Parser

variable {α β : Type} {property : Token → Prop} {Q : α → Prop} {R : β → Prop}

/-- Whether what a parser gives satisfies `Q` on streams whose tokens have a property, which the
tokens that are left then have, too. -/
def Yields (property : Token → Prop) (Q : α → Prop) (parser : Parser α) : Prop :=
  ∀ stream : TokenStream, stream.All property →
    (parser.stateFrom stream).All property ∧
      ∀ value, parser.outcomeFrom stream = .ok value → Q value

/-- Whether a parser leaves only tokens that were there. -/
abbrev Keeps (property : Token → Prop) (parser : Parser α) : Prop :=
  Yields property (fun _ => True) parser

/-! ### Ways to put parsers together -/

section Combination

variable {parser : Parser α} {next : α → Parser β}

theorem Yields.pure {value : α} (h : Q value) :
    Yields property Q (Pure.pure value : Parser α) := by
  intro stream hstream
  refine ⟨hstream, fun other hother => ?_⟩
  cases hother
  exact h

theorem Yields.throw {error : Error} : Yields property Q (throw error : Parser α) :=
  fun _ hstream => ⟨hstream, nofun⟩

theorem Yields.record {level : Level} {message : String} :
    Keeps property (Action.record level message : Parser Unit) :=
  fun _ hstream => ⟨hstream, fun _ _ => trivial⟩

/-- A weaker fact about the result. -/
theorem Yields.mono (h : Yields property Q parser) {Q' : α → Prop}
    (hQ : ∀ value, Q value → Q' value) : Yields property Q' parser :=
  fun stream hstream =>
    ⟨(h stream hstream).1, fun value hvalue => hQ value ((h stream hstream).2 value hvalue)⟩

/-- Nothing but the tokens that are left. -/
theorem Yields.keeps (h : Yields property Q parser) : Keeps property parser :=
  h.mono fun _ _ => trivial

/-- One parser after another. -/
theorem Yields.bind (h : Yields property Q parser)
    (hnext : ∀ value, Q value → Yields property R (next value)) :
    Yields property R (parser >>= next) := by
  intro stream hstream
  obtain ⟨hafter, hvalue⟩ := h stream hstream
  rw [Action.stateFrom_bind]
  cases houtcome : parser.outcomeFrom stream with
  | error error =>
    refine ⟨hafter, fun value hok => ?_⟩
    rw [Action.outcomeFrom_bind_of_error houtcome] at hok
    cases hok
  | ok value =>
    have hrest := hnext value (hvalue value houtcome) _ hafter
    refine ⟨hrest.1, fun result hok => hrest.2 result ?_⟩
    rwa [Action.outcomeFrom_bind_of_ok houtcome] at hok

/-- A parser after a value. -/
theorem Yields.pure_bind {value : α} (h : Yields property R (next value)) :
    Yields property R (Pure.pure value >>= next) := h

/-- A parser whose value is changed. -/
theorem Yields.map (h : Yields property Q parser) {f : α → β}
    (hf : ∀ value, Q value → R (f value)) : Yields property R (f <$> parser) :=
  h.bind fun value hvalue => .pure (hf value hvalue)

/-- A parser that is chosen by a condition. -/
theorem Yields.ite {condition : Prop} [Decidable condition] {other : Parser α}
    (hthen : condition → Yields property Q parser)
    (helse : ¬ condition → Yields property Q other) :
    Yields property Q (if condition then parser else other) := by
  by_cases hcondition : condition
  · rw [if_pos hcondition]
    exact hthen hcondition
  · rw [if_neg hcondition]
    exact helse hcondition

end Combination

/-! ### Single tokens -/

section Tokens

theorem yields_peek : Yields property property peek := by
  intro stream hstream
  refine ⟨hstream, fun token htoken => ?_⟩
  cases htoken
  exact hstream.next

theorem yields_take : Yields property property take := by
  intro stream hstream
  refine ⟨hstream.rest, fun token htoken => ?_⟩
  cases htoken
  exact hstream.next

theorem keeps_seesKeyword (word : String) : Keeps property (seesKeyword word) :=
  yields_peek.bind fun _ _ => .pure trivial

theorem yields_refuse (expected : String) (token : Token) :
    Yields property Q (refuse expected token : Parser α) := .throw

theorem yields_refuseDuplicate (kind : DeclarationKind) (token : Token) :
    Yields property Q (refuseDuplicate kind token : Parser α) := .throw

theorem yields_unexpected (expected : String) :
    Yields property Q (unexpected expected : Parser α) := by
  refine yields_peek.bind fun token _ => ?_
  split
  · exact yields_refuse expected token
  · exact .throw
  · exact yields_refuse expected token

/-- A token that is asked for is one of the stream and of the kind that is asked for. -/
theorem yields_takeIf (kind : TokenKind) :
    Yields property (fun token? => ∀ token ∈ token?, property token ∧ token.kind = kind)
      (takeIf kind) := by
  intro stream hstream
  have hstep : takeIf kind stream = (if stream.next.kind == kind then
      (some <$> take : Parser (Option Token)) else pure none) stream := rfl
  unfold Action.stateFrom Action.outcomeFrom
  rw [hstep]
  split
  · rename_i hkind
    refine ⟨hstream.rest, fun token? htoken => ?_⟩
    cases htoken
    intro token htoken
    cases htoken
    exact ⟨hstream.next, by simpa using hkind⟩
  · refine ⟨hstream, fun token? htoken => ?_⟩
    cases htoken
    exact nofun

/-- A token that is asked for is one of the stream and of the kind that is asked for. -/
theorem yields_expect (kind : TokenKind) (expected : String) :
    Yields property (fun token => property token ∧ token.kind = kind) (expect kind expected) := by
  intro stream hstream
  have hstep : expect kind expected stream =
      (if stream.next.kind == kind then take else unexpected expected) stream := rfl
  unfold Action.stateFrom Action.outcomeFrom
  rw [hstep]
  split
  · rename_i hkind
    refine ⟨hstream.rest, fun token htoken => ?_⟩
    cases htoken
    exact ⟨hstream.next, by simpa using hkind⟩
  · exact yields_unexpected expected stream hstream

theorem keeps_accept (kind : TokenKind) : Keeps property (accept kind) :=
  (yields_takeIf kind).bind fun _ _ => .pure trivial

theorem keeps_acceptKeyword (word : String) : Keeps property (acceptKeyword word) := by
  refine (keeps_seesKeyword word).bind fun sees _ => .ite (fun _ => ?_) fun _ => .pure trivial
  exact yields_take.bind fun _ _ => .pure trivial

theorem keeps_expectMark (kind : TokenKind) : Keeps property (expectMark kind) :=
  (yields_expect kind _).bind fun _ _ => .pure trivial

theorem keeps_expectKeyword (word : String) : Keeps property (expectKeyword word) :=
  (keeps_seesKeyword word).bind fun _ _ => .ite (fun _ => yields_take.keeps) fun _ =>
    yields_unexpected _

theorem keeps_expectString (expected : String) : Keeps property (expectString expected) :=
  (yields_expect .string expected).bind fun _ _ => .pure trivial

theorem keeps_expectNumber : Keeps property expectNumber := by
  refine (yields_expect .number _).bind fun token _ => ?_
  split
  · exact .pure trivial
  · exact yields_refuse _ token

theorem keeps_acceptBoolean : Keeps property acceptBoolean := by
  refine (keeps_acceptKeyword "true").bind fun _ _ => .ite (fun _ => .pure trivial) fun _ => ?_
  exact (keeps_acceptKeyword "false").bind fun _ _ => .ite (fun _ => .pure trivial) fun _ =>
    .pure trivial

end Tokens

/-- An optional part after a mark, and what follows it in either case. -/
theorem yields_optional {parser : Parser α} {next : Option α → Parser β} {kind : TokenKind}
    (hparser : Yields property Q parser)
    (hnext : ∀ value?, (∀ value ∈ value?, Q value) → Yields property R (next value?)) :
    Yields property R (do
      if ← accept kind then
        let value? ← some <$> parser
        next value?
      else
        let value? ← pure none
        next value?) := by
  refine (keeps_accept kind).bind fun _ _ => .ite (fun _ => ?_) fun _ => ?_
  · refine (hparser.map (R := fun value? => ∀ value ∈ value?, Q value) fun value hvalue => ?_).bind
      hnext
    intro other hother
    cases hother
    exact hvalue
  · exact .pure_bind (hnext none nofun)

/-- A refusal on some condition, and what follows it otherwise. -/
theorem yields_refusing {condition : Prop} [Decidable condition] {refusal : Parser PUnit}
    {next : PUnit → Parser β} (hrefusal : Yields property (fun _ => False) refusal)
    (hnext : ¬ condition → Yields property R (next ⟨⟩)) :
    Yields property R (if condition then refusal >>= next else next ⟨⟩) :=
  .ite (fun _ => hrefusal.bind nofun) hnext

/-! ### Repetition -/

section Repetition

variable {stop : TokenKind}

/-- What each step keeps holds in the end. -/
theorem yields_foldUntil {step : α → Parser α}
    (hstep : ∀ value, Q value → Yields property Q (step value)) {value : α} (hvalue : Q value) :
    Yields property Q (foldUntil stop step value) := by
  intro stream
  induction hlength : stream.pending.length using Nat.strongRecOn
    generalizing stream value with
  | _ length ih =>
    subst hlength
    intro hstream
    have hfirst := hstep value hvalue stream hstream
    unfold Action.stateFrom Action.outcomeFrom at hfirst ⊢
    unfold foldUntil
    split
    · refine ⟨hstream, fun other hother => ?_⟩
      cases hother
      exact hvalue
    · cases hrun : step value stream with
      | mk traced after =>
        rw [hrun] at hfirst
        dsimp only at hfirst ⊢
        cases houtcome : traced.outcome with
        | error error => exact ⟨hfirst.1, nofun⟩
        | ok result =>
          dsimp only
          split
          · rename_i hshorter
            exact ih _ hshorter (hfirst.2 result houtcome) after rfl hfirst.1
          · exact yields_unexpected (Q := Q) stop.description after hfirst.1

/-- What holds of each item holds of all. -/
theorem yields_manyUntil {item : Parser α} (hitem : Yields property Q item) :
    Yields property (fun items => ∀ value ∈ items, Q value) (manyUntil stop item) := by
  have hfold : Yields property (fun items => ∀ value ∈ items, Q value)
      (foldUntil stop (fun items => do return (← item) :: items) []) := by
    refine yields_foldUntil (fun items hitems => hitem.bind fun value hvalue => .pure ?_) nofun
    intro other hother
    rcases List.mem_cons.mp hother with rfl | hother
    · exact hvalue
    · exact hitems other hother
  refine hfold.bind fun items hitems => .pure ?_
  intro value hmem
  exact hitems value (List.mem_reverse.mp hmem)

/-- What holds of each item holds of all. -/
theorem yields_commaSeparated {item : Parser α} (hitem : Yields property Q item)
    (close : TokenKind) :
    Yields property (fun items => ∀ value ∈ items, Q value) (commaSeparated item close) := by
  refine hitem.bind fun first hfirst => ?_
  refine (yields_manyUntil (Q := Q) ?_).bind fun others hothers => ?_
  · exact (keeps_accept .comma).bind fun _ _ => .ite (fun _ => hitem) fun _ => yields_unexpected _
  · refine (keeps_expectMark close).bind fun _ _ => .pure fun value hmem => ?_
    rcases List.mem_cons.mp hmem with rfl | hmem
    · exact hfirst
    · exact hothers value hmem

/-- What each item of a list keeps holds in the end. -/
theorem yields_foldlM {γ : Type} {step : α → γ → Parser α}
    (hstep : ∀ value item, Q value → Yields property Q (step value item)) (items : List γ)
    {value : α} (hvalue : Q value) : Yields property Q (items.foldlM step value) := by
  induction items generalizing value with
  | nil => exact .pure hvalue
  | cons item rest ih =>
    rw [List.foldlM_cons]
    exact (hstep value item hvalue).bind fun _ hnext => ih hnext

/-- Doing something for each item of a list. -/
theorem keeps_forM {γ : Type} {step : γ → Parser PUnit} (hstep : ∀ item, Keeps property (step item))
    (items : List γ) : Keeps property (items.forM step) := by
  induction items with
  | nil => exact .pure trivial
  | cons item rest ih => exact (hstep item).bind fun _ _ => ih

end Repetition

end Parser

end ShaderAssembly
