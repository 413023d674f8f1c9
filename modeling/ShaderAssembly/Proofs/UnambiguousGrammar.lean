import ShaderAssembly.Proofs.DescribedShaders
import ShaderAssembly.Proofs.ScannedTokens

/-!
# The grammar of descriptions is unambiguous

A list of tokens is a description in at most one way. Where a parser recognizes a phrase this
follows from the parser having one result; the phrases above those are told apart by the words they
start with and end at their closing braces. So the parser of descriptions can be judged by any one
derivation: it accepts the tokens exactly if the items of that one can stand in one shader.
-/

namespace ShaderAssembly.Grammar

open ShaderAssembly.Parser

variable {α : Type} {phrase : Phrase α} {stop : TokenKind}

/-- Whether at most one phrase stands at the start of some tokens, and with one value, if only
phrases before tokens of certain kinds count. -/
structure IsUnambiguous (phrase : Phrase α) (follow : TokenKind → Prop := fun _ => True) :
    Prop where
  /-- Two phrases are one. -/
  unique : ∀ {last : Token} {tokens other rest more : List Token} {value result : α},
    last.kind = .endOfFile → phrase tokens value → phrase other result →
      tokens ++ rest = other ++ more → follow (TokenStream.next ⟨rest, last⟩).kind →
        follow (TokenStream.next ⟨more, last⟩).kind → tokens = other ∧ value = result

/-- A phrase that a parser recognizes is unambiguous, as the parser has one result. -/
theorem IsUnambiguous.of_recognizes {parser : Parser α} {follow : TokenKind → Prop}
    (h : Recognizes parser phrase follow) : IsUnambiguous phrase follow := by
  constructor
  intro last tokens other rest more value result hlast hphrase hother heq hfollow hmore
  obtain ⟨hvalue, hrest⟩ := h.complete hlast hphrase hfollow
  obtain ⟨hresult, hmore⟩ := h.complete hlast hother hmore
  rw [heq] at hvalue hrest
  obtain rfl := Except.ok.inj (hvalue.symm.trans hresult)
  obtain rfl : rest = more := congrArg TokenStream.pending (hrest.symm.trans hmore)
  exact ⟨List.append_cancel_right heq, rfl⟩

/-- Repetitions that end at a mark are unambiguous if what is repeated is and does not start with
the mark. -/
theorem IsUnambiguous.many (h : IsUnambiguous phrase)
    (hstarts : StartsWith phrase (·.kind ≠ stop)) : IsUnambiguous (Many phrase) (· = stop) := by
  -- Where one repetition ends, the mark stands next, so that the other one cannot go on.
  have hends : ∀ {last : Token} {rest first more : List Token} {value : α},
      phrase first value → rest = first ++ more →
        (TokenStream.next ⟨rest, last⟩).kind ≠ stop := by
    rintro last _ first more value hfirst rfl
    obtain ⟨token, others, rfl, hkind⟩ := hstarts _ _ hfirst
    exact hkind
  constructor
  intro last tokens other rest more values results hlast hmany
  induction hmany generalizing other results with
  | nil =>
    intro hother heq hrest _
    cases hother with
    | nil => exact ⟨rfl, rfl⟩
    | cons hfirst _ => exact absurd hrest (hends hfirst (by simpa using heq))
  | cons hfirst hothers ih =>
    intro hother heq hrest hmore
    cases hother with
    | nil => exact absurd hmore (hends hfirst (by simpa using heq.symm))
    | cons hagain hresults =>
      rw [List.append_assoc, List.append_assoc] at heq
      obtain ⟨rfl, rfl⟩ := h.unique hlast hfirst hagain heq trivial trivial
      obtain ⟨rfl, rfl⟩ := ih hresults (List.append_cancel_left heq) hrest hmore
      exact ⟨rfl, rfl⟩

/-- What ends at a closing mark is unambiguous with the mark. -/
theorem IsUnambiguous.closing (h : IsUnambiguous phrase (· = stop))
    {tokens other rest more : List Token} {value result : α} {closing mark : Token}
    (hphrase : phrase tokens value) (hother : phrase other result) (hclosing : closing.kind = stop)
    (hmark : mark.kind = stop) (heq : tokens ++ closing :: rest = other ++ mark :: more) :
    tokens = other ∧ value = result ∧ closing = mark ∧ rest = more := by
  have hlast : (TokenStream.endAt default).kind = .endOfFile := rfl
  obtain ⟨rfl, rfl⟩ := h.unique hlast hphrase hother heq hclosing hmark
  obtain ⟨rfl, rfl⟩ := List.cons.inj (List.append_cancel_left heq)
  exact ⟨rfl, rfl, rfl, rfl⟩

end ShaderAssembly.Grammar

namespace ShaderAssembly.Description

open ShaderAssembly.Grammar ShaderAssembly.Parser

/-! ### Productions -/

section Productions

theorem isUnambiguous_declarations : IsUnambiguous (Many IsDeclaration) (· = .closeBrace) :=
  .of_recognizes (recognizes_manyUntil recognizes_expectProperty startsWith_declaration nofun)

/-- The parser that adds a binding to none shows which binding it has read. -/
theorem isUnambiguous_binding : IsUnambiguous IsBinding := by
  have hstage := IsUnambiguous.of_recognizes (recognizes_readStage .empty)
  have hadded : ∀ binding : Stage × BoundStage,
      OrderedMap.empty.insertNew? binding.1 binding.2 = some ⟨[binding]⟩ := fun _ => rfl
  constructor
  intro last tokens other rest more binding result hlast hbinding hother heq _ _
  obtain ⟨rfl, hmaps⟩ := hstage.unique hlast ⟨binding, hbinding, hadded binding⟩
    ⟨result, hother, hadded result⟩ heq trivial trivial
  exact ⟨rfl, (List.cons.inj (OrderedMap.mk.inj hmaps)).1⟩

theorem isUnambiguous_bindings : IsUnambiguous (Many IsBinding) (· = .closeBrace) := by
  refine isUnambiguous_binding.many ?_
  rintro _ _ ⟨hword, -, -, -⟩
  exact ⟨_, _, rfl, by simp [hword]⟩

theorem isUnambiguous_pass : IsUnambiguous IsPass := by
  constructor
  rintro last _ _ rest more _ _ hlast ⟨_, _, hbindings, hclosing⟩ ⟨_, _, hother, hmark⟩ heq - -
  simp only [List.cons_append, List.append_assoc, List.nil_append, List.cons.injEq] at heq
  obtain ⟨rfl, rfl, heq⟩ := heq
  obtain ⟨rfl, rfl, rfl, rfl⟩ :=
    isUnambiguous_bindings.closing hbindings hother hclosing hmark heq
  exact ⟨rfl, rfl⟩

theorem isUnambiguous_passes : IsUnambiguous (Many IsPass) (· = .closeBrace) := by
  refine isUnambiguous_pass.many ?_
  rintro _ _ ⟨hkeyword, -, -, -⟩
  exact ⟨_, _, rfl, by simp [(isKeyword_iff.mp hkeyword).1]⟩

theorem isUnambiguous_technique : IsUnambiguous IsTechnique := by
  constructor
  rintro last _ _ rest more _ _ hlast ⟨_, _, _, hpasses, _, hclosing⟩ ⟨_, _, _, hother, _, hmark⟩
    heq - -
  simp only [List.cons_append, List.append_assoc, List.nil_append, List.cons.injEq] at heq
  obtain ⟨rfl, rfl, rfl, heq⟩ := heq
  obtain ⟨rfl, rfl, rfl, rfl⟩ := isUnambiguous_passes.closing hpasses hother hclosing hmark heq
  exact ⟨rfl, rfl⟩

/-- Items that stand at the start of the same tokens have the same keyword. -/
theorem IsItem.keyword_eq {tokens other rest more : List Token} {item result : Item}
    (h : IsItem tokens item) (hother : IsItem other result)
    (heq : tokens ++ rest = other ++ more) : item.keyword = result.keyword := by
  obtain ⟨first, _, rfl, hfirst⟩ := h.starts
  obtain ⟨again, _, rfl, hagain⟩ := hother.starts
  obtain ⟨rfl, -⟩ := List.cons.inj heq
  rw [← (isKeyword_iff.mp hfirst).2, ← (isKeyword_iff.mp hagain).2]

theorem isUnambiguous_item : IsUnambiguous IsItem := by
  constructor
  intro last tokens other rest more item result hlast hitem hother heq _ _
  -- The keywords leave items of one kind, and blocks, which their second tokens tell apart.
  have hkeyword := hitem.keyword_eq hother heq
  cases hitem with
  | properties _ _ hdeclarations hclosing =>
    cases hother with
    | properties _ _ hagain hmark =>
      simp only [List.cons_append, List.append_assoc, List.nil_append, List.cons.injEq] at heq
      obtain ⟨rfl, rfl, heq⟩ := heq
      obtain ⟨rfl, rfl, rfl, rfl⟩ :=
        isUnambiguous_declarations.closing hdeclarations hagain hclosing hmark heq
      exact ⟨rfl, rfl⟩
    | _ => simp [Item.keyword] at hkeyword
  | shared _ hopening hbody =>
    cases hother with
    | shared _ _ hagain =>
      obtain ⟨_, _⟩ := hbody
      obtain ⟨_, _⟩ := hagain
      simp only [List.cons_append, List.nil_append, List.cons.injEq] at heq
      obtain ⟨rfl, rfl, rfl, rfl, rfl⟩ := heq
      exact ⟨rfl, rfl⟩
    | block _ hname _ _ =>
      obtain ⟨-, rfl, -⟩ := by simpa only [List.cons_append, List.cons.injEq] using heq
      simp [hopening] at hname
    | _ => simp [Item.keyword] at hkeyword
  | block _ hname _ hbody =>
    cases hother with
    | shared _ hopening _ =>
      obtain ⟨-, rfl, -⟩ := by simpa only [List.cons_append, List.cons.injEq] using heq
      simp [hopening] at hname
    | block _ _ _ hagain =>
      obtain ⟨_, _⟩ := hbody
      obtain ⟨_, _⟩ := hagain
      simp only [List.cons_append, List.nil_append, List.cons.injEq] at heq
      obtain ⟨rfl, rfl, rfl, rfl, rfl, rfl⟩ := heq
      exact ⟨rfl, rfl⟩
    | _ => simp [Item.keyword] at hkeyword
  | technique htechnique =>
    cases hother with
    | technique hagain =>
      obtain ⟨rfl, rfl⟩ :=
        isUnambiguous_technique.unique hlast htechnique hagain heq trivial trivial
      exact ⟨rfl, rfl⟩
    | _ => simp [Item.keyword] at hkeyword

theorem isUnambiguous_items : IsUnambiguous (Many IsItem) (· = .closeBrace) := by
  refine isUnambiguous_item.many ?_
  intro _ _ hitem
  obtain ⟨first, more, rfl, hfirst⟩ := hitem.starts
  exact ⟨first, more, rfl, by simp [(isKeyword_iff.mp hfirst).1]⟩

end Productions

/-! ### Whole descriptions -/

section Whole

variable {path : SourcePath} {tokens : List Token} {items others : List Item} {shader : Shader}
  {text : String}

/-- Tokens are a description of one list of items. -/
theorem IsDescription.unique (h : IsDescription tokens items)
    (hother : IsDescription tokens others) :
    items = others := by
  generalize heq : tokens = again at hother
  obtain ⟨_, _, hitems, hclosing, _⟩ := h
  obtain ⟨_, _, hagain, hmark, _⟩ := hother
  simp only [List.cons.injEq] at heq
  exact (isUnambiguous_items.closing hitems hagain hclosing hmark heq.2.2).2.1

/-- The tokens of a text that are a description end with the end of the file, which stands nowhere
else. -/
theorem IsDescription.endsOnce
    (h : IsDescription (Token.scan (some blockRule) path text) items) :
    EndsOnce (Token.scan (some blockRule) path text) := by
  obtain ⟨pending, last, htokens, -, hpending⟩ :=
    (ScanState.emits_scan (some blockRule) path text).exists_last
  rw [htokens] at h ⊢
  refine ⟨pending, last, rfl, ?_, fun token htoken hkind => hpending token htoken (.inl hkind)⟩
  generalize htokens : pending ++ [last] = tokens at h
  obtain ⟨-, -, -, -, hend⟩ := h
  rename_i keyword opening closing final inner
  have hsplit : pending ++ [last] = (keyword :: opening :: (inner ++ [closing])) ++ [final] := by
    simp [htokens]
  obtain ⟨-, hfinal⟩ := List.append_inj' hsplit rfl
  obtain rfl := List.singleton_inj.mp hfinal
  exact hend

/-- What a text that is a description of some items is read as: a shader, if the items can stand in
one and one of them is a technique, whose tables are what these items declare. -/
theorem IsDescription.parse_iff
    (h : IsDescription (Token.scan (some blockRule) path text) items) :
    ((∃ shader, (parse path text).outcome = .ok shader) ↔
      Consistent items ∧ items.filterMap Item.technique? ≠ []) ∧
    ∀ shader, (parse path text).outcome = .ok shader → Declares path items shader := by
  have hread : ∀ shader, (parse path text).outcome = .ok shader →
      Consistent items ∧ items.filterMap Item.technique? ≠ [] ∧ Declares path items shader := by
    intro shader hshader
    obtain ⟨others, hothers, hconsistent, hsome, hdeclares⟩ :=
      exists_isDescription_of_ofTokens h.endsOnce hshader
    obtain rfl := h.unique hothers
    exact ⟨hconsistent, hsome, hdeclares⟩
  refine ⟨⟨?_, ?_⟩, fun shader hshader => (hread shader hshader).2.2⟩
  · rintro ⟨shader, hshader⟩
    obtain ⟨hconsistent, hsome, -⟩ := hread shader hshader
    exact ⟨hconsistent, hsome⟩
  · rintro ⟨hconsistent, hsome⟩
    obtain ⟨shader, hshader, -⟩ := @exists_ofTokens_of_isDescription path _ _ h hconsistent hsome
    exact ⟨shader, hshader⟩

end Whole

end ShaderAssembly.Description
