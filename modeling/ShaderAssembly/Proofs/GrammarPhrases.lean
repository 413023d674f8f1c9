import ShaderAssembly.Phrase

/-!
# Phrases of the grammars

A phrase relates lists of tokens to what is written with them. The grammar of a dialect is a
family of phrases, one for each production, put together from repetition, options and lists with
commas. A phrase looks at nothing but its own tokens: it neither knows what follows them nor says
how they are found. The phrases that both dialects share are here.
-/

namespace ShaderAssembly.Grammar

/-- Which lists of tokens write which values. -/
abbrev Phrase (α : Type) : Type := List Token → α → Prop

section Combination

variable {α : Type} (phrase : Phrase α)

/-- `phrase*` -/
inductive Many : Phrase (List α)
  | nil : Many [] []
  | cons {tokens more : List Token} {value : α} {values : List α}
      (hfirst : phrase tokens value) (hmore : Many more values) :
      Many (tokens ++ more) (value :: values)

/-- `[phrase]` -/
inductive Optional : Phrase (Option α)
  | absent : Optional [] none
  | present {tokens : List Token} {value : α} (hphrase : phrase tokens value) :
      Optional tokens (some value)

/-- `mark phrase` -/
inductive After (mark : TokenKind) : Phrase α
  | mark {token : Token} {tokens : List Token} {value : α} (hmark : token.kind = mark)
      (hphrase : phrase tokens value) : After mark (token :: tokens) value

/-- `phrase (, phrase)*` -/
inductive CommaSeparated : Phrase (List α)
  | items {tokens more : List Token} {value : α} {values : List α}
      (hfirst : phrase tokens value) (hmore : Many (After phrase .comma) more values) :
      CommaSeparated (tokens ++ more) (value :: values)

end Combination

/-- One token of a kind. -/
inductive Single (kind : TokenKind) : Phrase Token
  | token {token : Token} (hkind : token.kind = kind) : Single kind [token] token

/-- A number that can be read. -/
inductive IsNumber : Phrase Number
  | number {token : Token} {number : Number} (hkind : token.kind = .number)
      (hvalue : Number.parse? token.lexeme = some number) : IsNumber [token] number

/-- `( number , number )` -/
inductive IsBounds : Phrase (BinaryValue × BinaryValue)
  | bounds {opening comma closing : Token} {lower upper : List Token} {least greatest : Number}
      (hopening : opening.kind = .openParen) (hleast : IsNumber lower least)
      (hcomma : comma.kind = .comma) (hgreatest : IsNumber upper greatest)
      (hclosing : closing.kind = .closeParen) :
      IsBounds (opening :: (lower ++ comma :: (upper ++ [closing])))
        (least.toBinary32, greatest.toBinary32)

/-- `true | false | string | number | opening number (, number)* closing` -/
inductive IsLiteral (brackets : Brackets) : Phrase Literal
  | yes {token : Token} (hword : token.isKeyword "true" = true) :
      IsLiteral brackets [token] (.boolean true)
  | no {token : Token} (hword : token.isKeyword "false" = true) :
      IsLiteral brackets [token] (.boolean false)
  | string {token : Token} (hkind : token.kind = .string) :
      IsLiteral brackets [token] (.string token.lexeme)
  | number {tokens : List Token} {number : Number} (hnumber : IsNumber tokens number) :
      IsLiteral brackets tokens (.number number)
  | tuple {opening closing : Token} {tokens : List Token} {components : List Number}
      (hopening : opening.kind = brackets.opening)
      (hcomponents : CommaSeparated IsNumber tokens components)
      (hclosing : closing.kind = brackets.closing) :
      IsLiteral brackets (opening :: (tokens ++ [closing])) (.tuple components)

/-- `ident` -/
inductive IsReference : Phrase BlockReference
  | name {name : Token} (hname : name.kind = .identifier) :
      IsReference [name] ⟨name.lexeme, name.position⟩

/-- `ident | opening ident (, ident)* closing` -/
inductive IsReferences (brackets : Brackets) : Phrase (List BlockReference)
  | one {tokens : List Token} {reference : BlockReference}
      (hreference : IsReference tokens reference) : IsReferences brackets tokens [reference]
  | several {opening closing : Token} {tokens : List Token} {references : List BlockReference}
      (hopening : opening.kind = brackets.opening)
      (hreferences : CommaSeparated IsReference tokens references)
      (hclosing : closing.kind = brackets.closing) :
      IsReferences brackets (opening :: (tokens ++ [closing])) references

/-- `body }`, which is what follows the opening brace of a code block. -/
inductive IsBody : Phrase Token
  | body {body closing : Token} (hbody : body.kind = .body)
      (hclosing : closing.kind = .closeBrace) : IsBody [body, closing] body

/-! ### Repetition -/

section Repetition

variable {α : Type} {phrase : Phrase α} {tokens more : List Token} {value : α} {values : List α}

/-- Repetitions of a phrase one after the other are a repetition of it. -/
theorem Many.append {others : List α} (h : Many phrase tokens values)
    (hmore : Many phrase more others) : Many phrase (tokens ++ more) (values ++ others) := by
  induction h with
  | nil => exact hmore
  | cons hfirst _ ih =>
    rw [List.append_assoc]
    exact .cons hfirst ih

/-- A single phrase is a repetition of it. -/
theorem Many.single (h : phrase tokens value) : Many phrase tokens [value] := by
  simpa using Many.cons h .nil

/-- Repetitions of a phrase are repetitions of one that holds wherever it does. -/
theorem Many.mono {other : Phrase α} (h : Many phrase tokens values)
    (hother : ∀ tokens value, phrase tokens value → other tokens value) :
    Many other tokens values := by
  induction h with
  | nil => exact .nil
  | cons hfirst _ ih => exact .cons (hother _ _ hfirst) ih

/-- Repetitions of a phrase whose values are wrapped. -/
theorem Many.map {β : Type} {wrap : β → α} {wrapped : List β}
    (h : Many (fun tokens value => phrase tokens (wrap value)) tokens wrapped) :
    Many phrase tokens (wrapped.map wrap) := by
  induction h with
  | nil => exact .nil
  | cons hfirst _ ih => exact .cons hfirst ih

/-- Every value of a repetition is written with a part of the tokens. -/
theorem Many.exists_of_mem (h : Many phrase tokens values) (hvalue : value ∈ values) :
    ∃ part, part ⊆ tokens ∧ phrase part value := by
  induction h with
  | nil => cases hvalue
  | cons hfirst _ ih =>
    rcases List.mem_cons.mp hvalue with rfl | hmore
    · exact ⟨_, List.subset_append_left _ _, hfirst⟩
    · obtain ⟨part, hpart, hphrase⟩ := ih hmore
      exact ⟨part, List.subset_append_of_subset_right _ hpart, hphrase⟩

/-- Repetitions of a phrase with a condition on its value are the repetitions of the phrase whose
values all satisfy the condition. -/
theorem many_and_iff {condition : α → Prop} :
    Many (fun tokens value => phrase tokens value ∧ condition value) tokens values ↔
      Many phrase tokens values ∧ ∀ value ∈ values, condition value := by
  constructor
  · intro h
    induction h with
    | nil => exact ⟨.nil, nofun⟩
    | cons hfirst _ ih => exact ⟨.cons hfirst.1 ih.1, by simpa using ⟨hfirst.2, ih.2⟩⟩
  · rintro ⟨h, hcondition⟩
    induction h with
    | nil => exact .nil
    | cons hfirst _ ih =>
      rw [List.forall_mem_cons] at hcondition
      exact .cons ⟨hfirst, hcondition.1⟩ (ih hcondition.2)

end Repetition

end ShaderAssembly.Grammar
