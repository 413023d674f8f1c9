import ShaderAssembly.Proofs.DescriptionGrammar

/-!
# Items at other positions

The grammar of descriptions does not look at positions: tokens at other positions are an item at
other positions. What items declare does not look at them either, so that items can be compared with
all positions left out.
-/

namespace ShaderAssembly

open ShaderAssembly.Grammar

/-! ### Moving tokens -/

/-- Moves the position of a token. -/
def Token.mapPosition (f : Position → Position) (token : Token) : Token :=
  { token with position := f token.position }

/-- Moves the position of a declaration. -/
def PropertyDeclaration.mapPosition (f : Position → Position) (declaration : PropertyDeclaration) :
    PropertyDeclaration :=
  { declaration with position := f declaration.position }

/-- Moves the position of a block that has just been read. -/
def CodeBlock.mapPosition (f : Position → Position) (block : CodeBlock) : CodeBlock :=
  .ofBody block.name block.body (f block.position)

namespace Grammar

variable {α β : Type} {f : Position → Position} {phrase : Phrase α} {move : α → α}
  {tokens : List Token}

/-- Whether tokens that are moved write values that are moved. -/
def Moves (f : Position → Position) (phrase : Phrase α) (move : α → α) : Prop :=
  ∀ tokens value, phrase tokens value → phrase (tokens.map (·.mapPosition f)) (move value)

theorem Moves.many (h : Moves f phrase move) : Moves f (Many phrase) (List.map move) := by
  intro tokens values hmany
  induction hmany with
  | nil => exact .nil
  | cons hfirst _ ih =>
    rw [List.map_append]
    exact .cons (h _ _ hfirst) ih

theorem Moves.after (h : Moves f phrase move) (mark : TokenKind) :
    Moves f (After phrase mark) move := by
  rintro _ _ ⟨hmark, hphrase⟩
  exact .mark hmark (h _ _ hphrase)

theorem Moves.optional (h : Moves f phrase move) :
    Moves f (Optional phrase) (Option.map move) := by
  rintro _ _ (_ | hphrase)
  · exact .absent
  · exact .present (h _ _ hphrase)

theorem Moves.commaSeparated (h : Moves f phrase move) :
    Moves f (CommaSeparated phrase) (List.map move) := by
  rintro _ _ ⟨hfirst, hmore⟩
  rw [List.map_append]
  exact .items (h _ _ hfirst) ((h.after .comma).many _ _ hmore)

/-- Values without positions stay as they are. -/
theorem Moves.fixed (h : Moves f phrase move) (hmove : ∀ value, move value = value) :
    Moves f phrase id := by
  intro tokens value hphrase
  have hmoved := h _ _ hphrase
  rwa [hmove] at hmoved

theorem moves_number : Moves f IsNumber id := by
  rintro _ _ ⟨hkind, hvalue⟩
  exact .number hkind hvalue

theorem moves_bounds : Moves f IsBounds id := by
  rintro _ _ ⟨hopening, hleast, hcomma, hgreatest, hclosing⟩
  simp only [List.map_cons, List.map_append, List.map_nil]
  exact .bounds hopening (moves_number _ _ hleast) hcomma (moves_number _ _ hgreatest) hclosing

theorem moves_literal (brackets : Brackets) : Moves f (IsLiteral brackets) id := by
  have hnumbers : Moves f (CommaSeparated IsNumber) id :=
    moves_number.commaSeparated.fixed List.map_id
  rintro _ _ (hword | hword | hkind | hnumber | ⟨hopening, hcomponents, hclosing⟩)
  · exact .yes hword
  · exact .no hword
  · exact .string hkind
  · exact .number (moves_number _ _ hnumber)
  · simp only [List.map_cons, List.map_append, List.map_nil]
    exact .tuple hopening (hnumbers _ _ hcomponents) hclosing

theorem moves_references (brackets : Brackets) :
    Moves f (IsReferences brackets) (List.map (·.mapPosition f)) := by
  have hreference : Moves f IsReference (·.mapPosition f) := by
    rintro _ _ ⟨hname⟩
    exact .name hname
  rintro _ _ (hone | ⟨hopening, hreferences, hclosing⟩)
  · exact .one (hreference _ _ hone)
  · simp only [List.map_cons, List.map_append, List.map_nil]
    exact .several hopening (hreference.commaSeparated _ _ hreferences) hclosing

theorem moves_body : Moves f IsBody (·.mapPosition f) := by
  rintro _ _ ⟨hbody, hclosing⟩
  exact .body hbody hclosing

end Grammar

namespace Description

variable {f : Position → Position}

theorem moves_hint : Moves f IsHint id := by
  rintro _ _ (⟨hopening, hword, hbounds, hclosing⟩ | ⟨hopening, hword, hclosing⟩ |
    ⟨hopening, hword, hopenParen, htext, hcloseParen, hclosing⟩)
  · simp only [List.map_cons, List.map_append, List.map_nil]
    exact .range hopening hword (moves_bounds _ _ hbounds) hclosing
  · exact .toggle hopening hword hclosing
  · exact .header hopening hword hopenParen htext hcloseParen hclosing

theorem moves_typeWord : Moves f IsTypeWord id := by
  rintro _ _ ⟨hword, htype⟩
  exact .word hword htype

theorem moves_declaration : Moves f IsDeclaration (·.mapPosition f) := by
  have hhints : Moves f (Many IsHint) id := moves_hint.many.fixed List.map_id
  have htypes : Moves f (Optional (After IsTypeWord .comma)) id :=
    (moves_typeWord.after .comma).optional.fixed fun _ => Option.map_id'
  have hdefaults : Moves f (Optional (After (IsLiteral .round) .equal)) id :=
    ((moves_literal .round).after .equal).optional.fixed fun _ => Option.map_id'
  rintro _ _ ⟨hhint, hname, hopening, hlabel, htype, hclosing, hdefault⟩
  simp only [List.map_cons, List.map_append]
  exact .declaration (hhints _ _ hhint) hname hopening hlabel (htypes _ _ htype) hclosing
    (hdefaults _ _ hdefault)

theorem moves_binding :
    Moves f IsBinding fun binding => (binding.1, binding.2.mapPosition f) := by
  rintro _ _ ⟨hword, hslot, hequal, hreferences⟩
  exact .binding hword hslot hequal (moves_references .round _ _ hreferences)

theorem moves_pass : Moves f IsPass (·.mapPosition f) := by
  rintro _ _ ⟨hkeyword, hopening, hbindings, hclosing⟩
  simp only [List.map_cons, List.map_append, List.map_nil]
  exact .pass hkeyword hopening (moves_binding.many _ _ hbindings) hclosing

theorem moves_technique : Moves f IsTechnique (·.mapPosition f) := by
  rintro _ _ ⟨hkeyword, hname, hopening, hpasses, hsome, hclosing⟩
  simp only [List.map_cons, List.map_append, List.map_nil]
  exact .technique hkeyword hname hopening (moves_pass.many _ _ hpasses)
    (by simpa using hsome) hclosing

/-- Moves all positions of an item. -/
def Item.mapPosition (f : Position → Position) : Item → Item
  | .properties declarations => .properties (declarations.map (·.mapPosition f))
  | .shared code => .shared (code.mapPosition f)
  | .block code => .block (code.mapPosition f)
  | .technique declared => .technique (declared.mapPosition f)

/-- Tokens that are moved are an item that is moved. -/
theorem moves_item : Moves f IsItem (Item.mapPosition f) := by
  intro tokens item h
  cases h with
  | properties hkeyword hopening hdeclarations hclosing =>
    simp only [List.map_cons, List.map_append, List.map_nil]
    exact .properties hkeyword hopening (moves_declaration.many _ _ hdeclarations) hclosing
  | @shared keyword opening body _ hkeyword hopening hbody =>
    exact @IsItem.shared (keyword.mapPosition f) (opening.mapPosition f) (body.mapPosition f) _
      hkeyword hopening (moves_body _ _ hbody)
  | @block keyword name opening body _ hkeyword hname hopening hbody =>
    exact @IsItem.block (keyword.mapPosition f) (name.mapPosition f) (opening.mapPosition f)
      (body.mapPosition f) _ hkeyword hname hopening (moves_body _ _ hbody)
  | technique htechnique => exact .technique (moves_technique _ _ htechnique)

/-! ### Items without positions -/

/-- An item with nothing in its positions. -/
def Item.unplaced (item : Item) : Item := item.mapPosition fun _ => default

/-- Moving a technique twice is moving it once. -/
theorem mapPosition_mapPosition_technique (g : Position → Position) (technique : Technique) :
    (technique.mapPosition f).mapPosition g = technique.mapPosition (g ∘ f) := by
  simp [Technique.mapPosition, Pass.mapPosition, BoundStage.mapPosition,
    BlockReference.mapPosition, StageStreams.mapPosition, StreamArgument.mapPosition,
    OrderedMap.mapValues, Function.comp_def]

/-- Where an item has been moved to does not matter without its positions. -/
theorem Item.unplaced_mapPosition (f : Position → Position) (item : Item) :
    (item.mapPosition f).unplaced = item.unplaced := by
  cases item with
  | properties declarations =>
    exact congrArg Item.properties List.map_map
  | shared code => rfl
  | block code => rfl
  | technique declared =>
    exact congrArg Item.technique (mapPosition_mapPosition_technique _ declared)

end Description

/-! ### Declarations at other positions -/

/-- A property that is moved gets the type and the default it would get anyway. -/
theorem PropertyDeclaration.toOption_resolve_mapPosition (f : Position → Position)
    (declaration : PropertyDeclaration) :
    (declaration.mapPosition f).resolve.toOption =
      declaration.resolve.toOption.map (·.mapPosition f) := by
  have htype : (declaration.mapPosition f).resolvedType? = declaration.resolvedType? := rfl
  have hdefault : (declaration.mapPosition f).default? = declaration.default? := rfl
  unfold resolve
  rw [htype, hdefault]
  cases declaration.resolvedType? with
  | none => rfl
  | some type =>
    dsimp only
    cases declaration.default? with
    | none => rfl
    | some literal =>
      dsimp only
      cases literal.toValue? type <;> rfl

/-- A property that is resolved is resolved when it is moved. -/
theorem PropertyDeclaration.resolve_mapPosition {f : Position → Position}
    {declaration : PropertyDeclaration} {property : Property}
    (h : declaration.resolve = .ok property) :
    (declaration.mapPosition f).resolve = .ok (property.mapPosition f) := by
  have hmoved := declaration.toOption_resolve_mapPosition f
  rw [h] at hmoved
  cases hresult : (declaration.mapPosition f).resolve with
  | error error =>
    rw [hresult] at hmoved
    cases hmoved
  | ok moved =>
    rw [hresult] at hmoved
    cases hmoved
    rfl

end ShaderAssembly
