import ShaderAssembly.Proofs.BlocksInStep
import ShaderAssembly.Proofs.RearrangedItems
import ShaderAssembly.Proofs.ScannedParts
import ShaderAssembly.Proofs.UnambiguousGrammar

/-!
# Descriptions written item by item

A description can be put together from texts that are one item each, with line feeds between them.
Each text is read as it would be anywhere inside the braces of a shader, so the description has the
items of the texts, only at other positions. The same texts in another order are the same items in
another order.
-/

namespace ShaderAssembly.Description

open ShaderAssembly.Grammar ShaderAssembly.Token

/-! ### Texts inside the braces -/

/-- The state in which a text right inside the braces of a shader is read. -/
def insideBraces : ScanState := ⟨Place.start, 1, some .openBrace, .none⟩

/-- The tokens of a text that stands right inside the braces of a shader. -/
def innerTokens (path : SourcePath) (text : String) : List Token :=
  scanFrom (some blockRule) path insideBraces text.toList

/-- Whether a text is an item and nothing else. -/
def IsItemText (path : SourcePath) (text : String) (item : Item) : Prop :=
  ∃ tokens position, innerTokens path text = tokens ++ [TokenStream.endAt position] ∧
    IsItem tokens item

/-- Whether the parser of items reads all of a text. -/
def readsAsItem (path : SourcePath) (text : String) : Bool :=
  let tokens := innerTokens path text
  let last := TokenStream.endAt (tokens.getLast?.elim default Token.position)
  let read := readItem ⟨.empty path, false⟩
  let stream : TokenStream := ⟨tokens.dropLast, last⟩
  tokens = tokens.dropLast ++ [last] && (read.outcomeFrom stream).toOption.any fun _ =>
    (read.stateFrom stream).pending = []

/-- Whether a text starts a technique. -/
def isTechniqueText (path : SourcePath) (text : String) : Bool :=
  (innerTokens path text).head?.any (·.isKeyword "Technique")

section Texts

variable {path : SourcePath} {text : String} {item other : Item}

/-- A text is one item only. -/
theorem IsItemText.unique (h : IsItemText path text item) (hother : IsItemText path text other) :
    item = other := by
  obtain ⟨tokens, position, htokens, hitem⟩ := h
  obtain ⟨again, _, hagain, hother⟩ := hother
  obtain ⟨rfl, -⟩ := List.append_inj' (htokens.symm.trans hagain) rfl
  have hlast : (TokenStream.endAt position).kind = .endOfFile := rfl
  have hsame : tokens ++ [] = tokens ++ [] := rfl
  exact (isUnambiguous_item.unique hlast hitem hother hsame trivial trivial).2

/-- A text that the parser of items reads is an item. -/
theorem exists_isItemText (h : readsAsItem path text = true) :
    ∃ item, IsItemText path text item := by
  obtain ⟨htokens, hread⟩ := Bool.and_eq_true_iff.mp h
  obtain ⟨draft, hdraft, hend⟩ := exists_of_toOption_any hread
  obtain ⟨taken, rest, htaken, hafter, item, hitem, -⟩ :=
    (recognizes_readItem ⟨.empty path, false⟩).sound rfl draft _ ⟨hdraft, rfl⟩
  obtain rfl : rest = [] := by
    rw [hafter] at hend
    exact of_decide_eq_true hend
  rw [List.append_nil] at htaken
  exact ⟨item, taken, _, htaken ▸ of_decide_eq_true htokens, hitem⟩

/-- A text that is an item starts a technique if the item is one. -/
theorem IsItemText.isTechniqueText_eq (h : IsItemText path text item) :
    isTechniqueText path text = item.technique?.isSome := by
  obtain ⟨tokens, _, htokens, hitem⟩ := h
  obtain ⟨first, more, rfl, hfirst⟩ := hitem.starts
  obtain ⟨hkind, hword⟩ := Parser.isKeyword_iff.mp hfirst
  rw [isTechniqueText, htokens]
  cases item <;> simp_all [Token.isKeyword, Item.keyword, Item.technique?]

end Texts

/-! ### Written descriptions -/

/-- The text of an item in a description. -/
structure WrittenItem where
  /-- How many empty lines stand before it. -/
  gap : Nat
  /-- The text. -/
  text : String

/-- The lines of an item in a description. -/
def WrittenItem.lines (written : WrittenItem) : List Char :=
  List.replicate written.gap '\n' ++ (written.text.toList ++ ['\n'])

/-- A description that is put together from texts. -/
structure Layout (path : SourcePath) where
  /-- What opens the shader. -/
  opening : String
  /-- The items in the order they are written. -/
  items : List WrittenItem
  /-- What closes the shader. -/
  closing : String
  /-- The shader is opened. -/
  opens : ∃ keyword brace position,
    scan (some blockRule) path opening = [keyword, brace, TokenStream.endAt position] ∧
      keyword.isKeyword "Shader" = true ∧ brace.kind = .openBrace
  /-- Every text is an item. -/
  isItem : ∀ written ∈ items, ∃ item, IsItemText path written.text item
  /-- The shader is closed. -/
  closes : ∃ brace position, innerTokens path closing = [brace, TokenStream.endAt position] ∧
    brace.kind = .closeBrace

namespace Layout

variable {path : SourcePath}

/-- The texts of the items. -/
def texts (layout : Layout path) : List String := layout.items.map WrittenItem.text

/-- The whole text: the parts, with line feeds between them. -/
def text (layout : Layout path) : String :=
  String.ofList (layout.opening.toList ++ '\n' :: (layout.items.flatMap WrittenItem.lines ++
    layout.closing.toList))

/-- Whether a description has the items of another one in any order, but with the techniques in the
order they have there. -/
structure Rearranges (layout other : Layout path) : Prop where
  /-- The texts are the same. -/
  perm : other.texts.Perm layout.texts
  /-- The texts of techniques are in the same order. -/
  techniques : other.texts.filter (isTechniqueText path) =
    layout.texts.filter (isTechniqueText path)

theorem Rearranges.symm {layout other : Layout path} (h : layout.Rearranges other) :
    other.Rearranges layout :=
  ⟨h.perm.symm, h.techniques.symm⟩

end Layout

/-! ### Reading them -/

section Reading

variable {path : SourcePath} {lines : Nat} {state : ScanState} {tokens : List Token}

/-- Behind a line feed another line starts. -/
theorem after_line (lines : Nat) (text : List Char) :
    (Place.start.below lines).after (text ++ ['\n']) =
      Place.start.below (lines + (text ++ ['\n']).count '\n') := by
  have hends : Text.EndsLine (text ++ ['\n']) := by simp [Text.EndsLine]
  rw [Place.after_below, Place.start_after_of_endsLine hends]
  generalize (text ++ ['\n']).count '\n' = feeds
  show (⟨feeds + 1 + lines, 1⟩ : Place) = ⟨1 + (lines + feeds), 1⟩
  congr 1
  omega

/-- Behind line feeds a text is read further down. -/
theorem exists_scanFrom_gap (path : SourcePath) (h : insideBraces.IsBelow blockRule lines state)
    (gap : Nat) (rest : List Char) :
    ∃ next, scanFrom (some blockRule) path state (List.replicate gap '\n' ++ rest) =
        scanFrom (some blockRule) path next rest ∧
      insideBraces.IsBelow blockRule (lines + gap) next := by
  induction gap generalizing lines state with
  | zero => exact ⟨state, rfl, h⟩
  | succ gap ih =>
    have hpassed : insideBraces.IsBelow blockRule (lines + 1) (state.passing ['\n']) :=
      ⟨(congrArg (·.after ['\n']) h.place).trans (after_line lines []), h.depth, h.head,
        h.declaration⟩
    obtain ⟨next, hnext, hbelow⟩ := ih hpassed
    refine ⟨next, ?_, by rwa [Nat.add_right_comm] at hbelow⟩
    rw [← hnext]
    exact scanFrom_blank (by simp [h.head, insideBraces]) rfl

/-- Behind tokens that close their braces no head of a block is being read. -/
theorem head_after_of_isClosed (htokens : IsClosed tokens) :
    (state.after (some blockRule) tokens).head = .none := by
  obtain ⟨last, hlast, hkind⟩ := htokens.ends
  obtain ⟨before, rfl⟩ := List.getLast?_eq_some_iff.mp hlast
  rw [ScanState.after_append]
  rcases hkind with hkind | hkind <;>
    simp [ScanState.after, ScanState.taking, ScanState.headAfter, hkind]

/-- Behind tokens that close their braces, and a line feed, a text is read as one right inside the
braces of the shader. -/
theorem isBelow_after (h : insideBraces.IsBelow blockRule lines state) (htokens : IsClosed tokens)
    (text : List Char) :
    insideBraces.IsBelow blockRule (lines + (text ++ ['\n']).count '\n')
      ((state.after (some blockRule) tokens).passing (text ++ ['\n'])) where
  place := by
    have hplace : (state.after (some blockRule) tokens).place = Place.start.below lines :=
      (ScanState.place_after tokens).trans h.place
    exact (congrArg (·.after (text ++ ['\n'])) hplace).trans (after_line lines text)
  depth := (htokens.balanced _ _).trans h.depth
  head := head_after_of_isClosed htokens
  declaration := ScanState.atDeclaration_of_closed htokens h.depth

/-- An item in a description is the item that its text is, further down, and what follows its lines
is read as a text right inside the braces. -/
theorem exists_scanFrom_item (h : insideBraces.IsBelow blockRule lines state)
    {written : WrittenItem} {item : Item} (hitem : IsItemText path written.text item)
    (rest : List Char) :
    ∃ tokens placed next more,
      scanFrom (some blockRule) path state (written.lines ++ rest) =
          tokens ++ scanFrom (some blockRule) path next rest ∧
        IsItem tokens placed ∧ placed.unplaced = item.unplaced ∧
          insideBraces.IsBelow blockRule more next := by
  obtain ⟨tokens, position, htokens, hitem⟩ := hitem
  obtain ⟨first, hfirst, hbelow⟩ :=
    exists_scanFrom_gap path h written.gap (written.text.toList ++ '\n' :: rest)
  have hmoved := moves_item (f := Position.below (lines + written.gap)) _ _ hitem
  have hread : scanFrom (some blockRule) path first written.text.toList =
      tokens.map (·.mapPosition (Position.below (lines + written.gap))) ++
        [TokenStream.endAt (position.below (lines + written.gap))] := by
    have hinner := hbelow.scanFrom path written.text.toList
    rw [show scanFrom _ path insideBraces _ = _ from htokens, List.map_append] at hinner
    exact hinner
  refine ⟨_, _, _, _, ?_, hmoved, Item.unplaced_mapPosition _ item,
    isBelow_after hbelow hmoved.isClosed written.text.toList⟩
  rw [WrittenItem.lines, List.append_assoc, List.append_assoc, List.singleton_append, hfirst,
    scanFrom_append_line rest hread]

/-- Whether an item is the one that a text is, wherever it stands. -/
def IsItemOf (path : SourcePath) (text : String) (placed : Item) : Prop :=
  ∃ item, IsItemText path text item ∧ placed = item.unplaced

/-- The items in a description are those that their texts are, and what follows their lines is read
as a text right inside the braces. -/
theorem exists_scanFrom_items (h : insideBraces.IsBelow blockRule lines state)
    {all : List WrittenItem} (hall : ∀ written ∈ all, ∃ item, IsItemText path written.text item)
    (rest : List Char) :
    ∃ tokens items next more,
      scanFrom (some blockRule) path state (all.flatMap WrittenItem.lines ++ rest) =
          tokens ++ scanFrom (some blockRule) path next rest ∧
        Many IsItem tokens items ∧
          List.Forall₂ (IsItemOf path) (all.map WrittenItem.text) (items.map Item.unplaced) ∧
            insideBraces.IsBelow blockRule more next := by
  induction all generalizing lines state with
  | nil => exact ⟨[], [], state, lines, rfl, .nil, .nil, h⟩
  | cons written all ih =>
    obtain ⟨⟨item, hitem⟩, hall⟩ := List.forall_mem_cons.mp hall
    obtain ⟨tokens, placed, next, _, hscan, hplaced, hsame, hnext⟩ :=
      exists_scanFrom_item h hitem (all.flatMap WrittenItem.lines ++ rest)
    obtain ⟨others, items, last, more, hothers, hitems, hunplaced, hlast⟩ := ih hnext hall
    refine ⟨tokens ++ others, placed :: items, last, more, ?_, .cons hplaced hitems,
      .cons ⟨item, hitem, hsame⟩ hunplaced, hlast⟩
    rw [List.flatMap_cons, List.append_assoc, hscan, hothers, List.append_assoc]

/-- A description that is put together from texts is a description of the items that the texts are.
-/
theorem Layout.exists_isDescription (layout : Layout path) :
    ∃ items, IsDescription (scan (some blockRule) path layout.text) items ∧
      List.Forall₂ (IsItemOf path) layout.texts (items.map Item.unplaced) := by
  obtain ⟨keyword, brace, position, hopening, hkeyword, hbrace⟩ := layout.opens
  obtain ⟨closing, final, hclosing, hclose⟩ := layout.closes
  obtain ⟨hkind, hword⟩ := Parser.isKeyword_iff.mp hkeyword
  have hopened : scanFrom (some blockRule) path .start layout.opening.toList =
      [keyword, brace] ++ [TokenStream.endAt position] := hopening
  have hstart : insideBraces.IsBelow blockRule ((layout.opening.toList ++ ['\n']).count '\n')
      ((ScanState.start.after (some blockRule) [keyword, brace]).passing
        (layout.opening.toList ++ ['\n'])) := by
    refine ⟨?_, ?_, ?_, ?_⟩
    · have hplace := after_line 0 layout.opening.toList
      rwa [Nat.zero_add] at hplace
    all_goals
      simp [ScanState.after, ScanState.passing, ScanState.taking, ScanState.headAfter,
        ScanState.atDeclaration, ScanState.start, insideBraces, blockRule, hkind, hbrace]
  obtain ⟨tokens, items, last, more, hscan, hitems, hunplaced, hlast⟩ :=
    exists_scanFrom_items hstart layout.isItem layout.closing.toList
  have hend := hlast.scanFrom path layout.closing.toList
  rw [show scanFrom _ path insideBraces _ = _ from hclosing] at hend
  have hwhole : scan (some blockRule) path layout.text = keyword :: brace :: (tokens ++
      [closing.mapPosition (Position.below more),
        TokenStream.endAt (final.below more)]) := by
    rw [scan, Layout.text, String.toList_ofList, scanFrom_append_line _ hopened, hscan, hend]
    rfl
  rw [hwhole]
  exact ⟨items, .description hkeyword hbrace hitems hclose rfl, hunplaced⟩

end Reading

/-! ### The same texts in another order -/

section Order

variable {path : SourcePath}

/-- A text is one item only, wherever it stands. -/
theorem rightUnique_isItemOf : Relator.RightUnique (IsItemOf path) := by
  rintro text _ _ ⟨item, hitem, rfl⟩ ⟨other, hother, rfl⟩
  rw [hitem.unique hother]

theorem Item.outline?_unplaced (item : Item) : item.unplaced.outline? = item.outline? := by
  cases item with
  | technique declared => exact congrArg some (declared.outline_mapPosition _)
  | _ => rfl

/-- The outlines of techniques are those of the items that are techniques. -/
theorem Item.filterMap_outline?_filter (items : List Item) :
    ((items.map Item.unplaced).filter fun item => item.technique?.isSome).filterMap Item.outline? =
      items.filterMap Item.outline? := by
  induction items with
  | nil => rfl
  | cons item items ih =>
    cases item with
    | technique declared =>
      rw [List.filterMap_cons, ← ih, ← outline?_unplaced]
      rfl
    | _ => exact ih

/-- Descriptions of the same texts in another order have the same items in another order. -/
theorem Layout.Rearranges.items {layout other : Layout path} (h : layout.Rearranges other)
    {items others : List Item}
    (hitems : List.Forall₂ (IsItemOf path) layout.texts (items.map Item.unplaced))
    (hothers : List.Forall₂ (IsItemOf path) other.texts (others.map Item.unplaced)) :
    Description.Rearranges items others where
  perm := by
    obtain ⟨moved, hmoved, hperm⟩ := List.perm_comp_forall₂ h.perm hitems
    rwa [rightUnique_isItemOf.forall₂ hothers hmoved]
  outlines := by
    have hkept : Relator.LiftFun (IsItemOf path) (· ↔ ·)
        (fun text => isTechniqueText path text = true)
        fun item => item.technique?.isSome = true := by
      rintro text _ ⟨item, hitem, rfl⟩
      have hsame : item.unplaced.technique?.isSome = item.technique?.isSome := by cases item <;> rfl
      exact iff_of_eq (congrArg (· = true) (hitem.isTechniqueText_eq.trans hsame.symm))
    have htechniques := List.rel_filter hkept hitems
    have hagain := List.rel_filter hkept hothers
    rw [h.techniques] at hagain
    rw [← Item.filterMap_outline?_filter others, ← Item.filterMap_outline?_filter items,
      rightUnique_isItemOf.forall₂ hagain htechniques]

end Order

end ShaderAssembly.Description
