import Mathlib.Data.List.Perm.Basic
import ShaderAssembly.Proofs.AgreeingDialects
import ShaderAssembly.Proofs.MovedItems

/-!
# Items in another order

The items of a description may stand anywhere and in any order, as long as the techniques keep
theirs. Whether they can stand in one shader stays the same, and so does what they declare, but for
positions and the order of the blocks: there is at most one block of properties and one shared
block, and the other blocks are found by their names.
-/

namespace ShaderAssembly

/-- A list of at most one thing has one order. -/
theorem eq_of_perm_of_length_le_one {α : Type} {items others : List α} (h : others.Perm items)
    (hlength : items.length ≤ 1) : others = items := by
  match items with
  | [] => exact h.eq_nil
  | [item] => exact List.perm_singleton.mp h

/-- A property without its position. -/
def Property.unplaced (property : Property) : Property := property.mapPosition fun _ => default

/-- Whether two shaders declare the same but for positions and the order of the named blocks. -/
structure Shader.DeclaresLike (shader other : Shader) : Prop where
  /-- They come from one file. -/
  path_eq : other.path = shader.path
  /-- The properties. -/
  properties : other.properties.mapValues Property.unplaced =
    shader.properties.mapValues Property.unplaced
  /-- The shared code. -/
  shared : other.shared?.map (fun block => (block.name, block.body)) =
    shader.shared?.map fun block => (block.name, block.body)
  /-- The names of the other blocks and their code. -/
  blocks : (other.blocks.entries.map fun entry => (entry.1, entry.2.name, entry.2.body)).Perm
    (shader.blocks.entries.map fun entry => (entry.1, entry.2.name, entry.2.body))
  /-- The techniques. -/
  techniques : other.outline.techniques = shader.outline.techniques

namespace Description

variable {items others : List Item}

namespace Item

/-- What an item declares as properties, without positions. -/
def unplacedDeclarations (item : Item) : List PropertyDeclaration :=
  item.declarations.map (·.mapPosition fun _ => default)

/-- The name and the code of the shared block that an item is. -/
def sharedCode? (item : Item) : Option (String × String) :=
  item.shared?.map fun block => (block.name, block.body)

/-- The name and the code of the named block that an item is. -/
def blockCode? (item : Item) : Option (String × String) :=
  item.block?.map fun block => (block.name, block.body)

/-- The outline of the technique that an item is. -/
def outline? (item : Item) : Option TechniqueOutline := item.technique?.map Technique.outline

variable (items : List Item)

theorem flatMap_unplacedDeclarations : items.flatMap unplacedDeclarations =
    (items.flatMap declarations).map (·.mapPosition fun _ => default) := List.map_flatMap.symm

theorem filterMap_sharedCode? : items.filterMap sharedCode? =
    (items.filterMap shared?).map fun block => (block.name, block.body) := List.map_filterMap.symm

theorem filterMap_blockCode? : items.filterMap blockCode? =
    (items.filterMap block?).map fun block => (block.name, block.body) := List.map_filterMap.symm

theorem filterMap_outline? : items.filterMap outline? =
    (items.filterMap technique?).map Technique.outline := List.map_filterMap.symm

theorem isProperties_unplaced (item : Item) : item.unplaced.isProperties = item.isProperties := by
  cases item <;> rfl

theorem unplacedDeclarations_unplaced (item : Item) :
    item.unplaced.unplacedDeclarations = item.unplacedDeclarations := by
  cases item with
  | properties declarations => exact List.map_map
  | _ => rfl

theorem sharedCode?_unplaced (item : Item) : item.unplaced.sharedCode? = item.sharedCode? := by
  cases item <;> rfl

theorem blockCode?_unplaced (item : Item) : item.unplaced.blockCode? = item.blockCode? := by
  cases item <;> rfl

end Item

/-- Whether items are others in another order and at other positions, the techniques in the order
they had. -/
structure Rearranges (items others : List Item) : Prop where
  /-- The items are the same without positions. -/
  perm : (others.map Item.unplaced).Perm (items.map Item.unplaced)
  /-- The techniques are in the same order. -/
  outlines : others.filterMap Item.outline? = items.filterMap Item.outline?

namespace Rearranges

/-- What items have without their positions comes in another order. -/
theorem filterMap {β : Type} (h : Rearranges items others) {view : Item → Option β}
    (hview : ∀ item, view item.unplaced = view item) :
    (others.filterMap view).Perm (items.filterMap view) := by
  have hmap : ∀ all : List Item, (all.map Item.unplaced).filterMap view = all.filterMap view := by
    intro all
    simp only [List.filterMap_map, Function.comp_def, hview]
  rw [← hmap others, ← hmap items]
  exact h.perm.filterMap view

theorem countP_isProperties (h : Rearranges items others) :
    others.countP Item.isProperties = items.countP Item.isProperties := by
  have hmap : ∀ all : List Item,
      (all.map Item.unplaced).countP Item.isProperties = all.countP Item.isProperties := by
    intro all
    simp only [List.countP_map, Function.comp_def, Item.isProperties_unplaced]
  rw [← hmap others, ← hmap items]
  exact h.perm.countP_eq _

/-- Where at most one item declares properties, these come in the same order. -/
theorem declarations_eq (h : Rearranges items others) (honce : items.countP Item.isProperties ≤ 1) :
    others.flatMap Item.unplacedDeclarations = items.flatMap Item.unplacedDeclarations := by
  have hfilter : ∀ all : List Item, all.flatMap Item.unplacedDeclarations =
      ((all.filter Item.isProperties).map Item.unplaced).flatMap Item.unplacedDeclarations := by
    intro all
    rw [List.flatMap_map]
    simp only [Item.unplacedDeclarations_unplaced]
    induction all with
    | nil => rfl
    | cons item rest ih =>
      rw [List.flatMap_cons, ih, List.filter_cons]
      cases item <;> rfl
  have hperm : ((others.filter Item.isProperties).map Item.unplaced).Perm
      ((items.filter Item.isProperties).map Item.unplaced) := by
    have hmap : ∀ all : List Item, (all.filter Item.isProperties).map Item.unplaced =
        (all.map Item.unplaced).filter Item.isProperties := by
      intro all
      rw [List.filter_map]
      simp only [Function.comp_def, Item.isProperties_unplaced]
    rw [hmap others, hmap items]
    exact h.perm.filter _
  rw [hfilter others, hfilter items, eq_of_perm_of_length_le_one hperm]
  rwa [List.length_map, ← List.countP_eq_length_filter]

/-- Where at most one item is a shared block, it is the same. -/
theorem shared_eq (h : Rearranges items others)
    (honce : (items.filterMap Item.shared?).length ≤ 1) :
    others.filterMap Item.sharedCode? = items.filterMap Item.sharedCode? := by
  refine eq_of_perm_of_length_le_one (h.filterMap Item.sharedCode?_unplaced) ?_
  rwa [Item.filterMap_sharedCode?, List.length_map]

end Rearranges

/-! ### What can stand in one shader -/

section Consistency

/-- The passes of a technique are complete if its outline says so. -/
theorem forall_isComplete_iff (technique : Technique) :
    (∀ pass ∈ technique.passes, pass.IsComplete) ↔ ∀ pass ∈ technique.outline.passes,
      (pass.map Prod.fst).Nodup ∧ .vertex ∈ pass.map Prod.fst ∧ .fragment ∈ pass.map Prod.fst := by
  have hkeys : ∀ pass : Pass, pass.outline.map Prod.fst = pass.stages.keys := fun _ => List.map_map
  simp only [Technique.outline, List.forall_mem_map, hkeys]
  exact forall₂_congr fun pass _ => ⟨fun h => ⟨h.1, h.2, h.3⟩, fun h => ⟨h.1, h.2.1, h.2.2⟩⟩

/-- The names of properties say nothing about positions. -/
theorem map_name_declarations (all : List Item) :
    (all.flatMap Item.declarations).map PropertyDeclaration.name =
      (all.flatMap Item.unplacedDeclarations).map PropertyDeclaration.name := by
  rw [Item.flatMap_unplacedDeclarations, List.map_map]
  rfl

/-- The names of blocks say nothing about positions. -/
theorem map_name_blocks (all : List Item) :
    (all.filterMap Item.block?).map CodeBlock.name =
      (all.filterMap Item.blockCode?).map Prod.fst := by
  rw [Item.filterMap_blockCode?, List.map_map]
  rfl

/-- The names of techniques say nothing about positions. -/
theorem map_name_techniques (all : List Item) :
    (all.filterMap Item.technique?).map Technique.name =
      (all.filterMap Item.outline?).map TechniqueOutline.name := by
  rw [Item.filterMap_outline?, List.map_map]
  rfl

/-- A property whose declaration differs in positions only can be typed as well. -/
theorem exists_resolve_of_mapPosition {declaration written : PropertyDeclaration}
    {move : Position → Position} (heq : written.mapPosition move = declaration.mapPosition move)
    {property : Property} (hproperty : written.resolve = .ok property) :
    ∃ other, declaration.resolve = .ok other := by
  have hoption := declaration.toOption_resolve_mapPosition move
  rw [← heq, PropertyDeclaration.resolve_mapPosition hproperty] at hoption
  cases hresolve : declaration.resolve with
  | error error =>
    rw [hresolve] at hoption
    cases hoption
  | ok property => exact ⟨property, rfl⟩

/-- Items can stand in one shader in any order. -/
theorem Consistent.of_rearranges (hconsistent : Consistent items) (h : Rearranges items others) :
    Consistent others where
  properties := h.countP_isProperties.trans_le hconsistent.properties
  declarations := by
    rw [map_name_declarations, h.declarations_eq hconsistent.properties, ← map_name_declarations]
    exact hconsistent.declarations
  resolves := by
    intro declaration hdeclaration
    have hmem : declaration.mapPosition (fun _ => default) ∈
        others.flatMap Item.unplacedDeclarations := by
      rw [Item.flatMap_unplacedDeclarations]
      exact List.mem_map_of_mem hdeclaration
    rw [h.declarations_eq hconsistent.properties, Item.flatMap_unplacedDeclarations] at hmem
    obtain ⟨written, hwritten, heq⟩ := List.mem_map.mp hmem
    obtain ⟨property, hproperty⟩ := hconsistent.resolves written hwritten
    exact exists_resolve_of_mapPosition heq hproperty
  shared := by
    have hlength := congrArg List.length (h.shared_eq hconsistent.shared)
    rw [Item.filterMap_sharedCode?, Item.filterMap_sharedCode?, List.length_map,
      List.length_map] at hlength
    exact hlength.trans_le hconsistent.shared
  blocks := by
    have hblocks := hconsistent.blocks
    rw [map_name_blocks] at hblocks ⊢
    exact ((h.filterMap Item.blockCode?_unplaced).map Prod.fst).nodup_iff.mpr hblocks
  techniques := by
    rw [map_name_techniques, h.outlines, ← map_name_techniques]
    exact hconsistent.techniques
  complete := by
    intro technique htechnique
    have hmem : technique.outline ∈ others.filterMap Item.outline? := by
      rw [Item.filterMap_outline?]
      exact List.mem_map_of_mem htechnique
    rw [h.outlines, Item.filterMap_outline?] at hmem
    obtain ⟨written, hwritten, heq⟩ := List.mem_map.mp hmem
    rw [forall_isComplete_iff, ← heq, ← forall_isComplete_iff]
    exact hconsistent.complete written hwritten

end Consistency

/-! ### What is declared -/

section Declarations

variable {path : SourcePath} {shader other : Shader}

/-- The entries of properties without positions are those of declarations without positions. -/
theorem forall₂_resolvesTo_unplaced {declarations : List PropertyDeclaration}
    {entries : List (String × Property)}
    (h : List.Forall₂ PropertyDeclaration.ResolvesTo declarations entries) :
    List.Forall₂ PropertyDeclaration.ResolvesTo
      (declarations.map (·.mapPosition fun _ => default))
      (entries.map fun entry => (entry.1, entry.2.unplaced)) := by
  rw [List.forall₂_map_left_iff, List.forall₂_map_right_iff]
  exact h.imp fun _ _ hentry => ⟨hentry.1, PropertyDeclaration.resolve_mapPosition hentry.2⟩

/-- A declaration is resolved to one entry. -/
theorem rightUnique_resolvesTo : Relator.RightUnique PropertyDeclaration.ResolvesTo := by
  rintro declaration ⟨name, property⟩ ⟨other, result⟩ ⟨hname, hproperty⟩ ⟨hother, hresult⟩
  obtain rfl := Except.ok.inj (hproperty.symm.trans hresult)
  exact congrArg (·, property) (hname.trans hother.symm)

/-- Shaders that items declare in two orders declare the same but for positions and the order of
the blocks. -/
theorem Declares.like (hshader : Declares path items shader) (hother : Declares path others other)
    (hconsistent : Consistent items) (h : Rearranges items others) : shader.DeclaresLike other where
  path_eq := hother.path_eq.trans hshader.path_eq.symm
  properties := by
    have hdeclared := h.declarations_eq hconsistent.properties
    rw [Item.flatMap_unplacedDeclarations, Item.flatMap_unplacedDeclarations] at hdeclared
    have hentries := forall₂_resolvesTo_unplaced hshader.properties
    have hresults := forall₂_resolvesTo_unplaced hother.properties
    rw [hdeclared] at hresults
    exact congrArg OrderedMap.mk (rightUnique_resolvesTo.forall₂ hresults hentries)
  shared := by
    have hcode : ∀ all : List Item, (all.filterMap Item.shared?).head?.map
        (fun block => (block.name, block.body)) = (all.filterMap Item.sharedCode?).head? := by
      intro all
      rw [Item.filterMap_sharedCode?, List.head?_map]
    rw [hother.shared, hshader.shared, hcode, hcode, h.shared_eq hconsistent.shared]
  blocks := by
    have hcode : ∀ all : List Item, ((all.filterMap Item.block?).map fun block =>
        (block.name, block.name, block.body)) =
          (all.filterMap Item.blockCode?).map fun code => (code.1, code) := by
      intro all
      rw [Item.filterMap_blockCode?, List.map_map]
      rfl
    rw [hother.blocks, hshader.blocks, List.map_map, List.map_map]
    simp only [Function.comp_def, hcode]
    exact (h.filterMap Item.blockCode?_unplaced).map _
  techniques := by
    have houtlines : ∀ all : List Item, ((all.filterMap Item.technique?).map fun technique =>
        (technique.name, technique)).map (fun entry => entry.2.outline) =
          all.filterMap Item.outline? := by
      intro all
      rw [Item.filterMap_outline?, List.map_map]
      rfl
    rw [Shader.outline, Shader.outline, hother.techniques, hshader.techniques, houtlines,
      houtlines]
    exact h.outlines

end Declarations

end Description

end ShaderAssembly
