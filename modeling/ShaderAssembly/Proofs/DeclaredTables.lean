import Mathlib.Data.List.Forall2
import Mathlib.Data.List.Induction
import Mathlib.Data.List.Nodup
import ShaderAssembly.Proofs.RecognizedPhrases

/-!
# Tables of declarations

A parser refuses a second declaration of a name. So the tables it builds list what was declared,
in written order, and a table can be built exactly if no name is declared twice. For the stages of
a pass there is one more condition: some have to be bound.
-/

namespace ShaderAssembly

namespace OrderedMap

variable {κ α : Type} [DecidableEq κ] {map : OrderedMap κ α} {key : κ} {value : α}

theorem contains_iff : map.contains key = true ↔ key ∈ map.keys := by
  simp [contains, keys]

/-- Puts a value under a key that is new. -/
def insertNew? (map : OrderedMap κ α) (key : κ) (value : α) : Option (OrderedMap κ α) :=
  if map.contains key then none else some (map.insert key value)

theorem insertNew?_of_new (h : ¬ map.contains key = true) :
    map.insertNew? key value = some (map.insert key value) :=
  if_neg h

/-- A value is put under a key if the key is new. -/
theorem insertNew?_eq_insert {after : OrderedMap κ α} : map.insertNew? key value = some after ↔
    ¬ map.contains key = true ∧ after = map.insert key value := by
  rw [insertNew?, Option.ite_none_left_eq_some, Option.some_inj, eq_comm (a := after)]

/-- A value is put under a key if the key is new, and then comes last. -/
theorem insertNew?_eq_some {after : OrderedMap κ α} : map.insertNew? key value = some after ↔
    key ∉ map.keys ∧ after = ⟨map.entries ++ [(key, value)]⟩ := by
  rw [insertNew?_eq_insert, contains_iff]
  refine and_congr_right fun hkey => ?_
  have hentries : map.insert key value = ⟨map.entries ++ [(key, value)]⟩ :=
    congrArg OrderedMap.mk (entries_insert_of_not_mem hkey)
  rw [hentries]

/-- Entries can be put into the empty map one after the other if no key is repeated, and are its
entries then. -/
theorem foldlM_insertNew?_eq_some {entries : List (κ × α)} {after : OrderedMap κ α} :
    entries.foldlM (fun map entry => map.insertNew? entry.1 entry.2) empty = some after ↔
      (entries.map Prod.fst).Nodup ∧ after = ⟨entries⟩ := by
  induction entries using List.reverseRecOn generalizing after with
  | nil => simp [empty, eq_comm]
  | append_singleton entries entry ih =>
    have hlast : ∀ map : OrderedMap κ α,
        [entry].foldlM (fun map entry => map.insertNew? entry.1 entry.2) map =
          map.insertNew? entry.1 entry.2 := fun map => by simp [List.foldlM_cons]
    rw [List.foldlM_append, Option.bind_eq_bind, Option.bind_eq_some_iff]
    simp only [hlast, ih, insertNew?_eq_some]
    rw [List.map_append, List.nodup_append_comm, List.map_singleton, List.singleton_append,
      List.nodup_cons]
    constructor
    · rintro ⟨_, ⟨hnodup, rfl⟩, hnew, rfl⟩
      exact ⟨⟨hnew, hnodup⟩, rfl⟩
    · rintro ⟨⟨hnew, hnodup⟩, rfl⟩
      exact ⟨⟨entries⟩, ⟨hnodup, rfl⟩, hnew, rfl⟩

/-- Things can be put into the empty map one after the other if no key is repeated, and give its
entries then. -/
theorem foldlM_insertKeyed?_eq_some {γ : Type} {key : γ → κ} {value : γ → α} {things : List γ}
    {after : OrderedMap κ α} :
    things.foldlM (fun (map : OrderedMap κ α) thing => map.insertNew? (key thing) (value thing))
        empty = some after ↔
      (things.map key).Nodup ∧
        after.entries = things.map fun thing => (key thing, value thing) := by
  have hentries : things.foldlM (fun (map : OrderedMap κ α) thing =>
      map.insertNew? (key thing) (value thing)) empty =
      (things.map fun thing => (key thing, value thing)).foldlM
        (fun (map : OrderedMap κ α) entry => map.insertNew? entry.1 entry.2) empty := by
    rw [List.foldlM_map]
  rw [hentries, foldlM_insertNew?_eq_some, List.map_map]
  exact and_congr_right fun _ => ⟨fun h => h ▸ rfl, fun h => by rw [← h]⟩

end OrderedMap

/-- What is only added where there is nothing yet is added at most once. -/
theorem foldlM_once {α β : Type} {present : β → Bool} {add : α → β} {start result : β}
    (hstart : present start = false) (hadd : ∀ value, present (add value) = true)
    {values : List α} :
    values.foldlM (fun seen value => if present seen then none else some (add value)) start =
        some result ↔
      values.length ≤ 1 ∧ result = (values.head?.map add).getD start := by
  match values with
  | [] => simpa using eq_comm
  | [value] => simpa [hstart] using eq_comm
  | first :: second :: others => simp [List.foldlM_cons, hstart, hadd]

namespace PropertyDeclaration

variable {declaration : PropertyDeclaration} {declarations : List PropertyDeclaration}
  {property : Property} {entries : List (String × Property)}

/-- A property has the name it is declared with. -/
theorem name_of_resolve (h : declaration.resolve = .ok property) :
    property.name = declaration.name := by
  unfold resolve at h
  split at h
  · exact nomatch h
  · dsimp only at h
    split at h
    · cases h
      rfl
    · split at h
      · cases h
        rfl
      · exact nomatch h

/-- Whether an entry of a table is what a declaration is resolved to. -/
def ResolvesTo (declaration : PropertyDeclaration) (entry : String × Property) : Prop :=
  entry.1 = declaration.name ∧ declaration.resolve = .ok entry.2

/-- The keys of a table of properties are the declared names. -/
theorem map_fst_of_resolvesTo (h : List.Forall₂ ResolvesTo declarations entries) :
    entries.map Prod.fst = declarations.map name := by
  induction h with
  | nil => rfl
  | cons hfirst _ ih => rw [List.map_cons, List.map_cons, hfirst.1, ih]

/-- There are entries for properties if each gets a type. -/
theorem exists_resolvesTo_iff :
    (∃ entries, List.Forall₂ ResolvesTo declarations entries) ↔
      ∀ declaration ∈ declarations, ∃ property, declaration.resolve = .ok property := by
  induction declarations with
  | nil => simp
  | cons declaration declarations ih =>
    simp only [List.forall₂_cons_left_iff, List.forall_mem_cons, ← ih]
    constructor
    · rintro ⟨_, entry, entries, hentry, hentries, -⟩
      exact ⟨⟨entry.2, hentry.2⟩, entries, hentries⟩
    · rintro ⟨⟨property, hresolve⟩, entries, hentries⟩
      exact ⟨_, (declaration.name, property), entries, ⟨rfl, hresolve⟩, hentries, rfl⟩

end PropertyDeclaration

theorem CodeBlock.name_ofBody (name body : String) (position : Position) :
    (ofBody name body position).name = name := rfl

/-- Whether a pass binds no stage twice and all that have to be bound. -/
structure Pass.IsComplete (pass : Pass) : Prop where
  /-- No stage is bound twice. -/
  nodup : pass.stages.keys.Nodup
  /-- There is code for vertices. -/
  vertex : .vertex ∈ pass.stages.keys
  /-- There is code for fragments. -/
  fragment : .fragment ∈ pass.stages.keys

instance (pass : Pass) : Decidable pass.IsComplete :=
  decidable_of_iff
    (pass.stages.keys.Nodup ∧ .vertex ∈ pass.stages.keys ∧ .fragment ∈ pass.stages.keys)
    ⟨fun h => ⟨h.1, h.2.1, h.2.2⟩, fun h => ⟨h.nodup, h.vertex, h.fragment⟩⟩

namespace Parser

open Grammar

variable {stages : OrderedMap Stage BoundStage} {close : Token} {stream : TokenStream}

/-- If a step recognizes an entry and puts it into a map under a new key, then the repetition
recognizes lists of entries without repeated keys. -/
theorem recognizes_table {κ α : Type} [DecidableEq κ] {stop : TokenKind}
    {step : OrderedMap κ α → Parser (OrderedMap κ α)} {entry : Phrase (κ × α)}
    (hstep : ∀ map, Recognizes (step map) fun tokens after =>
      ∃ added, entry tokens added ∧ map.insertNew? added.1 added.2 = some after)
    (hstarts : StartsWith entry (·.kind ≠ stop)) :
    Recognizes (foldUntil stop step .empty)
      (fun tokens map => Many entry tokens map.entries ∧ map.keys.Nodup) (· = stop) := by
  refine (recognizes_foldUntil hstep (hstarts.mono fun _ hfirst => ⟨hfirst, trivial⟩) trivial
    .empty).congr fun tokens map => ?_
  simp only [OrderedMap.foldlM_insertNew?_eq_some]
  constructor
  · rintro ⟨hmany, hnodup⟩
    exact ⟨map.entries, hmany, hnodup, rfl⟩
  · rintro ⟨_, hmany, hnodup, rfl⟩
    exact ⟨hmany, hnodup⟩

/-- A run beyond the check of the required stages has both of them. -/
theorem ensures_requireStages : Ensures (requireStages stages close) stream fun _ after =>
    after = stream ∧ .vertex ∈ stages.keys ∧ .fragment ∈ stages.keys := by
  unfold requireStages
  split
  · rename_i hnone
    refine ensures_pure ⟨rfl, ?_⟩
    simpa [requiredStages, OrderedMap.contains_iff] using hnone
  · exact ensures_throw

/-- With both required stages the check of them does nothing. -/
theorem requireStages_run (hvertex : .vertex ∈ stages.keys) (hfragment : .fragment ∈ stages.keys) :
    requireStages stages close stream = (pure (), stream) := by
  have hnone : requiredStages.find? (fun slot => !stages.contains slot) = none := by
    simp [requiredStages, OrderedMap.contains_iff, hvertex, hfragment]
  unfold requireStages
  rw [hnone]
  rfl

/-- A property that gets a type is the one it is resolved to. -/
theorem ensures_resolveProperty {declaration : PropertyDeclaration} :
    Ensures (resolveProperty declaration) stream fun property after =>
      after = stream ∧ declaration.resolve = .ok property := by
  unfold resolveProperty
  split
  · exact ensures_throw
  · rename_i hresolve
    exact (ensures_bind_of_reads (reads_record _ _ _)).mpr (ensures_pure ⟨rfl, hresolve⟩)

theorem reads_resolveProperty {declaration : PropertyDeclaration} {property : Property}
    (h : declaration.resolve = .ok property) :
    Reads (resolveProperty declaration) stream property stream := by
  rw [resolveProperty, h]
  exact (reads_bind_of_reads (reads_record _ _ _)).mpr (reads_pure _ _)

end Parser

end ShaderAssembly
