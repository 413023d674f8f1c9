/-!
# Maps that remember the order of insertion

An ordered map is a list of entries with distinct keys. Inserting under a key that is already
present replaces the value and moves the entry to the back.
-/

namespace ShaderAssembly

/-- A map whose entries are kept in the order in which they were last inserted. -/
structure OrderedMap (κ α : Type) where
  /-- The entries, the oldest first. -/
  entries : List (κ × α)
  deriving DecidableEq, Repr

namespace OrderedMap

variable {κ α : Type} [DecidableEq κ]

/-- The map without entries. -/
def empty : OrderedMap κ α := ⟨[]⟩

instance : Inhabited (OrderedMap κ α) := ⟨empty⟩

/-- The value under a key. -/
def get? (map : OrderedMap κ α) (key : κ) : Option α :=
  (map.entries.find? fun entry => entry.1 = key).map Prod.snd

/-- Whether there is a value under a key. -/
def contains (map : OrderedMap κ α) (key : κ) : Bool :=
  map.entries.any fun entry => entry.1 = key

/-- The map without the entry of a key. -/
def erase (map : OrderedMap κ α) (key : κ) : OrderedMap κ α :=
  ⟨map.entries.filter fun entry => entry.1 ≠ key⟩

/-- Puts a value under a key, at the back. -/
def insert (map : OrderedMap κ α) (key : κ) (value : α) : OrderedMap κ α :=
  ⟨(map.erase key).entries ++ [(key, value)]⟩

/-- Inserts entries one after the other into the empty map. -/
def ofList (entries : List (κ × α)) : OrderedMap κ α :=
  entries.foldl (fun map entry => map.insert entry.1 entry.2) empty

/-- The keys in order. -/
def keys (map : OrderedMap κ α) : List κ := map.entries.map Prod.fst

/-- The values in order. -/
def values (map : OrderedMap κ α) : List α := map.entries.map Prod.snd

/-- The number of entries. -/
def size (map : OrderedMap κ α) : Nat := map.entries.length

/-- Whether there are no entries. -/
def isEmpty (map : OrderedMap κ α) : Bool := map.entries.isEmpty

/-- Changes every value, keeping keys and order. -/
def mapValues {β : Type} (f : α → β) (map : OrderedMap κ α) : OrderedMap κ β :=
  ⟨map.entries.map fun entry => (entry.1, f entry.2)⟩

/-- Inserting puts the key last and keeps the order of the others. -/
theorem keys_insert (map : OrderedMap κ α) (key : κ) (value : α) :
    (map.insert key value).keys = map.keys.filter (· ≠ key) ++ [key] := by
  simp [keys, insert, erase, List.filter_map, Function.comp_def]

/-- A new key goes behind all others. -/
theorem entries_insert_of_not_mem {map : OrderedMap κ α} {key : κ} {value : α}
    (h : key ∉ map.keys) : (map.insert key value).entries = map.entries ++ [(key, value)] := by
  have hk : ∀ entry ∈ map.entries, entry.1 ≠ key := fun entry he heq =>
    h (heq ▸ List.mem_map_of_mem he)
  simp only [insert, erase]
  rw [List.filter_eq_self.2 fun entry he => by simpa using hk entry he]

/-- The value just inserted is found. -/
@[simp]
theorem get?_insert_self (map : OrderedMap κ α) (key : κ) (value : α) :
    (map.insert key value).get? key = some value := by
  have hnone : (map.entries.filter fun entry => entry.1 ≠ key).find? (fun entry => entry.1 = key) =
      none := by
    rw [List.find?_eq_none]
    intro entry he
    simpa using (List.mem_filter.1 he).2
  simp only [get?, insert, erase, List.find?_append, hnone]
  simp

/-- Nothing is found under a key that has been erased. -/
@[simp]
theorem get?_erase_self (map : OrderedMap κ α) (key : κ) : (map.erase key).get? key = none := by
  simp [get?, erase, List.find?_filter]

/-- Erasing one key does not change what is found under another. -/
theorem get?_erase_of_ne {map : OrderedMap κ α} {key other : κ} (h : other ≠ key) :
    (map.erase key).get? other = map.get? other := by
  have hsame : (fun entry : κ × α => !decide (entry.1 = key) && decide (entry.1 = other)) =
      fun entry => decide (entry.1 = other) := by
    funext entry
    by_cases he : entry.1 = other <;> simp [he, h]
  simp [get?, erase, List.find?_filter, hsame]

/-- Inserting under one key does not change what is found under another. -/
theorem get?_insert_of_ne {map : OrderedMap κ α} {key other : κ} {value : α}
    (h : other ≠ key) : (map.insert key value).get? other = map.get? other := by
  have hsame : (fun entry : κ × α => !decide (entry.1 = key) && decide (entry.1 = other)) =
      fun entry => decide (entry.1 = other) := by
    funext entry
    by_cases he : entry.1 = other <;> simp [he, h]
  simp [get?, insert, erase, List.find?_append, List.find?_filter, hsame, Ne.symm h]

/-- Changing every value changes what is found. -/
@[simp]
theorem get?_mapValues {β : Type} (f : α → β) (map : OrderedMap κ α) (key : κ) :
    (map.mapValues f).get? key = (map.get? key).map f := by
  simp [get?, mapValues, List.find?_map, Function.comp_def]

/-- There is a value under every key. -/
theorem exists_get?_of_mem_keys {map : OrderedMap κ α} {key : κ} (h : key ∈ map.keys) :
    ∃ value, map.get? key = some value := by
  obtain ⟨entry, hentry, rfl⟩ := List.mem_map.mp h
  have hsome : (map.entries.find? fun other => other.1 = entry.1).isSome = true :=
    List.find?_isSome.mpr ⟨entry, hentry, by simp⟩
  obtain ⟨found, hfound⟩ := Option.isSome_iff_exists.mp hsome
  exact ⟨found.2, congrArg (Option.map Prod.snd) hfound⟩

/-- A value that is found in a map is one of its values, under the key. -/
theorem mem_of_get? {map : OrderedMap κ α} {key : κ} {value : α}
    (h : map.get? key = some value) : (key, value) ∈ map.entries ∧ value ∈ map.values := by
  obtain ⟨entry, hentry, rfl⟩ := Option.map_eq_some_iff.mp h
  have hkey : entry.1 = key := by simpa using List.find?_some hentry
  have hmem := List.mem_of_find?_eq_some hentry
  refine ⟨?_, List.mem_map.mpr ⟨entry, hmem, rfl⟩⟩
  rw [← hkey]
  exact hmem

end OrderedMap

end ShaderAssembly
