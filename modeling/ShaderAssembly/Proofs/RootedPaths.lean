import ShaderAssembly.SourcePath

/-!
# Rooted paths are canonical

A rooted path is determined by the names that lead to it: its components are the root and those
names, so two rooted paths are spellings of the same components only if they are the same text.
Rooting a path brings in no characters but separators.
-/

namespace ShaderAssembly

namespace Text

variable {separator : Char}

/-- The separator stands between the pieces and in none of them. -/
theorem not_mem_of_mem_split {text piece : List Char} (h : piece ∈ split separator text) :
    separator ∉ piece := by
  induction text generalizing piece with
  | nil => simp_all [split]
  | cons c rest ih =>
    unfold split at h
    split at h
    · rcases List.mem_cons.mp h with rfl | hrest
      · simp
      · exact ih hrest
    · rename_i hc
      cases hs : split separator rest with
      | nil => exact absurd hs (split_ne_nil separator rest)
      | cons first more =>
        rw [hs] at h
        rcases List.mem_cons.mp h with rfl | hmore
        · have hmem : first ∈ split separator rest := by simp [hs]
          have hfirst := ih hmem
          simp [hfirst, Ne.symm hc]
        · exact ih (by simp [hs, hmore])

/-- The characters of a piece are characters of the text. -/
theorem mem_of_mem_split {text piece : List Char} {c : Char} (h : piece ∈ split separator text)
    (hc : c ∈ piece) : c ∈ text := by
  induction text generalizing piece with
  | nil => simp_all [split]
  | cons d rest ih =>
    unfold split at h
    split at h
    · rcases List.mem_cons.mp h with rfl | hrest
      · simp at hc
      · exact List.mem_cons_of_mem _ (ih hrest hc)
    · cases hs : split separator rest with
      | nil => exact absurd hs (split_ne_nil separator rest)
      | cons first more =>
        rw [hs] at h
        rcases List.mem_cons.mp h with rfl | hmore
        · rcases List.mem_cons.mp hc with rfl | hfirst
          · simp
          · have hmem : first ∈ split separator rest := by simp [hs]
            exact List.mem_cons_of_mem _ (ih hmem hfirst)
        · exact List.mem_cons_of_mem _ (ih (by simp [hs, hmore]) hc)

/-- A text without the separator is one piece. -/
theorem split_of_not_mem {text : List Char} (h : separator ∉ text) :
    split separator text = [text] := by
  induction text with
  | nil => rfl
  | cons c rest ih =>
    have hc : c ≠ separator := fun heq => h (by simp [heq])
    have hrest := ih fun hmem => h (List.mem_cons_of_mem _ hmem)
    rw [split, if_neg hc, hrest]

/-- What stands before the first separator is the first piece. -/
theorem split_append_cons {piece : List Char} (h : separator ∉ piece) (rest : List Char) :
    split separator (piece ++ separator :: rest) = piece :: split separator rest := by
  induction piece with
  | nil => simp [split]
  | cons c more ih =>
    have hc : c ≠ separator := fun heq => h (by simp [heq])
    have hmore := ih fun hmem => h (List.mem_cons_of_mem _ hmem)
    rw [List.cons_append, split, if_neg hc, hmore]

/-- Pieces without the separator are found again in their join. -/
theorem split_join {pieces : List (List Char)} (hne : pieces ≠ [])
    (h : ∀ piece ∈ pieces, separator ∉ piece) :
    split separator (join separator pieces) = pieces := by
  induction pieces with
  | nil => exact absurd rfl hne
  | cons piece rest ih =>
    have hpiece := h piece (by simp)
    cases rest with
    | nil => exact split_of_not_mem hpiece
    | cons next more =>
      rw [join, split_append_cons hpiece, ih (by simp) fun p hp => h p (by simp [hp])]

/-- A join has the characters of its pieces and separators. -/
theorem mem_join {pieces : List (List Char)} {c : Char} (h : c ∈ join separator pieces) :
    c = separator ∨ ∃ piece ∈ pieces, c ∈ piece := by
  induction pieces with
  | nil => simp [join] at h
  | cons piece rest ih =>
    cases rest with
    | nil => exact .inr ⟨piece, by simp, h⟩
    | cons next more =>
      rw [join, List.mem_append, List.mem_cons] at h
      rcases h with hpiece | rfl | hrest
      · exact .inr ⟨piece, by simp, hpiece⟩
      · exact .inl rfl
      · rcases ih hrest with heq | ⟨other, hother, hc⟩
        · exact .inl heq
        · exact .inr ⟨other, List.mem_cons_of_mem _ hother, hc⟩

end Text

namespace SourcePath

/-- Whether a piece of a path is the name of a file or directory. -/
def IsName (piece : List Char) : Prop := '/' ∉ piece ∧ component? piece = some (.name piece)

/-- A piece that stands for a name is that name. -/
theorem component?_eq_name {piece name : List Char} (h : component? piece = some (.name name)) :
    name = piece := by
  unfold component? at h
  split at h <;> simp_all

/-- The pieces between separators that stand for names are names. -/
theorem isName_of_mem_stepsOf {text name : List Char}
    (h : PathComponent.name name ∈ componentsOf.stepsOf text) :
    IsName name ∧ ∀ c ∈ name, c ∈ text := by
  obtain ⟨piece, hpiece, hcomponent⟩ := List.mem_filterMap.mp h
  obtain rfl := component?_eq_name hcomponent
  exact ⟨⟨Text.not_mem_of_mem_split hpiece, hcomponent⟩,
    fun _ hc => Text.mem_of_mem_split hpiece hc⟩

/-- The names among the components of a text are names made of characters of the text. -/
theorem isName_of_mem_componentsOf {text name : List Char}
    (h : PathComponent.name name ∈ componentsOf text) : IsName name ∧ ∀ c ∈ name, c ∈ text := by
  unfold componentsOf at h
  split at h
  · rename_i rest
    have hmem : PathComponent.name name ∈ componentsOf.stepsOf rest := by
      simpa using h
    have hname := isName_of_mem_stepsOf hmem
    exact ⟨hname.1, fun c hc => List.mem_cons_of_mem _ (hname.2 c hc)⟩
  · split at h
    · rename_i rest heq
      have hrest : PathComponent.name name ∈ rest := by simpa using h
      exact isName_of_mem_stepsOf (by rw [heq]; exact List.mem_cons_of_mem _ hrest)
    · exact isName_of_mem_stepsOf (List.mem_filter.mp h).1

/-- Following components leads to names that were there before or are among the components. -/
theorem mem_follow {components : List PathComponent} {start : List (List Char)} {name : List Char}
    (h : name ∈ follow start components) :
    name ∈ start ∨ PathComponent.name name ∈ components := by
  induction components generalizing start with
  | nil => exact .inl h
  | cons component rest ih =>
    have hfollow : name ∈ follow (step start component) rest := h
    rcases ih hfollow with hstep | hrest
    · cases component with
      | root => simp [step] at hstep
      | current => exact .inl hstep
      | parent => exact .inl ((List.dropLast_sublist _).subset hstep)
      | name other =>
        rcases List.mem_append.mp hstep with hstart | hother
        · exact .inl hstart
        · exact .inr (by simp_all)
    · exact .inr (List.mem_cons_of_mem _ hrest)

/-- The names that a path leads to are names made of characters of the path. -/
theorem isName_of_mem_names {path : SourcePath} {name : List Char} (h : name ∈ path.names) :
    IsName name ∧ ∀ c ∈ name, c ∈ path.text.toList := by
  rcases mem_follow h with hnil | hcomponent
  · simp at hnil
  · exact isName_of_mem_componentsOf hcomponent

/-- Following names goes down one name after the other. -/
theorem follow_map_name (start names : List (List Char)) :
    follow start (names.map .name) = start ++ names := by
  induction names generalizing start with
  | nil => simp [follow]
  | cons name rest ih =>
    have hrest := ih (start ++ [name])
    rw [List.append_assoc, List.singleton_append] at hrest
    exact hrest

/-- Names stand for themselves. -/
theorem filterMap_component? {names : List (List Char)} (h : ∀ name ∈ names, IsName name) :
    names.filterMap component? = names.map .name := by
  induction names with
  | nil => rfl
  | cons name rest ih =>
    have hrest := ih fun other hother => h other (List.mem_cons_of_mem _ hother)
    rw [List.filterMap_cons_some (h name (by simp)).2, hrest, List.map_cons]

/-- The components of the path with given names are the root and these names. -/
theorem components_ofNames {names : List (List Char)} (h : ∀ name ∈ names, IsName name) :
    (ofNames names).components = .root :: names.map .name := by
  have hsteps : componentsOf.stepsOf (Text.join '/' names) = names.map .name := by
    cases hnames : names with
    | nil => rfl
    | cons first rest =>
      rw [← hnames, componentsOf.stepsOf,
        Text.split_join (by simp [hnames]) fun name hname => (h name hname).1]
      exact filterMap_component? h
  have hkept : (names.map PathComponent.name).filter (· != .current) = names.map .name := by
    rw [List.filter_eq_self]
    simp
  simp only [components, ofNames, String.toList_ofList, componentsOf, hsteps, hkept]

/-- The path with given names leads to them. -/
theorem names_ofNames {names : List (List Char)} (h : ∀ name ∈ names, IsName name) :
    (ofNames names).names = names := by
  rw [SourcePath.names, components_ofNames h]
  simpa [follow, step] using follow_map_name [] names

/-- Whether a path is the canonical spelling of some path. -/
def IsRooted (path : SourcePath) : Prop := ∃ text : String, path = rooted text

theorem isRooted_rooted (text : String) : IsRooted (rooted text) := ⟨text, rfl⟩

/-- An include names a rooted path. -/
theorem isRooted_resolveInclude (includer : SourcePath) (target : String) :
    IsRooted (includer.resolveInclude target) := isRooted_rooted _

/-- Rooting a rooted path changes nothing. -/
theorem rooted_text {path : SourcePath} (h : path.IsRooted) : rooted path.text = path := by
  obtain ⟨text, rfl⟩ := h
  have hnames : ∀ name ∈ (⟨text⟩ : SourcePath).names, IsName name :=
    fun name hname => (isName_of_mem_names hname).1
  show ofNames (ofNames (⟨text⟩ : SourcePath).names).names = _
  rw [names_ofNames hnames]
  rfl

/-- A path is a spelling of itself. -/
theorem same_self (path : SourcePath) : path.same path = true := beq_self_eq_true _

/-- Rooted paths with the same components are the same path. -/
theorem same_iff_eq {left right : SourcePath} (hleft : left.IsRooted) (hright : right.IsRooted) :
    left.same right = true ↔ left = right := by
  have hsame : left.same right = true ↔ left.components = right.components := by
    simp [same]
  rw [hsame]
  constructor
  · intro hcomponents
    rw [← rooted_text hleft, ← rooted_text hright]
    show ofNames left.names = ofNames right.names
    rw [names, names, hcomponents]
  · rintro rfl
    rfl

/-- A rooted path is found among rooted ones by its components exactly if it is one of them. -/
theorem any_same_iff_mem {paths : List SourcePath} {path : SourcePath}
    (hpaths : ∀ other ∈ paths, other.IsRooted) (hpath : path.IsRooted) :
    paths.any (·.same path) = true ↔ path ∈ paths := by
  rw [List.any_eq_true]
  constructor
  · rintro ⟨other, hother, hsame⟩
    rwa [← (same_iff_eq (hpaths other hother) hpath).mp hsame]
  · exact fun hmem => ⟨path, hmem, path.same_self⟩

/-- A rooted path is found among rooted ones by its components at the first place where it
stands. -/
theorem findIdx?_same {paths : List SourcePath} {path : SourcePath}
    (hpaths : ∀ other ∈ paths, other.IsRooted) (hpath : path.IsRooted) :
    paths.findIdx? (·.same path) =
      if path ∈ paths then some (paths.idxOf path) else none := by
  induction paths with
  | nil => rfl
  | cons first rest ih =>
    obtain ⟨hfirst, hrest⟩ := List.forall_mem_cons.mp hpaths
    rw [List.findIdx?_cons, ih hrest]
    by_cases heq : first = path
    · have hsame := (same_iff_eq hfirst hpath).mpr heq
      rw [if_pos hsame, heq, if_pos List.mem_cons_self, List.idxOf_cons_self]
    · have hsame : ¬ first.same path = true := fun h => heq ((same_iff_eq hfirst hpath).mp h)
      have hmem : path ∈ first :: rest ↔ path ∈ rest := by
        rw [List.mem_cons, or_iff_right (Ne.symm heq)]
      rw [if_neg hsame, List.idxOf_cons, beq_false_of_ne heq, cond_false]
      by_cases hrest : path ∈ rest
      · rw [if_pos hrest, if_pos (hmem.mpr hrest), Option.map_some]
      · rw [if_neg hrest, if_neg (mt hmem.mp hrest), Option.map_none]

/-- A rooted path has the characters of the path it was made from, and separators. -/
theorem mem_rooted {text : String} {c : Char} (h : c ∈ (rooted text).text.toList) :
    c = '/' ∨ c ∈ text.toList := by
  rw [rooted, ofNames, String.toList_ofList, List.mem_cons] at h
  rcases h with hc | hjoin
  · exact .inl hc
  · rcases Text.mem_join hjoin with hc | ⟨name, hname, hc⟩
    · exact .inl hc
    · exact .inr ((isName_of_mem_names hname).2 c hc)

/-- A rooted path stands on one line if the path it was made from does. -/
theorem not_mem_rooted {text : String} (h : '\n' ∉ text.toList) :
    '\n' ∉ (rooted text).text.toList := by
  intro hmem
  rcases mem_rooted hmem with hslash | hmem
  · exact absurd hslash (by decide)
  · exact h hmem

/-- The path that an include names has the characters of the includer and of the target, and
separators. -/
theorem mem_resolveInclude {includer : SourcePath} {target : String} {c : Char}
    (h : c ∈ (includer.resolveInclude target).text.toList) :
    c = '/' ∨ c ∈ includer.text.toList ∨ c ∈ target.toList := by
  rcases mem_rooted h with hc | hjoined
  · exact .inl hc
  · unfold joined at hjoined
    split at hjoined
    · exact .inr (.inr hjoined)
    · rw [String.toList_ofList, List.mem_append, List.mem_cons] at hjoined
      rcases hjoined with hdirectory | hc | htarget
      · rw [directory, ofNames, String.toList_ofList, List.mem_cons] at hdirectory
        rcases hdirectory with hc | hjoin
        · exact .inl hc
        · rcases Text.mem_join hjoin with hc | ⟨name, hname, hc⟩
          · exact .inl hc
          · have hmem := (List.dropLast_sublist _).subset hname
            exact .inr (.inl ((isName_of_mem_names hmem).2 c hc))
      · exact .inl hc
      · exact .inr (.inr htarget)

end SourcePath

end ShaderAssembly
