import ShaderAssembly.Proofs.RootedPaths
import ShaderAssembly.Sources.FileSystem

/-!
# Paths do not lead out

The pieces of a path between separators are followed one after the other: empty ones and `.` stay
in the directory, `..` goes up one directory unless it is the root, and every other piece is an
ordinary name, which goes down. Rooting a path writes down the names that lead to where it ends, so
a rooted path is canonical, and the canonical paths are those that rooting leaves as they are. An
include target is followed from the directory of its includer.

For the files below a directory this means that a request is for the directory and ordinary names
after it. What stands anywhere else makes no difference.
-/

namespace ShaderAssembly

/-- What stands on the two sides of a separator is split on its own. -/
theorem Text.split_append_separator (separator : Char) (left right : List Char) :
    split separator (left ++ separator :: right) =
      split separator left ++ split separator right := by
  induction left with
  | nil => simp [split]
  | cons c rest ih =>
    rw [List.cons_append, split, split, ih]
    split
    · rfl
    · cases hsplit : split separator rest with
      | nil => exact absurd hsplit (split_ne_nil separator rest)
      | cons first more => rfl

namespace SourcePath

/-! ### Canonical paths -/

/-- Whether a piece of a path is the ordinary name of a file or directory. -/
structure IsOrdinaryName (piece : List Char) : Prop where
  /-- It is not empty. -/
  ne_nil : piece ≠ []
  /-- It is not the name for the directory itself. -/
  ne_current : piece ≠ ['.']
  /-- It is not the name for the directory above. -/
  ne_parent : piece ≠ ['.', '.']
  /-- It is a single piece. -/
  no_separator : '/' ∉ piece

/-- The pieces that stand for names are the ordinary names. -/
theorem isName_iff_isOrdinaryName {piece : List Char} : IsName piece ↔ IsOrdinaryName piece := by
  constructor
  · rintro ⟨hseparator, hcomponent⟩
    refine ⟨?_, ?_, ?_, hseparator⟩ <;> rintro rfl <;> cases hcomponent
  · rintro ⟨hnil, hcurrent, hparent, hseparator⟩
    refine ⟨hseparator, ?_⟩
    unfold component?
    split <;> trivial

/-- Whether a path is a separator followed by ordinary names with separators between them: it is
absolute and has no component that is empty, `.` or `..`. -/
def IsCanonical (path : SourcePath) : Prop :=
  ∃ names, (∀ name ∈ names, IsOrdinaryName name) ∧ path = ofNames names

/-- The names that a path leads to are ordinary. -/
theorem isOrdinaryName_of_mem_names {path : SourcePath} :
    ∀ name ∈ path.names, IsOrdinaryName name :=
  fun _ hname => isName_iff_isOrdinaryName.mp (isName_of_mem_names hname).1

/-- Rooting gives a canonical path. -/
theorem isCanonical_rooted (text : String) : (rooted text).IsCanonical :=
  ⟨_, isOrdinaryName_of_mem_names, rfl⟩

/-- Rooting leaves the canonical paths as they are, and no others. -/
theorem rooted_eq_self_iff {path : SourcePath} : rooted path.text = path ↔ path.IsCanonical := by
  constructor
  · intro hself
    rw [← hself]
    exact isCanonical_rooted path.text
  · rintro ⟨names, hnames, rfl⟩
    exact congrArg ofNames
      (names_ofNames fun name hname => isName_iff_isOrdinaryName.mpr (hnames name hname))

/-! ### Following the pieces of a path -/

/-- Which names lead from the root to where some pieces of a path lead from a directory, which is
given by its names. -/
inductive Leads : List (List Char) → List (List Char) → List (List Char) → Prop where
  /-- There are no pieces. -/
  | done {names : List (List Char)} : Leads names [] names
  /-- An empty piece or a `.` stays in the directory. -/
  | stay {names rest final : List (List Char)} {piece : List Char}
      (hpiece : piece = [] ∨ piece = ['.']) (hrest : Leads names rest final) :
      Leads names (piece :: rest) final
  /-- A `..` goes up one directory, and from the root to the root. -/
  | up {names rest final : List (List Char)} (hrest : Leads names.dropLast rest final) :
      Leads names (['.', '.'] :: rest) final
  /-- An ordinary name goes down. -/
  | down {names rest final : List (List Char)} {piece : List Char}
      (hpiece : IsOrdinaryName piece) (hrest : Leads (names ++ [piece]) rest final) :
      Leads names (piece :: rest) final

/-- Pieces always lead somewhere: where their components do. -/
theorem leads_follow {pieces : List (List Char)} (h : ∀ piece ∈ pieces, '/' ∉ piece)
    (start : List (List Char)) :
    Leads start pieces (follow start (pieces.filterMap component?)) := by
  induction pieces generalizing start with
  | nil => exact .done
  | cons piece rest ih =>
    obtain ⟨hpiece, hrest⟩ := List.forall_mem_cons.mp h
    have hlater := ih hrest
    by_cases hnil : piece = []
    · subst hnil
      exact .stay (.inl rfl) (hlater start)
    by_cases hcurrent : piece = ['.']
    · subst hcurrent
      exact .stay (.inr rfl) (hlater start)
    by_cases hparent : piece = ['.', '.']
    · subst hparent
      exact .up (hlater start.dropLast)
    have hordinary : IsOrdinaryName piece := ⟨hnil, hcurrent, hparent, hpiece⟩
    rw [List.filterMap_cons_some (isName_iff_isOrdinaryName.mpr hordinary).2]
    exact .down hordinary (hlater (start ++ [piece]))

/-- A `.` among components changes nothing. -/
theorem follow_filter_current (start : List (List Char)) (components : List PathComponent) :
    follow start (components.filter (· != .current)) = follow start components := by
  induction components generalizing start with
  | nil => rfl
  | cons component rest ih =>
    cases component with
    | current => exact ih start
    | root => exact ih []
    | parent => exact ih start.dropLast
    | name name => exact ih (start ++ [name])

/-- A path is followed from the root piece by piece. -/
theorem names_eq_follow (text : String) :
    (⟨text⟩ : SourcePath).names = follow [] (componentsOf.stepsOf text.toList) := by
  show follow [] (componentsOf text.toList) = _
  unfold componentsOf
  split
  · rename_i rest hrest
    have hsteps : componentsOf.stepsOf ('/' :: rest) = componentsOf.stepsOf rest := by
      rw [componentsOf.stepsOf, Text.split, if_pos rfl]
      rfl
    rw [hrest, hsteps]
    exact follow_filter_current [] (componentsOf.stepsOf rest)
  · split
    · rename_i rest hsteps
      rw [hsteps]
      exact follow_filter_current [] rest
    · exact follow_filter_current [] _

/-- A path that is appended to a directory is followed from there. -/
theorem names_append (directory target : List Char) :
    (⟨String.ofList (directory ++ '/' :: target)⟩ : SourcePath).names =
      follow (⟨String.ofList directory⟩ : SourcePath).names (componentsOf.stepsOf target) := by
  simp only [names_eq_follow, String.toList_ofList, componentsOf.stepsOf,
    Text.split_append_separator, List.filterMap_append]
  exact List.foldl_append

theorem isAbsolute_iff {target : String} :
    isAbsolute target = true ↔ target.toList.head? = some '/' := beq_iff_eq

/-- An include target that is not absolute is followed from the directory of its includer. -/
theorem resolveInclude_of_relative {includer : SourcePath} {target : String}
    (h : target.toList.head? ≠ some '/') : includer.resolveInclude target =
      ofNames (follow includer.names.dropLast (componentsOf.stepsOf target.toList)) := by
  have hdirectory : includer.directory.names = includer.names.dropLast :=
    names_ofNames fun name hname =>
      (isName_of_mem_names ((List.dropLast_sublist _).subset hname)).1
  rw [resolveInclude, joined, if_neg (mt isAbsolute_iff.mp h), rooted, names_append,
    String.ofList_toList, hdirectory]

/-- Whether a file is what an include target names in a file with a canonical path, which is given
by its names. -/
structure IsNamedFrom (names : List (List Char)) (target : String) (file : SourcePath) : Prop where
  /-- Its path is canonical. -/
  fixed : rooted file.text = file
  /-- A target that starts at the root is rooted by itself. -/
  absolute : target.toList.head? = some '/' → file = rooted target
  /-- Any other target is appended to the directory of the includer. -/
  appended : target.toList.head? ≠ some '/' →
    file = rooted (String.ofList ((ofNames names.dropLast).text.toList ++ '/' :: target.toList))
  /-- It leads from that directory to the file. -/
  leads : target.toList.head? ≠ some '/' →
    ∃ final, Leads names.dropLast (Text.split '/' target.toList) final ∧ file = ofNames final

/-- Includes name files with canonical paths, absolute ones by themselves and the others from the
directory of the includer. -/
theorem isNamedFrom_resolveInclude (includer : SourcePath) (target : String) :
    IsNamedFrom includer.names target (includer.resolveInclude target) where
  fixed := rooted_text (isRooted_resolveInclude includer target)
  absolute habsolute := by
    rw [resolveInclude, joined, if_pos (isAbsolute_iff.mpr habsolute)]
  appended hrelative := by
    rw [resolveInclude, joined, if_neg (mt isAbsolute_iff.mp hrelative)]
    rfl
  leads hrelative := by
    refine ⟨_, leads_follow (fun _ hpiece => Text.not_mem_of_mem_split hpiece) _, ?_⟩
    exact resolveInclude_of_relative hrelative

end SourcePath

/-! ### Files below a directory -/

namespace FileSystem

open SourcePath (IsOrdinaryName)

variable {σ : Type}

/-- Whether a path in a file system is that of a directory and names after it. There is a separator
after the directory, unless its path is empty or ends in one. -/
def StandsBelow (directory : String) (names : List (List Char)) (file : String) : Prop :=
  ∃ separator : List Char,
    file.toList = directory.toList ++ separator ++ Text.join '/' names ∧
    (separator = ['/'] ∨
      separator = [] ∧ (directory = "" ∨ directory.toList.getLast? = some '/'))

/-- The file of a request stands below the directory, under the names that the path leads to. -/
theorem standsBelow_below (directory : String) (path : SourcePath) :
    StandsBelow directory path.names (below directory path) := by
  unfold below
  dsimp only
  split
  · rename_i hlast
    refine ⟨[], by simp, .inr ⟨rfl, ?_⟩⟩
    cases hend : directory.toList.getLast? with
    | none => exact .inl (String.toList_eq_nil_iff.mp (List.getLast?_eq_none_iff.mp hend))
    | some c =>
      rw [hend] at hlast
      exact .inr (congrArg some hlast)
  · exact ⟨['/'], by simp, .inl rfl⟩

/-- Where two file systems have the same below a directory, its files are the same. -/
theorem provider_eq_of_looks {left right : FileSystem σ} {directory : String}
    (hlooks : ∀ names file, (∀ name ∈ names, IsOrdinaryName name) →
      StandsBelow directory names file → left.look file = right.look file)
    (hlimit : left.fileLimit = right.fileLimit) :
    left.provider directory = right.provider directory := by
  have hbelow : ∀ path, left.look (below directory path) = right.look (below directory path) :=
    fun path => hlooks path.names _ SourcePath.isOrdinaryName_of_mem_names
      (standsBelow_below directory path)
  simp only [provider, readText, hbelow, hlimit]

end FileSystem

/-- Rooted paths are canonical, and so are those that includes name. The provider of a directory
opens the directory and the ordinary names of a canonical path after it, whatever path it is asked
for, and what stands anywhere else makes no difference to it. -/
theorem SourcePath.rooted_isConfined :
    (∀ text, (rooted text).IsCanonical ∧ rooted (rooted text).text = rooted text ∧
      ∃ names, Leads [] (Text.split '/' text.toList) names ∧ rooted text = ofNames names) ∧
    (∀ path, rooted path.text = path ↔ path.IsCanonical) ∧
    (∀ includer, includer.IsRooted → ∃ names, (∀ name ∈ names, IsOrdinaryName name) ∧
      includer = ofNames names ∧
      ∀ target, IsNamedFrom names target (includer.resolveInclude target)) ∧
    (∀ directory path, ∃ names file, (∀ name ∈ names, IsOrdinaryName name) ∧
      rooted path.text = ofNames names ∧ FileSystem.StandsBelow directory names file ∧
      ∀ (σ : Type) (system : FileSystem σ),
        (system.provider directory).read path = system.readText file) ∧
    ∀ (σ : Type) (left right : FileSystem σ) (directory : String),
      (∀ names file, (∀ name ∈ names, IsOrdinaryName name) →
        FileSystem.StandsBelow directory names file → left.look file = right.look file) →
      left.fileLimit = right.fileLimit →
      left.provider directory = right.provider directory := by
  refine ⟨fun text => ⟨isCanonical_rooted text, rooted_text (isRooted_rooted text), ?_⟩,
    fun _ => rooted_eq_self_iff, fun includer hincluder => ?_, fun directory path => ?_,
    fun _ _ _ _ => FileSystem.provider_eq_of_looks⟩
  · refine ⟨_, leads_follow (fun _ hpiece => Text.not_mem_of_mem_split hpiece) [], ?_⟩
    exact congrArg ofNames (names_eq_follow text)
  · exact ⟨includer.names, isOrdinaryName_of_mem_names, (rooted_text hincluder).symm,
      isNamedFrom_resolveInclude includer⟩
  · exact ⟨path.names, FileSystem.below directory path, isOrdinaryName_of_mem_names, rfl,
      FileSystem.standsBelow_below directory path, fun _ _ => rfl⟩

/-- An include that climbs beyond the root, in a directory beside which a secret is kept. -/
theorem SourcePath.rooted_isConfined_of_climbing :
    let includer : SourcePath := ⟨"/a/b.glsl"⟩
    let target := "../.././/../etc/passwd"
    let system : String → FileSystem Unit := fun secret =>
      ⟨fun file => if file = "/etc/passwd" then return .file (some secret) else throw .noEntry,
        fun _ => 1⟩
    includer.resolveInclude target = ⟨"/etc/passwd"⟩ ∧
      (∃ names, includer = ofNames names ∧
        IsNamedFrom names target (includer.resolveInclude target)) ∧
      (∀ secret, ((system secret).look "/etc/passwd").outcomeFrom () =
        .ok (.file (some secret))) ∧
      (system "left").provider "shaders" = (system "right").provider "shaders" := by
  intro includer target system
  obtain ⟨-, -, hincludes, -, hconfined⟩ := rooted_isConfined
  obtain ⟨names, -, hnames, hnamed⟩ := hincludes includer ⟨"/a/b.glsl", by decide +kernel⟩
  refine ⟨by decide +kernel, ⟨names, hnames, hnamed target⟩, fun _ => rfl, ?_⟩
  refine hconfined Unit (system "left") (system "right") "shaders" ?_ rfl
  rintro below file - ⟨separator, hfile, -⟩
  -- A path below the directory starts with the name of the directory.
  have hother : file ≠ "/etc/passwd" := by
    rintro rfl
    have hhead := congrArg List.head? hfile
    simp at hhead
  show ite _ _ _ = ite _ _ _
  rw [if_neg hother, if_neg hother]

end ShaderAssembly
