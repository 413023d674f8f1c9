import ShaderAssembly.Proofs.IncludeGraphs
import ShaderAssembly.Proofs.IncludeRules

/-!
# Walks along include lines

An expansion goes through the include lines of a text from the first to the last, and through those
of each file it names before it goes on. So its edges are a walk, and the files at their ends are
those it reads, in the same order. This needs no contents: a file that is included again may have
another text by then.

If each file names the same files every time, then a depth-first search along the edges meets the
files for the first time in the order of the walk. Every file that the walk leaves has all files
below it behind it, so what the walk goes through again is what the search skips.
-/

namespace ShaderAssembly

namespace Include

/-! ### Walks -/

/-- The files that include lines of a file name, in order. -/
def targets (file : SourcePath) (lines : List (List Char)) : List SourcePath :=
  lines.filterMap fun line =>
    match Directive.ofLine line with
    | .target target => some (file.resolveInclude target)
    | .none | .malformed => none

/-- The edges of a walk from a file to the files it names, one after the other. Each of them names
further files, to which the walk goes first, and none is open at that time. -/
inductive Walk (names : SourcePath → List SourcePath → Prop) : List SourcePath → SourcePath →
    List SourcePath → List Edge → Prop where
  /-- The file names no files. -/
  | done {openFiles : List SourcePath} {file : SourcePath} : Walk names openFiles file [] []
  /-- The walk goes to the first file and on from there, and then to the others. -/
  | follow {openFiles : List SourcePath} {file next : SourcePath} {line : Nat}
      {inside others : List SourcePath} {inner rest : List Edge} (hnew : next ∉ openFiles)
      (hrooted : next.IsRooted) (hnames : names next inside)
      (hinner : Walk names (openFiles ++ [next]) next inside inner)
      (hrest : Walk names openFiles file others rest) :
      Walk names openFiles file (next :: others) (⟨file, next, line⟩ :: inner ++ rest)

/-- The edges of an expansion are a walk to the files that its include lines name. -/
theorem Unfolds.walk {has : SourcePath → String → Prop} {openFiles : List SourcePath}
    {file : SourcePath} {number : Nat} {lines : List (List Char)} {fragment : Fragment}
    (h : Unfolds has openFiles file number lines fragment) :
    Walk (fun path inside => ∃ text, has path text ∧ inside = targets path (Text.lines text.toList))
      openFiles file (targets file lines) fragment.edges := by
  induction h with
  | done => exact .done
  | keep hline _ ih =>
    rw [targets, List.filterMap_cons, hline]
    exact ih
  | replace hline hnew hread _ _ ihinner ihrest =>
    rw [targets, List.filterMap_cons, hline]
    exact .follow hnew (SourcePath.isRooted_resolveInclude _ _) ⟨_, hread, rfl⟩ ihinner ihrest

namespace Walk

variable {names : SourcePath → List SourcePath → Prop} {openFiles : List SourcePath}
  {file : SourcePath} {named : List SourcePath} {edges : List Edge}

/-- A walk to some files and one to others are a walk to all of them. -/
theorem append (h : Walk names openFiles file named edges) {others : List SourcePath}
    {rest : List Edge} (hrest : Walk names openFiles file others rest) :
    Walk names openFiles file (named ++ others) (edges ++ rest) := by
  induction h with
  | done => exact hrest
  | follow hnew hrooted hnames hinner _ _ ih =>
    rw [List.append_assoc]
    exact .follow hnew hrooted hnames hinner (ih hrest)

/-- A walk stays one if files may name more files. -/
theorem mono (h : Walk names openFiles file named edges)
    {more : SourcePath → List SourcePath → Prop}
    (hmore : ∀ path inside, names path inside → more path inside) :
    Walk more openFiles file named edges := by
  induction h with
  | done => exact .done
  | follow hnew hrooted hnames _ _ ihinner ihrest =>
    exact .follow hnew hrooted (hmore _ _ hnames) ihinner ihrest

/-- A walk goes to all files that are named at its start. -/
theorem subset_included (h : Walk names openFiles file named edges) :
    named ⊆ edges.map Edge.included := by
  induction h with
  | done => exact fun _ h => h
  | follow _ _ _ _ _ _ ih =>
    rw [List.map_append, List.map_cons]
    refine List.cons_subset.mpr ⟨List.mem_cons_self .., fun path hpath => ?_⟩
    exact List.mem_append_right _ (ih hpath)

/-- A walk goes to files with canonical paths that are not open, and comes from its first file or
one of them. -/
theorem of_mem (h : Walk names openFiles file named edges) :
    ∀ edge ∈ edges, edge.included ∉ openFiles ∧ edge.included.IsRooted ∧
      (edge.includer = file ∨ edge.includer.IsRooted) := by
  induction h with
  | done => exact nofun
  | follow hnew hrooted _ _ _ ihinner ihrest =>
    intro edge hedge
    rcases List.mem_append.mp hedge with hedge | hedge
    · rcases List.mem_cons.mp hedge with rfl | hedge
      · exact ⟨hnew, hrooted, .inl rfl⟩
      · obtain ⟨hclosed, hincluded, hincluder⟩ := ihinner edge hedge
        refine ⟨fun hopen => hclosed (List.mem_append_left _ hopen), hincluded, .inr ?_⟩
        rcases hincluder with heq | hincluder
        · rwa [heq]
        · exact hincluder
    · exact ihrest edge hedge

/-- A walk goes to files with canonical paths. -/
theorem included_rooted (h : Walk names openFiles file named edges) :
    ∀ path ∈ edges.map Edge.included, path.IsRooted := by
  intro path hpath
  obtain ⟨edge, hedge, rfl⟩ := List.mem_map.mp hpath
  exact (h.of_mem edge hedge).2.1

/-- Whatever edges pass on from the first file of a walk reaches all files it goes to. -/
theorem passes_on (h : Walk names openFiles file named edges) {property : SourcePath → Prop}
    (hfile : property file)
    (hedges : ∀ edge ∈ edges, property edge.includer → property edge.included) :
    ∀ edge ∈ edges, property edge.included := by
  induction h with
  | done => exact nofun
  | @follow openFiles file next line _ _ inner rest _ _ _ _ _ ihinner ihrest =>
    have hnext : property next :=
      hedges ⟨file, next, line⟩ (List.mem_append_left _ (List.mem_cons_self ..)) hfile
    have hinner := ihinner hnext fun edge hedge =>
      hedges edge (List.mem_append_left _ (List.mem_cons_of_mem _ hedge))
    have hrest := ihrest hfile fun edge hedge => hedges edge (List.mem_append_right _ hedge)
    intro edge hedge
    rcases List.mem_append.mp hedge with hedge | hedge
    · rcases List.mem_cons.mp hedge with rfl | hedge
      · exact hnext
      · exact hinner edge hedge
    · exact hrest edge hedge

end Walk

end Include

namespace IncludeGraph

open Include (Edge FileText Walk)

/-! ### Lists without repetitions -/

section AddNew

variable {files more : List SourcePath} {file : SourcePath}

/-- A file that a list has is not added. -/
theorem addNew_of_mem (h : file ∈ files) : addNew files file = files := by
  have hany : files.any (·.same file) = true :=
    List.any_eq_true.mpr ⟨file, h, file.same_self⟩
  rw [addNew, if_pos hany]

/-- A file that a list does not have is added at its end. -/
theorem addNew_of_not_mem (hfiles : ∀ other ∈ files, other.IsRooted) (hfile : file.IsRooted)
    (h : file ∉ files) : addNew files file = files ++ [file] :=
  if_neg fun hany => h ((SourcePath.any_same_iff_mem hfiles hfile).mp hany)

/-- Files that a list has are not added. -/
theorem foldl_addNew_of_subset (h : more ⊆ files) : more.foldl addNew files = files := by
  induction more with
  | nil => rfl
  | cons file rest ih =>
    rw [List.foldl_cons, addNew_of_mem (h (List.mem_cons_self ..))]
    exact ih fun other hother => h (List.mem_cons_of_mem _ hother)

/-- A list has the files that it had before and those that are added. -/
theorem mem_foldl_addNew (hfiles : ∀ other ∈ files, other.IsRooted)
    (hmore : ∀ other ∈ more, other.IsRooted) :
    file ∈ more.foldl addNew files ↔ file ∈ files ∨ file ∈ more := by
  induction more generalizing files with
  | nil => simp
  | cons first rest ih =>
    have hrest : ∀ other ∈ rest, other.IsRooted := fun other hother =>
      hmore other (List.mem_cons_of_mem _ hother)
    have hfirst := hmore first (List.mem_cons_self ..)
    by_cases hmem : first ∈ files
    · rw [List.foldl_cons, addNew_of_mem hmem, ih hfiles hrest, List.mem_cons]
      exact ⟨Or.imp id .inr, fun h => h.elim .inl fun h => h.elim (fun heq => .inl (heq ▸ hmem))
        .inr⟩
    · have hadded : ∀ other ∈ files ++ [first], other.IsRooted := by
        intro other hother
        rcases List.mem_append.mp hother with hother | hother
        · exact hfiles other hother
        · rwa [List.mem_singleton.mp hother]
      rw [List.foldl_cons, addNew_of_not_mem hfiles hfirst hmem, ih hadded hrest, List.mem_append,
        List.mem_singleton, List.mem_cons, or_assoc]

/-- Recording texts adds their files. -/
theorem map_path_foldl_recordText (reads files : List FileText) :
    (reads.foldl recordText files).map FileText.path =
      (reads.map FileText.path).foldl addNew (files.map FileText.path) := by
  induction reads generalizing files with
  | nil => rfl
  | cons read rest ih =>
    have hstep : (recordText files read).map FileText.path =
        addNew (files.map FileText.path) read.path := by
      have hany : (files.map FileText.path).any (·.same read.path) =
          files.any (·.path.same read.path) := List.any_map
      rw [recordText, addNew, hany]
      split
      · rfl
      · rw [List.map_append]
        rfl
    rw [List.foldl_cons, ih, hstep]
    rfl

end AddNew

/-! ### Include lines by their files -/

section EdgesIn

variable {file other : SourcePath}

/-- Include lines of two lists. -/
theorem edgesIn_append (file : SourcePath) (edges rest : List Edge) :
    edgesIn file (edges ++ rest) = edgesIn file edges ++ edgesIn file rest :=
  List.filter_append ..

/-- An include line that stands in another file is left out. -/
theorem edgesIn_cons_of_ne {included : SourcePath} {line : Nat} (hfile : file.IsRooted)
    (hother : other.IsRooted) (h : file ≠ other) (edges : List Edge) :
    edgesIn other (⟨file, included, line⟩ :: edges) = edgesIn other edges :=
  List.filter_cons_of_neg fun hsame => h ((SourcePath.same_iff_eq hfile hother).mp hsame)

/-- An include line that stands in a file is one of its first. -/
theorem edgesIn_cons_self (edge : Edge) (edges : List Edge) :
    edgesIn edge.includer (edge :: edges) = edge :: edgesIn edge.includer edges :=
  List.filter_cons_of_pos edge.includer.same_self

/-- Taking out the include lines of one file leaves those of another. -/
theorem edgesIn_edgesOutside (hfile : file.IsRooted) (hother : other.IsRooted) (h : other ≠ file)
    (edges : List Edge) : edgesIn other (edgesOutside file edges) = edgesIn other edges := by
  rw [edgesIn, edgesOutside, List.filter_filter]
  refine List.filter_congr fun edge _ => ?_
  cases hsame : edge.includer.same other with
  | false => rfl
  | true =>
    have houtside : edge.includer.same file = false := by
      refine Bool.eq_false_iff.mpr fun hinside => h ?_
      rw [SourcePath.same, beq_iff_eq] at hsame hinside
      exact (SourcePath.same_iff_eq hother hfile).mp
        (beq_iff_eq.mpr (hsame.symm.trans hinside))
    rw [houtside]
    rfl

end EdgesIn

/-! ### Steps of a depth-first search -/

section Visit

variable {edges : List Edge} {seen : List SourcePath}

/-- Files that have been visited are skipped. -/
theorem visit_append_of_subset {files : List SourcePath} (h : files ⊆ seen)
    (edges : List Edge) (todo : List SourcePath) :
    visit edges seen.reverse (files ++ todo) = visit edges seen.reverse todo := by
  induction files with
  | nil => rfl
  | cons file rest ih =>
    have hany : seen.reverse.any (·.same file) = true :=
      List.any_eq_true.mpr ⟨file, List.mem_reverse.mpr (h (List.mem_cons_self ..)), file.same_self⟩
    rw [List.cons_append, visit, if_pos hany]
    exact ih fun other hother => h (List.mem_cons_of_mem _ hother)

/-- Another file is visited, and those that it includes come next. -/
theorem visit_cons_of_not_mem {file : SourcePath} (hseen : ∀ path ∈ seen, path.IsRooted)
    (hfile : file.IsRooted) (h : file ∉ seen) (edges : List Edge) (todo : List SourcePath) :
    visit edges seen.reverse (file :: todo) =
      visit (edgesOutside file edges) (seen ++ [file]).reverse
        ((edgesIn file edges).map Edge.included ++ todo) := by
  have hany : ¬seen.reverse.any (·.same file) = true := by
    rwa [List.any_reverse, SourcePath.any_same_iff_mem hseen hfile]
  rw [visit, if_neg hany, List.reverse_append]
  rfl

end Visit

end IncludeGraph

namespace Include.Walk

open IncludeGraph

variable {names : SourcePath → List SourcePath → Prop} {openFiles : List SourcePath}
  {file : SourcePath} {named : List SourcePath} {edges : List Edge}

/-! ### The edges that start at a file -/

/-- Of the open files only the last one has edges, those to the files that it names. -/
theorem edgesIn_of_open (h : Walk names openFiles file named edges)
    (hopen : ∀ path ∈ openFiles, path.IsRooted) (hfile : file ∈ openFiles) {path : SourcePath}
    (hpath : path ∈ openFiles) :
    (edgesIn path edges).map Edge.included = if path = file then named else [] := by
  induction h with
  | done => exact (ite_self _).symm
  | @follow openFiles file next line inside others inner rest hnew hrooted _ _ _ ihinner ihrest =>
    have hdeeper : ∀ path ∈ openFiles ++ [next], path.IsRooted :=
      List.forall_mem_append.mpr ⟨hopen, List.forall_mem_singleton.mpr hrooted⟩
    have hinner := ihinner hdeeper (List.mem_append_right _ (List.mem_singleton_self _))
      (List.mem_append_left _ hpath)
    have hne : path ≠ next := fun heq => hnew (heq ▸ hpath)
    rw [if_neg hne] at hinner
    have hrest := ihrest hopen hfile hpath
    rw [List.cons_append]
    by_cases heq : path = file
    · subst heq
      rw [edgesIn_cons_self ⟨path, next, line⟩, edgesIn_append, List.map_cons, List.map_append,
        hinner, hrest, if_pos rfl, if_pos rfl, List.nil_append]
    · rw [edgesIn_cons_of_ne (hopen file hfile) (hopen path hpath) (Ne.symm heq), edgesIn_append,
        List.map_append, hinner, hrest, if_neg heq, if_neg heq]
      rfl

/-- A file that is not open at the start of a walk, and names the same files every time, has edges
to them each time that the walk goes to it. -/
theorem edgesIn_of_not_open (h : Walk names openFiles file named edges)
    (hopen : ∀ path ∈ openFiles, path.IsRooted) (hfile : file ∈ openFiles) {path : SourcePath}
    (hrooted : path.IsRooted) (hpath : path ∉ openFiles) {inside : List SourcePath}
    (hinside : ∀ other, names path other → other = inside) :
    (edgesIn path edges).map Edge.included =
      (List.replicate ((edges.map Edge.included).count path) inside).flatten := by
  induction h with
  | done => rfl
  | @follow openFiles file next line named others inner rest hnew hnext hnames hwalk _ ihinner
      ihrest =>
    have hdeeper : ∀ path ∈ openFiles ++ [next], path.IsRooted :=
      List.forall_mem_append.mpr ⟨hopen, List.forall_mem_singleton.mpr hnext⟩
    have hlast : next ∈ openFiles ++ [next] :=
      List.mem_append_right _ (List.mem_singleton_self _)
    have hne : file ≠ path := fun heq => hpath (heq ▸ hfile)
    rw [List.cons_append, edgesIn_cons_of_ne (hopen file hfile) hrooted hne, edgesIn_append,
      List.map_append, ihrest hopen hfile hpath, List.map_cons, List.map_append]
    by_cases heq : next = path
    · subst heq
      have hnone : (inner.map Edge.included).count next = 0 := by
        refine List.count_eq_zero.mpr fun hmem => ?_
        obtain ⟨edge, hedge, heq⟩ := List.mem_map.mp hmem
        exact (hwalk.of_mem edge hedge).1 (heq ▸ hlast)
      rw [hwalk.edgesIn_of_open hdeeper hlast hlast, if_pos rfl, hinside _ hnames,
        List.count_cons_self, List.count_append, hnone, Nat.zero_add, List.replicate_succ,
        List.flatten_cons]
    · have hdeep : path ∉ openFiles ++ [next] := by
        rw [List.mem_append, List.mem_singleton]
        exact fun hmem => hmem.elim hpath fun hlast => heq hlast.symm
      rw [ihinner hdeeper hlast hdeep, List.count_cons_of_ne heq, List.count_append,
        List.replicate_add, List.flatten_append]

/-! ### The search along a walk -/

/-- If all files that a walk has left are behind it with the files they name, it stays among the
files behind it. -/
theorem included_subset (h : Walk names openFiles file named edges) {seen : List SourcePath}
    (hnamed : named ⊆ seen)
    (hclosed : ∀ path ∈ seen, path ∉ openFiles → ∀ inside, names path inside → inside ⊆ seen) :
    edges.map Edge.included ⊆ seen := by
  induction h with
  | done => exact List.nil_subset _
  | follow hnew _ hnames _ _ ihinner ihrest =>
    obtain ⟨hnext, hothers⟩ := List.cons_subset.mp hnamed
    have hinner := ihinner (hclosed _ hnext hnew _ hnames) fun path hpath hopen =>
      hclosed path hpath fun hmem => hopen (List.mem_append_left _ hmem)
    rw [List.map_append, List.map_cons]
    exact List.append_subset.mpr
      ⟨List.cons_subset.mpr ⟨hnext, hinner⟩, ihrest hothers hclosed⟩

/-- How far a depth-first search has come along a walk through some edges. -/
structure IsBehind (names : SourcePath → List SourcePath → Prop) (edges : List Edge)
    (openFiles : List SourcePath) (left : List Edge) (seen : List SourcePath) : Prop where
  /-- Only files with canonical paths have been visited. -/
  rooted : ∀ path ∈ seen, path.IsRooted
  /-- The edges of all other files are left. -/
  unseen : ∀ path, path.IsRooted → path ∉ seen → edgesIn path left = edgesIn path edges
  /-- With a file that is not open the files that it names have been visited. -/
  closed : ∀ path ∈ seen, path ∉ openFiles → ∀ inside, names path inside → inside ⊆ seen

/-- When the walk goes to a file that has not been visited, the search visits it. -/
theorem IsBehind.visit {left : List Edge} {seen : List SourcePath}
    (h : IsBehind names edges openFiles left seen) {next : SourcePath}
    (hnext : next.IsRooted) :
    IsBehind names edges (openFiles ++ [next]) (edgesOutside next left) (seen ++ [next]) := by
  refine ⟨List.forall_mem_append.mpr ⟨h.rooted, List.forall_mem_singleton.mpr hnext⟩,
    fun path hrooted hpath => ?_, fun path hpath hopen inside hinside => ?_⟩
  · rw [List.mem_append, List.mem_singleton, not_or] at hpath
    rw [edgesIn_edgesOutside hnext hrooted hpath.2, h.unseen path hrooted hpath.1]
  · rw [List.mem_append, List.mem_singleton, not_or] at hopen
    rcases List.mem_append.mp hpath with hseen | hlast
    · exact List.subset_append_of_subset_left _ (h.closed path hseen hopen.1 inside hinside)
    · exact absurd (List.mem_singleton.mp hlast) hopen.2

/-- When the walk leaves a file, the search has visited all files that it names. -/
theorem IsBehind.leave {left : List Edge} {seen : List SourcePath} {next : SourcePath}
    (h : IsBehind names edges (openFiles ++ [next]) left seen)
    (hnext : ∀ inside, names next inside → inside ⊆ seen) :
    IsBehind names edges openFiles left seen := by
  refine ⟨h.rooted, h.unseen, fun path hpath hopen inside hinside => ?_⟩
  by_cases heq : path = next
  · exact hnext inside (heq ▸ hinside)
  · refine h.closed path hpath (fun hmem => ?_) inside hinside
    rcases List.mem_append.mp hmem with hmem | hmem
    · exact hopen hmem
    · exact heq (List.mem_singleton.mp hmem)

/-- A depth-first search along a walk visits the files in the order in which the walk goes to them
for the first time. -/
theorem visit_eq (h : Walk names openFiles file named edges) {all : List Edge}
    (hnames : ∀ path inside other, names path inside → names path other → other = inside)
    (hall : ∀ edge ∈ edges, ∀ inside, names edge.included inside →
      ∃ again, again ⊆ inside ∧
        (edgesIn edge.included all).map Edge.included = inside ++ again)
    {left : List Edge} {seen : List SourcePath}
    (hbehind : IsBehind names all openFiles left seen) :
    ∃ after, IsBehind names all openFiles after ((edges.map Edge.included).foldl addNew seen) ∧
      ∀ todo, IncludeGraph.visit left seen.reverse (named ++ todo) =
        IncludeGraph.visit after ((edges.map Edge.included).foldl addNew seen).reverse todo := by
  induction h generalizing left seen with
  | done => exact ⟨left, hbehind, fun _ => rfl⟩
  | @follow openFiles file next line inside others inner rest hnew hrooted hinside hwalk _ ihinner
      ihrest =>
    rw [List.cons_append, List.map_cons, List.map_append, List.foldl_cons, List.foldl_append]
    have hinner : ∀ edge ∈ inner, edge ∈ ⟨file, next, line⟩ :: inner ++ rest := fun edge hedge =>
      List.mem_append_left _ (List.mem_cons_of_mem _ hedge)
    have hrest := fun edge hedge => hall edge (List.mem_append_right _ hedge)
    by_cases hseen : next ∈ seen
    · -- all that the walk goes through below the file has been visited
      have hbelow := hwalk.included_subset (hbehind.closed next hseen hnew inside hinside)
        fun path hpath hopen => hbehind.closed path hpath fun hmem =>
          hopen (List.mem_append_left _ hmem)
      rw [addNew_of_mem hseen, foldl_addNew_of_subset hbelow]
      obtain ⟨after, hafter, hvisit⟩ := ihrest hrest hbehind
      refine ⟨after, hafter, fun todo => ?_⟩
      rw [← hvisit todo]
      exact visit_append_of_subset (List.cons_subset.mpr ⟨hseen, List.nil_subset _⟩) _ _
    · -- the search goes through the file with the walk, and skips what it names again
      rw [addNew_of_not_mem hbehind.rooted hrooted hseen]
      obtain ⟨again, hagain, hedges⟩ := hall ⟨file, next, line⟩
        (List.mem_append_left _ (List.mem_cons_self ..)) inside hinside
      have hvisited := hbehind.visit hrooted
      obtain ⟨middle, hmiddle, hvisitInner⟩ :=
        ihinner (fun edge hedge => hall edge (hinner edge hedge)) hvisited
      have hbelow : inside ⊆ (inner.map Edge.included).foldl addNew (seen ++ [next]) :=
        fun path hpath => (mem_foldl_addNew hvisited.rooted hwalk.included_rooted).mpr
          (.inr (hwalk.subset_included hpath))
      have hleft := hmiddle.leave fun other hother =>
        hnames next inside other hinside hother ▸ hbelow
      obtain ⟨after, hafter, hvisit⟩ := ihrest hrest hleft
      refine ⟨after, hafter, fun todo => ?_⟩
      rw [← hvisit todo, List.cons_append, visit_cons_of_not_mem hbehind.rooted hrooted hseen,
        hbehind.unseen next hrooted hseen, hedges, List.append_assoc, hvisitInner,
        visit_append_of_subset (List.Subset.trans hagain hbelow)]

/-! ### Dependencies -/

section Dependencies

variable {graph : IncludeGraph} (h : Walk names [graph.root] graph.root named graph.edges)
  (hroot : graph.root.IsRooted)
include h hroot

/-- The dependencies of a graph whose edges are a walk from its root are the root and the files
that the walk goes to. -/
theorem mem_dependencies_iff {path : SourcePath} :
    path ∈ graph.dependencies ↔ path ∈ graph.root :: graph.edges.map Edge.included := by
  have hlinks : ∀ edge ∈ graph.edges, edge.includer.IsRooted ∧ edge.included.IsRooted := by
    intro edge hedge
    obtain ⟨-, hincluded, hincluder⟩ := h.of_mem edge hedge
    exact ⟨hincluder.elim (fun heq => heq ▸ hroot) id, hincluded⟩
  obtain ⟨hself, hclosed⟩ := dependencies_spec hroot hlinks
  constructor
  · intro hpath
    rcases mem_visit hpath with hnone | hself | ⟨edge, hedge, rfl⟩
    · cases hnone
    · rw [List.mem_singleton.mp hself]
      exact List.mem_cons_self ..
    · exact List.mem_cons_of_mem _ (List.mem_map_of_mem hedge)
  · intro hpath
    rcases List.mem_cons.mp hpath with rfl | hpath
    · exact hself
    · obtain ⟨edge, hedge, rfl⟩ := List.mem_map.mp hpath
      exact h.passes_on hself hclosed edge hedge

/-- If files name the same files every time, the dependencies come in the order in which the walk
goes to them for the first time. -/
theorem dependencies_eq
    (hnames : ∀ path inside other, names path inside → names path other → other = inside) :
    graph.dependencies = (graph.root :: graph.edges.map Edge.included).foldl addNew [] := by
  have hopen : ∀ path ∈ [graph.root], path.IsRooted := List.forall_mem_singleton.mpr hroot
  have hself : graph.root ∈ [graph.root] := List.mem_singleton_self _
  have hall : ∀ edge ∈ graph.edges, ∀ inside, names edge.included inside →
      ∃ again, again ⊆ inside ∧
        (edgesIn edge.included graph.edges).map Edge.included = inside ++ again := by
    intro edge hedge inside hinside
    obtain ⟨hclosed, hrooted, -⟩ := h.of_mem edge hedge
    have hmem : edge.included ∈ graph.edges.map Edge.included := List.mem_map_of_mem hedge
    have hcount := List.count_pos_iff.mpr hmem
    rw [h.edgesIn_of_not_open hopen hself hrooted hclosed (hnames _ inside · hinside)]
    obtain ⟨times, htimes⟩ := Nat.exists_eq_succ_of_ne_zero (Nat.pos_iff_ne_zero.mp hcount)
    rw [htimes, List.replicate_succ, List.flatten_cons]
    refine ⟨_, fun path hpath => ?_, rfl⟩
    obtain ⟨list, hlist, hpath⟩ := List.mem_flatten.mp hpath
    rwa [List.eq_of_mem_replicate hlist] at hpath
  have hbehind : IsBehind names graph.edges [graph.root] (edgesOutside graph.root graph.edges)
      [graph.root] := by
    have hstart : IsBehind names graph.edges [] graph.edges [] := ⟨nofun, fun _ _ _ => rfl, nofun⟩
    exact hstart.visit hroot
  obtain ⟨after, -, hvisit⟩ := h.visit_eq hnames hall hbehind
  have hnone : ∀ path ∈ ([] : List SourcePath), path.IsRooted := nofun
  have hfirst := visit_cons_of_not_mem hnone hroot List.not_mem_nil graph.edges []
  have hedges := h.edgesIn_of_open hopen hself hself
  rw [if_pos rfl] at hedges
  rw [hedges] at hfirst
  rw [List.foldl_cons, addNew_of_not_mem hnone hroot List.not_mem_nil]
  refine hfirst.trans ((hvisit []).trans ?_)
  rw [visit, List.reverse_reverse]
  rfl

end Dependencies

end Include.Walk

end ShaderAssembly
