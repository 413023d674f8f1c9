import ShaderAssembly.Compiler
import ShaderAssembly.Proofs.RootedPaths

/-!
# What include graphs record

Recording a text never loses one that is recorded already, and leaves the file of the text
recorded, whichever of its texts that is. This rests on all paths being rooted, since files are
told apart by their components.
-/

namespace ShaderAssembly

open Include (Edge Expansion FileText)

namespace IncludeGraph

/-- The files whose texts are recorded. -/
def paths (graph : IncludeGraph) : List SourcePath := graph.contents.map FileText.path

/-- Whether the files whose texts are recorded have canonical paths. -/
def IsRooted (graph : IncludeGraph) : Prop := ∀ path ∈ graph.paths, path.IsRooted

/-- A file is found among rooted ones by its components exactly when it is one of them. -/
theorem any_same_iff_mem {files : List FileText} {path : SourcePath}
    (hfiles : ∀ file ∈ files, file.path.IsRooted) (hpath : path.IsRooted) :
    files.any (·.path.same path) = true ↔ path ∈ files.map FileText.path := by
  rw [← SourcePath.any_same_iff_mem (List.forall_mem_map.mpr hfiles) hpath, List.any_map]
  rfl

/-- Recording a text keeps those before and leaves its file recorded. -/
theorem recordText_spec {files : List FileText} {file : FileText}
    (hfiles : ∀ other ∈ files, other.path.IsRooted) (hfile : file.path.IsRooted) :
    (∀ other ∈ recordText files file, other.path.IsRooted) ∧
      files ⊆ recordText files file ∧ file.path ∈ (recordText files file).map FileText.path := by
  unfold recordText
  split
  · rename_i hany
    exact ⟨hfiles, fun _ hmem => hmem, (any_same_iff_mem hfiles hfile).mp hany⟩
  · refine ⟨fun other hother => ?_, fun _ hmem => List.mem_append_left _ hmem, by simp⟩
    rcases List.mem_append.mp hother with hother | hother
    · exact hfiles other hother
    · obtain rfl := List.mem_singleton.mp hother
      exact hfile

/-- Recording texts one after the other keeps those before and leaves all their files recorded. -/
theorem foldl_recordText_spec {reads files : List FileText}
    (hfiles : ∀ other ∈ files, other.path.IsRooted) (hreads : ∀ read ∈ reads, read.path.IsRooted) :
    (∀ other ∈ reads.foldl recordText files, other.path.IsRooted) ∧
      files ⊆ reads.foldl recordText files ∧
      ∀ read ∈ reads, read.path ∈ (reads.foldl recordText files).map FileText.path := by
  induction reads generalizing files with
  | nil => exact ⟨hfiles, fun _ hmem => hmem, nofun⟩
  | cons read rest ih =>
    obtain ⟨hrooted, hsubset, hrecorded⟩ := recordText_spec hfiles (hreads read (by simp))
    obtain ⟨hall, hmore, hrest⟩ :=
      ih hrooted fun other hother => hreads other (List.mem_cons_of_mem _ hother)
    refine ⟨hall, fun other hother => hmore (hsubset hother), fun other hother => ?_⟩
    rcases List.mem_cons.mp hother with rfl | hother
    · exact List.map_subset _ hmore hrecorded
    · exact hrest other hother

/-- Recorded texts are those that were recorded before and those that have been read. -/
theorem mem_foldl_recordText {reads files : List FileText} {file : FileText}
    (h : file ∈ reads.foldl recordText files) : file ∈ files ∨ file ∈ reads := by
  induction reads generalizing files with
  | nil => exact .inl h
  | cons read rest ih =>
    rcases ih h with hfile | hrest
    · unfold recordText at hfile
      split at hfile
      · exact .inl hfile
      · rcases List.mem_append.mp hfile with hold | hnew
        · exact .inl hold
        · obtain rfl := List.mem_singleton.mp hnew
          exact .inr (List.mem_cons_self ..)
    · exact .inr (List.mem_cons_of_mem _ hrest)

/-- Adding texts keeps a graph rooted and its files recorded, and records the files of the
texts. -/
theorem addTexts_spec {graph : IncludeGraph} (hgraph : graph.IsRooted) (reads : List FileText)
    (hreads : ∀ read ∈ reads, read.path.IsRooted) :
    (graph.addTexts reads).IsRooted ∧ graph.paths ⊆ (graph.addTexts reads).paths ∧
      reads.map FileText.path ⊆ (graph.addTexts reads).paths := by
  have hfiles : ∀ file ∈ graph.contents, file.path.IsRooted :=
    fun file hfile => hgraph _ (List.mem_map.mpr ⟨file, hfile, rfl⟩)
  obtain ⟨hall, hsubset, hrecorded⟩ := foldl_recordText_spec hfiles hreads
  refine ⟨?_, List.map_subset _ hsubset, ?_⟩
  · intro path hpath
    obtain ⟨file, hfile, rfl⟩ := List.mem_map.mp hpath
    exact hall file hfile
  · intro path hpath
    obtain ⟨read, hread, rfl⟩ := List.mem_map.mp hpath
    exact hrecorded read hread

/-- A walk finds nothing but the files it has seen, those it has to visit and included ones. -/
theorem mem_visit {edges : List Edge} {seen todo : List SourcePath} {file : SourcePath}
    (h : file ∈ visit edges seen todo) :
    file ∈ seen ∨ file ∈ todo ∨ ∃ edge ∈ edges, edge.included = file := by
  induction edges, seen, todo using visit.induct with
  | case1 edges seen =>
    rw [visit] at h
    exact .inl (List.mem_reverse.mp h)
  | case2 edges seen first rest hany ih =>
    rw [visit, if_pos hany] at h
    exact (ih h).imp id (Or.imp (List.mem_cons_of_mem _) id)
  | case3 edges seen first rest hany included ih =>
    rw [visit, if_neg hany] at h
    rcases ih h with hseen | htodo | ⟨edge, hedge, heq⟩
    · rcases List.mem_cons.mp hseen with rfl | hseen
      · exact .inr (.inl (List.mem_cons_self ..))
      · exact .inl hseen
    · rcases List.mem_append.mp htodo with hincluded | hrest
      · obtain ⟨edge, hedge, heq⟩ := List.mem_map.mp hincluded
        exact .inr (.inr ⟨edge, (List.mem_filter.mp hedge).1, heq⟩)
      · exact .inr (.inl (List.mem_cons_of_mem _ hrest))
    · exact .inr (.inr ⟨edge, (List.mem_filter.mp hedge).1, heq⟩)

/-- A walk finds the files it has seen. -/
theorem mem_visit_of_seen {edges : List Edge} {seen todo : List SourcePath} {file : SourcePath}
    (h : file ∈ seen) : file ∈ visit edges seen todo := by
  induction edges, seen, todo using visit.induct with
  | case1 edges seen =>
    rw [visit]
    exact List.mem_reverse.mpr h
  | case2 edges seen first rest hany ih =>
    rw [visit, if_pos hany]
    exact ih h
  | case3 edges seen first rest hany included ih =>
    rw [visit, if_neg hany]
    exact ih (List.mem_cons_of_mem _ h)

/-- Whether all files that a walk knows have canonical paths. -/
structure IsRootedWalk (edges : List Edge) (seen todo : List SourcePath) : Prop where
  edges : ∀ edge ∈ edges, edge.includer.IsRooted ∧ edge.included.IsRooted
  seen : ∀ file ∈ seen, file.IsRooted
  todo : ∀ file ∈ todo, file.IsRooted

namespace IsRootedWalk

variable {edges : List Edge} {seen rest : List SourcePath} {file : SourcePath}

theorem first (h : IsRootedWalk edges seen (file :: rest)) : file.IsRooted :=
  h.todo file (List.mem_cons_self ..)

/-- The files stay rooted when a file is left out. -/
theorem skip (h : IsRootedWalk edges seen (file :: rest)) : IsRootedWalk edges seen rest :=
  ⟨h.edges, h.seen, fun other hother => h.todo other (List.mem_cons_of_mem _ hother)⟩

/-- The files stay rooted when a file is visited. -/
theorem step (h : IsRootedWalk edges seen (file :: rest)) :
    IsRootedWalk (edgesOutside file edges) (file :: seen)
      ((edgesIn file edges).map Edge.included ++ rest) where
  edges edge hedge := h.edges edge (List.mem_filter.mp hedge).1
  seen := List.forall_mem_cons.mpr ⟨h.first, h.seen⟩
  todo other hother := by
    rcases List.mem_append.mp hother with hincluded | hrest
    · obtain ⟨edge, hedge, rfl⟩ := List.mem_map.mp hincluded
      exact (h.edges edge (List.mem_filter.mp hedge).1).2
    · exact h.skip.todo other hrest

/-- A file that the walk takes for a seen one has been seen. -/
theorem mem_of_any (h : IsRootedWalk edges seen (file :: rest))
    (hany : seen.any (·.same file) = true) : file ∈ seen :=
  (SourcePath.any_same_iff_mem h.seen h.first).mp hany

/-- What stands in the file that is next is taken from the include lines. -/
theorem mem_edgesIn (h : IsRootedWalk edges seen (file :: rest)) {edge : Edge}
    (hedge : edge ∈ edges) (hfile : edge.includer = file) : edge ∈ edgesIn file edges :=
  List.mem_filter.mpr ⟨hedge, (SourcePath.same_iff_eq (h.edges edge hedge).1 h.first).mpr hfile⟩

/-- What stands in other files is kept. -/
theorem mem_edgesOutside (h : IsRootedWalk edges seen (file :: rest)) {edge : Edge}
    (hedge : edge ∈ edges) (hfile : edge.includer ≠ file) : edge ∈ edgesOutside file edges := by
  refine List.mem_filter.mpr ⟨hedge, ?_⟩
  rw [Bool.not_eq_true', Bool.eq_false_iff, ne_eq,
    SourcePath.same_iff_eq (h.edges edge hedge).1 h.first]
  exact hfile

end IsRootedWalk

/-- A walk finds the files it has still to visit. -/
theorem IsRootedWalk.mem_visit {edges : List Edge} {seen todo : List SourcePath}
    (h : IsRootedWalk edges seen todo) {file : SourcePath} (hfile : file ∈ todo) :
    file ∈ visit edges seen todo := by
  induction edges, seen, todo using visit.induct with
  | case1 => cases hfile
  | case2 edges seen first rest hany ih =>
    rw [visit, if_pos hany]
    rcases List.mem_cons.mp hfile with rfl | hrest
    · exact mem_visit_of_seen (h.mem_of_any hany)
    · exact ih h.skip hrest
  | case3 edges seen first rest hany included ih =>
    rw [visit, if_neg hany]
    rcases List.mem_cons.mp hfile with rfl | hrest
    · exact mem_visit_of_seen (List.mem_cons_self ..)
    · exact ih h.step (List.mem_append_right _ hrest)

/-- A walk finds what the files that it visits include. -/
theorem IsRootedWalk.included_mem_visit {edges : List Edge} {seen todo : List SourcePath}
    (h : IsRootedWalk edges seen todo) {edge : Edge} (hedge : edge ∈ edges)
    (hfound : edge.includer ∈ visit edges seen todo) (hnew : edge.includer ∉ seen) :
    edge.included ∈ visit edges seen todo := by
  induction edges, seen, todo using visit.induct with
  | case1 edges seen =>
    rw [visit] at hfound
    exact absurd (List.mem_reverse.mp hfound) hnew
  | case2 edges seen first rest hany ih =>
    rw [visit, if_pos hany] at hfound ⊢
    exact ih h.skip hedge hfound hnew
  | case3 edges seen first rest hany included ih =>
    rw [visit, if_neg hany] at hfound ⊢
    by_cases heq : edge.includer = first
    · have hincluded : edge.included ∈ included := List.mem_map_of_mem (h.mem_edgesIn hedge heq)
      exact h.step.mem_visit (List.mem_append_left _ hincluded)
    · exact ih h.step (h.mem_edgesOutside hedge heq) hfound fun hseen =>
        (List.mem_cons.mp hseen).elim heq hnew

/-- The dependencies have the root and everything that one of them includes. -/
theorem dependencies_spec {graph : IncludeGraph} (hroot : graph.root.IsRooted)
    (hedges : ∀ edge ∈ graph.edges, edge.includer.IsRooted ∧ edge.included.IsRooted) :
    graph.root ∈ graph.dependencies ∧
      ∀ edge ∈ graph.edges, edge.includer ∈ graph.dependencies →
        edge.included ∈ graph.dependencies := by
  have hwalk : IsRootedWalk graph.edges [] [graph.root] :=
    ⟨hedges, nofun, List.forall_mem_singleton.mpr hroot⟩
  exact ⟨hwalk.mem_visit (List.mem_singleton.mpr rfl), fun edge hedge hmem =>
    hwalk.included_mem_visit hedge hmem List.not_mem_nil⟩

/-- News of one file matters exactly if the file is a dependency. -/
theorem reachesAny_singleton_iff {graph : IncludeGraph}
    (hgraph : ∀ other ∈ graph.dependencies, other.IsRooted) {file : SourcePath}
    (hfile : file.IsRooted) : graph.reachesAny [file] = true ↔ file ∈ graph.dependencies := by
  rw [reachesAny, List.any_cons, List.any_nil, Bool.or_false]
  exact SourcePath.any_same_iff_mem hgraph hfile

/-- A graph before anything is read records nothing. -/
theorem isRooted_ofRoot (root : SourcePath) : (ofRoot root).IsRooted := nofun

end IncludeGraph

/-- Recording an expansion keeps a graph rooted and its files recorded, and records the files that
the expansion read. -/
theorem Compiler.recordExpansion_spec {graph : IncludeGraph} (hgraph : graph.IsRooted)
    (expansion : Expansion) (hreads : ∀ read ∈ expansion.contents, read.path.IsRooted) :
    (recordExpansion graph expansion).IsRooted ∧
      graph.paths ⊆ (recordExpansion graph expansion).paths ∧
      expansion.contents.map FileText.path ⊆ (recordExpansion graph expansion).paths := by
  have hedges : (graph.addEdges expansion.edges).IsRooted := hgraph
  exact IncludeGraph.addTexts_spec hedges expansion.contents hreads

end ShaderAssembly
