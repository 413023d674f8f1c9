import Mathlib.Data.List.Induction
import Mathlib.Data.List.Nodup
import Mathlib.Logic.Relation
import ShaderAssembly.Proofs.IncludeWalks

/-!
# What an include graph answers

The edges of an include graph may be any list: edges are repeated, files include themselves, and
there are cycles. A depth-first search goes from a file along its include lines in their order, one
after the other, and passes over files that have been found. It comes to an end on every graph, and
there is only one list of files it can find. `dependencies` is that list, although it keeps a list
of files still to go to and takes out the include lines of those it has been to, where the search
calls itself.

From that list follows whose change matters. Which files include a given one is told by the include
lines alone.
-/

namespace ShaderAssembly.IncludeGraph

open Include (Edge)

/-- Whether one file has an include line that names another. -/
def Links (edges : List Edge) (includer included : SourcePath) : Prop :=
  ∃ edge ∈ edges, edge.includer = includer ∧ edge.included = included

/-- Whether a file can be reached from the root by following include lines. -/
def Reaches (graph : IncludeGraph) (file : SourcePath) : Prop :=
  Relation.ReflTransGen (Links graph.edges) graph.root file

/-- Whether the root and the files that include lines are about have canonical paths. -/
structure HasRootedLinks (graph : IncludeGraph) : Prop where
  /-- The root has a canonical path. -/
  root : graph.root.IsRooted
  /-- Both files of every include line have canonical paths. -/
  edges : ∀ edge ∈ graph.edges, edge.includer.IsRooted ∧ edge.included.IsRooted

/-! ### Depth-first search -/

/-- The files that the include lines of a file name, in the order of the lines. -/
def targetsOf (edges : List Edge) (file : SourcePath) : List SourcePath :=
  (edges.filter fun edge => edge.includer = file).map Edge.included

/-- Which files a depth-first search finds when some files have been seen and it is to go to some
files one after the other. -/
inductive Finds (edges : List Edge) :
    List SourcePath → List SourcePath → List SourcePath → Prop where
  /-- There is no file to go to. -/
  | done {seen : List SourcePath} : Finds edges seen [] []
  /-- A file that has been seen is passed over. -/
  | skip {seen rest found : List SourcePath} {file : SourcePath} (hfile : file ∈ seen)
      (hrest : Finds edges seen rest found) : Finds edges seen (file :: rest) found
  /-- Another file is found, then those that the search finds from its include lines, and after
  that those it finds from the other files. -/
  | enter {seen rest below after : List SourcePath} {file : SourcePath} (hfile : file ∉ seen)
      (hbelow : Finds edges (seen ++ [file]) (targetsOf edges file) below)
      (hafter : Finds edges (seen ++ file :: below) rest after) :
      Finds edges seen (file :: rest) (file :: (below ++ after))

section Finds

variable {edges : List Edge} {seen todo found other : List SourcePath}

/-- A search has one result. -/
theorem Finds.unique (h : Finds edges seen todo found) (hother : Finds edges seen todo other) :
    found = other := by
  induction h generalizing other with
  | done =>
    cases hother
    rfl
  | skip hfile _ ih =>
    cases hother with
    | skip _ hrest => exact ih hrest
    | enter hnew _ _ => exact absurd hfile hnew
  | enter hfile _ _ ihbelow ihafter =>
    cases hother with
    | skip hseen _ => exact absurd hseen hfile
    | enter _ hbelow hafter =>
      obtain rfl := ihbelow hbelow
      obtain rfl := ihafter hafter
      rfl

/-- A search finds no file twice, and none that has been seen. -/
theorem Finds.nodup (h : Finds edges seen todo found) (hseen : seen.Nodup) :
    (seen ++ found).Nodup := by
  induction h with
  | done => rwa [List.append_nil]
  | skip _ _ ih => exact ih hseen
  | @enter seen rest below after file hfile _ _ ihbelow ihafter =>
    have hfirst : (seen ++ [file]).Nodup :=
      List.Nodup.append hseen (List.nodup_singleton file) (List.disjoint_singleton.mpr hfile)
    have hbelow := ihbelow hfirst
    rw [List.append_assoc, List.singleton_append] at hbelow
    have hafter := ihafter hbelow
    rwa [List.append_assoc, List.cons_append] at hafter

/-- A search finds only what can be reached from the files that it goes to. -/
theorem Finds.reached (h : Finds edges seen todo found) :
    ∀ file ∈ found, ∃ start ∈ todo, Relation.ReflTransGen (Links edges) start file := by
  induction h with
  | done => exact nofun
  | skip _ _ ih =>
    intro file hmem
    obtain ⟨start, hstart, hreached⟩ := ih file hmem
    exact ⟨start, List.mem_cons_of_mem _ hstart, hreached⟩
  | @enter seen rest below after first hfile _ _ ihbelow ihafter =>
    intro file hmem
    rcases List.mem_cons.mp hmem with rfl | hmem
    · exact ⟨file, List.mem_cons_self .., .refl⟩
    rcases List.mem_append.mp hmem with hbelow | hafter
    · obtain ⟨start, hstart, hreached⟩ := ihbelow file hbelow
      obtain ⟨edge, hedge, rfl⟩ := List.mem_map.mp hstart
      obtain ⟨hedge, hincluder⟩ := List.mem_filter.mp hedge
      have hlink : Links edges first edge.included :=
        ⟨edge, hedge, of_decide_eq_true hincluder, rfl⟩
      exact ⟨first, List.mem_cons_self .., .head hlink hreached⟩
    · obtain ⟨start, hstart, hreached⟩ := ihafter file hafter
      exact ⟨start, List.mem_cons_of_mem _ hstart, hreached⟩

/-- Whether the include lines that are left are all those of the files that have not been seen. -/
structure IsLeft (edges left : List Edge) (seen : List SourcePath) : Prop where
  /-- The files that have been seen have canonical paths. -/
  rooted : ∀ file ∈ seen, file.IsRooted
  /-- The include lines of all other files are left. -/
  unseen : ∀ file, file.IsRooted → file ∉ seen → edgesIn file left = edgesIn file edges

/-- When a file is seen, its include lines are taken out. -/
theorem IsLeft.enter {left : List Edge} (h : IsLeft edges left seen) {file : SourcePath}
    (hfile : file.IsRooted) : IsLeft edges (edgesOutside file left) (seen ++ [file]) where
  rooted := List.forall_mem_append.mpr ⟨h.rooted, List.forall_mem_singleton.mpr hfile⟩
  unseen other hother hnew := by
    rw [List.mem_append, List.mem_singleton, not_or] at hnew
    rw [edgesIn_edgesOutside hfile hother hnew.2, h.unseen other hother hnew.1]

/-- The files that are gone to from a file that has not been seen are those that its include lines
name. -/
theorem IsLeft.map_included {left : List Edge} (h : IsLeft edges left seen)
    (hedges : ∀ edge ∈ edges, edge.includer.IsRooted) {file : SourcePath} (hfile : file.IsRooted)
    (hnew : file ∉ seen) : (edgesIn file left).map Edge.included = targetsOf edges file := by
  rw [h.unseen file hfile hnew]
  refine congrArg (List.map Edge.included) (List.filter_congr fun edge hedge => ?_)
  rw [Bool.eq_iff_iff, decide_eq_true_iff, SourcePath.same_iff_eq (hedges edge hedge) hfile]

/-- A depth-first search comes to an end, and the walk that takes out the include lines of the
files it has been to finds the same files. -/
theorem exists_finds_visit
    (hedges : ∀ edge ∈ edges, edge.includer.IsRooted ∧ edge.included.IsRooted) {left : List Edge}
    (hleft : IsLeft edges left seen) (htodo : ∀ file ∈ todo, file.IsRooted) :
    ∃ found after, Finds edges seen todo found ∧ IsLeft edges after (seen ++ found) ∧
      after.length ≤ left.length ∧ ∀ more, visit left seen.reverse (todo ++ more) =
        visit after (seen ++ found).reverse more := by
  -- Whenever a file is entered, each file that is gone to from it takes up one of the lines left.
  induction hsize : left.length + todo.length using Nat.strongRecOn generalizing left seen todo with
  | ind size ih =>
    subst hsize
    cases todo with
    | nil =>
      refine ⟨[], left, .done, by rwa [List.append_nil], Nat.le_refl _, fun _ => ?_⟩
      rw [List.append_nil, List.nil_append]
    | cons file rest =>
      obtain ⟨hfile, hrest⟩ := List.forall_mem_cons.mp htodo
      by_cases hmem : file ∈ seen
      · obtain ⟨found, after, hfinds, hafter, hlength, hvisit⟩ :=
          ih _ (by simp) hleft hrest rfl
        refine ⟨found, after, .skip hmem hfinds, hafter, hlength, fun more => ?_⟩
        rw [← hvisit more, List.cons_append]
        exact visit_append_of_subset (List.cons_subset.mpr ⟨hmem, List.nil_subset _⟩) _ _
      · have hincluded := hleft.map_included (fun edge hedge => (hedges edge hedge).1) hfile hmem
        have htargets : ∀ target ∈ targetsOf edges file, target.IsRooted := by
          intro target htarget
          obtain ⟨edge, hedge, rfl⟩ := List.mem_map.mp htarget
          exact (hedges edge (List.mem_filter.mp hedge).1).2
        have htaken : (edgesOutside file left).length + (targetsOf edges file).length =
            left.length := by
          rw [← hincluded, List.length_map, Nat.add_comm,
            length_edgesIn_add_length_edgesOutside]
        obtain ⟨below, middle, hbelow, hmiddle, hmiddleLength, hvisitBelow⟩ :=
          ih _ (by rw [List.length_cons]; omega) (hleft.enter hfile) htargets rfl
        rw [List.append_assoc, List.singleton_append] at hmiddle hvisitBelow
        obtain ⟨found, after, hfinds, hafter, hlength, hvisit⟩ :=
          ih _ (by rw [List.length_cons]; omega) hmiddle hrest rfl
        rw [List.append_assoc, List.cons_append] at hafter hvisit
        refine ⟨file :: (below ++ found), after, .enter hmem hbelow hfinds, hafter, by omega,
          fun more => ?_⟩
        rw [← hvisit more, ← hvisitBelow (rest ++ more), List.cons_append,
          visit_cons_of_not_mem hleft.rooted hfile hmem, hincluded]

end Finds

/-! ### Dependencies -/

section Dependencies

variable {graph : IncludeGraph} (h : graph.HasRootedLinks)
include h

/-- The dependencies are what a depth-first search from the root finds. -/
theorem HasRootedLinks.finds_dependencies :
    Finds graph.edges [] [graph.root] graph.dependencies := by
  have hstart : IsLeft graph.edges graph.edges [] := ⟨nofun, fun _ _ _ => rfl⟩
  obtain ⟨found, after, hfinds, -, -, hvisit⟩ :=
    exists_finds_visit h.edges hstart (List.forall_mem_singleton.mpr h.root)
  have hdependencies : graph.dependencies = found := by
    have hwalk := hvisit []
    rw [visit, List.reverse_reverse] at hwalk
    exact hwalk
  rwa [hdependencies]

/-- The root is found first. -/
theorem HasRootedLinks.exists_dependencies_eq_cons :
    ∃ others, graph.dependencies = graph.root :: others := by
  generalize hfound : graph.dependencies = found
  cases hfound ▸ h.finds_dependencies with
  | skip hfile _ => cases hfile
  | enter _ _ _ => exact ⟨_, rfl⟩

/-- The dependencies are the files that can be reached from the root. -/
theorem HasRootedLinks.mem_dependencies_iff {file : SourcePath} :
    file ∈ graph.dependencies ↔ graph.Reaches file := by
  constructor
  · intro hfile
    obtain ⟨start, hstart, hreached⟩ := h.finds_dependencies.reached file hfile
    rwa [List.mem_singleton.mp hstart] at hreached
  · obtain ⟨hroot, hclosed⟩ := dependencies_spec h.root h.edges
    intro hreached
    induction hreached with
    | refl => exact hroot
    | tail _ hlink ih =>
      obtain ⟨edge, hedge, rfl, rfl⟩ := hlink
      exact hclosed edge hedge ih

/-- Further include lines lead to the same files, and possibly to more. -/
theorem HasRootedLinks.dependencies_subset {more : List Edge}
    (hmore : ∀ edge ∈ more, edge.includer.IsRooted ∧ edge.included.IsRooted) :
    graph.dependencies ⊆ (graph.addEdges more).dependencies := by
  have hextended : (graph.addEdges more).HasRootedLinks :=
    ⟨h.root, List.forall_mem_append.mpr ⟨h.edges, hmore⟩⟩
  intro file hfile
  have hlinks : ∀ includer included, Links graph.edges includer included →
      Links (graph.addEdges more).edges includer included := by
    rintro includer included ⟨edge, hedge, hlink⟩
    exact ⟨edge, List.mem_append_left _ hedge, hlink⟩
  exact hextended.mem_dependencies_iff.mpr
    (Relation.ReflTransGen.mono hlinks _ _ (h.mem_dependencies_iff.mp hfile))

/-- A change of some files matters exactly if one of them, however its path is spelled, can be
reached from the root. -/
theorem HasRootedLinks.reachesAny_iff {paths : List SourcePath} : graph.reachesAny paths = true ↔
    ∃ path ∈ paths, ∃ file, graph.Reaches file ∧ file.components = path.components := by
  simp only [reachesAny, List.any_eq_true, h.mem_dependencies_iff, SourcePath.same, beq_iff_eq]

end Dependencies

/-! ### Includers -/

section Includers

variable {edges : List Edge} {path file : SourcePath}

/-- Where the first of some include lines stands by which one file includes another, or how many
include lines there are if it does not include it. -/
def firstLink (edges : List Edge) (path file : SourcePath) : Nat :=
  edges.findIdx fun edge => edge.includer = file ∧ edge.included.components = path.components

/-- The files with include lines of a file, each once. -/
def includersIn (edges : List Edge) (path : SourcePath) : List SourcePath :=
  ((edges.filter (·.included.same path)).map Edge.includer).foldl addNew []

/-- A file is among the includers exactly if it has an include line of the file. -/
theorem mem_includersIn_iff (hedges : ∀ edge ∈ edges, edge.includer.IsRooted) :
    file ∈ includersIn edges path ↔
      ∃ edge ∈ edges, edge.includer = file ∧ edge.included.components = path.components := by
  have hincluders : ∀ includer ∈ (edges.filter (·.included.same path)).map Edge.includer,
      includer.IsRooted :=
    List.forall_mem_map.mpr fun edge hedge => hedges edge (List.mem_filter.mp hedge).1
  have hnone : ∀ includer ∈ ([] : List SourcePath), includer.IsRooted := nofun
  rw [includersIn, mem_foldl_addNew hnone hincluders, List.mem_map]
  simp only [List.mem_filter, SourcePath.same, beq_iff_eq, List.not_mem_nil, false_or, and_assoc,
    and_comm (a := Edge.includer _ = file)]

/-- A file has an include line of another one if the first of these is among the lines. -/
theorem firstLink_lt_length_iff : firstLink edges path file < edges.length ↔
    ∃ edge ∈ edges, edge.includer = file ∧ edge.included.components = path.components := by
  simp [firstLink, List.findIdx_lt_length]

/-- The first include line stays the first if another line follows. -/
theorem firstLink_append_of_lt (h : firstLink edges path file < edges.length) (more : List Edge) :
    firstLink (edges ++ more) path file = firstLink edges path file := by
  rw [firstLink, List.findIdx_append]
  exact if_pos h

/-- The includers come in the order of their first include lines. The induction adds one include
line after the other at the end. -/
theorem pairwise_includersIn (hedges : ∀ edge ∈ edges, edge.includer.IsRooted) :
    (includersIn edges path).Pairwise fun left right =>
      firstLink edges path left < firstLink edges path right := by
  induction edges using List.reverseRecOn with
  | nil => exact .nil
  | append_singleton edges latest ih =>
    obtain ⟨hedges, hlatest⟩ := List.forall_mem_append.mp hedges
    have hfound : ∀ file ∈ includersIn edges path, firstLink edges path file < edges.length :=
      fun file hfile => firstLink_lt_length_iff.mpr ((mem_includersIn_iff hedges).mp hfile)
    have hbefore : (includersIn edges path).Pairwise fun left right =>
        firstLink (edges ++ [latest]) path left < firstLink (edges ++ [latest]) path right := by
      refine (ih hedges).imp_of_mem fun {left right} hleft hright hlt => ?_
      rwa [firstLink_append_of_lt (hfound left hleft), firstLink_append_of_lt (hfound right hright)]
    cases hsame : latest.included.same path with
    | false =>
      have hnone : includersIn (edges ++ [latest]) path = includersIn edges path := by
        simp [includersIn, hsame]
      rwa [hnone]
    | true =>
      have hone : includersIn (edges ++ [latest]) path =
          addNew (includersIn edges path) latest.includer := by
        simp [includersIn, hsame]
      rw [hone]
      by_cases hmem : latest.includer ∈ includersIn edges path
      · rwa [addNew_of_mem hmem]
      · have hrooted : ∀ file ∈ includersIn edges path, file.IsRooted := by
          intro file hfile
          obtain ⟨edge, hedge, rfl, -⟩ := (mem_includersIn_iff hedges).mp hfile
          exact hedges edge hedge
        rw [addNew_of_not_mem hrooted (hlatest latest (List.mem_singleton_self _)) hmem]
        refine List.pairwise_append.mpr ⟨hbefore, List.pairwise_singleton .., ?_⟩
        intro left hleft right hright
        obtain rfl := List.mem_singleton.mp hright
        have hnew : ¬firstLink edges path latest.includer < edges.length := fun hlt =>
          hmem ((mem_includersIn_iff hedges).mpr (firstLink_lt_length_iff.mp hlt))
        have hlast : edges.length ≤ firstLink (edges ++ [latest]) path latest.includer := by
          rw [firstLink, List.findIdx_append]
          refine (if_neg hnew).symm ▸ ?_
          exact Nat.le_add_left ..
        rw [firstLink_append_of_lt (hfound left hleft)]
        exact Nat.lt_of_lt_of_le (hfound left hleft) hlast

end Includers

/-! ### All queries -/

/-- Whether the queries of a graph are answered from its include lines, and from nothing else. -/
structure AnswersExactly (graph : IncludeGraph) : Prop where
  /-- The root is the first dependency. -/
  root_first : ∃ others, graph.dependencies = graph.root :: others
  /-- A file is a dependency exactly if it can be reached from the root. -/
  mem_dependencies : ∀ file, file ∈ graph.dependencies ↔ graph.Reaches file
  /-- No file is a dependency twice. -/
  nodup_dependencies : graph.dependencies.Nodup
  /-- A depth-first search from the root comes to an end, and finds the dependencies in their
  order. -/
  depth_first : ∀ files, Finds graph.edges [] [graph.root] files ↔ files = graph.dependencies
  /-- A change of some files matters exactly if one of them can be reached from the root. Paths
  with the same components are those of one file. -/
  reachesAny : ∀ paths, graph.reachesAny paths = true ↔
    ∃ path ∈ paths, ∃ file, graph.Reaches file ∧ file.components = path.components
  /-- A file is a direct includer of another one exactly if it has an include line of it. -/
  mem_directIncluders : ∀ path file, file ∈ graph.directIncluders path ↔
    ∃ edge ∈ graph.edges, edge.includer = file ∧ edge.included.components = path.components
  /-- No file is a direct includer twice, and they come in the order of their first include
  lines. -/
  directIncluders_ordered : ∀ path, (graph.directIncluders path).Pairwise fun left right =>
    firstLink graph.edges path left < firstLink graph.edges path right
  /-- Further include lines take no dependency away. -/
  grows : ∀ more : List Edge, (∀ edge ∈ more, edge.includer.IsRooted ∧ edge.included.IsRooted) →
    graph.dependencies ⊆ (graph.addEdges more).dependencies

/-- Whatever its include lines are, a graph answers queries exactly. -/
theorem answersExactly_of_rootedLinks {graph : IncludeGraph} (h : graph.HasRootedLinks) :
    graph.AnswersExactly where
  root_first := h.exists_dependencies_eq_cons
  mem_dependencies _ := h.mem_dependencies_iff
  nodup_dependencies := h.finds_dependencies.nodup .nil
  depth_first files := by
    constructor
    · exact fun hfiles => hfiles.unique h.finds_dependencies
    · rintro rfl
      exact h.finds_dependencies
  reachesAny _ := h.reachesAny_iff
  mem_directIncluders _ _ := mem_includersIn_iff fun edge hedge => (h.edges edge hedge).1
  directIncluders_ordered _ := pairwise_includersIn fun edge hedge => (h.edges edge hedge).1
  grows _ hmore := h.dependencies_subset hmore

/-- A graph with a cycle through its root, a file that includes itself and an include line that is
repeated. -/
theorem answersExactly_of_cyclic_links :
    let graph : IncludeGraph := ⟨⟨"/r"⟩, [⟨⟨"/r"⟩, ⟨"/a"⟩, 1⟩, ⟨⟨"/a"⟩, ⟨"/c"⟩, 1⟩,
      ⟨⟨"/c"⟩, ⟨"/r"⟩, 1⟩, ⟨⟨"/r"⟩, ⟨"/b"⟩, 2⟩, ⟨⟨"/b"⟩, ⟨"/b"⟩, 1⟩, ⟨⟨"/b"⟩, ⟨"/c"⟩, 2⟩,
      ⟨⟨"/r"⟩, ⟨"/a"⟩, 3⟩], []⟩
    graph.HasRootedLinks ∧ graph.dependencies = [⟨"/r"⟩, ⟨"/a"⟩, ⟨"/c"⟩, ⟨"/b"⟩] ∧
      graph.directIncluders ⟨"/c"⟩ = [⟨"/a"⟩, ⟨"/b"⟩] ∧ graph.AnswersExactly := by
  intro graph
  have hrooted : ∀ path ∈ [graph.root] ++ graph.edges.flatMap fun edge =>
      [edge.includer, edge.included], SourcePath.rooted path.text = path := by decide +kernel
  have hpath : ∀ {path : SourcePath}, SourcePath.rooted path.text = path → path.IsRooted :=
    fun heq => ⟨_, heq.symm⟩
  have hlinks : graph.HasRootedLinks := by
    refine ⟨hpath (hrooted _ (List.mem_cons_self ..)), fun edge hedge => ?_⟩
    have hends : ∀ path ∈ [edge.includer, edge.included], path.IsRooted := fun path hmem =>
      hpath (hrooted path (List.mem_cons_of_mem _ (List.mem_flatMap.mpr ⟨edge, hedge, hmem⟩)))
    exact ⟨hends _ (by simp), hends _ (by simp)⟩
  exact ⟨hlinks, by decide +kernel, by decide +kernel, answersExactly_of_rootedLinks hlinks⟩

end ShaderAssembly.IncludeGraph
