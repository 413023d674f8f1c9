import ShaderAssembly.Include.Expansion

/-!
# Include graphs

The include lines met while a shader is read form a graph with one root. The files that can be
reached from the root are those whose change requires the shader to be compiled again.
-/

namespace ShaderAssembly

open Include (Edge FileText)

/-- The include graph of one root file. -/
structure IncludeGraph where
  /-- The file of the shader. -/
  root : SourcePath
  /-- The include lines, in the order in which they were met. -/
  edges : List Edge
  /-- The text of every file when it was first read, in the order of first reads. -/
  contents : List FileText
  deriving DecidableEq, Repr

namespace IncludeGraph

/-- The graph before anything is read. -/
def ofRoot (root : SourcePath) : IncludeGraph := ⟨root, [], []⟩

/-- Adds include lines. -/
def addEdges (graph : IncludeGraph) (edges : List Edge) : IncludeGraph :=
  { graph with edges := graph.edges ++ edges }

/-- Records a file's text unless one is recorded for it already. -/
def recordText (contents : List FileText) (file : FileText) : List FileText :=
  if contents.any (·.path.same file.path) then contents else contents ++ [file]

/-- Records the texts of files that have been read. -/
def addTexts (graph : IncludeGraph) (contents : List FileText) : IncludeGraph :=
  { graph with contents := contents.foldl recordText graph.contents }

/-- The include lines that stand in a file. -/
def edgesIn (file : SourcePath) (edges : List Edge) : List Edge :=
  edges.filter fun edge => edge.includer.same file

/-- The include lines that stand in other files. -/
def edgesOutside (file : SourcePath) (edges : List Edge) : List Edge :=
  edges.filter fun edge => !edge.includer.same file

/-- Every include line stands in a file or outside of it. -/
theorem length_edgesIn_add_length_edgesOutside (file : SourcePath) (edges : List Edge) :
    (edgesIn file edges).length + (edgesOutside file edges).length = edges.length := by
  induction edges with
  | nil => rfl
  | cons edge rest ih =>
    simp only [edgesIn, edgesOutside] at ih ⊢
    cases h : edge.includer.same file <;> simp [h] <;> omega

/-- Visits files depth first: `todo` holds the files still to be visited, `seen` those visited
already, the last one first, and `edges` the include lines of files not visited yet. -/
def visit (edges : List Edge) (seen : List SourcePath) (todo : List SourcePath) :
    List SourcePath :=
  match todo with
  | [] => seen.reverse
  | file :: rest =>
    if seen.any (·.same file) then visit edges seen rest
    else
      let included := (edgesIn file edges).map Edge.included
      visit (edgesOutside file edges) (file :: seen) (included ++ rest)
termination_by edges.length + todo.length
decreasing_by
  · simp
  · have := length_edgesIn_add_length_edgesOutside file edges
    simp only [List.length_append, List.length_map, List.length_cons]
    omega

/-- The root and every file that can be reached from it, each once, in the order in which a walk
that follows the include lines of each file one after the other meets them first. -/
def dependencies (graph : IncludeGraph) : List SourcePath := visit graph.edges [] [graph.root]

/-- Adds a file to a list that does not have it yet. -/
def addNew (files : List SourcePath) (file : SourcePath) : List SourcePath :=
  if files.any (·.same file) then files else files ++ [file]

/-- The files that include a file themselves, each once, in the order of their include lines. -/
def directIncluders (graph : IncludeGraph) (path : SourcePath) : List SourcePath :=
  ((graph.edges.filter (·.included.same path)).map Edge.includer).foldl addNew []

/-- Whether a change of one of the given files requires the root to be compiled again. -/
def reachesAny (graph : IncludeGraph) (paths : List SourcePath) : Bool :=
  let dependencies := graph.dependencies
  paths.any fun path => dependencies.any (·.same path)

end IncludeGraph

end ShaderAssembly
