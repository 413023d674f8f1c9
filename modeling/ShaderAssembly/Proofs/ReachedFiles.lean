import Mathlib.Data.List.Chain
import Mathlib.Data.List.Perm.Subperm
import Mathlib.Logic.Relation
import ShaderAssembly.Include.Directive
import ShaderAssembly.Proofs.UnchangingSources
import ShaderAssembly.Text.Lines

/-!
# Files that are reached by include lines

The include lines of some files form a graph. An expansion gets to no other files than those that
are reached there from the file it starts with, so it is their number that bounds how deep it goes.
How many files there are is another matter: a provider may give a text for every path.
-/

namespace ShaderAssembly

namespace Include

/-- A file has an include line that names another file. -/
def Includes (contents : Contents) (includer included : SourcePath) : Prop :=
  ∃ text, contents includer = .ok text ∧ ∃ line ∈ Text.lines text.toList, ∃ target,
    Directive.ofLine line = .target target ∧ includer.resolveInclude target = included

/-- A file can be reached from another one by following include lines. -/
def Reached (contents : Contents) : SourcePath → SourcePath → Prop :=
  Relation.ReflTransGen (Includes contents)

variable {contents : Contents}

/-- Include lines name rooted files. -/
theorem Includes.isRooted {includer included : SourcePath}
    (h : Includes contents includer included) : included.IsRooted := by
  obtain ⟨-, -, -, -, target, -, rfl⟩ := h
  exact SourcePath.isRooted_resolveInclude includer target

/-- From a rooted file only rooted files are reached. -/
theorem Reached.isRooted {start file : SourcePath} (h : Reached contents start file)
    (hstart : start.IsRooted) : file.IsRooted := by
  induction h with
  | refl => exact hstart
  | tail _ hstep _ => exact hstep.isRooted

/-- All files of a chain of include lines are reached from the first one. -/
theorem reached_of_mem_chain {first : SourcePath} {rest : List SourcePath}
    (hchain : (first :: rest).IsChain (Includes contents)) :
    ∀ file ∈ first :: rest, Reached contents first file := by
  induction rest generalizing first with
  | nil =>
    intro file hfile
    obtain rfl := List.mem_singleton.mp hfile
    exact .refl
  | cons next more ih =>
    rw [List.isChain_cons_cons] at hchain
    intro file hfile
    rcases List.mem_cons.mp hfile with rfl | hmore
    · exact .refl
    · exact .head hchain.1 (ih hchain.2 file hmore)

/-- What the last file of a chain includes continues it. -/
theorem isChain_concat {files : List SourcePath} {last next : SourcePath}
    (hchain : files.IsChain (Includes contents)) (hlast : files.getLast? = some last)
    (hnext : Includes contents last next) : (files ++ [next]).IsChain (Includes contents) := by
  refine List.isChain_append.mpr ⟨hchain, List.isChain_singleton _, ?_⟩
  intro file hfile other hother
  rw [hlast, Option.mem_some_iff] at hfile
  rw [List.head?_cons, Option.mem_some_iff] at hother
  rwa [← hfile, ← hother]

/-- Different files, each of which includes the next one, and all of which can be read. -/
structure OpenedChain (contents : Contents) (files : List SourcePath) : Prop where
  /-- No file comes twice. -/
  nodup : files.Nodup
  /-- Every file includes the next one. -/
  steps : files.IsChain (Includes contents)
  /-- All files are rooted and can be read. -/
  readable : ∀ path ∈ files, path.IsRooted ∧ ∃ text, contents path = .ok text

/-- What the last file names joins the chain if it can be read. -/
theorem OpenedChain.concat {files : List SourcePath} (h : OpenedChain contents files)
    {path : SourcePath} (hnew : path ∉ files)
    (hsteps : (files ++ [path]).IsChain (Includes contents)) (hrooted : path.IsRooted)
    {text : String} (hread : contents path = .ok text) :
    OpenedChain contents (files ++ [path]) := by
  refine ⟨List.nodup_append.mpr ⟨h.nodup, by simp, ?_⟩, hsteps, ?_⟩
  · intro other hother last hlast heq
    rw [List.mem_singleton] at hlast
    exact hnew (by rwa [← hlast, ← heq])
  · intro other hother
    rcases List.mem_append.mp hother with hopen | hlast
    · exact h.readable other hopen
    · obtain rfl := List.mem_singleton.mp hlast
      exact ⟨hrooted, text, hread⟩

end Include

open Include (Reached OpenedChain)

namespace Provider

variable {σ : Type}

/-- A provider whose files do not change, with finitely many of them reached from any one, which
its limit counts. -/
structure ServesFinitely (provider : Provider σ) (state : σ) (contents : Contents) : Prop where
  /-- The files do not change. -/
  serves : provider.Serves state contents
  /-- The files that can be read among those that are reached from a file are finitely many, no
  more than the limit says. -/
  counted : ∀ start : SourcePath, start.IsRooted → ∃ files : List SourcePath,
    (∀ path, Reached contents start path → ∀ text, contents path = .ok text → path ∈ files) ∧
      provider.Counts state files.length

namespace ServesFinitely

variable {provider : Provider σ} {state : σ} {contents : Contents}

/-- Reading files does not change how many there are. -/
theorem later (h : provider.ServesFinitely state contents) {after : σ}
    (hafter : provider.Reaches state after) : provider.ServesFinitely after contents where
  serves := h.serves.later hafter
  counted start hstart := by
    obtain ⟨files, hfiles, hlimit⟩ := h.counted start hstart
    exact ⟨files, hfiles, hlimit.later hafter⟩

/-- The limit counts the files of a chain of include lines. -/
theorem length_le_fileLimit (h : provider.ServesFinitely state contents)
    {files : List SourcePath} (hfiles : OpenedChain contents files) :
    files.length ≤ provider.fileLimit state := by
  cases hcases : files with
  | nil => exact Nat.zero_le _
  | cons first rest =>
    rw [hcases] at hfiles
    have hfirst : first ∈ first :: rest := List.mem_cons_self ..
    obtain ⟨all, hall, hlimit⟩ := h.counted first (hfiles.readable first hfirst).1
    have hsubset : first :: rest ⊆ all := by
      intro path hpath
      obtain ⟨-, text, htext⟩ := hfiles.readable path hpath
      exact hall path (Include.reached_of_mem_chain hfiles.steps path hpath) text htext
    have hfew : (first :: rest).length ≤ all.length :=
      (hfiles.nodup.subperm hsubset).length_le
    exact Nat.le_trans hfew (hlimit state .start)

end ServesFinitely

end Provider

/-- Files in memory without scheduled writes do not change. -/
theorem MemorySources.servesFinitely {sources : MemorySources} (h : sources.scheduled = []) :
    provider.ServesFinitely sources sources.contents where
  serves := serves h
  counted start hstart := by
    refine ⟨sources.files.keys, fun path hpath text htext => ?_, counts h ?_⟩
    · exact mem_keys_of_contents (hpath.isRooted hstart) htext
    · rw [OrderedMap.keys, List.length_map]
      exact Nat.le_refl _

end ShaderAssembly
