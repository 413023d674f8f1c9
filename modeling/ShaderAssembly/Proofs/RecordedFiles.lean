import ShaderAssembly.Proofs.CompileRules

/-!
# A compile depends on the recorded files only

What the rules of compiling allow over some contents they allow over any contents that agree on
the recorded files, as every file that is read is recorded. So two compiles over sources that agree
on the files recorded by the first give the same result, whatever stands in other files.
-/

namespace ShaderAssembly

open Include (Expands Fragment)

/-- Whether two contents have the same at some paths. -/
def Contents.AgreeOn (paths : List SourcePath) (contents other : Contents) : Prop :=
  ∀ path ∈ paths, other path = contents path

/-- Contents that agree on paths agree on some of them. -/
theorem Contents.AgreeOn.mono {paths fewer : List SourcePath} {contents other : Contents}
    (h : contents.AgreeOn paths other) (hfewer : fewer ⊆ paths) : contents.AgreeOn fewer other :=
  fun path hpath => h path (hfewer hpath)

variable {contents other : Contents}

/-- Lines expand to the same over contents that agree on the files that are read. -/
theorem Include.Expands.of_agreeOn {openFiles : List SourcePath} {file : SourcePath}
    {number : Nat} {lines : List (List Char)} {fragment : Fragment}
    (h : Expands contents openFiles file number lines fragment)
    (hagree : contents.AgreeOn (fragment.contents.map FileText.path) other) :
    Expands other openFiles file number lines fragment := by
  induction h with
  | done => exact .done
  | keep hline _ ih => exact .keep hline (ih hagree)
  | @replace openFiles file number line rest target text inner others hline hnew hread _ _ ihinner
      ihrest =>
    rw [Fragment.contents_ofInclude_append] at hagree
    have hsame : other (file.resolveInclude target) = .ok text := by
      rw [← hread]
      exact hagree _ (by simp)
    have hinner := ihinner (hagree.mono fun path hpath => by
      simp only [List.map_append, List.map_cons, List.cons_append, List.mem_cons, List.mem_append]
      exact .inr (.inl hpath))
    have hrest := ihrest (hagree.mono fun path hpath => by
      simp only [List.map_append, List.mem_append]
      exact .inr hpath)
    exact .replace hline hnew hsame hinner hrest

namespace Compiler

variable {path : SourcePath} {graph after : IncludeGraph}

/-- A block expands to the same over contents that agree on the files recorded after it. -/
theorem BlockExpands.of_agreeOn {block expanded : CodeBlock}
    (h : BlockExpands contents path graph block expanded after) (hgraph : graph.IsRooted)
    (hagree : contents.AgreeOn after.paths other) :
    BlockExpands other path graph block expanded after := by
  cases h with
  | @intro fragment h =>
    have hspec := recordExpansion_spec hgraph fragment.expansion fun read hread =>
      (h.contents_of_mem read hread).2.1
    exact .intro (h.of_agreeOn (hagree.mono hspec.2.2))

/-- The shared block expands to the same over contents that agree on the files recorded after
it. -/
theorem SharedExpands.of_agreeOn {shared? expanded? : Option CodeBlock}
    (h : SharedExpands contents path graph shared? expanded? after) (hgraph : graph.IsRooted)
    (hagree : contents.AgreeOn after.paths other) :
    SharedExpands other path graph shared? expanded? after := by
  cases h with
  | none => exact .none
  | some h => exact .some (h.of_agreeOn hgraph hagree)

/-- Named blocks expand to the same over contents that agree on the files recorded after them. -/
theorem EntriesExpand.of_agreeOn {entries expanded : List (String × CodeBlock)}
    (h : EntriesExpand contents path graph entries expanded after) (hgraph : graph.IsRooted)
    (hagree : contents.AgreeOn after.paths other) :
    EntriesExpand other path graph entries expanded after := by
  induction h with
  | nil => exact .nil
  | cons hblock hrest ih =>
    have hmiddle := hblock.extends hgraph
    have hlast := hrest.extends hmiddle.1
    exact .cons (hblock.of_agreeOn hgraph (hagree.mono hlast.2)) (ih hmiddle.1 hagree)

/-- A description is read as the same over contents that agree on the recorded files. -/
theorem DescriptionParses.of_agreeOn {parsed : ParsedShader}
    (h : DescriptionParses contents path parsed) (hpath : path.IsRooted)
    (hagree : contents.AgreeOn parsed.dependencies.paths other) :
    DescriptionParses other path parsed := by
  cases h with
  | @intro text shader shared? blocks middle graph hread hparse hshared hblocks =>
    obtain ⟨hstart, hself⟩ := addTexts_ofRoot_spec hpath text
    have hmiddle := hshared.extends hstart
    have hlast := hblocks.extends hmiddle.1
    have hsame : other path = .ok text := by
      rw [← hread]
      exact hagree path (hlast.2 (hmiddle.2 hself))
    exact .intro hsame hparse (hshared.of_agreeOn hstart (hagree.mono hlast.2))
      (hblocks.of_agreeOn hmiddle.1 hagree)

/-- An effect file is read as the same over contents that agree on the recorded files. -/
theorem EffectParses.of_agreeOn {parsed : ParsedShader}
    (h : EffectParses contents path parsed) (hpath : path.IsRooted)
    (hagree : contents.AgreeOn parsed.dependencies.paths other) :
    EffectParses other path parsed := by
  cases h with
  | @intro text inner shader hread hexpands hparse =>
    have hpaths := recordExpansion_ofRoot_spec hpath text fun read hread =>
      (hexpands.contents_of_mem read hread).2.1
    have hsame : other path = .ok text := by
      rw [← hread]
      exact hagree path (hpaths (by simp))
    exact .intro hsame (hexpands.of_agreeOn (hagree.mono fun _ hmem =>
      hpaths (List.mem_cons_of_mem _ hmem))) hparse

/-- A file compiles to the same over contents that agree on the recorded files. -/
theorem Compiles.of_agreeOn {settings : Settings} {compilation : Compilation}
    (h : Compiles contents settings path compilation) (hpath : path.IsRooted)
    (hagree : contents.AgreeOn compilation.dependencies.paths other) :
    Compiles other settings path compilation := by
  refine ⟨?_, h.links⟩
  have hparses := h.parses
  unfold Parses at hparses ⊢
  cases hdialect : Dialect.ofPath path with
  | description =>
    rw [hdialect] at hparses
    exact hparses.of_agreeOn hpath hagree
  | effect =>
    rw [hdialect] at hparses
    exact hparses.of_agreeOn hpath hagree

variable {σ τ : Type}

/-- A compile that succeeds over some unchanging sources gives the same result over any others
that have the same at every file it recorded, whatever they have elsewhere. Their limit has to
count the recorded files, all of which they can read. -/
theorem compile_eq_of_agreeOn {settings : Settings} {first : Provider σ} {second : Provider τ}
    {state : σ} {start : τ} (hfirst : first.Serves state contents)
    (hsecond : second.Serves start other) {root : String} {compilation : Compilation}
    (hok : (compile ⟨first, settings⟩ root).outcomeFrom state = .ok compilation)
    (hagree : ∀ file ∈ compilation.dependencies.contents, other file.path = contents file.path)
    (hcounts : second.Counts start compilation.dependencies.contents.length) :
    (compile ⟨second, settings⟩ root).outcomeFrom start = .ok compilation := by
  have hpaths : contents.AgreeOn compilation.dependencies.paths other := by
    intro path hpath
    obtain ⟨file, hfile, rfl⟩ := List.mem_map.mp hpath
    exact hagree file hfile
  have hlength : compilation.dependencies.paths.length =
      compilation.dependencies.contents.length := List.length_map _
  have hcompiles : Compiles contents settings (.rooted root) compilation :=
    compiles_of_compile (by exact hfirst) hok
  have hother := hcompiles.of_agreeOn (SourcePath.isRooted_rooted root) hpaths
  rw [← hlength] at hcounts
  exact hother.outcomeFrom hsecond hcounts fun _ hmem => hmem

/-- Files that nothing includes may be missing. -/
theorem compile_eq_of_missing_files :
    let text := r"Shader { GLSL A {" ++ "\n#include \"b.glsl\"\n" ++
      r"} Technique T { Pass { Vertex = A Fragment = A } } }"
    let first := MemorySources.ofFiles
      [(⟨"/a.shader"⟩, text), (⟨"/b.glsl"⟩, "x"), (⟨"/c.glsl"⟩, "y")]
    let second := MemorySources.ofFiles [(⟨"/b.glsl"⟩, "x"), (⟨"/a.shader"⟩, text)]
    let outcomeFrom :=
      (compile ⟨MemorySources.provider, .standard⟩ "a.shader").outcomeFrom
    ∃ compilation, outcomeFrom first = .ok compilation ∧ outcomeFrom second = .ok compilation := by
  intro text first second outcomeFrom
  have hfirst : ∃ compilation, outcomeFrom first = .ok compilation := by
    have hsome : (outcomeFrom first).toOption.isSome = true := by decide +kernel
    cases houtcome : outcomeFrom first with
    | error error =>
      rw [houtcome] at hsome
      cases hsome
    | ok compilation => exact ⟨compilation, rfl⟩
  have hrecorded : ∀ compilation ∈ (outcomeFrom first).toOption,
      (∀ file ∈ compilation.dependencies.contents,
          second.contents file.path = first.contents file.path) ∧
        compilation.dependencies.contents.length ≤ second.files.size := by
    decide +kernel
  obtain ⟨compilation, hok⟩ := hfirst
  rw [hok] at hrecorded
  obtain ⟨hagree, hlength⟩ := hrecorded compilation rfl
  exact ⟨compilation, hok, compile_eq_of_agreeOn (MemorySources.serves rfl)
    (MemorySources.serves rfl) hok hagree (MemorySources.counts rfl hlength)⟩

end Compiler

end ShaderAssembly
