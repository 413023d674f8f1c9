import ShaderAssembly.Proofs.LinkedCode
import ShaderAssembly.Proofs.LinkedOutlines

/-!
# Stages as lists of code

A shader without uniforms and streams is linked from code alone. Which stages it has, which blocks
they are made of, and, without markers, what their sources are follows from the outlines of its
techniques and from the names and the expanded code of its blocks. Neither positions nor the order
in which the blocks were declared matter, as blocks are only found by their names.
-/

namespace ShaderAssembly

/-! ### Results without their errors -/

/-- Where what is seen of the result for an item follows from something else about the item, what is
seen of the results for a list does. -/
theorem toOption_mapM_map {ε α β γ δ ζ : Type} {f : α → Except ε β} {g : β → ζ} {h : α → δ}
    {k : δ → Option γ} {s : γ → ζ} {items : List α}
    (hitem : ∀ item ∈ items, ((f item).map g).toOption = (k (h item)).map s) :
    ((items.mapM f).map (List.map g)).toOption = ((items.map h).mapM k).map (List.map s) := by
  induction items with
  | nil => rfl
  | cons item items ih =>
    obtain ⟨hfirst, hrest⟩ := List.forall_mem_cons.mp hitem
    have hothers := ih hrest
    rw [List.map_cons, List.mapM_cons, List.mapM_cons]
    cases hresult : f item with
    | error error =>
      rw [hresult] at hfirst
      rw [Option.map_eq_none_iff.mp hfirst.symm]
      rfl
    | ok result =>
      rw [hresult] at hfirst
      obtain ⟨seen, hseen, hsame⟩ := Option.map_eq_some_iff.mp hfirst.symm
      rw [hseen]
      cases hresults : items.mapM f with
      | error error =>
        rw [hresults] at hothers
        have hnone := Option.map_eq_none_iff.mp hothers.symm
        simp [hnone, Except.toOption, Except.map, bind, Except.bind]
      | ok results =>
        rw [hresults] at hothers
        obtain ⟨others, hothers, hsameOthers⟩ := Option.map_eq_some_iff.mp hothers.symm
        simp [hothers, hsame, hsameOthers, Except.toOption, Except.map, bind, Except.bind, pure,
          Except.pure]

/-- Where a result is seen, one that is seen in the same way is there, too. -/
theorem exists_ok_of_toOption_map {ε α β : Type} {outcome other : Except ε α} {view : α → β}
    {result : α} (h : (other.map view).toOption = (outcome.map view).toOption)
    (hok : outcome = .ok result) : ∃ again, other = .ok again ∧ view again = view result := by
  subst hok
  cases other with
  | error error => cases h
  | ok again => exact ⟨again, rfl, Option.some.inj h⟩

/-! ### Tables in another order -/

namespace OrderedMap

variable {κ α : Type} [DecidableEq κ] {map other : OrderedMap κ α} {key : κ}

/-- Where every key stands once, what stands under it is found. -/
theorem get?_eq_some_iff (hnodup : map.keys.Nodup) {value : α} :
    map.get? key = some value ↔ (key, value) ∈ map.entries := by
  refine ⟨fun h => (mem_of_get? h).1, fun h => ?_⟩
  obtain ⟨found, hfound⟩ := exists_get?_of_mem_keys (List.mem_map_of_mem h : key ∈ map.keys)
  have hsame := List.inj_on_of_nodup_map hnodup (mem_of_get? hfound).1 h rfl
  rw [hfound, (Prod.mk.inj hsame).2]

/-- Where every key stands once, the order of the entries does not matter to what is found. -/
theorem get?_eq_of_perm (h : map.entries.Perm other.entries) (hnodup : other.keys.Nodup) :
    map.get? key = other.get? key := by
  have hkeys : map.keys.Nodup := (h.map Prod.fst).nodup_iff.mpr hnodup
  refine Option.ext fun value => ?_
  rw [get?_eq_some_iff hkeys, get?_eq_some_iff hnodup, h.mem_iff]

end OrderedMap

/-! ### The code of a shader -/

/-- The name of a block and its code with its includes expanded. -/
def CodeBlock.namedCode (block : CodeBlock) : String × String := (block.name, block.expanded.text)

/-- Whether nothing gets into the stages of a shader but code. -/
structure Shader.HasOnlyCode (shader : Shader) : Prop where
  /-- There are no uniforms. -/
  uniforms : shader.uniforms.values = []
  /-- No stage has streams. -/
  interfaces : ∀ technique ∈ shader.techniques.values, ∀ pass ∈ technique.passes,
    ∀ binding ∈ pass.stages.values, binding.interface? = none

/-- Whether the code of two shaders is the same, wherever it stands. -/
structure Shader.HasCodeOf (shader other : Shader) : Prop where
  /-- The shared code. -/
  shared : shader.shared?.map CodeBlock.namedCode = other.shared?.map CodeBlock.namedCode
  /-- The code under each name. -/
  blocks : ∀ name, (shader.blocks.get? name).map CodeBlock.namedCode =
    (other.blocks.get? name).map CodeBlock.namedCode
  /-- The techniques. -/
  techniques : shader.outline.techniques = other.outline.techniques

namespace Linking

variable {shader other : Shader} {settings : Settings}

/-- The codes that the stages of a shader are made of, if all that they refer to are there. -/
def stageCodes (shader : Shader) : Option (List (StageKey × List (String × String))) :=
  shader.outline.boundStages.mapM fun bound =>
    (bound.2.mapM fun name => (shader.blocks.get? name).map CodeBlock.namedCode).map fun codes =>
      (bound.1, (shader.shared?.map CodeBlock.namedCode).toList ++ codes)

/-- Shaders with the same code have stages with the same codes. -/
theorem stageCodes_eq (h : shader.HasCodeOf other) : stageCodes shader = stageCodes other := by
  have hbound : shader.outline.boundStages = other.outline.boundStages := by
    rw [Outline.boundStages, Outline.boundStages, h.techniques]
  rw [stageCodes, stageCodes, hbound, h.shared]
  simp only [h.blocks]

/-- What is seen of the parts of a stage without streams is what is seen of the codes that it refers
to. -/
theorem toOption_stageParts {α : Type} {binding : BoundStage} {view : StageParts → α}
    {seen : List (String × String) → α} (hinterface : binding.interface? = none)
    (hview : ∀ blocks, view ⟨blocks, []⟩ = seen (blocks.map CodeBlock.namedCode)) :
    ((stageParts shader binding).map view).toOption =
      ((binding.blocks.map BlockReference.name).mapM fun name =>
        (shader.blocks.get? name).map CodeBlock.namedCode).map fun codes =>
          seen ((shader.shared?.map CodeBlock.namedCode).toList ++ codes) := by
  have hblocks : ∀ reference ∈ binding.blocks,
      ((resolveBlock shader reference).map CodeBlock.namedCode).toOption =
        ((shader.blocks.get? reference.name).map CodeBlock.namedCode).map id := by
    intro reference _
    unfold resolveBlock
    cases shader.blocks.get? reference.name <;> rfl
  have hcodes := toOption_mapM_map (h := BlockReference.name)
    (k := fun name => (shader.blocks.get? name).map CodeBlock.namedCode) hblocks
  rw [List.map_id_fun, Option.map_id_apply] at hcodes
  rw [← hcodes, stageParts, hinterface]
  cases binding.blocks.mapM (resolveBlock shader) with
  | error error => rfl
  | ok referenced =>
    refine congrArg some ((hview _).trans (congrArg seen ?_))
    rw [List.map_append, Option.toList_map]

/-- What is seen of the stages of a shader that has nothing but code is what is seen of the codes
they are made of. -/
theorem toOption_link {α : Type} (h : shader.HasOnlyCode) {view : StageKey × LinkedStage → α}
    {seen : StageKey × List (String × String) → α}
    (hview : ∀ key blocks, view (key, assemble settings shader blocks []) =
      seen (key, blocks.map CodeBlock.namedCode)) :
    ((link settings shader).outcome.map (List.map view)).toOption =
      (stageCodes shader).map (List.map seen) := by
  have hstage : ∀ bound ∈ boundStages shader,
      (((stageParts shader bound.2).map fun parts => (bound.1, parts)).map fun entry =>
        view (entry.1, entry.2.assemble settings shader)).toOption =
      (((bound.2.blocks.map BlockReference.name).mapM fun name =>
        (shader.blocks.get? name).map CodeBlock.namedCode).map fun codes =>
          (bound.1, (shader.shared?.map CodeBlock.namedCode).toList ++ codes)).map seen := by
    rintro ⟨key, binding⟩ hbound
    obtain ⟨technique, htechnique, pass, hpass, hfound⟩ := exists_of_mem_boundStages hbound
    have hinterface := h.interfaces technique htechnique pass hpass binding
      (OrderedMap.mem_of_get? hfound).2
    have hparts := @toOption_stageParts shader α binding
      (fun parts => view (key, parts.assemble settings shader)) (fun codes => seen (key, codes))
      hinterface (hview key)
    rw [Option.map_map]
    refine Eq.trans ?_ hparts
    cases stageParts shader binding <;> rfl
  rw [outcome_link, stageCodes, ← map_boundStages, ← toOption_mapM_map hstage, linkedParts]
  cases (boundStages shader).mapM fun bound =>
      (stageParts shader bound.2).map fun parts => (bound.1, parts) with
  | error error => rfl
  | ok all => exact congrArg some List.map_map

/-- What is seen of the stages of shaders with the same code is the same, if it is seen of the codes
that the stages are made of. -/
theorem toOption_link_eq {α : Type} (hcode : other.HasCodeOf shader)
    (hshader : shader.HasOnlyCode) (hother : other.HasOnlyCode)
    (view : StageKey × LinkedStage → α) (seen : StageKey × List (String × String) → α)
    (hview : ∀ {shader : Shader}, shader.HasOnlyCode → ∀ key blocks,
      view (key, assemble settings shader blocks []) =
        seen (key, blocks.map CodeBlock.namedCode)) :
    ((link settings other).outcome.map (List.map view)).toOption =
      ((link settings shader).outcome.map (List.map view)).toOption := by
  rw [toOption_link hother (hview hother), toOption_link hshader (hview hshader),
    stageCodes_eq hcode]

/-- If a shader links, one with the same code does, too. The stages have the same keys and are made
of the same blocks, and without markers their sources are the same. -/
theorem exists_link_of_hasCodeOf (hcode : other.HasCodeOf shader) (hshader : shader.HasOnlyCode)
    (hother : other.HasOnlyCode) {stages : LinkedStages}
    (hlink : (link settings shader).outcome = .ok stages) :
    ∃ again, (link settings other).outcome = .ok again ∧
      again.map (fun entry => (entry.1, entry.2.blocks)) =
          stages.map (fun entry => (entry.1, entry.2.blocks)) ∧
        (settings.lineMarkers = .none → again.sources = stages.sources) := by
  have hnames : ∀ blocks : List CodeBlock,
      blocks.map CodeBlock.name = (blocks.map CodeBlock.namedCode).map Prod.fst := fun blocks => by
    rw [List.map_map]
    rfl
  have hcodes : ∀ blocks : List CodeBlock,
      blocks.map (·.expanded.text) = (blocks.map CodeBlock.namedCode).map Prod.snd :=
    fun blocks => by
      rw [List.map_map]
      rfl
  have hblocks : ((link settings other).outcome.map (List.map _)).toOption = _ :=
    toOption_link_eq hcode hshader hother (fun entry => (entry.1, entry.2.blocks))
      (fun entry => (entry.1, entry.2.map Prod.fst))
      fun _ key blocks => congrArg (key, ·) (hnames blocks)
  obtain ⟨again, hagain, hkeys⟩ := exists_ok_of_toOption_map hblocks hlink
  refine ⟨again, hagain, hkeys, fun hmarkers => ?_⟩
  have hsources := toOption_link_eq hcode hshader hother
    (fun entry => (entry.1, entry.2.source, entry.2.blocks))
    (fun entry => (entry.1, plainSource settings (entry.2.map Prod.snd), entry.2.map Prod.fst))
    fun hplain key blocks => by
      dsimp only
      rw [source_assemble hmarkers hplain.uniforms, ← hnames, ← hcodes]
      rfl
  rw [hagain, hlink] at hsources
  exact Option.some.inj hsources

end Linking

end ShaderAssembly
