import Mathlib.Data.List.Nodup
import ShaderAssembly.Proofs.IndexedShaders
import ShaderAssembly.Proofs.StageCodes

/-!
# Links of shaders whose references are resolved

Linking visits what the passes of a shader bind, in the order of techniques, passes and the
pipeline, and follows the references of each binding: those to blocks as they are written, then the
stream that is read, then the one that is written. The first reference that names nothing is the
error. If there is none, every binding gives one stage.
-/

namespace ShaderAssembly

/-! ### Errors of lists -/

section Failures

variable {ε α β : Type}

/-- The error of an outcome that is one. -/
def failure? : Except ε α → Option ε
  | .ok _ => none
  | .error error => some error

theorem failure?_eq_none_iff {outcome : Except ε α} :
    failure? outcome = none ↔ ∃ value, outcome = .ok value := by
  cases outcome <;> simp [failure?]

theorem failure?_eq_some_iff {outcome : Except ε α} {error : ε} :
    failure? outcome = some error ↔ outcome = .error error := by
  cases outcome <;> simp [failure?]

/-- Changing the value of a success changes no error. -/
@[simp]
theorem failure?_map (outcome : Except ε α) (f : α → β) :
    failure? (outcome.map f) = failure? outcome := by
  cases outcome <;> rfl

/-- If the error of a second computation does not depend on the value of the first one, it is the
error of both where the first one has none. -/
theorem failure?_bind {outcome : Except ε α} {next : α → Except ε β} {later : Option ε}
    (h : ∀ value, failure? (next value) = later) :
    failure? (outcome >>= next) = (failure? outcome).or later := by
  cases outcome with
  | error error => rfl
  | ok value => exact h value

/-- The error for a list is the first error for an item. -/
theorem failure?_mapM (f : α → Except ε β) (items : List α) :
    failure? (items.mapM f) = items.findSome? fun item => failure? (f item) := by
  induction items with
  | nil => rfl
  | cons item rest ih =>
    have hrest : ∀ result, failure? (do return result :: (← rest.mapM f)) =
        failure? (rest.mapM f) := fun _ => failure?_map ..
    rw [List.mapM_cons, failure?_bind hrest, ih, List.findSome?_cons]
    cases failure? (f item) <;> rfl

/-- The first thing that is found in lists is what is found first in the first list that has any. -/
theorem findSome?_flatMap {γ : Type} (f : α → List β) (g : β → Option γ) (items : List α) :
    (items.flatMap f).findSome? g = items.findSome? fun item => (f item).findSome? g := by
  induction items with
  | nil => rfl
  | cons item rest ih =>
    rw [List.flatMap_cons, List.findSome?_append, ih, List.findSome?_cons]
    cases (f item).findSome? g <;> rfl

end Failures

/-! ### References -/

/-- What a stage refers to by a name. -/
inductive StageReference where
  | block (reference : BlockReference)
  | stream (argument : StreamArgument)
  deriving DecidableEq, Repr

namespace StageReference

/-- Whether a shader has what a reference names. -/
def IsResolved (shader : Shader) : StageReference → Prop
  | .block reference => ∃ block ∈ shader.blocks.values, block.name = reference.name
  | .stream argument => ∃ stream ∈ shader.streams.values, stream.name = argument.stream

/-- The error about a reference that names nothing. -/
def error : StageReference → Error
  | .block reference => .unresolvedBlock reference.name reference.position
  | .stream argument => .unresolvedStream argument.stream argument.position

/-- Whether something is found under the name of a reference. -/
def isFound (shader : Shader) : StageReference → Bool
  | .block reference => (shader.blocks.get? reference.name).isSome
  | .stream argument => (shader.streams.get? argument.stream).isSome

/-- The error of following a reference, if it names nothing. -/
def missing? (shader : Shader) (reference : StageReference) : Option Error :=
  if reference.isFound shader then none else some reference.error

variable {shader : Shader} {reference : StageReference}

/-- In an indexed shader, what is found under a name has it. -/
theorem isFound_iff (h : shader.IsIndexed) :
    reference.isFound shader = true ↔ reference.IsResolved shader := by
  cases reference with
  | block reference => exact Option.isSome_iff_exists.trans h.blocks.exists_get?_iff
  | stream argument => exact Option.isSome_iff_exists.trans h.streams.exists_get?_iff

theorem missing?_eq_none_iff (h : shader.IsIndexed) :
    reference.missing? shader = none ↔ reference.IsResolved shader := by
  simp [missing?, isFound_iff h]

theorem missing?_eq_some_iff (h : shader.IsIndexed) {error : Error} :
    reference.missing? shader = some error ↔
      ¬ reference.IsResolved shader ∧ reference.error = error := by
  simp [missing?, isFound_iff h]

/-- Following a reference to a block. -/
theorem missing?_block (shader : Shader) (reference : BlockReference) :
    (block reference).missing? shader = failure? (Linking.resolveBlock shader reference) := by
  cases hfound : shader.blocks.get? reference.name <;>
    simp [missing?, isFound, Linking.resolveBlock, failure?, error, hfound]

/-- Following a reference to a stream. -/
theorem missing?_stream (shader : Shader) (argument : StreamArgument) :
    (stream argument).missing? shader = failure? (Linking.resolveStream shader argument) := by
  cases hfound : shader.streams.get? argument.stream <;>
    simp [missing?, isFound, Linking.resolveStream, failure?, error, hfound]

end StageReference

/-- What a stage refers to: blocks as they are written, then the stream it reads, then the one it
writes. -/
def BoundStage.references (binding : BoundStage) : List StageReference :=
  binding.blocks.map .block ++ binding.interface?.toList.flatMap fun interface =>
    [.stream interface.input, .stream interface.output]

/-! ### Visits -/

namespace Shader

/-- Whether a shader binds something under a key: its technique has a pass with the index, which
binds it to the stage. -/
def Binds (shader : Shader) (key : StageKey) (binding : BoundStage) : Prop :=
  ∃ technique ∈ shader.techniques.values, technique.name = key.technique ∧
    ∃ pass, technique.passes[key.pass]? = some pass ∧ (key.slot, binding) ∈ pass.stages.entries

/-- Whether one key comes before another one in the order of techniques, passes and the pipeline. -/
def Precedes (shader : Shader) (earlier later : StageKey) : Prop :=
  shader.techniques.keys.idxOf earlier.technique < shader.techniques.keys.idxOf later.technique ∨
    earlier.technique = later.technique ∧
      (earlier.pass < later.pass ∨
        earlier.pass = later.pass ∧ Stage.all.idxOf earlier.slot < Stage.all.idxOf later.slot)

/-- Whether a list visits all that a shader binds in the order of techniques, passes and the
pipeline. -/
structure Visits (shader : Shader) (visits : List (StageKey × BoundStage)) : Prop where
  /-- All that is bound is visited, and nothing else. -/
  mem_iff : ∀ key binding, (key, binding) ∈ visits ↔ shader.Binds key binding
  /-- The order. -/
  ordered : visits.Pairwise fun earlier later => shader.Precedes earlier.1 later.1

variable {shader : Shader} {visits : List (StageKey × BoundStage)}

/-- No key comes before itself. -/
theorem not_precedes_self (key : StageKey) : ¬ shader.Precedes key key := by
  simp [Precedes]

/-- Nothing is visited twice. -/
theorem Visits.nodup (h : shader.Visits visits) : (visits.map Prod.fst).Nodup := by
  refine List.pairwise_map.mpr (h.ordered.imp fun {earlier later} hbefore heq => ?_)
  rw [heq] at hbefore
  exact not_precedes_self _ hbefore

end Shader

/-- In a list without repetitions, what stands earlier has the smaller index. -/
theorem pairwise_idxOf_lt {α : Type} [DecidableEq α] {items : List α} (h : items.Nodup) :
    items.Pairwise fun earlier later => items.idxOf earlier < items.idxOf later := by
  rw [List.pairwise_iff_getElem]
  intro i j hi hj hlt
  rw [h.idxOf_getElem, h.idxOf_getElem]
  exact hlt

namespace Linking

variable {settings : Settings} {shader : Shader}

/-- What is linked is what is bound. -/
theorem mem_boundStages_iff (h : shader.IsIndexed) {key : StageKey} {binding : BoundStage} :
    (key, binding) ∈ boundStages shader ↔ shader.Binds key binding := by
  obtain ⟨name, index, slot⟩ := key
  simp only [boundStages, Shader.Binds, List.mem_flatMap, List.mem_filterMap,
    Option.map_eq_some_iff, Prod.mk.injEq, StageKey.mk.injEq, Prod.exists,
    List.mem_zipIdx_iff_getElem?]
  constructor
  · rintro ⟨technique, htechnique, pass, _, hpass, _, -, _, hfound, ⟨hname, rfl, rfl⟩, rfl⟩
    exact ⟨technique, htechnique, hname, pass, hpass, (OrderedMap.mem_of_get? hfound).1⟩
  · rintro ⟨technique, htechnique, hname, pass, hpass, hentry⟩
    have honce := h.bindings technique htechnique pass (List.mem_of_getElem? hpass)
    exact ⟨technique, htechnique, pass, index, hpass, slot, slot.mem_all, binding,
      (OrderedMap.get?_eq_some_iff honce).mpr hentry, ⟨hname, rfl, rfl⟩, rfl⟩

/-- What a pass binds is listed under its technique and its index. -/
theorem key_of_mem_filterMap {name : String} {pass : Pass} {index : Nat} {slots : List Stage}
    {bound : StageKey × BoundStage}
    (h : bound ∈ slots.filterMap fun slot => (pass.stages.get? slot).map fun binding =>
      (⟨name, index, slot⟩, binding)) : bound.1.technique = name ∧ bound.1.pass = index := by
  obtain ⟨slot, -, h⟩ := List.mem_filterMap.mp h
  obtain ⟨binding, -, rfl⟩ := Option.map_eq_some_iff.mp h
  exact ⟨rfl, rfl⟩

/-- What is bound is listed in order. -/
theorem pairwise_boundStages (h : shader.IsIndexed) :
    (boundStages shader).Pairwise fun earlier later => shader.Precedes earlier.1 later.1 := by
  have htechniques : shader.techniques.values.Pairwise fun earlier later =>
      shader.techniques.keys.idxOf earlier.name < shader.techniques.keys.idxOf later.name := by
    have hnames := pairwise_idxOf_lt h.techniques.nodup
    nth_rewrite 3 [← h.techniques.map_values] at hnames
    rwa [List.pairwise_map] at hnames
  have hpasses : ∀ passes : List Pass,
      passes.zipIdx.Pairwise fun earlier later => earlier.2 < later.2 := fun passes => by
    rw [← List.pairwise_map, List.zipIdx_map_snd]
    exact List.pairwise_lt_range'
  have hslots : Stage.all.Pairwise fun earlier later =>
      Stage.all.idxOf earlier < Stage.all.idxOf later := by decide
  -- Each level of the traversal decides between what its items list; ties go one level down.
  refine List.pairwise_flatMap.mpr ⟨fun technique _ => ?_, htechniques.imp fun hlt => ?_⟩
  · refine List.pairwise_flatMap.mpr ⟨fun pass _ => ?_, (hpasses _).imp fun hlt => ?_⟩
    · refine List.pairwise_filterMap.mpr (hslots.imp fun hlt => ?_)
      rintro _ hearlier _ hlater
      obtain ⟨_, -, rfl⟩ := Option.map_eq_some_iff.mp hearlier
      obtain ⟨_, -, rfl⟩ := Option.map_eq_some_iff.mp hlater
      exact .inr ⟨rfl, .inr ⟨rfl, hlt⟩⟩
    · intro earlier hearlier later hlater
      obtain ⟨htechnique, hpass⟩ := key_of_mem_filterMap hearlier
      obtain ⟨htechnique', hpass'⟩ := key_of_mem_filterMap hlater
      refine .inr ⟨htechnique.trans htechnique'.symm, .inl ?_⟩
      rwa [hpass, hpass']
  · intro earlier hearlier later hlater
    obtain ⟨_, -, hearlier⟩ := List.mem_flatMap.mp hearlier
    obtain ⟨_, -, hlater⟩ := List.mem_flatMap.mp hlater
    refine .inl ?_
    rwa [(key_of_mem_filterMap hearlier).1, (key_of_mem_filterMap hlater).1]

/-- The stages that are linked are those that are bound, in order. -/
theorem visits_boundStages (h : shader.IsIndexed) : shader.Visits (boundStages shader) :=
  ⟨fun _ _ => mem_boundStages_iff h, pairwise_boundStages h⟩

/-- The lines that declare the streams of a stage are there unless one of the streams is not. -/
theorem failure?_interfaceLines (shader : Shader) (interface : StageStreams) :
    failure? (interfaceLines shader interface) =
      ((StageReference.stream interface.input).missing? shader).or
        ((StageReference.stream interface.output).missing? shader) := by
  rw [StageReference.missing?_stream, StageReference.missing?_stream]
  exact failure?_bind fun _ => failure?_map ..

/-- The parts of a stage are there unless a reference names nothing. -/
theorem failure?_stageParts (shader : Shader) (binding : BoundStage) :
    failure? (stageParts shader binding) =
      binding.references.findSome? (StageReference.missing? shader) := by
  have hblocks : failure? (binding.blocks.mapM (resolveBlock shader)) =
      (binding.blocks.map StageReference.block).findSome? (StageReference.missing? shader) := by
    rw [failure?_mapM, List.findSome?_map]
    exact congrArg (binding.blocks.findSome? ·)
      (funext fun reference => (StageReference.missing?_block shader reference).symm)
  rw [BoundStage.references, List.findSome?_append, ← hblocks]
  cases hinterface : binding.interface? with
  | none =>
    refine failure?_bind fun referenced => ?_
    rw [hinterface]
    rfl
  | some interface =>
    refine failure?_bind fun referenced => ?_
    rw [hinterface]
    refine (failure?_map ..).trans ((failure?_interfaceLines shader interface).trans ?_)
    show _ = [StageReference.stream interface.input, .stream interface.output].findSome? _
    rw [List.findSome?_cons, List.findSome?_singleton]
    cases (StageReference.stream interface.input).missing? shader <;> rfl

/-- A shader links unless a reference names nothing, and the first one that does is the error. -/
theorem failure?_link (settings : Settings) (shader : Shader) :
    failure? (link settings shader).outcome =
      ((boundStages shader).flatMap fun bound => bound.2.references).findSome?
        (StageReference.missing? shader) := by
  rw [outcome_link, failure?_map, linkedParts, failure?_mapM, findSome?_flatMap]
  exact congrArg ((boundStages shader).findSome? ·) (funext fun bound =>
    (failure?_map ..).trans (failure?_stageParts shader bound.2))

/-- Whether linking follows the references of visits in order: it links all that is visited, unless
a reference names nothing. -/
structure LinksAlong (settings : Settings) (shader : Shader)
    (visits : List (StageKey × BoundStage)) : Prop where
  /-- It succeeds exactly if all references of all bindings of all passes are resolved. -/
  succeeds_iff : (∃ stages, (link settings shader).outcome = .ok stages) ↔
    ∀ technique ∈ shader.techniques.values, ∀ pass ∈ technique.passes,
      ∀ binding ∈ pass.stages.values, ∀ reference ∈ binding.references,
        reference.IsResolved shader
  /-- Then there is one stage for each visit, in order. -/
  stages : ∀ stages, (link settings shader).outcome = .ok stages →
    List.Forall₂ (fun visit entry => entry.1 = visit.1 ∧
      linkStage settings shader visit.2 = .ok entry.2) visits stages ∧
        (stages.map Prod.fst).Nodup
  /-- Otherwise the error is about the first reference that is not resolved. -/
  error : ∀ error, (link settings shader).outcome = .error error →
    ∃ before reference after,
      (visits.flatMap fun visit => visit.2.references) = before ++ reference :: after ∧
        (∀ other ∈ before, other.IsResolved shader) ∧ ¬ reference.IsResolved shader ∧
          error = reference.error

/-- All that an indexed shader binds has its references resolved if all that is visited has. -/
theorem forall_references_iff {visits : List (StageKey × BoundStage)}
    (hvisits : shader.Visits visits) {P : StageReference → Prop} :
    (∀ reference ∈ visits.flatMap fun visit => visit.2.references, P reference) ↔
      ∀ technique ∈ shader.techniques.values, ∀ pass ∈ technique.passes,
        ∀ binding ∈ pass.stages.values, ∀ reference ∈ binding.references, P reference := by
  constructor
  · intro h technique htechnique pass hpass binding hbinding reference hreference
    obtain ⟨index, hindex⟩ := List.mem_iff_getElem?.mp hpass
    obtain ⟨⟨slot, _⟩, hentry, rfl⟩ := List.mem_map.mp hbinding
    have hvisit := (hvisits.mem_iff ⟨technique.name, index, slot⟩ _).mpr
      ⟨technique, htechnique, rfl, pass, hindex, hentry⟩
    exact h reference (List.mem_flatMap.mpr ⟨_, hvisit, hreference⟩)
  · intro h reference hreference
    obtain ⟨⟨key, binding⟩, hvisit, hreference⟩ := List.mem_flatMap.mp hreference
    obtain ⟨technique, htechnique, -, pass, hpass, hentry⟩ :=
      (hvisits.mem_iff key binding).mp hvisit
    exact h technique htechnique pass (List.mem_of_getElem? hpass) binding
      (List.mem_map.mpr ⟨_, hentry, rfl⟩) reference hreference

/-- An indexed shader links along what it binds. -/
theorem linksAlong_boundStages (h : shader.IsIndexed) (settings : Settings) :
    LinksAlong settings shader (boundStages shader) := by
  have hvisits := visits_boundStages h
  refine ⟨?_, fun stages hstages => ?_, fun error herror => ?_⟩
  · rw [← failure?_eq_none_iff, failure?_link, List.findSome?_eq_none_iff,
      ← forall_references_iff hvisits]
    exact forall₂_congr fun reference _ => StageReference.missing?_eq_none_iff h
  · exact ⟨forall₂_of_link hstages, keys_of_link hstages ▸ hvisits.nodup⟩
  · rw [← failure?_eq_some_iff, failure?_link] at herror
    obtain ⟨before, reference, after, hsplit, hmissing, hbefore⟩ :=
      List.findSome?_eq_some_iff.mp herror
    obtain ⟨hunresolved, rfl⟩ := (StageReference.missing?_eq_some_iff h).mp hmissing
    exact ⟨before, reference, after, hsplit, fun other hother =>
      (StageReference.missing?_eq_none_iff h).mp (hbefore other hother), hunresolved, rfl⟩

/-- A shader that has been read, from any tokens of a description or from an effect file, is linked
along what its passes bind: in the order of techniques, passes and the pipeline, whatever order the
bindings were written in. -/
theorem linksAlong_of_read {shader : Shader}
    (h : (∃ path tokens, (Description.ofTokens path tokens).outcome = .ok shader) ∨
      ∃ path source, (Effect.parse path source).outcome = .ok shader) (settings : Settings) :
    ∃ visits, shader.Visits visits ∧ LinksAlong settings shader visits := by
  have hindexed : shader.IsIndexed := by
    rcases h with ⟨path, tokens, hread⟩ | ⟨path, source, hread⟩
    · exact Description.isIndexed_of_ofTokens hread
    · exact Effect.isIndexed_of_parse hread
  exact ⟨boundStages shader, visits_boundStages hindexed, linksAlong_boundStages hindexed settings⟩

/-- The fragment stage is written first, and an output stream of it is missing; but the vertex stage
is visited first, and there the missing block comes before the missing input stream. -/
theorem linksAlong_of_read_effect :
    let text := "attribute a { vec3 p : POSITION; };\nGLSLShader A { }\n" ++
      r"technique T { pass p { PixelShader (in a, out gone) = { A };" ++ "\n" ++
      r"VertexShader (in lost, out a) = { A, B }; } }"
    ∃ shader, (Effect.parse ⟨"/a.ogsfx"⟩ (.verbatim text ⟨"/a.ogsfx"⟩ 1)).outcome = .ok shader ∧
      (link .standard shader).outcome = .error (.unresolvedBlock "B" ⟨⟨"/a.ogsfx"⟩, 4, 38⟩) ∧
        ∃ visits, shader.Visits visits ∧ LinksAlong .standard shader visits := by
  intro text
  have hrun : (Effect.parse ⟨"/a.ogsfx"⟩ (.verbatim text ⟨"/a.ogsfx"⟩ 1)).outcome.toOption.any
      (fun shader => failure? (link .standard shader).outcome =
        some (.unresolvedBlock "B" ⟨⟨"/a.ogsfx"⟩, 4, 38⟩)) = true := by decide +kernel
  obtain ⟨shader, hshader, herror⟩ := exists_of_toOption_any hrun
  exact ⟨shader, hshader, failure?_eq_some_iff.mp (of_decide_eq_true herror),
    linksAlong_of_read (.inr ⟨_, _, hshader⟩) .standard⟩

end Linking

end ShaderAssembly
