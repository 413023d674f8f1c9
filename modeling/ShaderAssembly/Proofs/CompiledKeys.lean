import Mathlib.Data.List.Nodup
import Mathlib.Data.List.Perm.Subperm
import ShaderAssembly.Proofs.BlocksInStep
import ShaderAssembly.Proofs.ReadShaders
import ShaderAssembly.Proofs.ResolvedLinks
import ShaderAssembly.Proofs.StageKeys
import ShaderAssembly.Proofs.TextTiles
import ShaderAssembly.Sources.Memory

/-!
# Keys of compiled stages

In both dialects the name of a technique is one token, and a token that is no mark, string or body
is written with letters, digits and underscores. So the key of a compiled stage can be told from
its text, and the stage is found under what is read from that text. The index of a pass is small:
every pass has a stage for vertices, so there are more stages than passes before any one.
-/

namespace ShaderAssembly

/-! ### Names of techniques -/

/-- A token that is an identifier is written as a name. -/
theorem Token.isName_of_mem_scan {rule : Option BlockRule} {file : SourcePath} {text : String}
    {token : Token} (h : token ∈ scan rule file text) (hkind : token.kind = .identifier) :
    Piece.isName token.lexeme.toList = true := by
  obtain ⟨before, spelling, after, -, hspells, -⟩ := exists_spells_of_mem_scan h
  rw [hkind] at hspells
  generalize token.lexeme.toList = name at hspells
  cases hspells with
  | name hname _ => exact hname
  | mark hmark =>
    unfold Piece.punctuation? at hmark
    split at hmark <;> cases hmark

/-- The name of a technique is a token of it. -/
theorem Description.IsTechnique.exists_name {tokens : List Token} {technique : Technique}
    (h : IsTechnique tokens technique) :
    ∃ name ∈ tokens, name.kind = .identifier ∧ technique.name = name.lexeme := by
  obtain ⟨-, hname, -, -, -, -⟩ := h
  exact ⟨_, List.mem_cons_of_mem _ List.mem_cons_self, hname, rfl⟩

/-- The name of a technique is a token of it. -/
theorem Effect.IsTechnique.exists_name {tokens : List Token} {technique : Technique}
    (h : IsTechnique tokens technique) :
    ∃ name ∈ tokens, name.kind = .identifier ∧ technique.name = name.lexeme := by
  obtain ⟨-, hname, -, -, -, -, -⟩ := h
  exact ⟨_, List.mem_cons_of_mem _ List.mem_cons_self, hname, rfl⟩

/-- Whether a technique is as the dialects read them. -/
structure Technique.IsProper (technique : Technique) : Prop where
  /-- It has a name. -/
  named : Piece.isName technique.name.toList = true
  /-- Every pass has a stage for vertices. -/
  vertex : ∀ pass ∈ technique.passes, .vertex ∈ pass.stages.keys

/-- A technique that is named by an identifier of a text is proper if its passes are complete. -/
theorem Technique.isProper_of_name {technique : Technique} {rule : Option BlockRule}
    {file : SourcePath} {text : String} {name : Token} (h : technique.name = name.lexeme)
    (hname : name ∈ Token.scan rule file text) (hkind : name.kind = .identifier)
    (hcomplete : ∀ pass ∈ technique.passes, pass.IsComplete) : technique.IsProper where
  named := by
    rw [h]
    exact Token.isName_of_mem_scan hname hkind
  vertex := fun pass hpass => (hcomplete pass hpass).vertex

/-- Moving positions changes neither names nor stages. -/
theorem Technique.IsProper.mapPosition {technique : Technique} (h : technique.IsProper)
    (f : Position → Position) : (technique.mapPosition f).IsProper where
  named := h.named
  vertex := by
    intro pass hpass
    obtain ⟨before, hbefore, rfl⟩ := List.mem_map.mp hpass
    have hkeys : (before.mapPosition f).stages.keys = before.stages.keys := List.map_map
    rw [hkeys]
    exact h.vertex before hbefore

/-- The techniques of a description are proper. -/
theorem Description.isProper_of_parse {path : SourcePath} {text : String} {shader : Shader}
    (h : (parse path text).outcome = .ok shader) :
    ∀ technique ∈ shader.techniques.values, technique.IsProper := by
  intro technique htechnique
  obtain ⟨items, hitems, hconsistent, hdeclares⟩ := exists_isDescription_of_expectShader
    (ScanState.isStreamOf_scan (some blockRule) path text) h
  rw [hdeclares.values_techniques] at htechnique
  obtain ⟨part, hpart, hwritten⟩ := hitems.exists_isTechnique htechnique
  obtain ⟨name, hname, hkind, hlexeme⟩ := hwritten.exists_name
  exact Technique.isProper_of_name hlexeme (hpart hname) hkind
    (hconsistent.complete technique htechnique)

/-- The techniques of an effect file are proper. -/
theorem Effect.isProper_of_parse {path : SourcePath} {source : ExpandedText} {shader : Shader}
    (h : (parse path source).outcome = .ok shader) :
    ∀ technique ∈ shader.techniques.values, technique.IsProper := by
  obtain ⟨declared, hdeclared, rfl⟩ := parse_eq_ok.mp h
  obtain ⟨items, hitems, hconsistent, -, hdeclares⟩ := exists_isFile_of_expectFile
    (ScanState.isStreamOf_scan (some blockRule) path source.text) hdeclared
  refine OrderedMap.forall_values_mapValues fun technique htechnique => ?_
  rw [hdeclares.values_techniques] at htechnique
  obtain ⟨part, hpart, hwritten⟩ := hitems.exists_isTechnique htechnique
  obtain ⟨name, hname, hkind, hlexeme⟩ := hwritten.exists_name
  have hproper : technique.IsProper :=
    Technique.isProper_of_name hlexeme (hpart hname) hkind
      (hconsistent.complete technique htechnique)
  exact hproper.mapPosition _

/-! ### Keys of what is bound -/

/-- A name is no empty text and has no colon. -/
theorem StageKey.isPlain_of_isName {key : StageKey}
    (h : Piece.isName key.technique.toList = true) : key.IsPlain where
  named := by
    intro hempty
    rw [hempty] at h
    cases h
  unseparated := fun hmem => absurd (Piece.continuesName_of_mem_name h hmem) (by decide)

/-- A stage is found under its key if no key stands twice. -/
theorem LinkedStages.stage?_eq_some {stages : LinkedStages} (hnodup : (stages.map Prod.fst).Nodup)
    {entry : StageKey × LinkedStage} (h : entry ∈ stages) :
    stages.stage? entry.1 = some entry.2 := by
  have honce : (⟨stages⟩ : OrderedMap StageKey LinkedStage).keys.Nodup := hnodup
  exact (OrderedMap.get?_eq_some_iff honce).mpr h

namespace Shader

variable {shader : Shader} {visits : List (StageKey × BoundStage)} {key : StageKey}
  {binding : BoundStage}

/-- A key under which something is bound can be told from its text. -/
theorem Binds.isPlain (h : shader.Binds key binding)
    (hproper : ∀ technique ∈ shader.techniques.values, technique.IsProper) : key.IsPlain := by
  obtain ⟨technique, htechnique, hname, -⟩ := h
  apply StageKey.isPlain_of_isName
  rw [← hname]
  exact (hproper technique htechnique).named

/-- The passes before one that binds something bind something, too: at least their stages for
vertices. -/
theorem Binds.exists_earlier (h : shader.Binds key binding)
    (hproper : ∀ technique ∈ shader.techniques.values, technique.IsProper) {index : Nat}
    (hindex : index ≤ key.pass) :
    ∃ earlier, shader.Binds ⟨key.technique, index, .vertex⟩ earlier := by
  obtain ⟨technique, htechnique, hname, pass, hpass, -⟩ := h
  have hlength := (List.getElem?_eq_some_iff.mp hpass).1
  have hbound : index < technique.passes.length := by omega
  have hvertex := (hproper technique htechnique).vertex _ (List.getElem_mem hbound)
  obtain ⟨⟨slot, earlier⟩, hentry, rfl⟩ := List.mem_map.mp hvertex
  exact ⟨earlier, technique, htechnique, hname, _, List.getElem?_eq_getElem hbound, hentry⟩

/-- There are more visits than passes before the one that is visited. -/
theorem Visits.pass_lt_length (h : shader.Visits visits)
    (hproper : ∀ technique ∈ shader.techniques.values, technique.IsProper)
    (hmem : (key, binding) ∈ visits) : key.pass < visits.length := by
  -- The keys of the vertex stages up to this pass are distinct, and all of them are visited.
  let vertexKeys := (List.range (key.pass + 1)).map fun index =>
    (⟨key.technique, index, .vertex⟩ : StageKey)
  have hnodup : vertexKeys.Nodup := by
    refine List.nodup_range.map fun left right heq => ?_
    exact (StageKey.mk.inj heq).2.1
  have hsubset : vertexKeys ⊆ visits.map Prod.fst := by
    intro other hother
    obtain ⟨index, hindex, rfl⟩ := List.mem_map.mp hother
    have hle : index ≤ key.pass := Nat.le_of_lt_succ (List.mem_range.mp hindex)
    obtain ⟨earlier, hearlier⟩ := ((h.mem_iff key binding).mp hmem).exists_earlier hproper hle
    exact List.mem_map_of_mem ((h.mem_iff _ earlier).mpr hearlier)
  have hlength := (List.subperm_of_subset hnodup hsubset).length_le
  rw [List.length_map, List.length_map, List.length_range] at hlength
  omega

end Shader

/-! ### Keys of what is compiled -/

/-- The techniques of a shader that is read are proper. -/
theorem Shader.IsReadFrom.isProper {path : SourcePath} {shader : Shader}
    (h : shader.IsReadFrom path) : ∀ technique ∈ shader.techniques.values, technique.IsProper := by
  rcases h with ⟨text, htext⟩ | ⟨source, hsource⟩
  · exact Description.isProper_of_parse htext
  · exact Effect.isProper_of_parse hsource

/-- A shader that is read is indexed. -/
theorem Shader.IsReadFrom.isIndexed {path : SourcePath} {shader : Shader}
    (h : shader.IsReadFrom path) : shader.IsIndexed := by
  rcases h with ⟨text, htext⟩ | ⟨source, hsource⟩
  · exact Description.isIndexed_of_ofTokens htext
  · exact Effect.isIndexed_of_parse hsource

/-- Whether stages can be told by their keys. -/
structure LinkedStages.AreKeyed (stages : LinkedStages) : Prop where
  /-- A key can be told from its text. -/
  plain : ∀ entry ∈ stages, entry.1.IsPlain
  /-- The index of a pass is less than the number of stages. -/
  pass_lt : ∀ entry ∈ stages, entry.1.pass < stages.length
  /-- A stage is found under its key. -/
  found : ∀ entry ∈ stages, stages.stage? entry.1 = some entry.2

/-- Linked stages can be told by their keys if what is linked is bound as in a shader that is
read. -/
theorem Linking.areKeyed_of_link {settings : Settings} {shader read : Shader} {path : SourcePath}
    {stages : LinkedStages} (hread : read.IsReadFrom path)
    (hsame : boundStages shader = boundStages read)
    (h : (link settings shader).outcome = .ok stages) : stages.AreKeyed := by
  have hvisits := visits_boundStages hread.isIndexed
  have hkeys : stages.map Prod.fst = (boundStages read).map Prod.fst := by
    rw [keys_of_link h, hsame]
  have hlength := congrArg List.length hkeys
  rw [List.length_map, List.length_map] at hlength
  have hbound : ∀ entry ∈ stages, ∃ binding, (entry.1, binding) ∈ boundStages read := by
    intro entry hentry
    have hkey : entry.1 ∈ stages.map Prod.fst := List.mem_map_of_mem hentry
    rw [hkeys] at hkey
    obtain ⟨⟨key, binding⟩, hmem, hsameKey⟩ := List.mem_map.mp hkey
    exact ⟨binding, hsameKey ▸ hmem⟩
  refine ⟨fun entry hentry => ?_, fun entry hentry => ?_, fun entry hentry => ?_⟩
  · obtain ⟨binding, hmem⟩ := hbound entry hentry
    exact ((hvisits.mem_iff _ binding).mp hmem).isPlain hread.isProper
  · obtain ⟨binding, hmem⟩ := hbound entry hentry
    rw [hlength]
    exact hvisits.pass_lt_length hread.isProper hmem
  · refine LinkedStages.stage?_eq_some ?_ hentry
    rw [hkeys]
    exact hvisits.nodup

/-- Compiled stages can be told by their keys. -/
theorem Compiler.areKeyed_of_compile {σ : Type} {compiler : Compiler σ} {root : String} {state : σ}
    {compilation : Compilation}
    (h : (compiler.compile root).outcomeFrom state = .ok compilation) :
    compilation.stages.AreKeyed := by
  obtain ⟨parsed, hparsed, h⟩ := Action.outcomeFrom_bind_eq_ok.mp h
  obtain ⟨stages, hstages, h⟩ := Action.outcomeFrom_bind_eq_ok.mp h
  cases h
  rw [Action.outcomeFrom_liftM] at hstages
  obtain ⟨read, shared?, blocks, hread, hshader⟩ := exists_read_of_parse hparsed
  have hsame : Linking.boundStages parsed.shader = Linking.boundStages read := by
    rw [hshader]
    rfl
  exact Linking.areKeyed_of_link hread hsame hstages

/-- A key whose technique has a name without a colon is read back from its text, so no two such keys
have one text. What is read from any text is such a key, and is read from its own text as well. The
keys of a compiled shader are such keys, whatever it was compiled from: a stage is found under what
is read from the text of its key. The index of a pass is a machine word, and no list of stages is
longer than that. -/
theorem stage_keys_round_trip {σ : Type} (compiler : Compiler σ) (root : String) (state : σ) :
    (∀ key : StageKey, key.IsPlain → key.pass < StageKey.passLimit →
      StageKey.parse key.text = .ok key) ∧
    (∀ key other : StageKey, key.IsPlain → other.IsPlain → key.text = other.text → key = other) ∧
    (∀ text key, StageKey.parse text = .ok key →
      key.IsPlain ∧ StageKey.parse key.text = .ok key) ∧
    ∀ compilation, (compiler.compile root).outcomeFrom state = .ok compilation →
      ∀ entry ∈ compilation.stages,
        entry.1.IsPlain ∧ entry.1.pass < compilation.stages.length ∧
          compilation.stages.stage? entry.1 = some entry.2 ∧
            (compilation.stages.length ≤ StageKey.passLimit →
              StageKey.parse entry.1.text = .ok entry.1) := by
  refine ⟨fun key hplain hpass => hplain.parse_text hpass,
    fun key other hplain hother => hplain.eq_of_text_eq hother, fun text key hparse => ?_,
    fun compilation h entry hentry => ?_⟩
  · obtain ⟨hplain, hpass⟩ := StageKey.isPlain_of_parse hparse
    exact ⟨hplain, hplain.parse_text hpass⟩
  · have hkeyed := Compiler.areKeyed_of_compile h
    have hpass := hkeyed.pass_lt entry hentry
    exact ⟨hkeyed.plain entry hentry, hpass, hkeyed.found entry hentry, fun hlimit =>
      (hkeyed.plain entry hentry).parse_text (hpass.trans_le hlimit)⟩

/-- Both stages of both passes are found under the texts of their keys. Another text of the last
key is read as well, and its own text is the first one. -/
theorem stage_keys_round_trip_two_passes :
    let files := MemorySources.ofFiles [(⟨"/s.glsl"⟩, r"Shader { GLSL A { int x; }" ++ "\n" ++
      r"Technique Main { Pass { Vertex = A Fragment = A }" ++ "\n" ++
      r"Pass { Fragment = A Vertex = A } } }")]
    let last : StageKey := ⟨"Main", 1, .fragment⟩
    last.IsPlain ∧ StageKey.parse last.text = .ok last ∧
      StageKey.parse "Main:+01:PixelShader" = .ok last ∧ last.text = "Main:1:Fragment" ∧
      ∃ compilation, (Compiler.compile ⟨MemorySources.provider, .standard⟩ "s.glsl").outcomeFrom
          files = .ok compilation ∧
        compilation.stages.map (·.1.text) =
          ["Main:0:Vertex", "Main:0:Fragment", "Main:1:Vertex", "Main:1:Fragment"] ∧
        ∀ entry ∈ compilation.stages, StageKey.parse entry.1.text = .ok entry.1 ∧
          compilation.stages.stage? entry.1 = some entry.2 := by
  intro files last
  obtain ⟨hparse, -, hread, hcompiled⟩ :=
    stage_keys_round_trip ⟨MemorySources.provider, .standard⟩ "s.glsl" files
  have hother : StageKey.parse "Main:+01:PixelShader" = .ok last := by decide +kernel
  have hplain : last.IsPlain := (hread _ last hother).1
  have hrun : ((Compiler.compile ⟨MemorySources.provider, .standard⟩ "s.glsl").outcomeFrom
      files).toOption.any (fun compilation => compilation.stages.map (·.1.text) =
        ["Main:0:Vertex", "Main:0:Fragment", "Main:1:Vertex", "Main:1:Fragment"]) = true := by
    decide +kernel
  obtain ⟨compilation, hcompilation, htexts⟩ := exists_of_toOption_any hrun
  have htexts := of_decide_eq_true htexts
  have hlength := congrArg List.length htexts
  rw [List.length_map] at hlength
  refine ⟨hplain, hparse last hplain (by decide), hother, by decide +kernel, compilation,
    hcompilation, htexts, fun entry hentry => ?_⟩
  obtain ⟨-, -, hfound, hback⟩ := hcompiled compilation hcompilation entry hentry
  exact ⟨hback (by rw [hlength]; decide), hfound⟩

end ShaderAssembly
