import ShaderAssembly.Proofs.IncludeRuns
import ShaderAssembly.Proofs.ReachedFiles

/-!
# Which files expand

A file expands exactly when every file that can be reached from it can be read and has no malformed
include line, and no cycle can be reached from it. The bound on the depth of a run plays no part in
that: as no file is open twice, a run that can reach finitely many files never gets to it. A cycle
is reported as a walk through the graph of include lines that ends where it starts.
-/

namespace ShaderAssembly.Include

variable {σ : Type} {contents : Contents}

/-- What it takes for a file to expand. -/
structure Expandable (contents : Contents) (root : SourcePath) : Prop where
  /-- Every file that can be reached can be read. -/
  readable : ∀ file, Reached contents root file → ∃ text, contents file = .ok text
  /-- No file that can be reached has a malformed include line. -/
  wellFormed : ∀ file, Reached contents root file → ∀ text, contents file = .ok text →
    ∀ line ∈ Text.lines text.toList, Directive.ofLine line ≠ .malformed
  /-- No file that can be reached can be reached from a file it includes. -/
  acyclic : ∀ file, Reached contents root file →
    ¬ Relation.TransGen (Includes contents) file file

/-- A walk through the include graph from a file back to the same file. -/
structure IncludeCycle (contents : Contents) (chain : List SourcePath) : Prop where
  /-- There is at least one step. -/
  two_le_length : 2 ≤ chain.length
  /-- The walk ends where it starts. -/
  closed : chain.head? = chain.getLast?
  /-- Every file of the walk includes the next one. -/
  steps : chain.IsChain (Includes contents)

/-- What a file needs to expand holds for every file it includes. -/
theorem Expandable.of_includes {includer included : SourcePath}
    (h : Expandable contents includer) (hstep : Includes contents includer included) :
    Expandable contents included where
  readable file hfile := h.readable file (.head hstep hfile)
  wellFormed file hfile := h.wellFormed file (.head hstep hfile)
  acyclic file hfile := h.acyclic file (.head hstep hfile)

/-! ### Files that expand -/

/-- A file is open and expands while all of some files are open. -/
def ExpandsOpen (contents : Contents) (openFiles : List SourcePath) (file : SourcePath) : Prop :=
  file ∈ openFiles ∧ ∃ text expansion, contents file = .ok text ∧
    Expands contents openFiles file 1 (Text.lines text.toList) expansion

/-- In lines that expand no include line is malformed, and every include line names a file that
was not open and that expands once it is. -/
theorem Expands.of_mem_lines {openFiles : List SourcePath} {file : SourcePath} {number : Nat}
    {lines : List (List Char)} {expansion : Fragment}
    (h : Expands contents openFiles file number lines expansion) :
    ∀ line ∈ lines, Directive.ofLine line ≠ .malformed ∧
      ∀ target, Directive.ofLine line = .target target →
        file.resolveInclude target ∉ openFiles ∧
          ExpandsOpen contents (openFiles ++ [file.resolveInclude target])
            (file.resolveInclude target) := by
  induction h with
  | done => simp
  | keep hline _ ih =>
    intro line hmem
    rcases List.mem_cons.mp hmem with rfl | hrest
    · rw [hline]
      exact ⟨nofun, nofun⟩
    · exact ih line hrest
  | @replace openFiles file number first rest target text inner others hline hnew hread hinner _ _
      ihrest =>
    intro line hmem
    rcases List.mem_cons.mp hmem with rfl | hrest
    · rw [hline]
      refine ⟨nofun, fun other hother => ?_⟩
      cases hother
      exact ⟨hnew, by simp, text, inner, hread, hinner⟩
    · exact ihrest line hrest

/-- What an open file that expands includes was not open and expands once it is. -/
theorem ExpandsOpen.of_includes {openFiles : List SourcePath} {includer included : SourcePath}
    (h : ExpandsOpen contents openFiles includer) (hstep : Includes contents includer included) :
    included ∉ openFiles ∧ ExpandsOpen contents (openFiles ++ [included]) included := by
  obtain ⟨-, text, expansion, htext, hexpands⟩ := h
  obtain ⟨other, hother, line, hline, target, htarget, rfl⟩ := hstep
  obtain rfl : text = other := by
    rw [htext] at hother
    exact Except.ok.inj hother
  exact (hexpands.of_mem_lines line hline).2 target htarget

/-- Along a walk from an open file that expands, all files of the walk are open in the end. -/
theorem ExpandsOpen.of_reached {openFiles : List SourcePath} {first last : SourcePath}
    (h : ExpandsOpen contents openFiles first) (hwalk : Reached contents first last) :
    ∃ later, openFiles ⊆ later ∧ ExpandsOpen contents later last := by
  induction hwalk with
  | refl => exact ⟨openFiles, List.Subset.refl _, h⟩
  | tail _ hstep ih =>
    obtain ⟨later, hsubset, hexpands⟩ := ih
    exact ⟨later ++ [_], fun _ hopen => List.mem_append_left _ (hsubset hopen),
      (hexpands.of_includes hstep).2⟩

/-- A file that expands has what it takes. -/
theorem ExpandsOpen.expandable {openFiles : List SourcePath} {root : SourcePath}
    (h : ExpandsOpen contents openFiles root) : Expandable contents root where
  readable file hfile := by
    obtain ⟨later, -, -, text, -, htext, -⟩ := h.of_reached hfile
    exact ⟨text, htext⟩
  wellFormed file hfile text htext line hline := by
    obtain ⟨later, -, -, other, expansion, hother, hexpands⟩ := h.of_reached hfile
    obtain rfl : text = other := by
      rw [htext] at hother
      exact Except.ok.inj hother
    exact (hexpands.of_mem_lines line hline).1
  acyclic file hfile hcycle := by
    obtain ⟨before, -, hbefore⟩ := h.of_reached hfile
    obtain ⟨last, hwalk, hstep⟩ := Relation.TransGen.tail'_iff.mp hcycle
    obtain ⟨later, hsubset, hexpands⟩ := hbefore.of_reached hwalk
    exact (hexpands.of_includes hstep).1 (hsubset hbefore.1)

/-! ### Files that do not expand -/

/-- The chain of open files while some lines of the last one are expanded. -/
structure OpenChain (contents : Contents) (openFiles : List SourcePath) (file : SourcePath)
    (lines : List (List Char)) : Prop where
  /-- Every open file includes the next one. -/
  steps : openFiles.IsChain (Includes contents)
  /-- The file is the last one. -/
  last : openFiles.getLast? = some file
  /-- The lines are lines of the file. -/
  ofFile : ∃ text, contents file = .ok text ∧ ∀ line ∈ lines, line ∈ Text.lines text.toList

namespace OpenChain

variable {openFiles : List SourcePath} {file : SourcePath} {line : List Char}
  {rest : List (List Char)}

/-- The chain stays the same from line to line. -/
theorem tail (h : OpenChain contents openFiles file (line :: rest)) :
    OpenChain contents openFiles file rest := by
  obtain ⟨text, htext, hlines⟩ := h.ofFile
  exact ⟨h.steps, h.last, text, htext, fun other hother =>
    hlines other (List.mem_cons_of_mem _ hother)⟩

/-- The file includes what its include lines name. -/
theorem includes (h : OpenChain contents openFiles file (line :: rest)) {target : String}
    (hline : Directive.ofLine line = .target target) :
    Includes contents file (file.resolveInclude target) := by
  obtain ⟨text, htext, hlines⟩ := h.ofFile
  exact ⟨text, htext, line, hlines line (by simp), target, hline, rfl⟩

/-- An included file continues the chain. -/
theorem concat (h : OpenChain contents openFiles file (line :: rest)) {target text : String}
    (hline : Directive.ofLine line = .target target)
    (hread : contents (file.resolveInclude target) = .ok text) :
    OpenChain contents (openFiles ++ [file.resolveInclude target]) (file.resolveInclude target)
      (Text.lines text.toList) := by
  refine ⟨?_, by simp, text, hread, fun _ hmem => hmem⟩
  exact isChain_concat h.steps h.last (h.includes hline)

/-- An include line that names an open file closes a cycle. -/
theorem cycle (h : OpenChain contents openFiles file (line :: rest)) {target : String}
    (hline : Directive.ofLine line = .target target)
    (hopen : file.resolveInclude target ∈ openFiles) :
    IncludeCycle contents (openFiles.dropWhile (· ≠ file.resolveInclude target) ++
        [file.resolveInclude target]) ∧
      Relation.TransGen (Includes contents) (file.resolveInclude target)
        (file.resolveInclude target) := by
  obtain ⟨before, after, hsplit, hdrop⟩ := Expanding.dropWhile_ne_of_mem hopen
  have hsteps := h.steps
  have hlast := h.last
  rw [hsplit, List.isChain_append] at hsteps
  rw [hsplit, List.getLast?_append_of_ne_nil _ (List.cons_ne_nil _ _)] at hlast
  have hstep := h.includes hline
  constructor
  · rw [hdrop]
    exact ⟨by simp, by rw [List.getLast?_concat, List.cons_append, List.head?_cons],
      isChain_concat hsteps.2.1 hlast hstep⟩
  · exact Relation.TransGen.tail'_iff.mpr
      ⟨file, reached_of_mem_chain hsteps.2.1 file (List.mem_of_getLast? hlast), hstep⟩

end OpenChain

/-- A file whose lines do not expand lacks something it takes. -/
theorem Fails.not_expandable {openFiles : List SourcePath} {file : SourcePath} {number : Nat}
    {lines : List (List Char)} {error : Error}
    (h : Fails contents openFiles file number lines error)
    (hchain : OpenChain contents openFiles file lines) : ¬ Expandable contents file := by
  induction h with
  | malformed hline =>
    intro hexpandable
    obtain ⟨text, htext, hlines⟩ := hchain.ofFile
    exact hexpandable.wellFormed _ .refl text htext _ (hlines _ (by simp)) hline
  | cyclic hline hopen =>
    intro hexpandable
    exact hexpandable.acyclic _ (.single (hchain.includes hline)) (hchain.cycle hline hopen).2
  | unread hline _ hread =>
    intro hexpandable
    obtain ⟨text, htext⟩ := hexpandable.readable _ (.single (hchain.includes hline))
    rw [hread] at htext
    cases htext
  | included hline _ hread _ ih =>
    intro hexpandable
    exact ih (hchain.concat hline hread) (hexpandable.of_includes (hchain.includes hline))
  | afterLine _ _ ih => exact ih hchain.tail
  | afterInclude _ _ _ _ _ ih => exact ih hchain.tail

/-- A cycle that is reported is one of the include graph. -/
theorem Fails.includeCycle {openFiles : List SourcePath} {file : SourcePath} {number : Nat}
    {lines : List (List Char)} {chain : List SourcePath} {position : Position}
    (h : Fails contents openFiles file number lines (.cyclicInclude chain position))
    (hchain : OpenChain contents openFiles file lines) : IncludeCycle contents chain := by
  generalize herror : Error.cyclicInclude chain position = error at h
  induction h with
  | malformed _ => cases herror
  | cyclic hline hopen =>
    cases herror
    exact (hchain.cycle hline hopen).1
  | @unread _ _ _ _ _ _ failure _ _ _ =>
    unfold includeFailure at herror
    split at herror <;> cases herror
  | included hline _ hread _ ih => exact ih (hchain.concat hline hread) herror
  | afterLine _ _ ih => exact ih hchain.tail herror
  | afterInclude _ _ _ _ _ ih => exact ih hchain.tail herror

/-! ### Runs never stop at their bound -/

section Bound

variable {provider : Provider σ} {openFiles : List SourcePath} {limit : Nat}

/-- Lines are expanded without stopping at the bound if no include line among them stops there. -/
theorem expandLines_ne_nestedTooDeeply {depth : Nat} {file : SourcePath} {place : Position}
    (lines : List (List Char))
    (htarget : ∀ line ∈ lines, ∀ target, Directive.ofLine line = .target target →
      ∀ position sources out, provider.Serves sources contents → Text.EndsLine out.text →
        (expandTarget provider depth file target position out).outcomeFrom
          ⟨sources, openFiles⟩ ≠ .error (.nestedTooDeeply place))
    (number : Nat) (sources : σ) (hserves : provider.Serves sources contents) {out : Expansion}
    (hout : out.Takes lines) :
    (expandLines (expandTarget provider depth) file number lines out).outcomeFrom
      ⟨sources, openFiles⟩ ≠ .error (.nestedTooDeeply place) := by
  induction lines generalizing number sources out with
  | nil => exact nofun
  | cons line rest ih =>
    have hrest := ih fun other hother => htarget other (List.mem_cons_of_mem _ hother)
    cases hline : Directive.ofLine line with
    | none =>
      rw [(expandLines_of_none _ _ _ rest _ _ hline).1]
      exact hrest (number + 1) sources hserves (hout.pushLine file number)
    | malformed =>
      rw [(expandLines_of_malformed _ _ _ rest _ _ hline).1]
      exact nofun
    | target target =>
      have hends := hout.endsLine (List.cons_ne_nil _ _)
      have hfirst := htarget line (List.mem_cons_self ..) target hline
        ⟨file, number, Directive.column line⟩ sources out hserves hends
      obtain ⟨⟨middle, hmiddle, hafter⟩, hresult⟩ := expandTarget_follows depth openFiles file
        target ⟨file, number, Directive.column line⟩ sources out hserves hends
      cases houtcome : (expandTarget provider depth file target
          ⟨file, number, Directive.column line⟩ out).outcomeFrom ⟨sources, openFiles⟩ with
      | error error =>
        rw [(expandLines_of_error rest _ hline houtcome).1, ← houtcome]
        exact hfirst
      | ok next =>
        rw [houtcome] at hresult
        have hnext : Text.EndsLine next.text := by
          rcases hresult with ⟨position, hdeep⟩ | ⟨result, hrules, hok⟩
          · cases hdeep
          · obtain ⟨first, rfl, rfl⟩ := exists_of_map_eq_ok hok.symm
            exact hrules.endsLine_extend hends
        rw [(expandLines_of_target rest _ hline houtcome hafter).1]
        exact hrest (number + 1) middle (hserves.later hmiddle) (hout.next hnext)

/-- Include lines expand without stopping at the bound while the files opened so far and those
that may still be opened are together more than any chain of include lines. Which files were open
before does not matter. -/
theorem expandTarget_ne_nestedTooDeeply
    (hlimit : ∀ files, OpenedChain contents files → files.length ≤ limit) (depth : Nat)
    (before openFiles : List SourcePath) (hopen : OpenedChain contents openFiles)
    (includer : SourcePath) (target : String)
    (hsteps : (openFiles ++ [includer.resolveInclude target]).IsChain (Includes contents))
    (hdepth : limit < openFiles.length + depth) (position : Position) (sources : σ)
    (out : Expansion) (hserves : provider.Serves sources contents)
    (hout : Text.EndsLine out.text) (place : Position) :
    (expandTarget provider depth includer target position out).outcomeFrom
      ⟨sources, before ++ openFiles⟩ ≠ .error (.nestedTooDeeply place) := by
  induction depth generalizing openFiles includer target position sources out with
  | zero =>
    have hfew := hlimit openFiles hopen
    omega
  | succ depth ih =>
    by_cases hmem : includer.resolveInclude target ∈ before ++ openFiles
    · rw [(expandTarget_of_open _ _ hmem depth position out).1]
      exact nofun
    · cases hread : contents (includer.resolveInclude target) with
      | error failure =>
        rw [(expandTarget_of_unread hserves hmem hread depth position out).1, includeFailure]
        split <;> exact nofun
      | ok text =>
        have hstart : provider.Reaches sources
            ((provider.read (includer.resolveInclude target)).stateFrom sources) := .read _ .start
        have hmore : OpenedChain contents (openFiles ++ [includer.resolveInclude target]) :=
          hopen.concat (fun hopened => hmem (List.mem_append_right _ hopened)) hsteps
            (SourcePath.isRooted_resolveInclude _ _) hread
        have hdeeper : limit < (openFiles ++ [includer.resolveInclude target]).length + depth := by
          rw [List.length_append, List.length_singleton]
          omega
        have htakes := Expansion.Takes.included hout
          ⟨includer, includer.resolveInclude target, position.line⟩ text
        have hinner := expandLines_ne_nestedTooDeeply (Text.lines text.toList)
          (fun line hline other hother inside sources out hserves hout =>
            ih _ hmore (includer.resolveInclude target) other
              (isChain_concat hsteps List.getLast?_concat
                ⟨text, hread, line, hline, other, hother, rfl⟩) hdeeper
              inside sources out hserves hout)
          1 _ (hserves.later hstart) htakes
        rw [← List.append_assoc] at hinner
        obtain ⟨⟨last, -, hstate⟩, -⟩ := expandLines_follows
          (expandTarget_follows depth (before ++ openFiles ++ [includer.resolveInclude target])
            (includer.resolveInclude target))
          (Text.lines text.toList) 1 _ (hserves.later hstart) htakes
        rw [(expandTarget_of_read hserves hmem hread depth position out rfl hstate).1]
        exact fun hdeep => hinner (eq_error_of_map_eq_error hdeep)

end Bound

/-! ### Files and their graphs -/

section Files

variable {provider : Provider σ} {sources : σ} {path : SourcePath} {text : String}

/-- The chain that the expansion of a file starts with. -/
theorem OpenChain.start (hread : contents path = .ok text) :
    OpenChain contents [path] path (Text.lines text.toList) :=
  ⟨List.isChain_singleton _, rfl, text, hread, fun _ hmem => hmem⟩

/-- A run that can reach finitely many files never stops at its bound. -/
theorem expandText_ne_nestedTooDeeply (h : provider.ServesFinitely sources contents)
    (openFiles : List SourcePath) (file : SourcePath) (text : String) (firstLine : Nat)
    (place : Position) :
    (expandText provider file text firstLine).outcomeFrom ⟨sources, openFiles⟩ ≠
      .error (.nestedTooDeeply place) := by
  rw [(expandText_eq _ file text firstLine ⟨sources, openFiles⟩).1]
  refine expandLines_ne_nestedTooDeeply _ (fun line _ target _ position later out hserves hout =>
    ?_) firstLine sources h.serves (Expansion.takes_empty _)
  have hbound := expandTarget_ne_nestedTooDeeply (fun files hfiles => h.length_le_fileLimit hfiles)
    (provider.fileLimit sources + 1) openFiles [] ⟨List.nodup_nil, List.isChain_nil, nofun⟩ file
    target (List.isChain_singleton _) (by simp) position later out hserves hout place
  rwa [List.append_nil] at hbound

/-- Where finitely many files can be reached, the rules decide what a text expands to. -/
theorem exists_allowed_of_expandText (h : provider.ServesFinitely sources contents)
    (openFiles : List SourcePath) (file : SourcePath) (text : String) (firstLine : Nat) :
    ∃ result, Allowed contents openFiles file firstLine (Text.lines text.toList) result ∧
      (expandText provider file text firstLine).outcomeFrom ⟨sources, openFiles⟩ =
        result.map Fragment.expansion := by
  rcases (expandText_follows openFiles file text firstLine h.serves).2 with
    ⟨position, hdeep⟩ | hrules
  · exact absurd hdeep (expandText_ne_nestedTooDeeply h openFiles file text firstLine position)
  · exact hrules

/-- Expanding a file from which finitely many can be reached, none of which changes, ends by itself:
it never stops at the bound on the depth. It succeeds exactly when all files that can be reached can
be read, none of them has a malformed include line and no cycle can be reached, and a cycle that is
reported is one of the include graph. -/
theorem expandFile_decides_expandable {state : σ} (h : provider.ServesFinitely state contents)
    (root : String) :
    let outcome := (withOpen [] (expandFile provider (.rooted root))).outcomeFrom state
    (∀ position, outcome ≠ .error (.nestedTooDeeply position)) ∧
      ((∃ expansion, outcome = .ok expansion) ↔ Expandable contents (.rooted root)) ∧
      ∀ chain position, outcome = .error (.cyclicInclude chain position) →
        IncludeCycle contents chain := by
  intro outcome
  cases hread : contents (.rooted root) with
  | error failure =>
    have houtcome : outcome = .error (.unreadable (.rooted root) failure) :=
      outcomeFrom_expandFile_of_error h.serves hread []
    rw [houtcome]
    refine ⟨fun _ => nofun, ⟨nofun, fun hexpandable => ?_⟩, fun _ _ => nofun⟩
    obtain ⟨text, htext⟩ := hexpandable.readable _ .refl
    rw [hread] at htext
    cases htext
  | ok text =>
    have hlater := h.later (.read (.rooted root) .start)
    have hbound := expandText_ne_nestedTooDeeply hlater [.rooted root] (.rooted root) text 1
    have houtcome : outcome = ((expandText provider (.rooted root) text 1).outcomeFrom
        ⟨(provider.read (.rooted root)).stateFrom state, [.rooted root]⟩).map fun inner =>
          { inner with contents := ⟨.rooted root, text⟩ :: inner.contents } :=
      outcomeFrom_expandFile_of_ok h.serves hread []
    obtain ⟨result, hrules, hresult⟩ :=
      exists_allowed_of_expandText hlater [.rooted root] (.rooted root) text 1
    rw [hresult] at hbound houtcome
    cases result with
    | error error =>
      have hfails : Fails contents [.rooted root] (.rooted root) 1 (Text.lines text.toList) error :=
        hrules
      have herror : outcome = .error error := houtcome
      rw [herror]
      refine ⟨hbound, ⟨nofun, fun hexpandable => ?_⟩, fun chain position hcycle => ?_⟩
      · exact absurd hexpandable (hfails.not_expandable (.start hread))
      · cases hcycle
        exact hfails.includeCycle (.start hread)
    | ok inner =>
      have hexpands : ExpandsOpen contents [.rooted root] (.rooted root) :=
        ⟨by simp, text, inner, hread, hrules⟩
      rw [houtcome]
      exact ⟨fun _ => nofun, ⟨fun _ => hexpands.expandable, fun _ => ⟨_, rfl⟩⟩, fun _ _ => nofun⟩

/-- Two files in memory that include each other do not expand, and the run shows the cycle. -/
theorem expandFile_shows_cycle :
    let files := MemorySources.ofFiles
      [(⟨"/a.glsl"⟩, "#include \"sub/../b.glsl\"\n"), (⟨"/b.glsl"⟩, "x\n # include </a.glsl>")]
    IncludeCycle files.contents [⟨"/a.glsl"⟩, ⟨"/b.glsl"⟩, ⟨"/a.glsl"⟩] :=
  (expandFile_decides_expandable (MemorySources.servesFinitely rfl) "a.glsl").2.2 _
    ⟨⟨"/b.glsl"⟩, 2, 2⟩ (by decide +kernel)

end Files

end ShaderAssembly.Include
