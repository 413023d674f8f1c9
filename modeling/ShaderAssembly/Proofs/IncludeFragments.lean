import ShaderAssembly.Include.Expansion
import ShaderAssembly.Proofs.LineMaps
import ShaderAssembly.Proofs.TextLines

/-!
# Fragments of expansions

An expansion puts all files out into one text and looks at the end of that text to see whether the
last line of an included file needs a line feed. What a file adds to the text is a fragment: its
lines with their origins, the include lines that were replaced there and the texts that were read
for it. Whether the last line of a fragment needs a line feed can be told from the fragment alone,
provided that the text before it does not end within a line. So fragments can be put together
without a look at what stands before them.
-/

namespace ShaderAssembly.Include

/-- What the expansion of some lines adds to the text that was put out before. -/
structure Fragment where
  /-- The lines of the expanded text. -/
  lines : List SourceLine
  /-- The include lines that were replaced. -/
  edges : List Edge
  /-- The texts that were read, repetitions included. -/
  contents : List FileText
  deriving DecidableEq, Repr

namespace Fragment

/-- Nothing is added for no lines. -/
def empty : Fragment := ⟨[], [], []⟩

/-- An ordinary line is added as it is. -/
def ofLine (text : List Char) (file : SourcePath) (line : Nat) : Fragment :=
  ⟨[⟨text, file, line⟩], [], []⟩

/-- Two fragments, one after the other. -/
def append (left right : Fragment) : Fragment :=
  ⟨left.lines ++ right.lines, left.edges ++ right.edges, left.contents ++ right.contents⟩

instance : Append Fragment := ⟨append⟩

/-- Ends the last of some lines with a line feed. -/
def terminateLast : List SourceLine → List SourceLine
  | [] => []
  | [line] => [{ line with text := Text.terminated line.text }]
  | line :: next :: rest => line :: terminateLast (next :: rest)

/-- What is added for an include line: what the text of the file adds, its last line ended. -/
def ofInclude (edge : Edge) (text : String) (inner : Fragment) : Fragment :=
  ⟨terminateLast inner.lines, edge :: inner.edges, ⟨edge.included, text⟩ :: inner.contents⟩

/-- The texts that are read for an include line come before those that are read after it. -/
theorem contents_ofInclude_append (edge : Edge) (text : String) (inner others : Fragment) :
    (ofInclude edge text inner ++ others).contents =
      ⟨edge.included, text⟩ :: inner.contents ++ others.contents := rfl

/-- The text of a fragment with the origins of its lines. -/
def source (fragment : Fragment) : ExpandedText := .ofLines fragment.lines

/-- Whether the lines of a fragment are those of its text. -/
def HasLines (lines : List SourceLine) : Prop :=
  Text.lines (lines.flatMap SourceLine.text) = lines.map SourceLine.text

/-- The text of a fragment is that of its lines. -/
theorem toList_source_text (fragment : Fragment) :
    fragment.source.text.toList = fragment.lines.flatMap SourceLine.text :=
  String.toList_ofList

/-- Ending the last line changes nothing but its text. -/
theorem mem_terminateLast {lines : List SourceLine} {line : SourceLine}
    (h : line ∈ terminateLast lines) : ∃ other ∈ lines, line.origin = other.origin ∧
      (line.text = other.text ∨ line.text = Text.terminated other.text) := by
  induction lines with
  | nil => simp [terminateLast] at h
  | cons first rest ih =>
    cases rest with
    | nil =>
      obtain rfl := List.mem_singleton.mp h
      exact ⟨first, by simp, rfl, .inr rfl⟩
    | cons next more =>
      rcases List.mem_cons.mp h with rfl | hrest
      · exact ⟨line, by simp, rfl, .inl rfl⟩
      · obtain ⟨other, hother, hline⟩ := ih hrest
        exact ⟨other, List.mem_cons_of_mem _ hother, hline⟩

/-- Ending the last line adds no line. -/
theorem length_terminateLast (lines : List SourceLine) :
    (terminateLast lines).length = lines.length := by
  induction lines with
  | nil => rfl
  | cons first rest ih =>
    cases rest with
    | nil => rfl
    | cons next more => exact congrArg (· + 1) ih

/-- Ending the last line ends the text, and does not change where its lines are cut. -/
theorem terminateLast_text {lines : List SourceLine} (h : HasLines lines) :
    (terminateLast lines).flatMap SourceLine.text =
        Text.ended (lines.flatMap SourceLine.text) ∧ HasLines (terminateLast lines) := by
  induction lines with
  | nil => exact ⟨rfl, rfl⟩
  | cons line rest ih =>
    cases rest with
    | nil =>
      have hline : Text.lines line.text = [line.text] := by simpa [HasLines] using h
      have hne : line.text ≠ [] := Text.ne_nil_of_mem_lines (by rw [hline]; simp)
      constructor
      · simp [terminateLast, Text.ended, hne]
      · simpa [HasLines, terminateLast] using Text.lines_terminated hline
    | cons next more =>
      rw [HasLines, List.flatMap_cons, List.map_cons] at h
      obtain ⟨other, htext, hline, hother, hends⟩ := Text.lines_eq_cons h
      obtain rfl := List.append_cancel_left htext
      have hne : (next :: more).flatMap SourceLine.text ≠ [] := by
        intro hnil
        rw [hnil] at hother
        simp at hother
      obtain ⟨hended, hmore⟩ := ih hother
      rw [terminateLast, HasLines, List.flatMap_cons, List.flatMap_cons, Text.ended_append hne,
        Text.lines_append (hends.resolve_left hne), hline, List.map_cons, hended]
      rw [HasLines, hended] at hmore
      exact ⟨rfl, by rw [hmore, List.singleton_append]⟩

/-- The origins of lines are recorded in the same way when the last one is ended. -/
theorem recordLines_terminateLast (map : LineMap) (number : Nat) (lines : List SourceLine) :
    ExpandedText.recordLines map number (terminateLast lines) =
      ExpandedText.recordLines map number lines := by
  induction lines generalizing map number with
  | nil => rfl
  | cons first rest ih =>
    cases rest with
    | nil => rfl
    | cons next more => exact ih _ _

end Fragment

namespace Expansion

/-- What was put out after a fragment has been added. -/
def extend (out : Expansion) (fragment : Fragment) : Expansion where
  text := out.text ++ fragment.lines.flatMap SourceLine.text
  map := ExpandedText.recordLines out.map (out.count + 1) fragment.lines
  count := out.count + fragment.lines.length
  edges := out.edges ++ fragment.edges
  contents := out.contents ++ fragment.contents

theorem extend_empty (out : Expansion) : out.extend .empty = out := by
  simp [extend, Fragment.empty, ExpandedText.recordLines]

/-- Putting out a line adds it as a fragment. -/
theorem pushLine_eq_extend (out : Expansion) (line : List Char) (file : SourcePath)
    (number : Nat) : out.pushLine line file number = out.extend (.ofLine line file number) := by
  simp [pushLine, extend, Fragment.ofLine, ExpandedText.recordLines]

/-- Two fragments are added one after the other. -/
theorem extend_append (out : Expansion) (first others : Fragment) :
    out.extend (first ++ others) = (out.extend first).extend others := by
  have hmap : ∀ (map : LineMap) (number : Nat) (lines more : List SourceLine),
      ExpandedText.recordLines map number (lines ++ more) = ExpandedText.recordLines
        (ExpandedText.recordLines map number lines) (number + lines.length) more := by
    intro map number lines more
    induction lines generalizing map number with
    | nil => rfl
    | cons line rest ih =>
      rw [List.cons_append, ExpandedText.recordLines, ih, List.length_cons,
        Nat.add_right_comm number 1]
      rfl
  show extend out (.append first others) = _
  simp [extend, Fragment.append, hmap, Nat.add_assoc, Nat.add_comm 1]

/-- Behind whole lines, ending the last line of everything that was put out is ending that of the
last fragment. -/
theorem terminateLine_extend {out : Expansion} (hout : Text.EndsLine out.text) (edge : Edge)
    (text : String) {inner : Fragment} (hinner : Fragment.HasLines inner.lines) :
    ((out.pushInclude edge text).extend inner).terminateLine =
      out.extend (.ofInclude edge text inner) := by
  have htext := (Fragment.terminateLast_text hinner).1
  simp only [terminateLine, pushInclude, extend, Fragment.ofInclude, hout.ended_append, htext,
    Fragment.recordLines_terminateLast, Fragment.length_terminateLast, List.append_assoc,
    List.singleton_append]

/-- Behind whole lines, a fragment of whole lines leaves whole lines. -/
theorem endsLine_extend {out : Expansion} (hout : Text.EndsLine out.text) {fragment : Fragment}
    (h : Text.EndsLine (fragment.lines.flatMap SourceLine.text)) :
    Text.EndsLine (out.extend fragment).text := hout.append h

/-- What comes behind a first fragment is added after that. -/
theorem map_extend_append {ε : Type} (out : Expansion) (first : Fragment)
    (result : Except ε Fragment) :
    (result.map (first ++ ·)).map out.extend = result.map (out.extend first).extend := by
  cases result with
  | error error => rfl
  | ok others => exact congrArg Except.ok (out.extend_append first others)

end Expansion

namespace Fragment

/-- What has been put out if a fragment is all of it. -/
def expansion (fragment : Fragment) : Expansion := Expansion.empty.extend fragment

variable (fragment : Fragment)

@[simp]
theorem source_expansion : fragment.expansion.source = fragment.source := rfl

@[simp]
theorem count_expansion : fragment.expansion.count = fragment.lines.length := Nat.zero_add _

end Fragment

end ShaderAssembly.Include
