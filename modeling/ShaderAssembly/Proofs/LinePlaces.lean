import ShaderAssembly.Position
import ShaderAssembly.Proofs.TextLines

/-!
# Where the lines of a part of a text stand

A part of a text has lines of its own. They are lines of the whole text, too, as many lines
further on as line feeds stand before the part, except that the first one may lack its start and
the last one its end there. The place where the part starts says both how many lines come before
and how much of the first line is missing.
-/

namespace ShaderAssembly

namespace Text

/-- What stands after the last line feed of a text. -/
def openLine : List Char → List Char
  | [] => []
  | c :: rest => if '\n' ∈ c :: rest then openLine rest else c :: rest

/-- Without a line feed all of a text stands after the last one. -/
theorem openLine_of_not_mem {text : List Char} (h : '\n' ∉ text) : openLine text = text := by
  cases text with
  | nil => rfl
  | cons c rest => rw [openLine, if_neg h]

/-- A line feed ends the line that is open. -/
theorem openLine_newline (rest : List Char) : openLine ('\n' :: rest) = openLine rest := by
  rw [openLine, if_pos (List.mem_cons_self ..)]

/-- What stands before a line feed does not count. -/
theorem openLine_cons_of_mem {rest : List Char} (h : '\n' ∈ rest) (c : Char) :
    openLine (c :: rest) = openLine rest := by
  rw [openLine, if_pos (List.mem_cons_of_mem _ h)]

/-- A character that is no line feed goes on with the open line. -/
theorem openLine_concat {c : Char} (hc : c ≠ '\n') (text : List Char) :
    openLine (text ++ [c]) = openLine text ++ [c] := by
  induction text with
  | nil => exact openLine_of_not_mem (by simpa using Ne.symm hc)
  | cons d rest ih =>
    have hmem : '\n' ∈ d :: (rest ++ [c]) ↔ '\n' ∈ d :: rest := by simp [Ne.symm hc]
    rw [List.cons_append]
    by_cases hline : '\n' ∈ d :: rest
    · rw [openLine, if_pos (hmem.mpr hline), openLine, if_pos hline, ih]
    · rw [openLine_of_not_mem (fun h => hline (hmem.mp h)), openLine_of_not_mem hline,
        List.cons_append]

/-- A text before another one moves its lines on, and stands before the first of them in part. -/
theorem getElem?_lines_append {text line : List Char} {index : Nat}
    (h : (lines text)[index]? = some line) (before : List Char) :
    (lines (before ++ text))[before.count '\n' + index]? =
      some ((if index = 0 then openLine before else []) ++ line) := by
  induction before with
  | nil =>
    rw [List.nil_append, List.count_nil, Nat.zero_add, h]
    split <;> rfl
  | cons c rest ih =>
    by_cases hc : c = '\n'
    · subst hc
      rw [List.cons_append, lines_newline, List.count_cons_self, openLine_newline,
        Nat.add_right_comm, List.getElem?_cons_succ]
      exact ih
    · rw [List.count_cons_of_ne (by simpa using hc), List.cons_append]
      cases hlines : lines (rest ++ text) with
      | nil =>
        rw [hlines] at ih
        simp at ih
      | cons first others =>
        rw [hlines] at ih
        rw [lines_cons_of_ne hc hlines]
        cases hnumber : rest.count '\n' + index with
        | zero =>
          have hindex : index = 0 := by omega
          have hrest : '\n' ∉ rest := List.count_eq_zero.mp (by omega)
          have hall : '\n' ∉ c :: rest := by simp [hrest, Ne.symm hc]
          rw [hnumber, if_pos hindex, List.getElem?_cons_zero, openLine_of_not_mem hrest] at ih
          rw [if_pos hindex, List.getElem?_cons_zero, openLine_of_not_mem hall,
            Option.some.inj ih, List.cons_append]
        | succ number =>
          rw [hnumber, List.getElem?_cons_succ] at ih
          rw [List.getElem?_cons_succ, ih]
          by_cases hindex : index = 0
          · have hrest : '\n' ∈ rest := List.count_pos_iff.mp (by omega)
            rw [if_pos hindex, if_pos hindex, openLine_cons_of_mem hrest]
          · rw [if_neg hindex, if_neg hindex]

/-- A text after another one keeps its lines, except that the last of them may go on. -/
theorem getElem?_lines_append_left {text line : List Char} {index : Nat}
    (h : (lines text)[index]? = some line) (after : List Char) :
    ∃ right, (lines (text ++ after))[index]? = some (line ++ right) ∧
      (right = [] ∨
        right.head? = after.head? ∧ '\n' ∉ line ∧ index + 1 = (lines text).length) := by
  generalize hlines : lines text = all at h
  induction all generalizing text index with
  | nil => simp at h
  | cons first rest ih =>
    obtain ⟨other, rfl, hfirst, hother, hends⟩ := lines_eq_cons hlines
    by_cases hended : EndsLine first
    · rw [List.append_assoc, lines_append hended, hfirst, List.singleton_append]
      cases index with
      | zero =>
        rw [List.getElem?_cons_zero] at h ⊢
        exact ⟨[], by rw [List.append_nil]; exact h, .inl rfl⟩
      | succ index =>
        rw [List.getElem?_cons_succ] at h ⊢
        obtain ⟨right, hright, hcases⟩ := ih hother h
        refine ⟨right, hright, hcases.imp id fun ⟨hhead, hline, hlast⟩ => ⟨hhead, hline, ?_⟩⟩
        rw [List.length_cons, hlast]
    · obtain rfl := hends.resolve_right hended
      obtain rfl := hother
      obtain rfl : index = 0 := by
        have hlength := (List.getElem?_eq_some_iff.mp h).1
        simpa using hlength
      obtain rfl : first = line := by simpa using h
      obtain ⟨plain, hplain, hform⟩ := eq_of_lines_eq_singleton hfirst
      rcases hform with hform | hform
      · rw [← hform] at hplain
        rw [List.append_nil]
        cases hafter : lines after with
        | nil =>
          rw [lines_eq_nil] at hafter
          refine ⟨[], ?_, .inl rfl⟩
          rw [hafter, List.append_nil, hfirst, List.getElem?_cons_zero]
        | cons next others =>
          have hzero : (lines after)[0]? = some next := by rw [hafter]; rfl
          have hmoved := getElem?_lines_append hzero first
          rw [List.count_eq_zero.mpr hplain, if_pos rfl, openLine_of_not_mem hplain] at hmoved
          obtain ⟨more, rfl, -, -, -⟩ := lines_eq_cons hafter
          have hne : next ≠ [] := ne_nil_of_mem_lines (by rw [hafter]; simp)
          refine ⟨next, hmoved, .inr ⟨?_, hplain, rfl⟩⟩
          rw [List.head?_append_of_ne_nil _ hne]
      · exact absurd (.inr (by rw [hform, List.getLast?_concat])) hended

/-- The lines of a part of a text are lines of the text, apart from what stands before the first
one and after the last one there. -/
theorem getElem?_lines_around {text line : List Char} {index : Nat}
    (h : (lines text)[index]? = some line) (before after : List Char) :
    ∃ right, (lines (before ++ (text ++ after)))[before.count '\n' + index]? =
        some ((if index = 0 then openLine before else []) ++ (line ++ right)) ∧
      (right = [] ∨
        right.head? = after.head? ∧ '\n' ∉ line ∧ index + 1 = (lines text).length) := by
  obtain ⟨right, hright, hcases⟩ := getElem?_lines_append_left h after
  exact ⟨right, getElem?_lines_append hright before, hcases⟩

end Text

/-- The place after a text, from any place on. -/
theorem Place.after_eq (place : Place) (text : List Char) :
    place.after text = ⟨place.line + text.count '\n',
      if '\n' ∈ text then (Text.openLine text).length + 1 else place.column + text.length⟩ := by
  induction text generalizing place with
  | nil => rfl
  | cons c rest ih =>
    rw [after_cons, ih, next]
    by_cases hc : c = '\n'
    · subst hc
      have hall : '\n' ∈ '\n' :: rest := List.mem_cons_self ..
      rw [if_pos rfl, if_pos hall, List.count_cons_self, Text.openLine_newline]
      by_cases hrest : '\n' ∈ rest
      · rw [if_pos hrest, Nat.add_assoc, Nat.add_comm 1]
      · rw [if_neg hrest, Text.openLine_of_not_mem hrest, Nat.add_assoc, Nat.add_comm 1,
          Nat.add_comm 1]
    · rw [if_neg hc, List.count_cons_of_ne (by simpa using hc)]
      by_cases hrest : '\n' ∈ rest
      · rw [if_pos hrest, if_pos (List.mem_cons_of_mem _ hrest),
          Text.openLine_cons_of_mem hrest]
      · have hall : '\n' ∉ c :: rest := by simp [hrest, Ne.symm hc]
        rw [if_neg hrest, if_neg hall, List.length_cons, Nat.add_assoc, Nat.add_comm 1]

/-- The place after a text that starts at the first character. -/
theorem Place.start_after (text : List Char) :
    start.after text = ⟨text.count '\n' + 1, (Text.openLine text).length + 1⟩ := by
  rw [after_eq, start, Nat.add_comm 1]
  by_cases hmem : '\n' ∈ text
  · rw [if_pos hmem]
  · rw [if_neg hmem, Text.openLine_of_not_mem hmem, Nat.add_comm 1]

/-- A place whose line is one further on leads to places whose lines are one further on. -/
theorem Place.after_succ (line column : Nat) (text : List Char) :
    (⟨line + 1, column⟩ : Place).after text =
      ⟨((⟨line, column⟩ : Place).after text).line + 1,
        ((⟨line, column⟩ : Place).after text).column⟩ := by
  rw [after_eq, after_eq, Nat.add_right_comm]

/-- A text is its first line alone, without a line feed, or the line, a line feed and the rest. -/
theorem Text.exists_rest_of_lines_eq_cons {text first : List Char} {others : List (List Char)}
    (h : lines text = first :: others) : '\n' ∉ unended first ∧
      (text = unended first ∧ others = [] ∨
        ∃ rest, text = unended first ++ '\n' :: rest ∧ lines rest = others) := by
  obtain ⟨rest, rfl, hsingle, hrest, hends⟩ := lines_eq_cons h
  refine ⟨not_mem_unended hsingle, ?_⟩
  obtain ⟨bare, hbare, rfl | rfl⟩ := eq_of_lines_eq_singleton hsingle
  · -- A line that does not end is the last one.
    have hnil : rest = [] := by
      refine hends.resolve_right fun hended => ?_
      rcases hended with rfl | hlast
      · cases hsingle
      · exact hbare (List.mem_of_getLast? hlast)
    subst hnil
    rw [unended_of_not_mem hbare, List.append_nil]
    exact .inl ⟨rfl, hrest.symm⟩
  · rw [unended_concat, List.append_assoc, List.singleton_append]
    exact .inr ⟨rest, rfl, hrest⟩

/-- A line and its line feed lead to the first column of the next line. -/
theorem Place.start_after_line {line : List Char} (hline : '\n' ∉ line) (rest : List Char) :
    start.after (line ++ '\n' :: rest) =
      ⟨(start.after rest).line + 1, (start.after rest).column⟩ := by
  have hfirst : start.after (line ++ ['\n']) = ⟨1 + 1, 1⟩ := by
    rw [Place.after_append, Place.start_after, List.count_eq_zero.mpr hline]
    rfl
  rw [← List.singleton_append, ← List.append_assoc, Place.after_append, hfirst,
    Place.after_succ, start]

/-- What stands on a line of a text behind its start stands there in the text. Behind the line
there is a line feed or the end of the text. -/
theorem Text.exists_place_of_line {text line before after : List Char} {index : Nat}
    (h : (lines text)[index]? = some line) (hline : unended line = before ++ after) :
    ∃ earlier rest, text = earlier ++ rest ∧
      Place.start.after earlier = ⟨index + 1, before.length + 1⟩ ∧
        ∀ c ∈ (after ++ ['\n']).head?, rest.head? = some c ∨ c = '\n' ∧ rest = [] := by
  induction index generalizing text with
  | zero =>
    cases hlines : lines text with
    | nil => rw [hlines] at h; cases h
    | cons first others =>
      rw [hlines, List.getElem?_cons_zero] at h
      cases h
      obtain ⟨hfirst, htext⟩ := exists_rest_of_lines_eq_cons hlines
      rw [hline] at hfirst htext
      have hplain : '\n' ∉ before := fun hmem => hfirst (List.mem_append_left _ hmem)
      have hplace : Place.start.after before = ⟨0 + 1, before.length + 1⟩ := by
        rw [Place.start_after, List.count_eq_zero.mpr hplain, openLine_of_not_mem hplain]
      rcases htext with ⟨rfl, -⟩ | ⟨rest, rfl, -⟩
      · refine ⟨before, after, rfl, hplace, fun c hc => ?_⟩
        cases after with
        | nil => exact .inr ⟨by simpa using hc.symm, rfl⟩
        | cons d more => exact .inl (by simpa using hc)
      · refine ⟨before, after ++ '\n' :: rest, List.append_assoc .., hplace, fun c hc => .inl ?_⟩
        cases after with
        | nil => simpa using hc
        | cons d more => simpa using hc
  | succ index ih =>
    cases hlines : lines text with
    | nil => rw [hlines] at h; cases h
    | cons first others =>
      rw [hlines, List.getElem?_cons_succ] at h
      obtain ⟨hfirst, ⟨-, rfl⟩ | ⟨other, rfl, rfl⟩⟩ := exists_rest_of_lines_eq_cons hlines
      · cases h
      · obtain ⟨earlier, rest, rfl, hplace, hrest⟩ := ih h
        refine ⟨unended first ++ '\n' :: earlier, rest, by simp, ?_, hrest⟩
        rw [Place.start_after_line hfirst, hplace]

/-- The line of a text on which a part of it starts, unless the part is the end behind the last
line. -/
theorem Text.exists_line_of_append {before rest : List Char} (h : EndsLine before → rest ≠ []) :
    ∃ line tail, (lines (before ++ rest))[before.count '\n']? = some line ∧
      unended line = openLine before ++ tail ∧ ∀ c ∈ rest.head?, c ∈ (tail ++ ['\n']).head? := by
  cases hlines : lines rest with
  | nil =>
    obtain rfl := lines_eq_nil.mp hlines
    -- The part is empty, so what stands before does not end its line.
    have hopen : ¬ EndsLine before := fun hended => h hended rfl
    rcases List.eq_nil_or_concat' before with rfl | ⟨earlier, c, rfl⟩
    · exact absurd endsLine_nil hopen
    · have hc : c ≠ '\n' := fun heq => hopen (.inr (by rw [heq, List.getLast?_concat]))
      have hsingle : (lines [c])[0]? = some [c] := by simp [lines, hc]
      have hfound := getElem?_lines_append hsingle earlier
      refine ⟨openLine earlier ++ [c], [], ?_, ?_, by simp⟩
      · rw [List.append_nil, List.count_append, List.count_singleton, if_neg (by simpa using hc)]
        exact hfound
      · rw [openLine_concat hc, List.append_nil, unended_append (List.cons_ne_nil _ _),
          unended_of_not_mem (by simpa using hc.symm)]
  | cons first others =>
    have hfirst : (lines rest)[0]? = some first := by rw [hlines, List.getElem?_cons_zero]
    obtain ⟨other, rfl, hsingle, -, -⟩ := lines_eq_cons hlines
    have hne : first ≠ [] := ne_nil_of_mem_lines (List.mem_of_getElem? hfirst)
    refine ⟨_, unended first, getElem?_lines_append hfirst before, ?_, fun c hc => ?_⟩
    · rw [if_pos rfl, unended_append hne]
    · rw [List.head?_append_of_ne_nil _ hne] at hc
      by_cases hline : c = '\n'
      · obtain ⟨bare, hbare, rfl | rfl⟩ := eq_of_lines_eq_singleton hsingle
        · exact absurd (hline ▸ List.mem_of_head? hc) hbare
        · rw [unended_concat]
          cases bare with
          | nil => exact hc
          | cons d bare => exact hc
      · have hhead := head?_unended hc hline
        rw [List.head?_append, hhead]
        rfl

/-- A text that ends its lines has as many lines as line feeds. -/
theorem Text.length_lines_of_endsLine {text : List Char} (h : EndsLine text) :
    (lines text).length = text.count '\n' := by
  induction text with
  | nil => rfl
  | cons c rest ih =>
    have hrest : EndsLine rest := by
      rw [← List.singleton_append] at h
      exact h.right
    by_cases hc : c = '\n'
    · rw [hc, lines_newline, List.length_cons, ih hrest, List.count_cons_self]
    · rw [List.count_cons_of_ne (by simpa using hc), ← ih hrest]
      cases hlines : lines rest with
      | nil =>
        rw [lines_eq_nil.mp hlines] at h
        exact absurd (by simpa using h.resolve_left (List.cons_ne_nil _ _)) hc
      | cons line others => rw [lines_cons_of_ne hc hlines, List.length_cons, List.length_cons]

/-- Behind a text that ends its lines a line starts. -/
theorem Place.start_after_of_endsLine {text : List Char} (h : Text.EndsLine text) :
    start.after text = ⟨text.count '\n' + 1, 1⟩ := by
  rcases List.eq_nil_or_concat' text with rfl | ⟨before, c, rfl⟩
  · rfl
  · have hc : c = '\n' := by simpa [Text.EndsLine] using h
    rw [hc, after_append, start_after, List.count_append]
    rfl

end ShaderAssembly
