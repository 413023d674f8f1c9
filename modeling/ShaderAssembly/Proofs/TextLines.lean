import Mathlib.Data.List.Basic
import ShaderAssembly.Text.Blank
import ShaderAssembly.Text.Lines

/-!
# Cutting texts into lines

A text that has only whole lines can be cut apart from what follows it. Every line of a text is
the only line of itself, and all lines but the last end with a line feed.
-/

namespace ShaderAssembly.Text

/-- A line feed is a line of its own if nothing stands before it. -/
theorem lines_newline (rest : List Char) : lines ('\n' :: rest) = ['\n'] :: lines rest := by
  rw [lines, if_pos rfl]

/-- Any other character belongs to the first line of what follows. -/
theorem lines_cons_of_ne {c : Char} (hc : c ≠ '\n') {rest line : List Char}
    {more : List (List Char)} (h : lines rest = line :: more) :
    lines (c :: rest) = (c :: line) :: more := by
  rw [lines, if_neg hc, h]

/-- Only the empty text has no lines. -/
theorem lines_eq_nil {text : List Char} : lines text = [] ↔ text = [] := by
  constructor
  · intro h
    rw [← flatten_lines text, h, List.flatten_nil]
  · rintro rfl
    rfl

/-- Whether no line of a text goes on after its end. -/
def EndsLine (text : List Char) : Prop := text = [] ∨ text.getLast? = some '\n'

theorem endsLine_nil : EndsLine [] := .inl rfl

theorem endsLine_terminated (line : List Char) : EndsLine (terminated line) :=
  .inr (getLast?_terminated line)

/-- Texts that end their lines do so when they stand one after the other. -/
theorem EndsLine.append {left right : List Char} (hleft : EndsLine left) (hright : EndsLine right) :
    EndsLine (left ++ right) := by
  rcases hright with rfl | hlast
  · rwa [List.append_nil]
  · exact .inr (by rw [List.getLast?_append, hlast, Option.some_or])

/-- The end of a text that ends its lines does so, too. -/
theorem EndsLine.right {left right : List Char} (h : EndsLine (left ++ right)) :
    EndsLine right := by
  cases right with
  | nil => exact endsLine_nil
  | cons d more =>
    refine .inr ?_
    have hlast := h.resolve_left (by simp)
    rwa [List.getLast?_append_of_ne_nil _ (List.cons_ne_nil _ _)] at hlast

/-- The lines of a text that ends them stay the same before any other text. -/
theorem lines_append {text : List Char} (h : EndsLine text) (other : List Char) :
    lines (text ++ other) = lines text ++ lines other := by
  induction text with
  | nil => rfl
  | cons c rest ih =>
    have hends : EndsLine ([c] ++ rest) := h
    have hrest := ih hends.right
    by_cases hc : c = '\n'
    · rw [hc, List.cons_append, lines_newline, lines_newline, hrest, List.cons_append]
    · cases hlines : lines rest with
      | nil =>
        rw [lines_eq_nil] at hlines
        rw [hlines] at h
        rcases h with hnil | hlast
        · simp at hnil
        · exact absurd (by simpa using hlast) hc
      | cons line more =>
        rw [hlines, List.cons_append] at hrest
        rw [List.cons_append, lines_cons_of_ne hc hrest, lines_cons_of_ne hc hlines,
          List.cons_append]

/-- A text without a line feed runs into the first line of what follows. -/
theorem lines_append_of_not_mem {before text line : List Char} {more : List (List Char)}
    (hbefore : '\n' ∉ before) (h : lines text = line :: more) :
    lines (before ++ text) = (before ++ line) :: more := by
  induction before with
  | nil => exact h
  | cons c rest ih =>
    rw [List.mem_cons, not_or] at hbefore
    exact lines_cons_of_ne (Ne.symm hbefore.1) (ih hbefore.2)

/-- The first line of a text is a line of itself, and the others are those of the text after it.
The first one is ended if there are others. -/
theorem lines_eq_cons {text line : List Char} {rest : List (List Char)}
    (h : lines text = line :: rest) :
    ∃ other, text = line ++ other ∧ lines line = [line] ∧ lines other = rest ∧
      (other = [] ∨ EndsLine line) := by
  induction text generalizing line with
  | nil => simp at h
  | cons c more ih =>
    by_cases hc : c = '\n'
    · rw [hc, lines_newline, List.cons.injEq] at h
      obtain ⟨rfl, rfl⟩ := h
      exact ⟨more, by rw [hc, List.singleton_append], by decide, rfl, .inr (.inr rfl)⟩
    · cases hmore : lines more with
      | nil =>
        rw [lines, if_neg hc, hmore, List.cons.injEq] at h
        obtain ⟨rfl, rfl⟩ := h
        rw [lines_eq_nil] at hmore
        refine ⟨[], by rw [hmore, List.append_nil], ?_, rfl, .inl rfl⟩
        rw [lines, if_neg hc, lines_nil]
      | cons first others =>
        rw [lines_cons_of_ne hc hmore, List.cons.injEq] at h
        obtain ⟨rfl, rfl⟩ := h
        obtain ⟨other, htext, hfirst, hother, hends⟩ := ih hmore
        refine ⟨other, by rw [htext, List.cons_append], lines_cons_of_ne hc hfirst, hother, ?_⟩
        refine hends.imp id fun hends => .inr ?_
        have hne : first ≠ [] := ne_nil_of_mem_lines (by rw [hmore]; simp)
        rw [List.getLast?_cons, hends.resolve_left hne, Option.getD_some]

/-- Every line of a text is the only line of itself. -/
theorem lines_of_mem_lines {text line : List Char} (h : line ∈ lines text) :
    lines line = [line] := by
  generalize hlines : lines text = all at h
  induction all generalizing text with
  | nil => simp at h
  | cons first rest ih =>
    obtain ⟨other, -, hfirst, hother, -⟩ := lines_eq_cons hlines
    rcases List.mem_cons.mp h with rfl | hrest
    · exact hfirst
    · exact ih hother hrest

/-- A line has a line feed only at its end. -/
theorem eq_of_lines_eq_singleton {line : List Char} (h : lines line = [line]) :
    ∃ before, '\n' ∉ before ∧ (line = before ∨ line = before ++ ['\n']) := by
  induction line with
  | nil => simp at h
  | cons c rest ih =>
    by_cases hc : c = '\n'
    · rw [hc, lines_newline, List.cons.injEq] at h
      obtain rfl := lines_eq_nil.mp h.2
      exact ⟨[], by simp, .inr (by rw [hc, List.nil_append])⟩
    · cases hrest : lines rest with
      | nil =>
        obtain rfl := lines_eq_nil.mp hrest
        exact ⟨[c], by simpa using Ne.symm hc, .inl rfl⟩
      | cons first more =>
        rw [lines_cons_of_ne hc hrest] at h
        obtain ⟨⟨-, rfl⟩, rfl⟩ : (c = c ∧ first = rest) ∧ more = [] := by simpa using h
        obtain ⟨before, hbefore, hcases⟩ := ih hrest
        refine ⟨c :: before, by simp [hbefore, Ne.symm hc], ?_⟩
        exact hcases.imp (fun heq => by rw [heq]) fun heq => by rw [heq, List.cons_append]

/-- A text with its only line feed at its end is one line. -/
theorem lines_concat_newline {before : List Char} (h : '\n' ∉ before) :
    lines (before ++ ['\n']) = [before ++ ['\n']] := by
  induction before with
  | nil => rfl
  | cons c rest ih =>
    have hc : c ≠ '\n' := fun heq => h (by simp [heq])
    exact lines_cons_of_ne hc (ih fun hmem => h (List.mem_cons_of_mem _ hmem))

/-- A line stays one line when it is ended. -/
theorem lines_terminated {line : List Char} (h : lines line = [line]) :
    lines (terminated line) = [terminated line] := by
  obtain ⟨before, hbefore, rfl | rfl⟩ := eq_of_lines_eq_singleton h
  · unfold terminated
    split
    · exact h
    · exact lines_concat_newline hbefore
  · rw [terminated, if_pos (by simp)]
    exact h

/-- A text without a line feed is ended by one. -/
theorem terminated_of_not_mem {line : List Char} (h : '\n' ∉ line) :
    terminated line = line ++ ['\n'] := by
  rw [terminated, if_neg]
  exact fun hlast => h (List.mem_of_getLast? hlast)

theorem endsLine_ended (text : List Char) : EndsLine (ended text) := by
  unfold ended
  split
  · exact endsLine_nil
  · exact endsLine_terminated text

/-- The end of a text that is not empty is the end of everything before it. -/
theorem ended_append {text : List Char} (h : text ≠ []) (before : List Char) :
    ended (before ++ text) = before ++ ended text := by
  rw [ended, if_neg (by simp [h]), ended, if_neg h, terminated, terminated,
    List.getLast?_append_of_ne_nil _ h]
  split
  · rfl
  · rw [List.append_assoc]

/-- Behind whole lines, the end of everything is the end of what stands there. -/
theorem EndsLine.ended_append {before : List Char} (h : EndsLine before) (text : List Char) :
    ended (before ++ text) = before ++ ended text := by
  by_cases htext : text = []
  · have hnil : ended ([] : List Char) = [] := rfl
    rw [htext, hnil, List.append_nil, ended, terminated]
    rcases h with hempty | hlast
    · rw [if_pos hempty, hempty]
    · rw [if_pos hlast, ite_eq_right_iff]
      exact Eq.symm
  · exact Text.ended_append htext before

/-- The line without the line feed at its end, if there is one. -/
def unended (line : List Char) : List Char :=
  if line.getLast? = some '\n' then line.dropLast else line

theorem unended_of_not_mem {line : List Char} (h : '\n' ∉ line) : unended line = line := by
  rw [unended, if_neg]
  exact fun hlast => h (List.mem_of_getLast? hlast)

theorem unended_concat (line : List Char) : unended (line ++ ['\n']) = line := by
  rw [unended, if_pos List.getLast?_concat, List.dropLast_concat]

/-- Ending a line adds nothing but a line feed. -/
theorem unended_terminated (line : List Char) : unended (terminated line) = unended line := by
  unfold terminated
  split
  · rfl
  · rename_i hlast
    rw [unended_concat, unended, if_neg hlast]

/-- The end of a line is the end of the text that it ends. -/
theorem unended_append {text : List Char} (h : text ≠ []) (before : List Char) :
    unended (before ++ text) = before ++ unended text := by
  rw [unended, unended, List.getLast?_append_of_ne_nil _ h]
  split
  · rw [List.dropLast_append_of_ne_nil h]
  · rfl

/-- A character that is no line feed stays at the start of a line. -/
theorem head?_unended {line : List Char} {c : Char} (h : line.head? = some c) (hc : c ≠ '\n') :
    (unended line).head? = some c := by
  cases line with
  | nil => cases h
  | cons d rest =>
    obtain rfl : d = c := by simpa using h
    cases rest with
    | nil => rw [unended_of_not_mem (by simpa using Ne.symm hc), List.head?_cons]
    | cons e more =>
      have happend : d :: e :: more = [d] ++ (e :: more) := rfl
      rw [happend, unended_append (List.cons_ne_nil _ _), List.singleton_append, List.head?_cons]

/-- What is left of a line has no line feed. -/
theorem not_mem_unended {line : List Char} (h : lines line = [line]) : '\n' ∉ unended line := by
  obtain ⟨before, hbefore, rfl | rfl⟩ := eq_of_lines_eq_singleton h
  · rw [unended_of_not_mem hbefore]
    exact hbefore
  · rw [unended_concat]
    exact hbefore

/-- A text with a line feed at its end at most is one line when it is ended. -/
theorem lines_terminated_of_unended {line : List Char} (h : '\n' ∉ unended line) :
    lines (terminated line) = [terminated line] := by
  unfold unended at h
  split at h
  · rename_i hlast
    obtain ⟨before, rfl⟩ := List.getLast?_eq_some_iff.mp hlast
    rw [List.dropLast_concat] at h
    rw [terminated, if_pos hlast]
    exact lines_concat_newline h
  · rw [terminated_of_not_mem h]
    exact lines_concat_newline h

/-- Ended lines, one after the other, are the lines of the text they make. -/
theorem lines_flatMap_terminated {texts : List (List Char)}
    (h : ∀ text ∈ texts, lines (terminated text) = [terminated text]) :
    lines (texts.flatMap terminated) = texts.map terminated := by
  induction texts with
  | nil => rfl
  | cons text rest ih =>
    have hrest := ih fun other hother => h other (List.mem_cons_of_mem _ hother)
    rw [List.flatMap_cons, lines_append (endsLine_terminated text), h text (by simp), hrest,
      List.map_cons, List.singleton_append]

/-- The bare line has no line feed. -/
theorem not_mem_bareLine {line : List Char} (h : lines line = [line]) : '\n' ∉ bareLine line := by
  have hplain := not_mem_unended h
  unfold bareLine
  split
  · rename_i before hreverse
    have hline : line = before.reverse ++ ['\r'] ++ ['\n'] := by
      rw [← List.reverse_reverse line, hreverse, List.reverse_cons, List.reverse_cons]
    rw [hline, unended_concat] at hplain
    exact fun hmem => hplain (List.mem_append_left _ hmem)
  · rename_i before _ hreverse
    have hline : line = before.reverse ++ ['\n'] := by
      rw [← List.reverse_reverse line, hreverse, List.reverse_cons]
    rw [hline, unended_concat] at hplain
    exact hplain
  · rename_i hreverse
    obtain ⟨before, hbefore, rfl | rfl⟩ := eq_of_lines_eq_singleton h
    · exact hbefore
    · rw [List.reverse_append, List.reverse_singleton, List.singleton_append] at hreverse
      exact absurd rfl (hreverse before.reverse)

/-! ### Trimming -/

theorem mem_of_mem_trimStart {text : List Char} {c : Char} (h : c ∈ trimStart text) :
    c ∈ text := (List.dropWhile_sublist _).subset h

theorem mem_of_mem_trimEnd {text : List Char} {c : Char} (h : c ∈ trimEnd text) :
    c ∈ text := by
  have hreverse := (List.dropWhile_sublist _).subset (List.mem_reverse.mp h)
  exact List.mem_reverse.mp hreverse

theorem mem_of_mem_trim {text : List Char} {c : Char} (h : c ∈ trim text) : c ∈ text :=
  mem_of_mem_trimStart (mem_of_mem_trimEnd h)

end ShaderAssembly.Text
