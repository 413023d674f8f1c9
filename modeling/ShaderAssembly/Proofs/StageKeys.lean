import ShaderAssembly.Proofs.MarkerReplay
import ShaderAssembly.Stage

/-!
# Texts of stage keys

The text of a stage key has a colon behind the technique and one behind the index of the pass. An
index is written without colons, so a key is read back from its text if its technique is there and
has no colon either. What is read from any text is such a key, though the text need not be that of
the key: an index may be written with a plus sign or with leading zeros, and a stage has a name in
each dialect.
-/

namespace ShaderAssembly

/-! ### Parts of a text -/

namespace Text

variable {separator : Char} {text piece : List Char}

/-- What stands before the first separator ends there. -/
theorem splitFirst_append_cons (h : separator ∉ piece) (rest : List Char) :
    splitFirst separator (piece ++ separator :: rest) = (piece, some rest) := by
  have hpiece : ∀ c ∈ piece, (c != separator) = true := by
    intro c hc
    rw [bne_iff_ne]
    exact ne_of_mem_of_not_mem hc h
  rw [splitFirst, List.takeWhile_append_of_pos hpiece, List.dropWhile_append_of_pos hpiece]
  simp

/-- The separator does not stand before its first occurrence. -/
theorem not_mem_splitFirst : separator ∉ (splitFirst separator text).1 := by
  induction text with
  | nil => exact List.not_mem_nil
  | cons c rest ih =>
    unfold splitFirst at ih ⊢
    rw [List.takeWhile_cons]
    split
    · rename_i hc
      rw [bne_iff_ne] at hc
      exact List.not_mem_cons_of_ne_of_not_mem hc.symm ih
    · exact List.not_mem_nil

end Text

/-- A stage is found by the name that it has in stage keys. -/
@[simp]
theorem Stage.ofName?_keyword (slot : Stage) : ofName? slot.keyword = some slot := by
  rw [ofName?, ofKeyword?_keyword]
  rfl

namespace StageKey

variable {key other : StageKey} {text : String}

/-- Whether a key can be told from its text: its technique has a name, and no colon in it. -/
structure IsPlain (key : StageKey) : Prop where
  /-- The technique has a name. -/
  named : key.technique ≠ ""
  /-- The name ends at the first colon. -/
  unseparated : ':' ∉ key.technique.toList

/-! ### Indices -/

/-- An index is read from its digits. -/
theorem readPass?_toString {index : Nat} (h : index < passLimit) :
    readPass? (toString index).toList = some index := by
  have hdigits := isDigits_toString index
  have hplus : '+' ∉ (toString index).toList := not_mem_of_isDigits hdigits (by decide)
  unfold readPass?
  split
  · rename_i rest htext
    rw [htext] at hplus
    exact absurd List.mem_cons_self hplus
  · dsimp only
    rw [digitsValue_toString, if_pos ⟨hdigits, h⟩]

/-- No index that is read is too large. -/
theorem lt_of_readPass? {digits : List Char} {index : Nat} (h : readPass? digits = some index) :
    index < passLimit := by
  obtain ⟨hdigits, hindex⟩ := Option.ite_none_right_eq_some.mp h
  cases hindex
  exact hdigits.2

/-! ### Keys -/

/-- A technique, an index and a stage with colons between them. -/
theorem toList_text (key : StageKey) :
    key.text.toList = key.technique.toList ++ ':' ::
      ((toString key.pass).toList ++ ':' :: key.slot.keyword.toList) := by
  rw [text, String.toList_append, String.toList_append, String.toList_append,
    String.toList_append, List.append_assoc, List.append_assoc, List.append_assoc]
  rfl

/-- The text of a key ends its technique at the first colon. -/
theorem IsPlain.splitFirst_text (h : key.IsPlain) :
    Text.splitFirst ':' key.text.toList = (key.technique.toList,
      some ((toString key.pass).toList ++ ':' :: key.slot.keyword.toList)) := by
  rw [toList_text, Text.splitFirst_append_cons h.unseparated]

/-- What follows ends the index at the next colon. -/
theorem splitFirst_pass (pass : Nat) (slot : List Char) :
    Text.splitFirst ':' ((toString pass).toList ++ ':' :: slot) =
      ((toString pass).toList, some slot) :=
  Text.splitFirst_append_cons
    (not_mem_of_isDigits (isDigits_toString pass) (by decide)) slot

/-- A key is read back from its text. -/
theorem IsPlain.parse_text (h : key.IsPlain) (hpass : key.pass < passLimit) :
    parse key.text = .ok key := by
  have htechnique : key.technique.toList ≠ [] := fun hnil =>
    h.named (String.toList_eq_nil_iff.mp hnil)
  unfold parse
  rw [h.splitFirst_text]
  dsimp only
  rw [splitFirst_pass]
  dsimp only
  rw [if_neg htechnique, readPass?_toString hpass]
  dsimp only
  rw [String.ofList_toList, Stage.ofName?_keyword, String.ofList_toList]

/-- Keys with one text are one key. -/
theorem IsPlain.eq_of_text_eq (h : key.IsPlain) (hother : other.IsPlain)
    (htext : key.text = other.text) : key = other := by
  have hfirst := h.splitFirst_text
  rw [htext, hother.splitFirst_text, Prod.mk.injEq, Option.some.injEq] at hfirst
  obtain ⟨htechnique, hrest⟩ := hfirst
  have hsecond := splitFirst_pass key.pass key.slot.keyword.toList
  rw [← hrest, splitFirst_pass, Prod.mk.injEq, Option.some.injEq] at hsecond
  obtain ⟨hdigits, hkeyword⟩ := hsecond
  have hpass : key.pass = other.pass := by
    rw [← digitsValue_toString key.pass, ← hdigits, digitsValue_toString]
  have hslot : some key.slot = some other.slot := by
    rw [← Stage.ofKeyword?_keyword, ← String.toList_inj.mp hkeyword, Stage.ofKeyword?_keyword]
  cases key
  cases other
  rw [mk.injEq]
  exact ⟨String.toList_inj.mp htechnique.symm, hpass, Option.some.inj hslot⟩

/-- What is read from a text can be told from its own text, and its index is not too large. -/
theorem isPlain_of_parse (h : parse text = .ok key) : key.IsPlain ∧ key.pass < passLimit := by
  have hcolon : ':' ∉ (Text.splitFirst ':' text.toList).1 := Text.not_mem_splitFirst
  unfold parse at h
  split at h
  · cases h
  · rename_i technique rest htext
    rw [htext] at hcolon
    split at h
    · cases h
    · split at h
      · cases h
      · rename_i hnamed
        split at h
        · cases h
        · rename_i index hindex
          split at h
          · cases h
          · cases h
            have hname : String.ofList technique ≠ "" := fun hempty =>
              hnamed (String.ofList_eq_empty_iff.mp hempty)
            refine ⟨⟨hname, ?_⟩, lt_of_readPass? hindex⟩
            rw [String.toList_ofList]
            exact hcolon

end StageKey

end ShaderAssembly
