import Mathlib.Data.List.Infix

/-!
# Occurrences of whole words

A text is cut into words at a separator. The words of one text follow one another among those of
another exactly where the one stands in the other with a separator, or an end of it, on each side
(`splitOn_infix_iff`).
-/

namespace Words

variable {α : Type*} {sep : α} {a b s t : List α} {l l' : List (List α)}

/-- Nothing comes before, or a separator does. -/
def OpensAfter (sep : α) (s : List α) : Prop := s = [] ∨ ∃ before, s = before ++ [sep]

/-- Nothing comes after, or a separator does. -/
def ClosesBefore (sep : α) (t : List α) : Prop := t = [] ∨ ∃ after, t = sep :: after

/-- One text stands in another between separators or ends. -/
def Stands (sep : α) (a b : List α) : Prop :=
  ∃ s t, b = s ++ a ++ t ∧ OpensAfter sep s ∧ ClosesBefore sep t

theorem intercalate_append (hl : l ≠ []) (hl' : l' ≠ []) :
    [sep].intercalate (l ++ l') = [sep].intercalate l ++ sep :: [sep].intercalate l' := by
  induction l with
  | nil => exact absurd rfl hl
  | cons word l ih =>
    by_cases h : l = []
    · subst h
      rw [List.singleton_append, List.intercalate_cons_of_ne_nil hl', List.intercalate_singleton,
        List.append_assoc]
      rfl
    · rw [List.cons_append, List.intercalate_cons_of_ne_nil (by simp [h]), ih h,
        List.intercalate_cons_of_ne_nil h]
      simp only [List.append_assoc]

/-- What stands before whole words ends with the separator. -/
theorem opensAfter_of_splitOn (sep : α) (before : List (List α)) (word : List α)
    (words : List (List α)) :
    ∃ s, OpensAfter sep s ∧
      [sep].intercalate (before ++ word :: words) = s ++ [sep].intercalate (word :: words) := by
  by_cases h : before = []
  · exact ⟨[], .inl rfl, by rw [h]; rfl⟩
  · refine ⟨[sep].intercalate before ++ [sep], .inr ⟨_, rfl⟩, ?_⟩
    rw [intercalate_append h (List.cons_ne_nil word words), List.append_assoc]
    rfl

/-- What stands after whole words begins with the separator. -/
theorem closesBefore_of_splitOn (sep : α) (words after : List (List α)) (h : words ≠ []) :
    ∃ t, ClosesBefore sep t ∧
      [sep].intercalate (words ++ after) = [sep].intercalate words ++ t := by
  by_cases hafter : after = []
  · exact ⟨[], .inl rfl, by rw [hafter, List.append_nil, List.append_nil]⟩
  · exact ⟨sep :: [sep].intercalate after, .inr ⟨_, rfl⟩, intercalate_append h hafter⟩

variable [DecidableEq α]

theorem splitOn_opensAfter (h : OpensAfter sep s) (b : List α) :
    ∃ before, (s ++ b).splitOn sep = before ++ b.splitOn sep := by
  rcases h with rfl | ⟨before, rfl⟩
  · exact ⟨[], rfl⟩
  · refine ⟨before.splitOn sep, ?_⟩
    rw [List.append_assoc, List.singleton_append, List.splitOn_append_cons_self]

theorem splitOn_closesBefore (h : ClosesBefore sep t) (a : List α) :
    ∃ after, (a ++ t).splitOn sep = a.splitOn sep ++ after := by
  rcases h with rfl | ⟨after, rfl⟩
  · exact ⟨[], by rw [List.append_nil, List.append_nil]⟩
  · exact ⟨after.splitOn sep, List.splitOn_append_cons_self _ _⟩

/-- **Whole words** stand between separators or ends. -/
theorem splitOn_infix_iff : a.splitOn sep <:+: b.splitOn sep ↔ Stands sep a b := by
  constructor
  · rintro ⟨before, after, h⟩
    have hne : a.splitOn sep ≠ [] := List.splitOn_ne_nil sep a
    have htext : [sep].intercalate (before ++ a.splitOn sep ++ after) = b := by
      rw [h, List.intercalate_splitOn]
    obtain ⟨t, ht, hclose⟩ := closesBefore_of_splitOn sep (before ++ a.splitOn sep) after
      (List.append_ne_nil_of_right_ne_nil _ hne)
    obtain ⟨word, words, hwords⟩ := List.exists_cons_of_ne_nil hne
    obtain ⟨s, hs, hopen⟩ := opensAfter_of_splitOn sep before word words
    rw [← hwords, List.intercalate_splitOn] at hopen
    exact ⟨s, t, by rw [← htext, hclose, hopen], hs, ht⟩
  · rintro ⟨s, t, rfl, hs, ht⟩
    obtain ⟨before, hbefore⟩ := splitOn_opensAfter hs (a ++ t)
    obtain ⟨after, hafter⟩ := splitOn_closesBefore ht a
    refine ⟨before, after, ?_⟩
    rw [List.append_assoc s, hbefore, hafter, List.append_assoc]

end Words
