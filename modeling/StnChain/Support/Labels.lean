import Mathlib.Data.List.Basic

/-!
# Labels between separators

A text such as a hostname is a list of labels with a separator between each two.  Where no
label holds the separator, the labels are the pieces the text splits into, so a scan from
the left may decide them one by one: `separated_append_cons` closes a label,
`Separated.head` says what an open one has to become.
-/

namespace Labels

variable {α : Type*} [DecidableEq α] {sep : α} {P : List α → Prop} {l label : List α}

/-- A text is labels with a separator between each two. -/
def Separated (sep : α) (P : List α → Prop) (l : List α) : Prop :=
  ∃ labels : List (List α), labels ≠ [] ∧ [sep].intercalate labels = l ∧ ∀ label ∈ labels, P label

/-- The labels are the pieces between the separators. -/
theorem separated_iff (hP : ∀ label, P label → sep ∉ label) :
    Separated sep P l ↔ ∀ label ∈ l.splitOn sep, P label := by
  constructor
  · rintro ⟨labels, hne, rfl, hlabels⟩
    rw [List.splitOn_intercalate sep (fun label h => hP label (hlabels label h)) hne]
    exact hlabels
  · intro h
    exact ⟨l.splitOn sep, List.splitOn_ne_nil sep l, List.intercalate_splitOn sep, h⟩

/-- A text without separators is one label. -/
theorem separated_of_notMem (hP : ∀ label, P label → sep ∉ label) (h : sep ∉ label) :
    Separated sep P label ↔ P label := by
  rw [separated_iff hP, List.splitOn_eq_singleton h]
  exact List.forall_mem_singleton

/-- A separator closes the label before it. -/
theorem separated_append_cons (hP : ∀ label, P label → sep ∉ label) (h : sep ∉ label) :
    Separated sep P (label ++ sep :: l) ↔ P label ∧ Separated sep P l := by
  rw [separated_iff hP, separated_iff hP, List.splitOn_append_cons_self_of_not_mem h]
  exact List.forall_mem_cons

omit [DecidableEq α] in
/-- What stands before the first separator is the start of a label. -/
theorem Separated.head (h : Separated sep P (label ++ l)) (hlabel : sep ∉ label) :
    ∃ rest, P (label ++ rest) := by
  obtain ⟨labels, hne, hjoin, hlabels⟩ := h
  obtain ⟨first, others, rfl⟩ := List.exists_cons_of_ne_nil hne
  have hfirst := hlabels first List.mem_cons_self
  -- The first label is followed by nothing, or by a separator.
  have hprefix : ∃ tail, first ++ tail = label ++ l ∧
      (tail = [] ∨ ∃ tail', tail = sep :: tail') := by
    cases others with
    | nil => exact ⟨[], by simpa using hjoin, .inl rfl⟩
    | cons second others =>
        refine ⟨sep :: [sep].intercalate (second :: others), ?_, .inr ⟨_, rfl⟩⟩
        rw [← hjoin, List.intercalate_cons_cons]
        simp
  obtain ⟨tail, hsplit, htail⟩ := hprefix
  rcases List.append_eq_append_iff.mp hsplit with ⟨mid, rfl, hmid⟩ | ⟨mid, rfl, -⟩
  · cases mid with
    | nil => exact ⟨[], by simpa using hfirst⟩
    | cons a mid =>
        rcases htail with rfl | ⟨tail', rfl⟩
        · cases hmid
        · obtain ⟨rfl, -⟩ := List.cons_eq_cons.mp hmid
          exact absurd (List.mem_append_right first List.mem_cons_self) hlabel
  · exact ⟨mid, hfirst⟩

end Labels
