import Mathlib.Data.List.Sort
import Mathlib.Order.Basic

/-!
# A bounded window over a scan

The first elements of a list in the order of a key are collected in one pass: a new element
is exchanged with its predecessor while it comes before it, and takes the place of the last
element of a full window.  The window is listed from its end, where a new element enters.
What it holds at the end of the pass are the first elements of the sorted list,
`reverse_foldl_keep`.
-/

namespace Window

variable {α κ : Type*}

/-- A new element moves ahead of the elements it comes before. -/
def sink (before : α → α → Bool) (item : α) : List α → List α
  | [] => [item]
  | r :: rest => if before item r then r :: sink before item rest else item :: r :: rest

/-- A new element enters the window, or takes the place of the last one. -/
def keep (before : α → α → Bool) (limit : ℕ) (window : List α) (item : α) : List α :=
  if window.length < limit then sink before item window
  else
    match window with
    | [] => []
    | last :: rest => if before item last then sink before item rest else window

/-! ## One element -/

section Sink

variable {before : α → α → Bool}

theorem sink_perm (item : α) (l : List α) : (sink before item l).Perm (item :: l) := by
  induction l with
  | nil => exact List.Perm.refl _
  | cons r rest ih =>
      simp only [sink]
      by_cases hbefore : before item r
      · rw [if_pos hbefore]
        exact (ih.cons r).trans (List.Perm.swap item r rest)
      · rw [if_neg hbefore]

theorem length_sink (item : α) (l : List α) : (sink before item l).length = l.length + 1 :=
  (sink_perm item l).length_eq

/-- An element that comes before all of a part is sunk behind it. -/
theorem sink_append_of_before {item : α} {front : List α}
    (h : ∀ f ∈ front, before item f = true) (l : List α) :
    sink before item (front ++ l) = front ++ sink before item l := by
  induction front with
  | nil => exact rfl
  | cons f front ih =>
      rw [List.cons_append, sink, if_pos (h f List.mem_cons_self),
        ih fun f' hf' => h f' (List.mem_cons_of_mem _ hf')]
      exact rfl

/-- An element does not pass one it does not come before. -/
theorem sink_append_of_not_before {item last : α} (h : ¬ before item last = true)
    (front rest : List α) :
    sink before item (front ++ last :: rest) = sink before item front ++ last :: rest := by
  induction front with
  | nil =>
      rw [List.nil_append]
      exact if_neg h
  | cons f front ih =>
      simp only [List.cons_append, sink]
      by_cases hbefore : before item f
      · rw [if_pos hbefore, if_pos hbefore, ih]
        exact rfl
      · rw [if_neg hbefore, if_neg hbefore]
        exact rfl

end Sink

/-! ## The window and the sorted list -/

section Keyed

variable [LinearOrder κ] {before : α → α → Bool} {key : α → κ} {limit : ℕ}

/-- The keys descend. -/
def Descending (key : α → κ) (l : List α) : Prop :=
  l.Pairwise fun a b => key b ≤ key a

theorem Descending.sink (hbefore : ∀ a b, before a b = true ↔ key a < key b) {l : List α}
    (h : Descending key l) (item : α) : Descending key (sink before item l) := by
  induction l with
  | nil => exact List.pairwise_singleton _ _
  | cons r rest ih =>
      obtain ⟨hr, hrest⟩ := List.pairwise_cons.mp h
      rw [Window.sink]
      by_cases hlow : before item r
      · rw [if_pos hlow]
        refine List.pairwise_cons.mpr ⟨?_, ih hrest⟩
        intro b hb
        rcases List.mem_cons.mp ((sink_perm item rest).mem_iff.mp hb) with rfl | hb
        · exact ((hbefore _ _).mp hlow).le
        · exact hr b hb
      · rw [if_neg hlow]
        have hitem : key r ≤ key item := not_lt.mp fun hlt => hlow ((hbefore _ _).mpr hlt)
        refine List.pairwise_cons.mpr ⟨?_, h⟩
        intro b hb
        rcases List.mem_cons.mp hb with rfl | hb
        · exact hitem
        · exact (hr b hb).trans hitem

/-- The part of a list that fits the window. -/
def windowOf (limit : ℕ) (l : List α) : List α :=
  l.drop (l.length - limit)

theorem windowOf_of_length_le {l : List α} (h : l.length ≤ limit) : windowOf limit l = l := by
  rw [windowOf, Nat.sub_eq_zero_of_le h, List.drop_zero]

theorem windowOf_append {front l : List α} (h : l.length = limit) :
    windowOf limit (front ++ l) = l := by
  refine List.drop_left' ?_
  rw [List.length_append, h, Nat.add_sub_cancel]

/-- What an element makes of a full window. -/
theorem windowOf_sink (hbefore : ∀ a b, before a b = true ↔ key a < key b) {front rest : List α}
    {last : α} (h : Descending key (front ++ last :: rest))
    (hfull : (last :: rest).length = limit) (item : α) :
    windowOf limit (sink before item (front ++ last :: rest)) =
      if before item last then sink before item rest else last :: rest := by
  by_cases hlow : before item last
  · have hfront : ∀ f ∈ front ++ [last], before item f = true := by
      intro f hf
      refine (hbefore _ _).mpr (((hbefore _ _).mp hlow).trans_le ?_)
      rcases List.mem_append.mp hf with hf | hf
      · exact (List.pairwise_append.mp h).2.2 f hf last List.mem_cons_self
      · rw [List.mem_singleton.mp hf]
    rw [if_pos hlow, List.append_cons, sink_append_of_before hfront]
    exact windowOf_append ((length_sink item rest).trans hfull)
  · rw [if_neg hlow, sink_append_of_not_before hlow]
    exact windowOf_append hfull

/-- A window over a sorted list remains one when an element is added to both. -/
theorem keep_windowOf (hbefore : ∀ a b, before a b = true ↔ key a < key b)
    (hlimit : 0 < limit) {l : List α} (h : Descending key l) (item : α) :
    keep before limit (windowOf limit l) item = windowOf limit (sink before item l) := by
  by_cases hroom : l.length < limit
  · rw [windowOf_of_length_le hroom.le,
      windowOf_of_length_le ((length_sink item l).trans_le hroom)]
    exact if_pos hroom
  · have hwindow : (windowOf limit l).length = limit := by
      rw [windowOf, List.length_drop]
      exact Nat.sub_sub_self (not_lt.mp hroom)
    obtain ⟨last, rest, hlast⟩ := List.exists_cons_of_length_pos (hwindow ▸ hlimit)
    have hsplit : l.take (l.length - limit) ++ last :: rest = l := by
      rw [← hlast]
      exact List.take_append_drop _ _
    have hfull : (last :: rest).length = limit := hlast ▸ hwindow
    rw [← hsplit] at h ⊢
    rw [windowOf_sink hbefore h hfull, windowOf_append hfull]
    exact if_neg hfull.not_lt

/-! ## The whole pass -/

theorem foldl_keep_windowOf (hbefore : ∀ a b, before a b = true ↔ key a < key b)
    (hlimit : 0 < limit) (items : List α) {l : List α} (h : Descending key l) :
    items.foldl (keep before limit) (windowOf limit l) =
        windowOf limit (items.foldl (fun l item => sink before item l) l) ∧
      Descending key (items.foldl (fun l item => sink before item l) l) := by
  induction items generalizing l with
  | nil => exact ⟨rfl, h⟩
  | cons item items ih =>
      rw [List.foldl_cons, List.foldl_cons, keep_windowOf hbefore hlimit h]
      exact ih (h.sink hbefore item)

theorem foldl_sink_perm (items l : List α) :
    (items.foldl (fun l item => sink before item l) l).Perm (items ++ l) := by
  induction items generalizing l with
  | nil => exact List.Perm.refl _
  | cons item items ih =>
      rw [List.foldl_cons, List.cons_append]
      exact (ih _).trans (((sink_perm item l).append_left items).trans List.perm_middle)

theorem pairwise_mergeSort (key : α → κ) (items : List α) :
    (items.mergeSort fun a b => key a ≤ key b).Pairwise fun a b => key a ≤ key b := by
  have hpairs : (items.mergeSort fun a b => key a ≤ key b).Pairwise
      fun a b => decide (key a ≤ key b) = true := by
    refine List.pairwise_mergeSort (fun a b c hab hbc => ?_) (fun a b => ?_) items
    · simpa using (of_decide_eq_true hab).trans (of_decide_eq_true hbc)
    · simpa using le_total (key a) (key b)
  simpa using hpairs

/-- A list of distinct keys has one sorted arrangement. -/
theorem eq_mergeSort {items l : List α} (hkeys : (items.map key).Nodup) (hperm : l.Perm items)
    (hsorted : l.Pairwise fun a b => key a ≤ key b) :
    l = items.mergeSort fun a b => key a ≤ key b := by
  have hmerge := List.mergeSort_perm items fun a b => decide (key a ≤ key b)
  refine (hperm.trans hmerge.symm).eq_of_pairwise ?_ hsorted (pairwise_mergeSort key items)
  intro a b ha hb hab hba
  exact List.inj_on_of_nodup_map hkeys (hperm.mem_iff.mp ha) (hmerge.mem_iff.mp hb)
    (le_antisymm hab hba)

/-- The window of the pass, from its front, is the beginning of the sorted list. -/
theorem reverse_foldl_keep (hbefore : ∀ a b, before a b = true ↔ key a < key b)
    (hlimit : 0 < limit) {items : List α} (hkeys : (items.map key).Nodup) :
    (items.foldl (keep before limit) []).reverse =
      (items.mergeSort fun a b => key a ≤ key b).take limit := by
  obtain ⟨hwindow, hdescending⟩ :=
    foldl_keep_windowOf hbefore hlimit items (List.Pairwise.nil : Descending key [])
  rw [windowOf_of_length_le (Nat.zero_le limit)] at hwindow
  have hperm : (items.foldl (fun l item => sink before item l) []).Perm (items ++ []) :=
    foldl_sink_perm items []
  rw [List.append_nil] at hperm
  rw [← eq_mergeSort hkeys ((List.reverse_perm _).trans hperm)
    (List.pairwise_reverse.mpr hdescending), List.take_reverse]
  exact congrArg List.reverse hwindow

end Keyed

end Window
