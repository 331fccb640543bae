/-
StableSort — lists sorted by a key, equal keys in the order they had.

A stable sort is fixed by what it does to the elements of each key: it
leaves them as they were.  So two stable sorts of a list are equal
(`StablySorted.unique`), and to see that a way of sorting is stable it is
enough that it keeps every part of the list that is in order already.
Sorting by insertion does, and so does sorting by merging.
-/
import Mathlib.Data.List.Sort

namespace AndroidLint

section StablySorted

variable {α κ : Type} [LinearOrder κ] {key : α → κ}

/-- `StablySorted key l s`: `s` is `l` in the order of a key, and elements
of one key stand as they stood in `l`. -/
structure StablySorted (key : α → κ) (l s : List α) : Prop where
  perm : s.Perm l
  ordered : s.Pairwise fun a b => key a ≤ key b
  stable : ∀ k, s.filter (key · = k) = l.filter (key · = k)

/-! ## One list only -/

theorem mem_of_filter_eq {s t : List α} {a : α}
    (same : ∀ k, s.filter (key · = k) = t.filter (key · = k)) (mem : a ∈ s) : a ∈ t := by
  have hfilter : a ∈ t.filter (key · = key a) := by
    rw [← same]
    exact List.mem_filter.mpr ⟨mem, decide_eq_true rfl⟩
  exact (List.mem_filter.mp hfilter).1

theorem key_head_le {s : List α} {a b : α} (ordered : (a :: s).Pairwise fun a b => key a ≤ key b)
    (mem : b ∈ a :: s) : key a ≤ key b := by
  rcases List.mem_cons.mp mem with rfl | h
  · exact le_rfl
  · exact (List.pairwise_cons.mp ordered).1 b h

/-- Lists in order are equal if their elements of each key are. -/
theorem eq_of_filter_eq {s : List α} : ∀ {t : List α}, s.Pairwise (fun a b => key a ≤ key b) →
    t.Pairwise (fun a b => key a ≤ key b) →
    (∀ k, s.filter (key · = k) = t.filter (key · = k)) → s = t := by
  induction s with
  | nil =>
      intro t _ _ same
      symm
      rw [List.eq_nil_iff_forall_not_mem]
      intro a mem
      exact List.not_mem_nil (mem_of_filter_eq (fun k => (same k).symm) mem)
  | cons a s ih =>
      intro t hs ht same
      cases t with
      | nil => exact absurd (mem_of_filter_eq same List.mem_cons_self) List.not_mem_nil
      | cons b t =>
          -- each head has the least key of its list, and the lists have the same elements
          have hab : key a = key b := le_antisymm
            (key_head_le hs (mem_of_filter_eq (fun k => (same k).symm) List.mem_cons_self))
            (key_head_le ht (mem_of_filter_eq same List.mem_cons_self))
          have heads : a :: s.filter (key · = key a) = b :: t.filter (key · = key a) := by
            have h := same (key a)
            rw [List.filter_cons_of_pos (by simp), List.filter_cons_of_pos (by simp [hab])] at h
            exact h
          obtain ⟨rfl, -⟩ := List.cons.inj heads
          have tails : ∀ k, s.filter (key · = k) = t.filter (key · = k) := by
            intro k
            have h := same k
            rw [List.filter_cons, List.filter_cons] at h
            split at h
            · exact (List.cons.inj h).2
            · exact h
          rw [ih (List.pairwise_cons.mp hs).2 (List.pairwise_cons.mp ht).2 tails]

theorem StablySorted.unique {l s t : List α} (hs : StablySorted key l s)
    (ht : StablySorted key l t) : s = t :=
  eq_of_filter_eq hs.ordered ht.ordered fun k => (hs.stable k).trans (ht.stable k).symm

/-- Two elements of one key stand in the sorted list as they stood before. -/
theorem StablySorted.sublist_of_tie {l s : List α} (h : StablySorted key l s) {a b : α}
    (tie : key a = key b) (part : [a, b].Sublist s) : [a, b].Sublist l := by
  have hpair : [a, b].filter (key · = key a) = [a, b] := by simp [tie]
  have hpart := part.filter (key · = key a)
  rw [hpair, h.stable] at hpart
  exact hpart.trans List.filter_sublist

/-- A relation between elements of one key, wherever they stand, refines
the order of the key. -/
theorem StablySorted.pairwise_refined {l s : List α} {r : α → α → Prop} (h : StablySorted key l s)
    (ties : l.Pairwise fun a b => key a = key b → r a b) :
    s.Pairwise fun a b => key a < key b ∨ key a = key b ∧ r a b := by
  rw [List.pairwise_iff_forall_sublist] at ties ⊢
  intro a b part
  rcases lt_or_eq_of_le (List.pairwise_iff_forall_sublist.mp h.ordered part) with lt | tie
  · exact .inl lt
  · exact .inr ⟨tie, ties (h.sublist_of_tie tie part) tie⟩

/-! ## Ways to sort -/

/-- A sort that keeps what is in order keeps elements of one key. -/
theorem stablySorted_of_sublists {l s : List α} (perm : s.Perm l)
    (ordered : s.Pairwise fun a b => key a ≤ key b)
    (kept : ∀ c : List α, c.Pairwise (fun a b => key a ≤ key b) → c.Sublist l → c.Sublist s) :
    StablySorted key l s where
  perm := perm
  ordered := ordered
  stable := by
    intro k
    have hpart : (l.filter (key · = k)).Pairwise fun a b => key a ≤ key b := by
      refine List.pairwise_of_forall_mem_list fun a ha b hb => ?_
      have hka : key a = k := of_decide_eq_true (List.mem_filter.mp ha).2
      have hkb : key b = k := of_decide_eq_true (List.mem_filter.mp hb).2
      exact le_of_eq (hka.trans hkb.symm)
    have hsub : ((l.filter (key · = k)).filter (key · = k)).Sublist (s.filter (key · = k)) :=
      (kept _ hpart List.filter_sublist).filter _
    simp only [List.filter_filter, Bool.and_self] at hsub
    exact (hsub.eq_of_length (perm.filter _).length_eq.symm).symm

/-- A list sorted by a key, element by element. -/
def sortBy (key : α → κ) (l : List α) : List α :=
  l.insertionSort fun a b => key a ≤ key b

theorem stablySorted_sortBy (key : α → κ) (l : List α) : StablySorted key l (sortBy key l) := by
  have : IsTrans α fun a b => key a ≤ key b := ⟨fun _ _ _ => le_trans⟩
  have : Std.Total fun a b : α => key a ≤ key b := ⟨fun a b => le_total (key a) (key b)⟩
  exact stablySorted_of_sublists (List.perm_insertionSort _ l) (List.pairwise_insertionSort _ l)
    fun c hc hsub => List.sublist_insertionSort hc hsub

theorem stablySorted_mergeSort {le : α → α → Bool} (byKey : ∀ a b, le a b = true ↔ key a ≤ key b)
    (l : List α) : StablySorted key l (l.mergeSort le) := by
  have trans : ∀ a b c, le a b = true → le b c = true → le a c = true := by
    intro a b c hab hbc
    exact (byKey a c).mpr (((byKey a b).mp hab).trans ((byKey b c).mp hbc))
  have total : ∀ a b, (le a b || le b a) = true := by
    intro a b
    rw [Bool.or_eq_true, byKey, byKey]
    exact le_total (key a) (key b)
  refine stablySorted_of_sublists (List.mergeSort_perm l le) ?_ ?_
  · exact (List.pairwise_mergeSort trans total l).imp fun h => (byKey _ _).mp h
  · intro c hc hsub
    exact List.sublist_mergeSort trans total (hc.imp fun h => (byKey _ _).mpr h) hsub

/-- Sorting by merging gives the list that insertion gives. -/
theorem mergeSort_eq_sortBy {le : α → α → Bool} (byKey : ∀ a b, le a b = true ↔ key a ≤ key b)
    (l : List α) : l.mergeSort le = sortBy key l :=
  (stablySorted_mergeSort byKey l).unique (stablySorted_sortBy key l)

/-! ## What sorting commutes with -/

/-- Leaving elements out before sorting or after it comes to the same. -/
theorem sortBy_filter (p : α → Bool) (l : List α) :
    sortBy key (l.filter p) = (sortBy key l).filter p := by
  have h := stablySorted_sortBy key l
  have hfilter : StablySorted key (l.filter p) ((sortBy key l).filter p) :=
    { perm := h.perm.filter p
      ordered := h.ordered.filter p
      stable := by
        intro k
        rw [List.filter_comm, h.stable k, List.filter_comm] }
  exact (stablySorted_sortBy key (l.filter p)).unique hfilter

/-- Changing elements before sorting or after it comes to the same, if
their keys stay. -/
theorem sortBy_map {g : α → α} (same : ∀ a, key (g a) = key a) (l : List α) :
    sortBy key (l.map g) = (sortBy key l).map g := by
  have h := stablySorted_sortBy key l
  have hmap : StablySorted key (l.map g) ((sortBy key l).map g) :=
    { perm := h.perm.map g
      ordered := by
        rw [List.pairwise_map]
        exact h.ordered.imp fun le => by rw [same, same]; exact le
      stable := by
        intro k
        rw [List.filter_map, List.filter_map]
        simp only [Function.comp_def, same]
        rw [h.stable k] }
  exact (stablySorted_sortBy key (l.map g)).unique hmap

/-- Sorting part of a list gives part of the sorted list. -/
theorem sortBy_sublist {l m : List α} (part : l.Sublist m) :
    (sortBy key l).Sublist (sortBy key m) := by
  have : IsTrans α fun a b => key a ≤ key b := ⟨fun _ _ _ => le_trans⟩
  induction part with
  | slnil => exact List.Sublist.refl _
  | cons a _ ih => exact ih.trans (List.sublist_orderedInsert a _)
  | cons_cons a _ ih => exact ih.orderedInsert_sublist a (stablySorted_sortBy key _).ordered

theorem mem_sortBy {l : List α} {a : α} : a ∈ sortBy key l ↔ a ∈ l :=
  (stablySorted_sortBy key l).perm.mem_iff

end StablySorted

end AndroidLint
