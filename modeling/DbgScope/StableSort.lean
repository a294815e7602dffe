import Mathlib.Data.List.NodupEquivFin
import Mathlib.Data.List.Sort

/-!
# Stable sorting, and what stands next to what

A stable sort keeps every sublist that is in order already. So two elements that end up next to each
other had nothing of their own kind between them, whatever the sort did with the elements of other
kinds.
-/

namespace DbgScope

variable {α : Type} {le : α → α → Prop} {xs ys zs : List α} {a b m : α} {i j k : ℕ}

/-- `ys` is `xs` in order, and what was in order in `xs` keeps its order. -/
structure StableSort (le : α → α → Prop) (xs ys : List α) : Prop where
  perm : ys.Perm xs
  sorted : ys.Pairwise le
  stable : ∀ c : List α, c.Pairwise le → c.Sublist xs → c.Sublist ys

theorem stableSort_insertionSort [DecidableRel le] [Std.Total le] [IsTrans α le] (xs : List α) :
    StableSort le xs (xs.insertionSort le) where
  perm := List.perm_insertionSort le xs
  sorted := List.pairwise_insertionSort le xs
  stable _ hc hsub := List.sublist_insertionSort hc hsub

theorem StableSort.trans (h : StableSort le xs ys) (h' : StableSort le ys zs) :
    StableSort le xs zs where
  perm := h'.perm.trans h.perm
  sorted := h'.sorted
  stable c hc hsub := h'.stable c hc (h.stable c hc hsub)

theorem once_of_nodup_filter {p : α → Bool} (h : (ys.filter p).Nodup) (hp : p a = true)
    (hj : ys[j]? = some a) (hk : ys[k]? = some a) : j = k := by
  have hpairs := List.pairwise_iff_getElem.mp (List.pairwise_filter.mp h)
  obtain ⟨hjl, hj⟩ := List.getElem?_eq_some_iff.mp hj
  obtain ⟨hkl, hk⟩ := List.getElem?_eq_some_iff.mp hk
  rcases Nat.lt_trichotomy j k with hlt | heq | hgt
  · exact absurd (hj.trans hk.symm)
      (hpairs j k hjl hkl hlt (by rw [hj]; exact hp) (by rw [hk]; exact hp))
  · exact heq
  · exact absurd (hk.trans hj.symm)
      (hpairs k j hkl hjl hgt (by rw [hk]; exact hp) (by rw [hj]; exact hp))

theorem cons_sublist_drop {c : List α} (ha : xs[j]? = some a) (hle : i ≤ j)
    (hc : c.Sublist (xs.drop (j + 1))) : (a :: c).Sublist (xs.drop i) := by
  obtain ⟨hj, rfl⟩ := List.getElem?_eq_some_iff.mp ha
  have hdrop : (xs[j] :: c).Sublist (xs.drop j) := by
    rw [List.drop_eq_getElem_cons hj]
    exact hc.cons_cons _
  exact hdrop.trans (List.drop_sublist_drop_left xs hle)

theorem pair_sublist (ha : xs[j]? = some a) (hb : xs[k]? = some b) (hlt : j < k) :
    [a, b].Sublist xs :=
  cons_sublist_drop ha (Nat.zero_le j) (cons_sublist_drop hb hlt (List.nil_sublist _))

theorem not_both_orders (h : xs.Nodup) (hab : [a, b].Sublist xs) : ¬ [b, a].Sublist xs := by
  intro hba
  have hnodup : (xs.filter fun _ => true).Nodup := by rwa [List.filter_true]
  obtain ⟨f, hf⟩ := List.sublist_iff_exists_orderEmbedding_getElem?_eq.mp hab
  obtain ⟨g, hg⟩ := List.sublist_iff_exists_orderEmbedding_getElem?_eq.mp hba
  have hfirst := once_of_nodup_filter hnodup rfl (hf 0).symm (hg 1).symm
  have hsecond := once_of_nodup_filter hnodup rfl (hf 1).symm (hg 0).symm
  have hlt : f 0 < f 1 := f.lt_iff_lt.mpr (by decide)
  have hlt' : g 0 < g 1 := g.lt_iff_lt.mpr (by decide)
  omega

section Beside

variable {p : α → Bool}

/-- Two elements next to each other in the sorted list come in that order in the list before. -/
theorem StableSort.not_swapped (h : StableSort le xs ys) (hnodup : (xs.filter p).Nodup)
    (ha : ys[i]? = some a) (hb : ys[i + 1]? = some b) (hpa : p a = true) (hpb : p b = true)
    (hle : le b a) : ¬ [b, a].Sublist xs := by
  intro hsub
  have hnodup : (ys.filter p).Nodup := (h.perm.filter p).nodup_iff.mpr hnodup
  obtain ⟨f, hf⟩ := List.sublist_iff_exists_orderEmbedding_getElem?_eq.mp
    (h.stable [b, a] (List.pairwise_pair.mpr hle) hsub)
  have hfirst := once_of_nodup_filter hnodup hpb (hf 0).symm hb
  have hsecond := once_of_nodup_filter hnodup hpa (hf 1).symm ha
  have hlt : f 0 < f 1 := f.lt_iff_lt.mpr (by decide)
  omega

theorem StableSort.not_between (h : StableSort le xs ys) (hnodup : (xs.filter p).Nodup)
    (ha : ys[i]? = some a) (hb : ys[i + 1]? = some b) (hpa : p a = true) (hpb : p b = true)
    (ham : le a m) (hmb : le m b) (hab : le a b) : ¬ [a, m, b].Sublist xs := by
  intro hsub
  have hnodup : (ys.filter p).Nodup := (h.perm.filter p).nodup_iff.mpr hnodup
  have hsorted : [a, m, b].Pairwise le := by
    simp only [List.pairwise_cons, List.mem_cons, List.not_mem_nil, or_false, forall_eq_or_imp,
      forall_eq]
    exact ⟨⟨ham, hab⟩, hmb, nofun, List.Pairwise.nil⟩
  obtain ⟨f, hf⟩ := List.sublist_iff_exists_orderEmbedding_getElem?_eq.mp
    (h.stable [a, m, b] hsorted hsub)
  have hfirst := once_of_nodup_filter hnodup hpa (hf 0).symm ha
  have hlast := once_of_nodup_filter hnodup hpb (hf 2).symm hb
  have hlt : f 0 < f 1 := f.lt_iff_lt.mpr (by decide)
  have hlt' : f 1 < f 2 := f.lt_iff_lt.mpr (by decide)
  omega

theorem StableSort.not_mem_between [Std.Refl le] (h : StableSort le xs ys) (ha : ys[i]? = some a)
    (hb : ys[i + 1]? = some b) (hm : ¬ le m a) (hm' : ¬ le b m) : m ∉ xs := by
  intro hmem
  obtain ⟨k, hkl, hk⟩ := List.mem_iff_getElem.mp (h.perm.mem_iff.mpr hmem)
  obtain ⟨hil, ha⟩ := List.getElem?_eq_some_iff.mp ha
  obtain ⟨hjl, hb⟩ := List.getElem?_eq_some_iff.mp hb
  have hpairs := List.pairwise_iff_getElem.mp h.sorted
  rcases Nat.lt_or_ge i k with hlt | hle
  · rcases (Nat.succ_le_of_lt hlt).eq_or_lt with rfl | hgt
    · exact hm' (by rw [← hk, ← hb]; exact Std.Refl.refl _)
    · exact hm' (by rw [← hk, ← hb]; exact hpairs (i + 1) k hjl hkl hgt)
  · rcases hle.eq_or_lt with rfl | hlt
    · exact hm (by rw [← hk, ← ha]; exact Std.Refl.refl _)
    · exact hm (by rw [← hk, ← ha]; exact hpairs k i hkl hil hlt)

end Beside

end DbgScope
