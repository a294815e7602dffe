import Mathlib.Order.Lattice
import Mathlib.Data.List.Forall2
import Mathlib.Data.List.Pairwise

/-!
# Tilings of an interval

Consecutive ranges from one point of a linear order to another: each starts where the one before
it ends. A range may be empty. Where the ranges are known by other things, entry by entry, what
holds along one list carries over to the other.
-/

namespace DbgScope

section Related

variable {α β : Type} {R : α → β → Prop} {as : List α} {bs : List β}

theorem forall₂_mem_right {b : β} (h : List.Forall₂ R as bs) (hb : b ∈ bs) : ∃ a ∈ as, R a b := by
  induction h with
  | nil => cases hb
  | cons hab _ ih =>
    rcases List.mem_cons.mp hb with rfl | hb
    · exact ⟨_, List.mem_cons_self, hab⟩
    · obtain ⟨a, ha, hr⟩ := ih hb
      exact ⟨a, List.mem_cons_of_mem _ ha, hr⟩

theorem pairwise_of_forall₂ {P : α → α → Prop} {Q : β → β → Prop} (h : List.Forall₂ R as bs)
    (hP : as.Pairwise P) (hQ : ∀ a a' b b', R a b → R a' b' → P a a' → Q b b') :
    bs.Pairwise Q := by
  induction h with
  | nil => exact .nil
  | cons hab hrest ih =>
    rw [List.pairwise_cons] at hP
    refine .cons (fun b' hb' => ?_) (ih hP.2)
    obtain ⟨a', ha', hr⟩ := forall₂_mem_right hrest hb'
    exact hQ _ a' _ b' hab hr (hP.1 a' ha')

end Related

variable {α : Type} [LinearOrder α] {a b c x : α} {xs ys : List (α × α)}

/-- The ranges follow each other from one point to the other. -/
def Tiles : α → List (α × α) → α → Prop
  | a, [], b => a = b
  | a, range :: rest, b => range.1 = a ∧ range.1 ≤ range.2 ∧ Tiles range.2 rest b

namespace Tiles

theorem nil (a : α) : Tiles a [] a := rfl

theorem append (h : Tiles a xs b) (h' : Tiles b ys c) : Tiles a (xs ++ ys) c := by
  induction xs generalizing a with
  | nil =>
    obtain rfl : a = b := h
    exact h'
  | cons range rest ih => exact ⟨h.1, h.2.1, ih h.2.2⟩

theorem snoc (h : Tiles a xs b) (hbc : b ≤ c) : Tiles a (xs ++ [(b, c)]) c :=
  h.append ⟨rfl, hbc, rfl⟩

theorem le (h : Tiles a xs b) : a ≤ b := by
  induction xs generalizing a with
  | nil => exact le_of_eq h
  | cons range rest ih => exact h.1 ▸ h.2.1.trans (ih h.2.2)

theorem le_fst (h : Tiles a xs b) {range : α × α} (hmem : range ∈ xs) : a ≤ range.1 := by
  induction xs generalizing a with
  | nil => cases hmem
  | cons first rest ih =>
    rcases List.mem_cons.mp hmem with rfl | hrest
    · exact le_of_eq h.1.symm
    · exact h.1 ▸ h.2.1.trans (ih h.2.2 hrest)

theorem pairwise (h : Tiles a xs b) : xs.Pairwise fun r s => r.2 ≤ s.1 := by
  induction xs generalizing a with
  | nil => exact List.Pairwise.nil
  | cons range rest ih =>
    exact List.Pairwise.cons (fun _ hmem => h.2.2.le_fst hmem) (ih h.2.2)

theorem mem_iff (h : Tiles a xs b) : (∃ r ∈ xs, r.1 ≤ x ∧ x < r.2) ↔ a ≤ x ∧ x < b := by
  induction xs generalizing a with
  | nil =>
    obtain rfl : a = b := h
    constructor
    · rintro ⟨r, hr, -⟩
      cases hr
    · rintro ⟨hle, hlt⟩
      exact absurd hlt (not_lt.mpr hle)
  | cons range rest ih =>
    obtain ⟨rfl, hrange, hrest⟩ := h
    constructor
    · rintro ⟨r, hr, hle, hlt⟩
      rcases List.mem_cons.mp hr with rfl | hr
      · exact ⟨hle, hlt.trans_le hrest.le⟩
      · obtain ⟨hx, hb⟩ := (ih hrest).mp ⟨r, hr, hle, hlt⟩
        exact ⟨hrange.trans hx, hb⟩
    · rintro ⟨hle, hlt⟩
      rcases lt_or_ge x range.2 with hin | hpast
      · exact ⟨range, List.mem_cons_self, hle, hin⟩
      · obtain ⟨r, hr, hx⟩ := (ih hrest).mpr ⟨hpast, hlt⟩
        exact ⟨r, List.mem_cons_of_mem _ hr, hx⟩

end Tiles

end DbgScope
