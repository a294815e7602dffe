import Mathlib.Data.List.TakeWhile
import Mathlib.Tactic

/-!
# Finding where a list divides

A list whose elements satisfy a predicate up to some position and not from there on is divided at
that position. Halving finds it, and it is the only one, so whatever else is known to divide the
list the same way does so at the same place.
-/

namespace DbgScope

variable {α : Type} {p : α → Bool} {before after before' after' : List α}

/-! ## Halving -/

def bisect (p : ℕ → Bool) : ℕ → ℕ → ℕ → ℕ
  | 0, lo, _ => lo
  | rounds + 1, lo, hi =>
    if hi ≤ lo then lo
    else
      let mid := lo + (hi - lo) / 2
      if p mid then bisect p rounds (mid + 1) hi else bisect p rounds lo mid

theorem bisect_eq {p : ℕ → Bool} {bound : ℕ} (length : ℕ) (hbelow : ∀ i < bound, p i = true)
    (habove : ∀ i, bound ≤ i → i < length → p i = false) (rounds lo hi : ℕ)
    (hrounds : hi ≤ lo + rounds) (hlo : lo ≤ bound) (hhi : bound ≤ hi) (hlength : hi ≤ length) :
    bisect p rounds lo hi = bound := by
  induction rounds generalizing lo hi with
  | zero =>
    unfold bisect
    omega
  | succ rounds ih =>
    unfold bisect
    split
    · omega
    · next hmore =>
      dsimp only
      by_cases hmid : lo + (hi - lo) / 2 < bound
      · rw [if_pos (hbelow _ hmid)]
        exact ih _ _ (by omega) (by omega) hhi hlength
      · rw [if_neg (Bool.eq_false_iff.mp (habove _ (by omega) (by omega)))]
        exact ih _ _ (by omega) hlo (by omega) (by omega)

/-! ## Lists -/

def partitionPoint (p : α → Bool) (xs : List α) : ℕ :=
  bisect (fun i => (xs[i]?).any p) xs.length 0 xs.length

/-- The list is divided between `before` and `after`. -/
structure Divides (p : α → Bool) (before after : List α) : Prop where
  before : ∀ x ∈ before, p x = true
  after : ∀ x ∈ after, p x = false

theorem Divides.partitionPoint (h : Divides p before after) :
    partitionPoint p (before ++ after) = before.length := by
  refine bisect_eq (before ++ after).length (fun i hi => ?_) (fun i hle hi => ?_) _ _ _
    (Nat.le_add_left _ _) (Nat.zero_le _) ?_ (le_refl _)
  · rw [List.getElem?_append_left hi, List.getElem?_eq_getElem hi]
    exact h.before _ (List.getElem_mem hi)
  · rw [List.getElem?_append_right hle]
    rw [List.length_append] at hi
    rw [List.getElem?_eq_getElem (by omega)]
    exact h.after _ (List.getElem_mem _)
  · rw [List.length_append]
    exact Nat.le_add_right _ _

theorem Divides.takeWhile (h : Divides p before after) :
    (before ++ after).takeWhile p = before := by
  rw [List.takeWhile_append_of_pos h.before]
  cases after with
  | nil => exact List.append_nil before
  | cons x after =>
    have hx := h.after x List.mem_cons_self
    rw [List.takeWhile_cons_of_neg (by rw [hx]; exact Bool.false_ne_true), List.append_nil]

theorem Divides.unique (h : Divides p before after) (h' : Divides p before' after')
    (heq : before ++ after = before' ++ after') : before = before' ∧ after = after' := by
  have hbefore : before = before' := by
    rw [← h.takeWhile, heq, h'.takeWhile]
  subst hbefore
  exact ⟨rfl, List.append_cancel_left heq⟩

theorem exists_divides {key : α → ℕ} {xs : List α}
    (h : xs.Pairwise fun a b => key a ≤ key b) (bound : ℕ) :
    ∃ before after, xs = before ++ after ∧
      Divides (fun x => decide (key x ≤ bound)) before after := by
  induction xs with
  | nil => exact ⟨[], [], rfl, List.forall_mem_nil _, List.forall_mem_nil _⟩
  | cons x xs ih =>
    obtain ⟨hx, hxs⟩ := List.pairwise_cons.mp h
    by_cases hle : key x ≤ bound
    · obtain ⟨before, after, rfl, hbefore, hafter⟩ := ih hxs
      exact ⟨x :: before, after, rfl,
        List.forall_mem_cons.mpr ⟨decide_eq_true hle, hbefore⟩, hafter⟩
    · -- nothing behind it is smaller
      refine ⟨[], x :: xs, rfl, List.forall_mem_nil _, List.forall_mem_cons.mpr
        ⟨decide_eq_false hle, fun y hy => decide_eq_false ?_⟩⟩
      have := hx y hy
      omega

end DbgScope
