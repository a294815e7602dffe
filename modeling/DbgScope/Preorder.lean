import Mathlib.Data.Tree.Basic
import Mathlib.Logic.Relation
import Mathlib.Tactic

/-!
# The nodes of a binary graph in preorder

A graph whose nodes have a left and a right link, either of which may lead nowhere; a node that
cannot be read has neither. `Preorder` lists the nodes that can be read from a start on, each when
it is first come to, left before right: from nothing seen, these are the readable nodes that can be
reached (`Preorder.mem_iff`), and the list exists wherever the links stay within finitely many nodes
(`exists_preorder`). `Unfolds` says that the links spell a finite tree.
-/

namespace DbgScope

variable {α : Type}

abbrev BinaryLinks (α : Type) := α → Option (Option α × Option α)

def BinaryLinks.Leads (links : BinaryLinks α) (a b : α) : Prop :=
  ∃ left right, links a = some (left, right) ∧ (left = some b ∨ right = some b)

def preorder : BinaryTree α → List α
  | .nil => []
  | .node a left right => a :: (preorder left ++ preorder right)

/-- The links from a start spell a tree. -/
inductive Unfolds (links : BinaryLinks α) : Option α → BinaryTree α → Prop
  | nil : Unfolds links none .nil
  | node {a : α} {left right : Option α} {below below' : BinaryTree α}
      (hlinks : links a = some (left, right)) (hleft : Unfolds links left below)
      (hright : Unfolds links right below') : Unfolds links (some a) (.node a below below')

theorem Unfolds.readable {links : BinaryLinks α} {a b : α} {tree : BinaryTree α}
    (h : Unfolds links (some a) tree) (hpath : Relation.ReflTransGen links.Leads a b) :
    (links b).isSome := by
  induction hpath using Relation.ReflTransGen.head_induction_on generalizing tree with
  | refl =>
    cases h with
    | node hlinks _ _ => rw [hlinks]; rfl
  | head hstep _ ih =>
    obtain ⟨left, right, hlinks, hto⟩ := hstep
    cases h with
    | node hlinks' hleft hright =>
      obtain ⟨rfl, rfl⟩ := Prod.mk.inj (Option.some.inj (hlinks.symm.trans hlinks'))
      rcases hto with rfl | rfl
      · exact ih hleft
      · exact ih hright

def UnfoldsAll (links : BinaryLinks α) (starts : List α) (trees : List (BinaryTree α)) : Prop :=
  List.Forall₂ (fun a tree => Unfolds links (some a) tree) starts trees

theorem UnfoldsAll.of_option {links : BinaryLinks α} {start : Option α} {rest : List α}
    {trees : List (BinaryTree α)} (h : UnfoldsAll links (start.toList ++ rest) trees) :
    ∃ tree trees', Unfolds links start tree ∧ UnfoldsAll links rest trees' ∧
      trees.flatMap preorder = preorder tree ++ trees'.flatMap preorder := by
  cases start with
  | none => exact ⟨.nil, trees, .nil, h, rfl⟩
  | some a =>
    obtain ⟨tree, trees', htree, htrees, rfl⟩ := List.forall₂_cons_left_iff.mp h
    exact ⟨tree, trees', htree, htrees, List.flatMap_cons⟩

theorem UnfoldsAll.visit {links : BinaryLinks α} {a : α} {left right : Option α} {rest : List α}
    {trees : List (BinaryTree α)} (hlinks : links a = some (left, right))
    (h : UnfoldsAll links (left.toList ++ (right.toList ++ rest)) trees) :
    ∃ trees', UnfoldsAll links (a :: rest) trees' ∧
      trees'.flatMap preorder = a :: trees.flatMap preorder := by
  obtain ⟨tree, more, hleft, hmore, hflat⟩ := h.of_option
  obtain ⟨tree', trees', hright, htrees, hflat'⟩ := hmore.of_option
  refine ⟨.node a tree tree' :: trees', .cons (.node hlinks hleft hright) htrees, ?_⟩
  rw [List.flatMap_cons, preorder, hflat, hflat', List.cons_append, List.append_assoc]

variable [DecidableEq α]

/-- The readable nodes from a start on in the order they are first come to, and the nodes come to,
those of `seen` before. -/
inductive Preorder (links : BinaryLinks α) :
    Option α → Finset α → List α → Finset α → Prop
  | nowhere {seen : Finset α} : Preorder links none seen [] seen
  | again {a : α} {seen : Finset α} (hseen : a ∈ seen) : Preorder links (some a) seen [] seen
  | missing {a : α} {seen : Finset α} (hnew : a ∉ seen) (hlinks : links a = none) :
      Preorder links (some a) seen [] (insert a seen)
  | visit {a : α} {left right : Option α} {seen between after : Finset α} {order order' : List α}
      (hnew : a ∉ seen) (hlinks : links a = some (left, right))
      (hleft : Preorder links left (insert a seen) order between)
      (hright : Preorder links right between order' after) :
      Preorder links (some a) seen (a :: (order ++ order')) after

/-- The same from several nodes, one after the other. -/
inductive PreorderAll (links : BinaryLinks α) :
    List α → Finset α → List α → Finset α → Prop
  | nil {seen : Finset α} : PreorderAll links [] seen [] seen
  | cons {a : α} {rest : List α} {seen between after : Finset α} {order order' : List α}
      (hstart : Preorder links (some a) seen order between)
      (hrest : PreorderAll links rest between order' after) :
      PreorderAll links (a :: rest) seen (order ++ order') after

section Preorder

variable {links : BinaryLinks α} {start : Option α} {seen after : Finset α} {order : List α}
  {a : α}

theorem Preorder.subset (h : Preorder links start seen order after) : seen ⊆ after := by
  induction h with
  | nowhere => exact Finset.Subset.refl _
  | again => exact Finset.Subset.refl _
  | missing => exact Finset.subset_insert _ _
  | visit _ _ _ _ ihleft ihright => exact ((Finset.subset_insert _ _).trans ihleft).trans ihright

theorem Preorder.start_mem (h : Preorder links (some a) seen order after) : a ∈ after := by
  cases h with
  | again hseen => exact hseen
  | missing => exact Finset.mem_insert_self a seen
  | visit _ _ hleft hright => exact hright.subset (hleft.subset (Finset.mem_insert_self a seen))

theorem Preorder.fresh (h : Preorder links start seen order after) :
    ∀ b ∈ order, b ∉ seen ∧ b ∈ after := by
  induction h with
  | nowhere => exact List.forall_mem_nil _
  | again => exact List.forall_mem_nil _
  | missing => exact List.forall_mem_nil _
  | @visit a left right seen between after order order' hnew hlinks hleft hright ihleft ihright =>
    intro b hb
    rcases List.mem_cons.mp hb with rfl | hb
    · exact ⟨hnew, hright.subset (hleft.subset (Finset.mem_insert_self _ seen))⟩
    rcases List.mem_append.mp hb with hb | hb
    · obtain ⟨hnotSeen, hbetween⟩ := ihleft b hb
      exact ⟨fun hmem => hnotSeen (Finset.mem_insert_of_mem hmem), hright.subset hbetween⟩
    · obtain ⟨hnotBetween, hafter⟩ := ihright b hb
      exact ⟨fun hmem => hnotBetween (hleft.subset (Finset.mem_insert_of_mem hmem)), hafter⟩

theorem Preorder.nodup (h : Preorder links start seen order after) : order.Nodup := by
  induction h with
  | nowhere => exact List.nodup_nil
  | again => exact List.nodup_nil
  | missing => exact List.nodup_nil
  | @visit a left right seen between after order order' hnew hlinks hleft hright ihleft ihright =>
    refine List.nodup_cons.mpr ⟨fun hmem => ?_, List.nodup_append.mpr ⟨ihleft, ihright, ?_⟩⟩
    · rcases List.mem_append.mp hmem with hmem | hmem
      · exact (hleft.fresh a hmem).1 (Finset.mem_insert_self a seen)
      · exact (hright.fresh a hmem).1 (hleft.subset (Finset.mem_insert_self a seen))
    · rintro b hb c hc rfl
      exact (hright.fresh b hc).1 (hleft.fresh b hb).2

/-- What is come to was seen before, is listed, or cannot be read. -/
theorem Preorder.cases_mem (h : Preorder links start seen order after) :
    ∀ b ∈ after, b ∈ seen ∨ b ∈ order ∨ links b = none := by
  induction h with
  | nowhere => exact fun b hb => Or.inl hb
  | again => exact fun b hb => Or.inl hb
  | missing hnew hlinks =>
    intro b hb
    rcases Finset.mem_insert.mp hb with rfl | hb
    · exact Or.inr (Or.inr hlinks)
    · exact Or.inl hb
  | visit hnew hlinks hleft hright ihleft ihright =>
    intro b hb
    rcases ihright b hb with hbetween | hlisted | hmissing
    · rcases ihleft b hbetween with hseen | hlisted | hmissing
      · rcases Finset.mem_insert.mp hseen with rfl | hseen
        · exact Or.inr (Or.inl List.mem_cons_self)
        · exact Or.inl hseen
      · exact Or.inr (Or.inl (List.mem_cons_of_mem _ (List.mem_append_left _ hlisted)))
      · exact Or.inr (Or.inr hmissing)
    · exact Or.inr (Or.inl (List.mem_cons_of_mem _ (List.mem_append_right _ hlisted)))
    · exact Or.inr (Or.inr hmissing)

theorem Preorder.closed (h : Preorder links start seen order after) :
    ∀ b ∈ order, ∀ c, links.Leads b c → c ∈ after := by
  induction h with
  | nowhere => exact List.forall_mem_nil _
  | again => exact List.forall_mem_nil _
  | missing => exact List.forall_mem_nil _
  | @visit a left right seen between after order order' hnew hlinks hleft hright ihleft ihright =>
    intro b hb c hc
    rcases List.mem_cons.mp hb with rfl | hb
    · obtain ⟨left', right', hlinks', hto⟩ := hc
      obtain ⟨rfl, rfl⟩ := Prod.mk.inj (Option.some.inj (hlinks.symm.trans hlinks'))
      rcases hto with rfl | rfl
      · exact hright.subset hleft.start_mem
      · exact hright.start_mem
    rcases List.mem_append.mp hb with hb | hb
    · exact hright.subset (ihleft b hb c hc)
    · exact ihright b hb c hc

theorem Preorder.reached (h : Preorder links start seen order after) :
    ∀ b ∈ order, (links b).isSome ∧
      ∃ a, start = some a ∧ Relation.ReflTransGen links.Leads a b := by
  induction h with
  | nowhere => exact List.forall_mem_nil _
  | again => exact List.forall_mem_nil _
  | missing => exact List.forall_mem_nil _
  | @visit a left right seen between after order order' hnew hlinks hleft hright ihleft ihright =>
    intro b hb
    rcases List.mem_cons.mp hb with rfl | hb
    · exact ⟨by rw [hlinks]; rfl, b, rfl, .refl⟩
    rcases List.mem_append.mp hb with hb | hb
    · obtain ⟨hread, next, rfl, hpath⟩ := ihleft b hb
      exact ⟨hread, a, rfl, .head ⟨_, _, hlinks, Or.inl rfl⟩ hpath⟩
    · obtain ⟨hread, next, rfl, hpath⟩ := ihright b hb
      exact ⟨hread, a, rfl, .head ⟨_, _, hlinks, Or.inr rfl⟩ hpath⟩

/-- **From nothing seen, the nodes listed are the readable ones that can be reached.** -/
theorem Preorder.mem_iff (h : Preorder links start ∅ order after) {b : α} :
    b ∈ order ↔ (links b).isSome ∧ ∃ a, start = some a ∧ Relation.ReflTransGen links.Leads a b := by
  refine ⟨h.reached b, ?_⟩
  rintro ⟨hread, a, rfl, hpath⟩
  have hcome : b ∈ after := by
    clear hread
    induction hpath with
    | refl => exact h.start_mem
    | @tail b c hpath hstep ih =>
      rcases h.cases_mem b ih with hseen | hlisted | hmissing
      · exact absurd hseen (Finset.notMem_empty b)
      · exact h.closed b hlisted c hstep
      · obtain ⟨_, _, hlinks, -⟩ := hstep
        rw [hmissing] at hlinks
        cases hlinks
  rcases h.cases_mem b hcome with hseen | hlisted | hmissing
  · exact absurd hseen (Finset.notMem_empty b)
  · exact hlisted
  · rw [hmissing] at hread
    cases hread

theorem exists_preorder (nodes : Finset α) (hnodes : ∀ a b, links.Leads a b → b ∈ nodes)
    (seen : Finset α) (start : Option α) (hstart : ∀ a, start = some a → a ∈ nodes) :
    ∃ order after, Preorder links start seen order after := by
  induction hn : (nodes \ seen).card using Nat.strong_induction_on generalizing seen start with
  | _ n ih =>
    rcases start with _ | a
    · exact ⟨[], seen, .nowhere⟩
    by_cases hseen : a ∈ seen
    · exact ⟨[], seen, .again hseen⟩
    rcases hlinks : links a with _ | ⟨left, right⟩
    · exact ⟨[], insert a seen, .missing hseen hlinks⟩
    -- visiting the node leaves fewer to come to
    have hfewer : ∀ seen', insert a seen ⊆ seen' → (nodes \ seen').card < n := by
      intro seen' hsub
      subst hn
      refine Finset.card_lt_card (Finset.ssubset_iff_of_subset ?_ |>.mpr ⟨a, ?_, ?_⟩)
      · exact Finset.sdiff_subset_sdiff (Finset.Subset.refl nodes)
          ((Finset.subset_insert a seen).trans hsub)
      · exact Finset.mem_sdiff.mpr ⟨hstart a rfl, hseen⟩
      · exact fun hmem => (Finset.mem_sdiff.mp hmem).2 (hsub (Finset.mem_insert_self a seen))
    obtain ⟨order, between, hleft⟩ := ih _ (hfewer _ (Finset.Subset.refl _)) (insert a seen) left
      (fun b hb => hnodes a b ⟨left, right, hlinks, Or.inl hb⟩) rfl
    obtain ⟨order', after, hright⟩ := ih _ (hfewer _ hleft.subset) between right
      (fun b hb => hnodes a b ⟨left, right, hlinks, Or.inr hb⟩) rfl
    exact ⟨a :: (order ++ order'), after, .visit hseen hlinks hleft hright⟩

/-! ## One node after the other -/

variable {rest : List α} {left right : Option α}

theorem PreorderAll.of_option {between : Finset α} {order' : List α}
    (hstart : Preorder links start seen order between)
    (hrest : PreorderAll links rest between order' after) :
    PreorderAll links (start.toList ++ rest) seen (order ++ order') after := by
  cases start with
  | none =>
    cases hstart
    exact hrest
  | some a => exact .cons hstart hrest

theorem PreorderAll.of_seen (h : PreorderAll links (a :: rest) seen order after)
    (hseen : a ∈ seen) : PreorderAll links rest seen order after := by
  cases h with
  | cons hstart hrest =>
    cases hstart with
    | again => exact hrest
    | missing hnew => exact absurd hseen hnew
    | visit hnew => exact absurd hseen hnew

theorem PreorderAll.of_missing (h : PreorderAll links (a :: rest) seen order after)
    (hnew : a ∉ seen) (hlinks : links a = none) :
    PreorderAll links rest (insert a seen) order after := by
  cases h with
  | cons hstart hrest =>
    cases hstart with
    | again hseen => exact absurd hseen hnew
    | missing => exact hrest
    | visit _ hlinks' =>
      rw [hlinks] at hlinks'
      cases hlinks'

theorem PreorderAll.of_visit (h : PreorderAll links (a :: rest) seen order after)
    (hnew : a ∉ seen) (hlinks : links a = some (left, right)) :
    ∃ order', order = a :: order' ∧
      PreorderAll links (left.toList ++ (right.toList ++ rest)) (insert a seen) order' after := by
  cases h with
  | cons hstart hrest =>
    cases hstart with
    | again hseen => exact absurd hseen hnew
    | missing _ hnone =>
      rw [hlinks] at hnone
      cases hnone
    | visit _ hlinks' hleft hright =>
      obtain ⟨rfl, rfl⟩ := Prod.mk.inj (Option.some.inj (hlinks.symm.trans hlinks'))
      refine ⟨_, List.cons_append, ?_⟩
      rw [List.append_assoc]
      exact .of_option hleft (.of_option hright hrest)

end Preorder

end DbgScope
