import DbgScope.Grouping

/-!
# Counting by kind, with a bounded sample

Items come one at a time and each has a kind. `kinds` are the kinds in the order they first came,
`total` is how many items of a kind came, and `sample` keeps the items that were among the first
few of their kind. Each has one lemma for an item more, and what the sample left out is counted by
the totals (`length_sample_add`).
-/

namespace DbgScope.Tally

variable {α κ : Type} [DecidableEq κ]

def kinds (key : α → κ) (items : List α) : List κ := (items.map key).eraseDups

def total (key : α → κ) (items : List α) (kind : κ) : ℕ := (items.filter (key · = kind)).length

/-- The items that were among the first `cap` of their kind, in the order they came. -/
def sample (key : α → κ) (cap : ℕ) (items : List α) : List α :=
  (items.zipIdx.filter fun entry => total key (items.take entry.2) (key entry.1) < cap).map Prod.fst

variable {key : α → κ} {cap : ℕ} {items : List α}

theorem mem_kinds {kind : κ} : kind ∈ kinds key items ↔ ∃ item ∈ items, key item = kind := by
  rw [kinds, List.mem_eraseDups, List.mem_map]

theorem kinds_snoc (item : α) : kinds key (items ++ [item]) =
    if key item ∈ kinds key items then kinds key items else kinds key items ++ [key item] := by
  have hmem : key item ∈ kinds key items ↔ key item ∈ items.map key := List.mem_eraseDups
  unfold kinds at hmem ⊢
  rw [List.map_append, List.map_singleton, List.eraseDups_append]
  by_cases h : key item ∈ items.map key
  · have hold : [key item].removeAll (items.map key) = [] := by
      rw [List.removeAll, List.filter_eq_nil_iff]
      simpa using h
    rw [if_pos (hmem.mpr h), hold]
    simp
  · have hnew : [key item].removeAll (items.map key) = [key item] := by
      rw [List.removeAll, List.filter_eq_self]
      simpa using h
    rw [if_neg (hmem.not.mpr h), hnew, List.eraseDups_cons]
    simp

theorem nodup_kinds : (kinds key items).Nodup := by
  induction items using List.reverseRecOn with
  | nil => exact List.nodup_nil
  | append_singleton items item ih =>
    rw [kinds_snoc]
    split
    · exact ih
    · next h => exact List.nodup_append.mpr ⟨ih, List.nodup_singleton _, by
        rintro kind hkind _ hitem rfl
        exact h (List.mem_singleton.mp hitem ▸ hkind)⟩

theorem total_snoc (item : α) (kind : κ) : total key (items ++ [item]) kind =
    total key items kind + if key item = kind then 1 else 0 := by
  unfold total
  rw [List.filter_append, List.length_append]
  split <;> simp_all

theorem total_pos_iff {kind : κ} : 0 < total key items kind ↔ kind ∈ kinds key items := by
  rw [total, List.length_pos_iff_exists_mem, mem_kinds]
  simp

theorem sample_snoc (item : α) : sample key cap (items ++ [item]) =
    sample key cap items ++ if total key items (key item) < cap then [item] else [] := by
  unfold sample
  rw [List.zipIdx_append, List.filter_append, List.map_append]
  congr 1
  · congr 1
    refine List.filter_congr fun entry hentry => ?_
    obtain ⟨-, hlt, -⟩ := List.mem_zipIdx hentry
    rw [List.take_append_of_le_length (by omega)]
  · rw [Nat.zero_add]
    by_cases h : total key items (key item) < cap <;> simp [h]

theorem total_sample (kind : κ) :
    total key (sample key cap items) kind = min (total key items kind) cap := by
  induction items using List.reverseRecOn with
  | nil => simp [sample, total]
  | append_singleton items item ih =>
    rw [sample_snoc, total_snoc]
    by_cases hkind : key item = kind
    · subst hkind
      split
      · rw [total_snoc, ih]
        simp only [if_true]
        omega
      · rw [List.append_nil, ih]
        simp only [if_true]
        omega
    · rw [if_neg hkind, Nat.add_zero, ← ih]
      split
      · rw [total_snoc, if_neg hkind, Nat.add_zero]
      · rw [List.append_nil]

theorem sum_totals : ((kinds key items).map (total key items)).sum = items.length :=
  sum_counts nodup_kinds fun _ => mem_kinds

/-- **What the sample left out is what the totals have past the cap.** -/
theorem length_sample_add (hcap : 0 < cap) : (sample key cap items).length +
    ((kinds key items).map fun kind => total key items kind - cap).sum = items.length := by
  have hsample : ((kinds key items).map (total key (sample key cap items))).sum =
      (sample key cap items).length := by
    refine sum_counts nodup_kinds fun kind => ?_
    have hkind : kind ∈ kinds key (sample key cap items) ↔ kind ∈ kinds key items := by
      rw [← total_pos_iff, ← total_pos_iff, total_sample]
      omega
    rw [← hkind, mem_kinds]
  have hitems : ((kinds key items).map (total key items)).sum = items.length := sum_totals
  rw [← hsample, ← hitems, ← List.sum_map_add]
  congr 1
  refine List.map_congr_left fun kind _ => ?_
  rw [total_sample]
  omega

/-! ## Kinds with a place of their own -/

theorem lookup_zipIdx (kind : κ) (kinds : List κ) : kinds.zipIdx.lookup kind =
    if kind ∈ kinds then some (kinds.idxOf kind) else none := by
  have hfrom : ∀ start, (kinds.zipIdx start).lookup kind =
      if kind ∈ kinds then some (start + kinds.idxOf kind) else none := by
    induction kinds with
    | nil => simp
    | cons other kinds ih =>
      intro start
      rw [List.zipIdx_cons, List.lookup_cons, List.idxOf_cons]
      by_cases hkind : other = kind
      · subst hkind
        simp
      · simp only [beq_false_of_ne (Ne.symm hkind), beq_false_of_ne hkind, List.mem_cons,
          Ne.symm hkind, false_or, cond_false, ih]
        split
        · rw [Option.some.injEq]
          omega
        · rfl
  simpa using hfrom 0

theorem modify_idxOf {β : Type} {kind : κ} {kinds : List κ} (hmem : kind ∈ kinds)
    (hnodup : kinds.Nodup) (f : κ → β) (change : β → β) :
    (kinds.map f).modify (kinds.idxOf kind) change =
      kinds.map fun other => if other = kind then change (f other) else f other := by
  induction kinds with
  | nil => cases hmem
  | cons other kinds ih =>
    obtain ⟨hnot, hnodup⟩ := List.nodup_cons.mp hnodup
    by_cases hkind : other = kind
    · subst hkind
      rw [List.idxOf_cons_self, List.map_cons, List.map_cons, if_pos rfl, List.modify_zero_cons]
      congr 1
      refine List.map_congr_left fun entry hentry => ?_
      rw [if_neg fun heq : entry = other => hnot (heq ▸ hentry)]
    · rw [List.idxOf_cons_ne _ hkind, List.map_cons, List.map_cons, if_neg hkind,
        List.modify_succ_cons,
        ih (List.mem_of_ne_of_mem (Ne.symm hkind) hmem) hnodup]

end DbgScope.Tally
