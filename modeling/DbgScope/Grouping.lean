import Mathlib.Data.List.AList
import Mathlib.Algebra.BigOperators.Group.List.Lemmas
import Mathlib.Algebra.Ring.Nat

/-!
# Hash maps filled by grouping

A hash map is a list of entries with distinct keys. It is filled one item at a time, each item
changing the entry of its own key, and it is given back in an order nobody chose. What one key holds
at the end is then a fold over the items of that key, whatever came between them.
-/

namespace DbgScope

variable {α κ ν : Type}

/-- The order in which a hash map or a hash set gives what it holds. -/
structure Iteration (α : Type) where
  run : List α → List α
  perm : ∀ held, (run held).Perm held

def Iteration.asStored : Iteration α := ⟨id, fun held => .refl held⟩

def Iteration.backwards : Iteration α := ⟨List.reverse, List.reverse_perm⟩

/-- A hash map: its entries, no two of one key. -/
abbrev Table (κ ν : Type) := AList fun _ : κ => ν

variable [DecidableEq κ]

/-- What is under a key, `start` where nothing is yet, changed in place. -/
def Table.entry (table : Table κ ν) (key : κ) (start : ν) (change : ν → ν) : Table κ ν :=
  table.insert key (change ((table.lookup key).getD start))

@[simp] theorem Table.lookup_entry_self (table : Table κ ν) (key : κ) (start : ν)
    (change : ν → ν) :
    (table.entry key start change).lookup key =
      some (change ((table.lookup key).getD start)) :=
  AList.lookup_insert table

theorem Table.lookup_entry_of_ne (table : Table κ ν) {key other : κ} (start : ν)
    (change : ν → ν) (h : other ≠ key) :
    (table.entry key start change).lookup other = table.lookup other :=
  AList.lookup_insert_ne h

def grouped (key : α → κ) (start : α → ν) (change : ν → α → ν) (table : Table κ ν)
    (items : List α) : Table κ ν :=
  items.foldl (fun table item => table.entry (key item) (start item) (change · item)) table

section Grouped

variable {key : α → κ} {start : α → ν} {change : ν → α → ν} {table : Table κ ν} {items : List α}
  {item : α} {k : κ} {v : ν}

@[simp] theorem grouped_nil : grouped key start change table [] = table := rfl

@[simp] theorem grouped_cons :
    grouped key start change table (item :: items) =
      grouped key start change (table.entry (key item) (start item) (change · item)) items :=
  rfl

theorem lookup_grouped_of_some (h : table.lookup k = some v) :
    (grouped key start change table items).lookup k =
      some ((items.filter (key · = k)).foldl change v) := by
  induction items generalizing table v with
  | nil => simpa using h
  | cons item items ih =>
    by_cases hk : key item = k
    · subst hk
      have hentry : (table.entry (key item) (start item) (change · item)).lookup (key item) =
          some (change v item) := by
        rw [Table.lookup_entry_self, h, Option.getD_some]
      simpa using ih hentry
    · have hentry := (table.lookup_entry_of_ne (start item) (change · item) (Ne.symm hk)).trans h
      simpa [hk] using ih hentry

theorem lookup_grouped_of_none (h : table.lookup k = none) :
    (grouped key start change table items).lookup k =
      (items.filter (key · = k)).head?.map fun first =>
        (items.filter (key · = k)).foldl change (start first) := by
  induction items generalizing table with
  | nil => simpa using h
  | cons item items ih =>
    by_cases hk : key item = k
    · subst hk
      have hentry : (table.entry (key item) (start item) (change · item)).lookup (key item) =
          some (change (start item) item) := by
        rw [Table.lookup_entry_self, h, Option.getD_none]
      simpa using lookup_grouped_of_some hentry
    · have hentry := (table.lookup_entry_of_ne (start item) (change · item) (Ne.symm hk)).trans h
      simpa [hk] using ih hentry

/-- **What one key holds is a fold over the items of that key.** -/
theorem lookup_grouped :
    (grouped key start change ∅ items).lookup k =
      (items.filter (key · = k)).head?.map fun first =>
        (items.filter (key · = k)).foldl change (start first) :=
  lookup_grouped_of_none (AList.lookup_empty k)

theorem mem_grouped : k ∈ grouped key start change ∅ items ↔ ∃ item ∈ items, key item = k := by
  rw [← AList.lookup_isSome, lookup_grouped, Option.isSome_map, Option.isSome_iff_ne_none,
    Ne, List.head?_eq_none_iff, List.filter_eq_nil_iff]
  simp

end Grouped

theorem sum_counts {keys : List κ} {key : α → κ} {items : List α} (hkeys : keys.Nodup)
    (hmem : ∀ k, k ∈ keys ↔ ∃ item ∈ items, key item = k) :
    (keys.map fun k => (items.filter (key · = k)).length).sum = items.length := by
  have hperm : keys.Perm (items.map key).dedup := by
    refine (List.perm_ext_iff_of_nodup hkeys (List.nodup_dedup _)).mpr fun k => ?_
    rw [hmem, List.mem_dedup, List.mem_map]
  have hcount : ∀ k, (items.filter (key · = k)).length = (items.map key).count k := by
    intro k
    rw [List.count_eq_countP, List.countP_map, List.countP_eq_length_filter]
    rfl
  calc (keys.map fun k => (items.filter (key · = k)).length).sum
      = (keys.map fun k => (items.map key).count k).sum := by simp only [hcount]
    _ = ((items.map key).dedup.map fun k => (items.map key).count k).sum :=
        (hperm.map _).sum_eq
    _ = items.length := by
        rw [List.sum_map_count_dedup_eq_length, List.length_map]

/-! ## Positions of a list's items -/

section Positions

variable {items : List α} {p : α → Bool} {i : ℕ}

def positions (p : α → Bool) (items : List α) : List ℕ :=
  (items.zipIdx.filter fun entry => p entry.1).map Prod.snd

/-- **They come in ascending order.** -/
theorem positions_pairwise : (positions p items).Pairwise (· < ·) := by
  have hall : (items.zipIdx.map Prod.snd).Pairwise (· < ·) := by
    rw [List.zipIdx_map_snd]
    exact List.pairwise_lt_range'
  exact hall.sublist (List.filter_sublist.map _)

theorem mem_positions : i ∈ positions p items ↔ ∃ item, items[i]? = some item ∧ p item = true := by
  simp only [positions, List.mem_map, List.mem_filter]
  constructor
  · rintro ⟨⟨item, j⟩, ⟨hmem, hp⟩, rfl⟩
    exact ⟨item, List.mem_zipIdx_iff_getElem?.mp hmem, hp⟩
  · rintro ⟨item, hitem, hp⟩
    exact ⟨(item, i), ⟨List.mem_zipIdx_iff_getElem?.mpr hitem, hp⟩, rfl⟩

theorem filterMap_positions : (positions p items).filterMap (items[·]?) = items.filter p := by
  have hread : ∀ entry ∈ items.zipIdx.filter fun entry => p entry.1,
      items[entry.2]? = some entry.1 := fun entry hentry =>
    List.mem_zipIdx_iff_getElem?.mp (List.mem_of_mem_filter hentry)
  have hfirst : (items.zipIdx.filter fun entry => p entry.1).map Prod.fst = items.filter p := by
    conv_rhs => rw [← List.zipIdx_map_fst 0 items, List.filter_map]
    rfl
  rw [positions, List.filterMap_map, ← hfirst, ← List.filterMap_eq_map]
  exact List.filterMap_congr hread

end Positions

end DbgScope
