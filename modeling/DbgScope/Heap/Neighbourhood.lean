import DbgScope.PartitionPoint
import DbgScope.Pool.Coverage

/-!
# The chunk an address is in

`from_pool_snapshot` and `neighbourhood_at` of `src/heap.rs`: the spans of a walk as one list in the
order of their user addresses, and the one an address is in. The list is halved at the address, and
then the two entries beside it are looked at (`neighbourhoodAt_append`). A span that contains the
address but has another one listed between itself and the address is not found, whatever it is.
-/

namespace DbgScope.Heap

open DbgScope.Pool (PoolBackend PoolState PoolSpan PoolSnapshot WalkCoverage WalkStalls
  DiagnosticShape PoolLayout PoolMemory SnapshotError History wordBytes
  walkUserSegmentHeaps)

/-! ## Allocations -/

inductive HeapBackend
  | lfh
  | vs
  | segment
  | large
  deriving DecidableEq, Repr

def HeapBackend.ofPool : PoolBackend → HeapBackend
  | .lfh => .lfh
  | .vs => .vs
  | .segment => .segment
  | .large => .large

inductive HeapState
  | allocated
  | reusableFree
  | cachedFree
  | unreadable
  | uncommitted
  deriving DecidableEq, Repr

def HeapState.isChunk : HeapState → Bool
  | .allocated | .reusableFree | .cachedFree => true
  | .unreadable | .uncommitted => false

def HeapState.ofPool : PoolState → HeapState
  | .allocated => .allocated
  | .reusableFree => .reusableFree
  | .cachedFree => .cachedFree
  | .unreadable => .unreadable
  | .uncommitted => .uncommitted

structure HeapAllocation where
  heap : ℕ
  backend : HeapBackend
  state : HeapState
  headerAddress : ℕ
  userAddress : ℕ
  capacity : ℕ
  requestedSize : Option ℕ
  subsegment : Option ℕ
  sizeClass : ℕ
  deriving DecidableEq, Repr

namespace HeapAllocation

/-- One past the last byte: the source's `end`. -/
def allocationEnd (allocation : HeapAllocation) : ℕ :=
  saturatingAdd allocation.userAddress allocation.capacity

def contains (allocation : HeapAllocation) (address : ℕ) : Bool :=
  decide (allocation.headerAddress ≤ address) && decide (address < allocation.allocationEnd)

def ofSpan (span : PoolSpan) : HeapAllocation where
  heap := span.heap.heap
  backend := .ofPool span.backend
  state := .ofPool span.state
  headerAddress := span.headerAddress
  userAddress := span.usableAddress
  capacity := span.size
  requestedSize := span.requestedSize
  subsegment := span.subsegment
  sizeClass := span.sizeClass

end HeapAllocation

/-! ## The list -/

structure HeapWalkReport where
  coverage : WalkCoverage
  totalChunks : ℕ
  allocatedChunks : ℕ
  diagnosticCount : ℕ
  unreadableGaps : ℕ
  uncommittedGaps : ℕ
  refusedHeaders : ℕ
  unplacedBytes : ℕ
  stalls : WalkStalls

structure HeapDiagnosticReport where
  categories : List DiagnosticShape
  examples : List String

def allocationLe (a b : HeapAllocation) : Prop :=
  toLex (a.userAddress, a.heap) ≤ toLex (b.userAddress, b.heap)

instance : DecidableRel allocationLe := fun _ _ => inferInstanceAs (Decidable (_ ≤ _))

instance : IsTrans HeapAllocation allocationLe := ⟨fun _ _ _ => le_trans⟩

instance : Std.Total allocationLe := ⟨fun _ _ => le_total _ _⟩

def countState (state : HeapState) (allocations : List HeapAllocation) : ℕ :=
  allocations.countP fun allocation => decide (allocation.state = state)

def fromPoolSnapshot (snapshot : PoolSnapshot) :
    List HeapAllocation × HeapWalkReport × HeapDiagnosticReport :=
  let allocations := (snapshot.spans.map HeapAllocation.ofSpan).insertionSort allocationLe
  (allocations,
    { coverage := match snapshot.complete, snapshot.budgetExpired with
        | true, _ => .complete
        | false, true => .budgetExpired
        | false, false => .partly
      totalChunks := allocations.length
      allocatedChunks := countState .allocated allocations
      diagnosticCount := (snapshot.diagnostics.shapes.map DiagnosticShape.total).sum
      unreadableGaps := countState .unreadable allocations
      uncommittedGaps := countState .uncommitted allocations
      refusedHeaders := snapshot.refusedChunks
      unplacedBytes := snapshot.unplacedBytes
      stalls := snapshot.stalls },
    { categories := snapshot.diagnostics.shapes
      examples := snapshot.diagnostics.examples })

/-! ## The search -/

structure HeapNeighbourhood where
  allocation : HeapAllocation
  /-- Signed displacement from the user address; in the allocator's header it is negative. -/
  offset : ℤ
  previous : Option HeapAllocation
  next : Option HeapAllocation
  deriving DecidableEq, Repr

/-- `i64::try_from(address - user_address)`, or the end of the range it is past. -/
def offsetFrom (address userAddress : ℕ) : ℤ :=
  let displacement : ℤ := address - userAddress
  if -2 ^ 63 ≤ displacement ∧ displacement < 2 ^ 63 then displacement
  else if address < userAddress then -2 ^ 63
  else 2 ^ 63 - 1

def sameHeap (allocation candidate : HeapAllocation) : Bool :=
  decide (candidate.heap = allocation.heap) && decide (candidate.backend = allocation.backend) &&
    decide (candidate.subsegment = allocation.subsegment) && candidate.state.isChunk

/-- Where the entry that contains the address is, if it is one of the two beside it. -/
def positionAt (allocations : List HeapAllocation) (address : ℕ) : Option ℕ :=
  let split := partitionPoint (fun allocation => decide (allocation.userAddress ≤ address))
    allocations
  ((checkedSub split 1).filter fun index =>
      (allocations[index]?).any fun allocation => allocation.contains address).or
    (((allocations[split]?).filter fun allocation => allocation.contains address).map fun _ =>
      split)

def neighbourhoodAt (allocations : List HeapAllocation) (address : ℕ) :
    Option HeapNeighbourhood := do
  let position ← positionAt allocations address
  let allocation ← allocations[position]?
  pure
    { allocation
      offset := offsetFrom address allocation.userAddress
      previous := ((checkedSub position 1).bind fun index => allocations[index]?).filter
        fun candidate => sameHeap allocation candidate &&
          candidate.allocationEnd == allocation.headerAddress
      next := (allocations[position + 1]?).filter fun candidate =>
        sameHeap allocation candidate && allocation.allocationEnd == candidate.headerAddress }

def linearSearch (allocations : List HeapAllocation) (address : ℕ) : Option HeapAllocation :=
  (allocations.find? fun allocation =>
      allocation.state.isChunk && allocation.contains address).or
    (allocations.find? fun allocation => allocation.contains address)

/-! ## What stands next to an address -/

section Search

variable {allocations before after : List HeapAllocation} {address : ℕ}
  {allocation other : HeapAllocation} {answer : HeapNeighbourhood}

theorem contains_iff : allocation.contains address = true ↔
    allocation.headerAddress ≤ address ∧ address < allocation.allocationEnd := by
  unfold HeapAllocation.contains
  rw [Bool.and_eq_true, decide_eq_true_iff, decide_eq_true_iff]

abbrev Around (address : ℕ) (before after : List HeapAllocation) : Prop :=
  Divides (fun allocation : HeapAllocation => decide (allocation.userAddress ≤ address)) before
    after

theorem Around.le (h : Around address before after) (hmem : allocation ∈ before) :
    allocation.userAddress ≤ address := of_decide_eq_true (h.before allocation hmem)

theorem Around.lt (h : Around address before after) (hmem : allocation ∈ after) :
    address < allocation.userAddress :=
  Nat.lt_of_not_le (of_decide_eq_false (h.after allocation hmem))

theorem positionAt_concat (h : Around address (before ++ [other]) after) :
    positionAt (before ++ [other] ++ after) address =
      (if other.contains address then some before.length else
        (after.head?.filter fun allocation => allocation.contains address).map
          fun _ => before.length + 1) := by
  have hlast : (before ++ [other] ++ after)[before.length]? = some other := by
    rw [List.append_assoc, List.getElem?_append_right (le_refl _), Nat.sub_self]
    rfl
  have hfirst : (before ++ [other] ++ after)[before.length + 1]? = after.head? := by
    rw [List.getElem?_append_right (by simp), List.length_append, List.length_singleton,
      Nat.sub_self, List.head?_eq_getElem?]
  have hsub : checkedSub (before.length + 1) 1 = some before.length :=
    if_pos (Nat.le_add_left 1 _)
  unfold positionAt
  dsimp only
  rw [h.partitionPoint, List.length_append, List.length_singleton, hsub, hfirst,
    Option.filter_some, hlast, Option.any_some]
  split <;> rfl

theorem positionAt_nil (h : Around address [] after) :
    positionAt after address =
      (after.head?.filter fun allocation => allocation.contains address).map fun _ => 0 := by
  have hpoint : partitionPoint (fun allocation : HeapAllocation =>
      decide (allocation.userAddress ≤ address)) after = 0 := h.partitionPoint
  unfold positionAt
  dsimp only
  rw [hpoint, ← List.head?_eq_getElem?]
  rfl

/-- **What the search answers with**: the last entry that starts at or before the address, or the
first one behind it, if it contains the address. -/
theorem neighbourhoodAt_append (h : Around address before after) :
    (neighbourhoodAt (before ++ after) address).map HeapNeighbourhood.allocation =
      (before.getLast?.filter fun allocation => allocation.contains address).or
        (after.head?.filter fun allocation => allocation.contains address) := by
  have hat : (neighbourhoodAt (before ++ after) address).map HeapNeighbourhood.allocation =
      (positionAt (before ++ after) address).bind fun position => (before ++ after)[position]? := by
    unfold neighbourhoodAt
    cases positionAt (before ++ after) address with
    | none => rfl
    | some position => cases hentry : (before ++ after)[position]? <;> simp [hentry]
  rw [hat]
  rcases List.eq_nil_or_concat before with rfl | ⟨front, last, rfl⟩
  · rw [List.nil_append, positionAt_nil h]
    cases after with
    | nil => rfl
    | cons first after =>
      by_cases hfirst : first.contains address <;> simp [Option.filter_some, hfirst]
  · rw [List.concat_eq_append] at h ⊢
    rw [positionAt_concat h, List.getLast?_concat]
    by_cases hlast : last.contains address
    · simp [Option.filter_some, hlast]
    · cases after with
      | nil => simp [Option.filter_some, hlast]
      | cons first after =>
        by_cases hfirst : first.contains address <;> simp [Option.filter_some, hlast, hfirst]

theorem fromPoolSnapshot_sorted (snapshot : PoolSnapshot) :
    (fromPoolSnapshot snapshot).1.Pairwise fun a b => a.userAddress ≤ b.userAddress := by
  have hsorted := List.pairwise_insertionSort allocationLe
    (snapshot.spans.map HeapAllocation.ofSpan)
  refine hsorted.imp fun {a b} hle => ?_
  rcases Prod.Lex.toLex_le_toLex.mp hle with hlt | ⟨heq, -⟩
  · exact hlt.le
  · exact heq.le

theorem fromPoolSnapshot_perm (snapshot : PoolSnapshot) :
    (fromPoolSnapshot snapshot).1.Perm (snapshot.spans.map HeapAllocation.ofSpan) :=
  List.perm_insertionSort allocationLe _

/-! ## Agreement -/

structure Preferred (allocations : List HeapAllocation) (address : ℕ)
    (allocation : HeapAllocation) : Prop where
  mem : allocation ∈ allocations
  contains : allocation.contains address = true
  chunk : (∃ other ∈ allocations, other.state.isChunk = true ∧ other.contains address = true) →
    allocation.state.isChunk = true

/-- The search answers where the linear one does, with an allocation as good and its exact
displacement. -/
structure Agrees (allocations : List HeapAllocation) (address : ℕ) : Prop where
  isSome : (neighbourhoodAt allocations address).isSome = (linearSearch allocations address).isSome
  answer : ∀ answer, neighbourhoodAt allocations address = some answer →
    Preferred allocations address answer.allocation ∧
      answer.offset = (address : ℤ) - answer.allocation.userAddress

inductive Faces (allocations : List HeapAllocation) (address : ℕ) (allocation : HeapAllocation) :
    Prop
  /-- Its user block is the last to start at or before the address. -/
  | block (before after : List HeapAllocation) (hlist : allocations = before ++ allocation :: after)
      (hstart : allocation.userAddress ≤ address)
      (hafter : ∀ other ∈ after, address < other.userAddress)
  /-- Its user block is the first to start behind the address, and the one in front of it does not
  reach that far. -/
  | header (before after : List HeapAllocation)
      (hlist : allocations = before ++ allocation :: after)
      (hstart : address < allocation.userAddress)
      (hbefore : ∀ other ∈ before, other.userAddress ≤ address)
      (hlast : ∀ other, before.getLast? = some other → other.contains address = false)

/-- Where anything contains the address, an allocation to answer with faces it, no further from it
than a signed word says. -/
def Unobstructed (allocations : List HeapAllocation) (address : ℕ) : Prop :=
  ∀ found, linearSearch allocations address = some found →
    ∃ best, Preferred allocations address best ∧ Faces allocations address best ∧
      address < best.userAddress + 2 ^ 63 ∧ best.userAddress ≤ address + 2 ^ 63

theorem linearSearch_preferred (h : linearSearch allocations address = some allocation) :
    Preferred allocations address allocation := by
  unfold linearSearch at h
  rcases Option.or_eq_some_iff.mp h with hchunk | ⟨hnone, hany⟩
  · have hfound := List.find?_some hchunk
    rw [Bool.and_eq_true] at hfound
    exact ⟨List.mem_of_find?_eq_some hchunk, hfound.2, fun _ => hfound.1⟩
  · have hfound := List.find?_some hany
    refine ⟨List.mem_of_find?_eq_some hany, hfound, ?_⟩
    rintro ⟨other, hmem, hchunk, hcontains⟩
    exact absurd (Bool.and_eq_true_iff.mpr ⟨hchunk, hcontains⟩)
      (List.find?_eq_none.mp hnone other hmem)

theorem linearSearch_isSome : (linearSearch allocations address).isSome = true ↔
    ∃ allocation ∈ allocations, allocation.contains address = true := by
  constructor
  · intro h
    obtain ⟨found, hfound⟩ := Option.isSome_iff_exists.mp h
    have hpreferred := linearSearch_preferred hfound
    exact ⟨found, hpreferred.mem, hpreferred.contains⟩
  · rintro ⟨allocation, hmem, hcontains⟩
    unfold linearSearch
    rw [Option.isSome_or, Bool.or_eq_true]
    exact Or.inr (List.find?_isSome.mpr ⟨allocation, hmem, hcontains⟩)

theorem offsetFrom_eq_iff {userAddress : ℕ} :
    offsetFrom address userAddress = (address : ℤ) - userAddress ↔
      address < userAddress + 2 ^ 63 ∧ userAddress ≤ address + 2 ^ 63 := by
  unfold offsetFrom
  dsimp only
  split
  · omega
  · split <;> omega

theorem neighbourhoodAt_offset (h : neighbourhoodAt allocations address = some answer) :
    answer.offset = offsetFrom address answer.allocation.userAddress := by
  unfold neighbourhoodAt at h
  simp only [Option.bind_eq_bind, Option.bind_eq_some_iff, Option.pure_def,
    Option.some.injEq] at h
  obtain ⟨position, -, allocation, -, rfl⟩ := h
  rfl

section Sorted

variable (hsorted : allocations.Pairwise fun a b => a.userAddress ≤ b.userAddress)

include hsorted

theorem neighbourhoodAt_eq_some_iff :
    (neighbourhoodAt allocations address).map HeapNeighbourhood.allocation = some allocation ↔
      allocation.contains address = true ∧ Faces allocations address allocation := by
  obtain ⟨before, after, rfl, haround⟩ : ∃ before after, allocations = before ++ after ∧
    Around address before after := exists_divides hsorted address
  rw [neighbourhoodAt_append haround, Option.or_eq_some_iff, Option.filter_eq_some_iff,
    Option.filter_eq_some_iff]
  constructor
  · rintro (⟨hlast, hcontains⟩ | ⟨hnone, hfirst, hcontains⟩)
    · obtain ⟨front, rfl⟩ := List.getLast?_eq_some_iff.mp hlast
      refine ⟨hcontains, .block front after (List.append_assoc _ _ _) (haround.le (by simp))
        fun other => haround.lt⟩
    · obtain ⟨rest, rfl⟩ := List.head?_eq_some_iff.mp hfirst
      refine ⟨hcontains, .header before rest rfl (haround.lt (by simp)) (fun other => haround.le)
        fun other hother => ?_⟩
      rw [hother, Option.filter_eq_none_iff] at hnone
      exact Bool.eq_false_iff.mpr (hnone other rfl)
  · rintro ⟨hcontains, hfaces⟩
    cases hfaces with
    | block front rest hlist hstart hafter =>
      have hfront : ∀ other ∈ front, other.userAddress ≤ allocation.userAddress := by
        rw [hlist] at hsorted
        exact fun other hother => (List.pairwise_append.mp hsorted).2.2 other hother allocation
          List.mem_cons_self
      have hdivides : Around address (front ++ [allocation]) rest := by
        refine ⟨fun other hother => decide_eq_true ?_, fun other hother =>
          decide_eq_false (Nat.not_le_of_lt (hafter other hother))⟩
        rcases List.mem_append.mp hother with hother | hother
        · exact (hfront other hother).trans hstart
        · rw [List.mem_singleton.mp hother]
          exact hstart
      rw [← List.singleton_append, ← List.append_assoc] at hlist
      obtain ⟨rfl, -⟩ := haround.unique hdivides hlist
      exact Or.inl ⟨List.getLast?_concat, hcontains⟩
    | header front rest hlist hstart hbefore hlast =>
      have hrest : ∀ other ∈ rest, allocation.userAddress ≤ other.userAddress := by
        rw [hlist] at hsorted
        exact (List.pairwise_cons.mp (List.pairwise_append.mp hsorted).2.1).1
      have hdivides : Around address front (allocation :: rest) := by
        refine ⟨fun other hother => decide_eq_true (hbefore other hother), fun other hother =>
          decide_eq_false (Nat.not_le_of_lt ?_)⟩
        rcases List.mem_cons.mp hother with rfl | hother
        · exact hstart
        · exact hstart.trans_le (hrest other hother)
      obtain ⟨rfl, rfl⟩ := haround.unique hdivides hlist
      refine Or.inr ⟨Option.filter_eq_none_iff.mpr fun other hother => ?_, rfl, hcontains⟩
      rw [hlast other hother]
      exact Bool.false_ne_true

/-- **The two probes agree with a linear search that prefers chunks just where nothing is listed
between the address and an allocation to answer with.** -/
theorem agrees_iff_unobstructed :
    Agrees allocations address ↔ Unobstructed allocations address := by
  constructor
  · intro h found hfound
    obtain ⟨answer, hanswer⟩ := Option.isSome_iff_exists.mp (h.isSome.trans (by rw [hfound]; rfl))
    obtain ⟨hpreferred, hoffset⟩ := h.answer answer hanswer
    have hfaces := (neighbourhoodAt_eq_some_iff hsorted).mp
      (show (neighbourhoodAt allocations address).map HeapNeighbourhood.allocation =
        some answer.allocation by rw [hanswer]; rfl)
    rw [neighbourhoodAt_offset hanswer] at hoffset
    exact ⟨answer.allocation, hpreferred, hfaces.2, offsetFrom_eq_iff.mp hoffset⟩
  · intro h
    cases hfound : linearSearch allocations address with
    | none =>
      -- an answer would contain the address
      have hnone : neighbourhoodAt allocations address = none := by
        cases hanswer : neighbourhoodAt allocations address with
        | none => rfl
        | some answer =>
          obtain ⟨hcontains, hfaces⟩ := (neighbourhoodAt_eq_some_iff hsorted).mp
            (show (neighbourhoodAt allocations address).map HeapNeighbourhood.allocation =
              some answer.allocation by rw [hanswer]; rfl)
          have hmem : answer.allocation ∈ allocations := by
            cases hfaces <;> simp [*]
          have hsome := linearSearch_isSome.mpr ⟨answer.allocation, hmem, hcontains⟩
          rw [hfound] at hsome
          cases hsome
      refine ⟨by rw [hnone, hfound]; rfl, fun answer hanswer => ?_⟩
      rw [hnone] at hanswer
      cases hanswer
    | some found =>
      obtain ⟨best, hpreferred, hfaces, hoffset⟩ := h found hfound
      obtain ⟨answer, hanswer, rfl⟩ := Option.map_eq_some_iff.mp
        ((neighbourhoodAt_eq_some_iff hsorted).mpr ⟨hpreferred.contains, hfaces⟩)
      refine ⟨by rw [hanswer, hfound]; rfl, fun other hother => ?_⟩
      obtain rfl := Option.some.inj (hanswer.symm.trans hother)
      refine ⟨hpreferred, ?_⟩
      rw [neighbourhoodAt_offset hanswer]
      exact offsetFrom_eq_iff.mpr hoffset

end Sorted

end Search

/-! ## Spans that are apart -/

/-- Every span has a user block behind its header, none is half the address space long, and no two
share an address. -/
structure Spread (spans : List PoolSpan) : Prop where
  placed : ∀ span ∈ spans, span.headerAddress ≤ span.usableAddress ∧
    span.usableAddress < span.spanEnd ∧ span.spanEnd ≤ span.headerAddress + 2 ^ 63
  apart : spans.Pairwise fun a b => a.spanEnd ≤ b.headerAddress ∨ b.spanEnd ≤ a.headerAddress

instance (spans : List PoolSpan) : Decidable (Spread spans) :=
  decidable_of_iff ((∀ span ∈ spans, span.headerAddress ≤ span.usableAddress ∧
      span.usableAddress < span.spanEnd ∧ span.spanEnd ≤ span.headerAddress + 2 ^ 63) ∧
    spans.Pairwise fun a b => a.spanEnd ≤ b.headerAddress ∨ b.spanEnd ≤ a.headerAddress)
    ⟨fun h => ⟨h.1, h.2⟩, fun h => ⟨h.placed, h.apart⟩⟩

/-- Of two entries that are apart the one listed first ends where the other starts. -/
structure Ranged (allocations : List HeapAllocation) : Prop where
  placed : ∀ allocation ∈ allocations, allocation.headerAddress ≤ allocation.userAddress ∧
    allocation.userAddress < allocation.allocationEnd ∧
    allocation.allocationEnd ≤ allocation.headerAddress + 2 ^ 63
  ordered : allocations.Pairwise fun a b => a.allocationEnd ≤ b.headerAddress

theorem Spread.ranged {snapshot : PoolSnapshot} (h : Spread snapshot.spans) :
    Ranged (fromPoolSnapshot snapshot).1 := by
  have hperm := fromPoolSnapshot_perm snapshot
  have hplaced : ∀ allocation ∈ (fromPoolSnapshot snapshot).1,
      allocation.headerAddress ≤ allocation.userAddress ∧
      allocation.userAddress < allocation.allocationEnd ∧
      allocation.allocationEnd ≤ allocation.headerAddress + 2 ^ 63 := by
    intro allocation hmem
    obtain ⟨span, hspan, rfl⟩ := List.mem_map.mp (hperm.mem_iff.mp hmem)
    exact h.placed span hspan
  have hapart : (fromPoolSnapshot snapshot).1.Pairwise fun a b =>
      a.allocationEnd ≤ b.headerAddress ∨ b.allocationEnd ≤ a.headerAddress := by
    refine (hperm.pairwise_iff fun {a b} => Or.symm).mpr ?_
    rw [List.pairwise_map]
    exact h.apart
  refine ⟨hplaced, ?_⟩
  -- the one that starts later cannot end before the other
  refine (hapart.and (fromPoolSnapshot_sorted snapshot)).imp_of_mem ?_
  rintro a b ha hb ⟨hab | hba, hle⟩
  · exact hab
  · have := hplaced a ha
    have := hplaced b hb
    omega

theorem Ranged.faces {allocations : List HeapAllocation} {address : ℕ}
    {allocation : HeapAllocation} (h : Ranged allocations) (hmem : allocation ∈ allocations)
    (hcontains : allocation.contains address = true) : Faces allocations address allocation := by
  obtain ⟨before, after, rfl⟩ := List.append_of_mem hmem
  obtain ⟨hheader, hend⟩ := contains_iff.mp hcontains
  obtain ⟨-, hafter, hbefore⟩ := List.pairwise_append.mp h.ordered
  rcases Nat.lt_or_ge address allocation.userAddress with hlt | hle
  · refine .header before after rfl hlt (fun other hother => ?_) fun other hother => ?_
    · have := hbefore other hother allocation List.mem_cons_self
      have := h.placed other (List.mem_append_left _ hother)
      omega
    · have := hbefore other (List.mem_of_getLast? hother) allocation List.mem_cons_self
      rw [Bool.eq_false_iff, ne_eq, contains_iff]
      omega
  · refine .block before after rfl hle fun other hother => ?_
    have := (List.pairwise_cons.mp hafter).1 other hother
    have := h.placed other (List.mem_append_right _ (List.mem_cons_of_mem _ hother))
    omega

/-- **The search for an address agrees with a linear one that prefers chunks just where nothing is
listed between the address and an allocation to answer with.** It does for every address where the
spans of the walk are apart. -/
theorem chunk_search_agrees_iff (snapshot : PoolSnapshot) :
    (∀ address, Agrees (fromPoolSnapshot snapshot).1 address ↔
      Unobstructed (fromPoolSnapshot snapshot).1 address) ∧
    (Spread snapshot.spans → ∀ address, Agrees (fromPoolSnapshot snapshot).1 address) := by
  have hsorted := fromPoolSnapshot_sorted snapshot
  refine ⟨fun address => agrees_iff_unobstructed hsorted, fun hspread address =>
    (agrees_iff_unobstructed hsorted).mpr fun found hfound => ?_⟩
  have hranged := hspread.ranged
  have hpreferred := linearSearch_preferred hfound
  have hplaced := hranged.placed found hpreferred.mem
  have hin := contains_iff.mp hpreferred.contains
  exact ⟨found, hpreferred, hranged.faces hpreferred.mem hpreferred.contains, by omega, by omega⟩

/-! ## A chunk with a decommitted page -/

def smallNtdll : PoolLayout where
  globals
    | .rtlpHpHeapGlobals => some 0x2000
    | _ => none
  types
    | .segmentHeap => some { size := 0x200, fields := fun
      | .vsContext => some 0x40
      | .segContexts => some 0x100
      | _ => some 0 }
    | .heapSegContext => some { size := 0x40, fields := fun
      | .unitShift => some 0
      | .firstDescriptorIndex => some 1
      | .segmentMask => some 8
      | .freePageRanges => some 0x10
      | .segmentListHead => some 0x20
      | _ => none }
    | .heapPageSegment => some { size := 0x20, fields := fun
      | .listEntry => some 0
      | .signature => some 8
      | .descArray => some 0x10
      | _ => none }
    | .heapPageRangeDescriptor => some { size := 0x20, fields := fun
      | .unitSize => some 0
      | .rangeFlags => some 3
      | .treeSignature => some 4
      | .treeNode => some 8
      | _ => none }
    | .heapVsContext => some { size := 0x40, fields := fun
      | .slotMapRef => none
      | _ => some 0x20 }
    | .heapVsSubsegment => some { size := 0x40, fields := fun
      | .sizeField => some 0
      | .signature => some 8
      | _ => none }
    | _ => some { size := 0x10, fields := fun _ => some 0 }

def freeChunkHeap : ℕ → ℕ
  | 0x3100 => 0x010c
  | 0x3108 => 0xffffffffffff8000
  | 0x3120 => 0x10000
  | 0x10008 => 0x13100
  | 0x10030 => 0xccddccdd0f000003
  | 0x11000 => 0x2fc
  | 0x11008 => 0x2911
  | 0x11040 => 0x027d1040
  | 0x13800 => 0x0001027c00813800
  | _ => 0

def holedTarget (stop : ℕ) : PoolMemory where
  readExact _ address size := .ok (bytesAt (wordBytes freeChunkHeap) address size)
  validRegion _ address size :=
    if address < 0x12000 ∧ 0x12000 < stop then .ok (address, min size (0x12000 - address))
    else if 0x12000 ≤ address ∧ address < stop then .ok (stop, address + size - stop)
    else .ok (address, size)
  interrupted _ := .ok false
  outOfBudget _ := false
  committedRun _ address := some
    (if address < 0x12000 then { runEnd := 0x12000, committed := true }
    else if address < stop then { runEnd := stop, committed := false }
    else { runEnd := 0x14000, committed := true })

def freeChunkWalk (stop : ℕ) : Except SnapshotError PoolSnapshot × History :=
  walkUserSegmentHeaps (fun _ => 0) (holedTarget stop) smallNtdll 0x5000 [0x3000] none 8 []

theorem run_of_any (run : Except SnapshotError PoolSnapshot × History) (p : PoolSnapshot → Prop)
    [DecidablePred p] (h : (run.1.toOption.any fun snapshot => decide (p snapshot)) = true) :
    ∃ snapshot, run = (.ok snapshot, run.2) ∧ p snapshot := by
  obtain ⟨outcome, history⟩ := run
  cases outcome with
  | error e => cases h
  | ok snapshot => exact ⟨snapshot, rfl, of_decide_eq_true h⟩

theorem chunk_search_agrees_iff_solid :
    ∃ snapshot h, freeChunkWalk 0x12000 = (.ok snapshot, h) ∧ snapshot.spans.length = 2 ∧
      Spread snapshot.spans ∧ ∀ address, Agrees (fromPoolSnapshot snapshot).1 address := by
  obtain ⟨snapshot, hrun, hlength, hspread⟩ := run_of_any (freeChunkWalk 0x12000)
    (fun snapshot => snapshot.spans.length = 2 ∧ Spread snapshot.spans) (by decide +kernel)
  exact ⟨snapshot, _, hrun, hlength, hspread, (chunk_search_agrees_iff snapshot).2 hspread⟩

def HeapAllocation.brief (allocation : HeapAllocation) : ℕ × ℕ × HeapState :=
  (allocation.headerAddress, allocation.allocationEnd, allocation.state)

def bothAnswers (snapshot : PoolSnapshot) (address : ℕ) :
    Option (ℕ × ℕ × HeapState) × Option (ℕ × ℕ × HeapState) :=
  ((neighbourhoodAt (fromPoolSnapshot snapshot).1 address).map fun answer =>
      answer.allocation.brief,
    (linearSearch (fromPoolSnapshot snapshot).1 address).map HeapAllocation.brief)

/-- **A decommitted page hides the chunk it is in.** The free chunk is filed with the page in it,
and the page is filed as a gap: an address in the page is answered with the gap, one behind it
with nothing. The walk is complete all the same. -/
theorem chunk_hidden_by_its_hole :
    ∃ snapshot h, freeChunkWalk 0x13000 = (.ok snapshot, h) ∧ snapshot.complete = true ∧
      bothAnswers snapshot 0x12800 =
        (some (0x12000, 0x13000, .uncommitted), some (0x11040, 0x13800, .reusableFree)) ∧
      bothAnswers snapshot 0x13400 = (none, some (0x11040, 0x13800, .reusableFree)) ∧
      ¬ Agrees (fromPoolSnapshot snapshot).1 0x12800 ∧
      ¬ Agrees (fromPoolSnapshot snapshot).1 0x13400 := by
  obtain ⟨snapshot, hrun, hcomplete, hinside, hbehind⟩ := run_of_any (freeChunkWalk 0x13000)
    (fun snapshot => snapshot.complete = true ∧
      bothAnswers snapshot 0x12800 =
        (some (0x12000, 0x13000, .uncommitted), some (0x11040, 0x13800, .reusableFree)) ∧
      bothAnswers snapshot 0x13400 = (none, some (0x11040, 0x13800, .reusableFree)))
    (by decide +kernel)
  refine ⟨snapshot, _, hrun, hcomplete, hinside, hbehind, fun hagrees => ?_, fun hagrees => ?_⟩
  · obtain ⟨hgap, hchunk⟩ := Prod.mk.inj hinside
    obtain ⟨answer, hanswer, hbrief⟩ := Option.map_eq_some_iff.mp hgap
    obtain ⟨found, hfound, hfoundBrief⟩ := Option.map_eq_some_iff.mp hchunk
    -- the free chunk contains the address, so a gap is no answer
    have hpreferred := linearSearch_preferred hfound
    have hfoundState : found.state = .reusableFree := congrArg (fun brief => brief.2.2) hfoundBrief
    have hstate : answer.allocation.state = .uncommitted := congrArg (fun brief => brief.2.2) hbrief
    have hisChunk := (hagrees.answer answer hanswer).1.chunk
      ⟨found, hpreferred.mem, by rw [hfoundState]; rfl, hpreferred.contains⟩
    rw [hstate] at hisChunk
    cases hisChunk
  · obtain ⟨hnone, hchunk⟩ := Prod.mk.inj hbehind
    obtain ⟨found, hfound, -⟩ := Option.map_eq_some_iff.mp hchunk
    have hsome := hagrees.isSome
    rw [Option.map_eq_none_iff.mp hnone, hfound] at hsome
    cases hsome

end DbgScope.Heap
