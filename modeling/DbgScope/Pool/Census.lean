import DbgScope.Grouping
import DbgScope.Pool.Walk
import DbgScope.StableSort
import Mathlib.Data.String.Basic

/-!
# Tags, rows and the census

The maps `src/pool/index.rs` builds over a walk's spans, and the queries of `src/pool/query.rs` that
go through them. Their four answers agree on every snapshot. What the census does not have is one
order: its entries leave a hash map, and the comparison they are sorted by puts two tags that weigh
and print the same in no order.
-/

namespace DbgScope.Pool

/-! ## The index -/

/-- Everything that has to be shared for two spans to be of one row. -/
structure RowIdentity where
  poolKind : PoolKind
  numaNode : ℕ
  heap : HeapIdentity
  backend : PoolBackend
  subsegment : Option ℕ
  sizeClass : ℕ
  deriving DecidableEq

def RowIdentity.ofSpan (span : PoolSpan) : RowIdentity :=
  { poolKind := span.poolKind
    numaNode := span.numaNode
    heap := span.heap
    backend := span.backend
    subsegment := span.subsegment
    sizeClass := span.sizeClass }

/-- What an index keeps beside the spans. -/
structure IndexMaps where
  postings : Table ℕ (List ℕ)
  rowPostings : Table RowIdentity (List ℕ)
  spanRows : List RowIdentity

def IndexMaps.file (maps : IndexMaps) (entry : PoolSpan × ℕ) : IndexMaps :=
  { postings :=
      if entry.1.state = .allocated then
        maps.postings.entry entry.1.rawTag [] (· ++ [entry.2])
      else maps.postings
    rowPostings := maps.rowPostings.entry (.ofSpan entry.1) [] (· ++ [entry.2])
    spanRows := maps.spanRows ++ [.ofSpan entry.1] }

structure TagIndex extends PoolIndex, IndexMaps

def TagIndex.build (snapshot : PoolSnapshot) : TagIndex :=
  let index := PoolIndex.build snapshot
  { toPoolIndex := index
    toIndexMaps := index.spans.zipIdx.foldl IndexMaps.file ⟨∅, ∅, []⟩ }

/-! ## The queries -/

inductive PoolPageFilter where
  | paged
  | nonPaged
  deriving DecidableEq

def PoolPageFilter.passes : Option PoolPageFilter → PoolSpan → Bool
  | none, _ => true
  | some .paged, span => span.poolKind.isPaged
  | some .nonPaged, span => !span.poolKind.isPaged

def collectTag (index : TagIndex) (rawTag : ℕ) (filter : Option PoolPageFilter) : List PoolSpan :=
  (((index.postings.lookup rawTag).getD []).filterMap (index.spans[·]?)).filter
    (PoolPageFilter.passes filter)

/-- The row of a position joins the set of rows. -/
def selectRow (spanRows rows : List RowIdentity) (position : ℕ) : List RowIdentity :=
  match spanRows[position]? with
  | some row => rows.insert row
  | none => rows

def selectedRows (index : TagIndex) (tag : ℕ) : List RowIdentity :=
  ((index.postings.lookup tag).getD []).foldl (selectRow index.spanRows) []

/-- The chunks of a tag, and everything else in their rows. -/
def contextForTag (order : Iteration RowIdentity) (index : TagIndex) (tag : ℕ) : List ℕ :=
  ((order.run (selectedRows index tag)).flatMap fun row =>
    (index.rowPostings.lookup row).getD []).insertionSort (· ≤ ·)

structure PoolTagSummary where
  displayTag : String
  rawTag : ℕ
  allocations : ℕ
  totalBytes : ℕ
  pagedAllocations : ℕ
  nonpagedAllocations : ℕ
  deriving DecidableEq

namespace PoolTagSummary

def start (span : PoolSpan) : PoolTagSummary :=
  { displayTag := span.displayTag
    rawTag := span.rawTag
    allocations := 0
    totalBytes := 0
    pagedAllocations := 0
    nonpagedAllocations := 0 }

def add (entry : PoolTagSummary) (span : PoolSpan) : PoolTagSummary :=
  { entry with
    allocations := entry.allocations + 1
    totalBytes := saturatingAdd entry.totalBytes span.size
    pagedAllocations := entry.pagedAllocations + if span.poolKind.isPaged then 1 else 0
    nonpagedAllocations := entry.nonpagedAllocations + if span.poolKind.isPaged then 0 else 1 }

/-- Heaviest first, then by what is printed. -/
def le (left right : PoolTagSummary) : Prop :=
  right.totalBytes < left.totalBytes ∨
    right.totalBytes = left.totalBytes ∧ left.displayTag ≤ right.displayTag

instance : DecidableRel le := fun _ _ => inferInstanceAs (Decidable (_ ∨ _))

end PoolTagSummary

def summaries (spans : List PoolSpan) : Table ℕ PoolTagSummary :=
  grouped PoolSpan.rawTag PoolTagSummary.start PoolTagSummary.add ∅
    (spans.filter (·.state = .allocated))

def summarizeTags (order : Iteration (Sigma fun _ : ℕ => PoolTagSummary)) (index : TagIndex) :
    List PoolTagSummary :=
  ((order.run (summaries index.spans).entries).map Sigma.snd).insertionSort PoolTagSummary.le

def summaryOf (census : List PoolTagSummary) (tag : ℕ) : Option PoolTagSummary :=
  census.find? (·.rawTag = tag)

/-! ## What the index files where -/

section Filing

variable {spans : List PoolSpan} {tag i : ℕ} {row : RowIdentity}

def carries (tag : ℕ) (span : PoolSpan) : Bool :=
  decide (span.rawTag = tag) && decide (span.state = .allocated)

theorem carries_iff {span : PoolSpan} :
    carries tag span = true ↔ span.state = .allocated ∧ span.rawTag = tag := by
  simp [carries, and_comm]

theorem file_foldl (entries : List (PoolSpan × ℕ)) (maps : IndexMaps) :
    entries.foldl IndexMaps.file maps =
      { postings := grouped (·.1.rawTag) (fun _ => []) (fun held entry => held ++ [entry.2])
          maps.postings (entries.filter (·.1.state = .allocated))
        rowPostings := grouped (.ofSpan ·.1) (fun _ => []) (fun held entry => held ++ [entry.2])
          maps.rowPostings entries
        spanRows := maps.spanRows ++ entries.map (.ofSpan ·.1) } := by
  induction entries generalizing maps with
  | nil => simp
  | cons entry entries ih =>
    rw [List.foldl_cons, ih]
    by_cases hstate : entry.1.state = .allocated <;> simp [IndexMaps.file, hstate]

theorem foldl_snoc_snd {α β : Type} (entries : List (α × β)) (held : List β) :
    entries.foldl (fun held entry => held ++ [entry.2]) held = held ++ entries.map Prod.snd := by
  induction entries generalizing held with
  | nil => simp
  | cons entry entries ih => simp [ih]

theorem lookup_collected {κ : Type} [DecidableEq κ] (key : PoolSpan × ℕ → κ)
    (entries : List (PoolSpan × ℕ)) (k : κ) :
    ((grouped key (fun _ => []) (fun held entry => held ++ [entry.2]) ∅ entries).lookup k).getD
      [] = (entries.filter (key · = k)).map Prod.snd := by
  rw [lookup_grouped]
  cases h : entries.filter (key · = k) with
  | nil => rfl
  | cons first rest =>
    rw [List.head?_cons, Option.map_some, Option.getD_some]
    exact foldl_snoc_snd _ []

theorem postings_build (snapshot : PoolSnapshot) (tag : ℕ) :
    ((TagIndex.build snapshot).postings.lookup tag).getD [] =
      positions (carries tag) (TagIndex.build snapshot).spans := by
  simp only [TagIndex.build, file_foldl, lookup_collected, List.filter_filter]
  rfl

theorem rowPostings_build (snapshot : PoolSnapshot) (row : RowIdentity) :
    ((TagIndex.build snapshot).rowPostings.lookup row).getD [] =
      positions (fun span => decide (RowIdentity.ofSpan span = row))
        (TagIndex.build snapshot).spans := by
  simp only [TagIndex.build, file_foldl, lookup_collected]
  rfl

theorem spanRows_build (snapshot : PoolSnapshot) :
    (TagIndex.build snapshot).spanRows = (TagIndex.build snapshot).spans.map .ofSpan := by
  simp only [TagIndex.build, file_foldl, List.nil_append]
  conv_rhs => rw [← List.zipIdx_map_fst 0 (PoolIndex.build snapshot).spans, List.map_map]
  rfl

/-- **The index loses no span and makes none up.** -/
theorem build_perm (snapshot : PoolSnapshot) :
    (TagIndex.build snapshot).spans.Perm snapshot.spans :=
  List.perm_insertionSort _ _

theorem collectTag_build (snapshot : PoolSnapshot) (filter : Option PoolPageFilter) :
    collectTag (TagIndex.build snapshot) tag filter =
      ((TagIndex.build snapshot).spans.filter (carries tag)).filter
        (PoolPageFilter.passes filter) := by
  rw [collectTag, postings_build, filterMap_positions]

end Filing

/-! ## What the census counts -/

section Counting

variable {spans : List PoolSpan} {tag : ℕ} {entry : PoolTagSummary}

def bytesOf (spans : List PoolSpan) (start : ℕ) : ℕ :=
  spans.foldl (fun total span => saturatingAdd total span.size) start

theorem foldl_add (spans : List PoolSpan) (entry : PoolTagSummary) :
    spans.foldl PoolTagSummary.add entry =
      { displayTag := entry.displayTag
        rawTag := entry.rawTag
        allocations := entry.allocations + spans.length
        totalBytes := bytesOf spans entry.totalBytes
        pagedAllocations := entry.pagedAllocations + spans.countP (·.poolKind.isPaged)
        nonpagedAllocations :=
          entry.nonpagedAllocations + spans.countP (!·.poolKind.isPaged) } := by
  induction spans generalizing entry with
  | nil => rfl
  | cons span spans ih =>
    rw [List.foldl_cons, ih]
    cases hpaged : span.poolKind.isPaged <;>
      simp [PoolTagSummary.add, bytesOf, hpaged] <;> omega

/-- The line of a tag: everything is counted over the chunks that carry it. -/
def lineOf (spans : List PoolSpan) (tag : ℕ) : Option PoolTagSummary :=
  (spans.filter (carries tag)).head?.map fun first =>
    { displayTag := first.displayTag
      rawTag := tag
      allocations := (spans.filter (carries tag)).length
      totalBytes := bytesOf (spans.filter (carries tag)) 0
      pagedAllocations := (spans.filter (carries tag)).countP (·.poolKind.isPaged)
      nonpagedAllocations := (spans.filter (carries tag)).countP (!·.poolKind.isPaged) }

theorem filter_allocated_tag :
    (spans.filter (·.state = .allocated)).filter (·.rawTag = tag) = spans.filter (carries tag) :=
  List.filter_filter

theorem lookup_summaries : (summaries spans).lookup tag = lineOf spans tag := by
  rw [summaries, lookup_grouped, filter_allocated_tag, lineOf]
  refine Option.map_congr fun first hfirst => ?_
  have hcarries := List.of_mem_filter (List.mem_of_head? hfirst)
  simp [foldl_add, PoolTagSummary.start, (carries_iff.mp hcarries).2]

theorem rawTag_of_lineOf (h : lineOf spans tag = some entry) : entry.rawTag = tag := by
  obtain ⟨first, -, rfl⟩ := Option.map_eq_some_iff.mp h
  rfl

theorem mem_summaries {line : Sigma fun _ : ℕ => PoolTagSummary} :
    line ∈ (summaries spans).entries ↔ lineOf spans line.1 = some line.2 := by
  rw [← lookup_summaries, ← Option.mem_def, AList.mem_lookup_iff]

variable {order : Iteration (Sigma fun _ : ℕ => PoolTagSummary)} {index : TagIndex}

theorem summarizeTags_perm : (summarizeTags order index).Perm
    ((summaries index.spans).entries.map Sigma.snd) :=
  (List.perm_insertionSort _ _).trans ((order.perm _).map _)

theorem mem_summarizeTags :
    entry ∈ summarizeTags order index ↔ lineOf index.spans entry.rawTag = some entry := by
  rw [summarizeTags_perm.mem_iff, List.mem_map]
  constructor
  · rintro ⟨line, hline, rfl⟩
    have hlookup := mem_summaries.mp hline
    rw [rawTag_of_lineOf hlookup]
    exact hlookup
  · intro h
    exact ⟨⟨entry.rawTag, entry⟩, mem_summaries.mpr h, rfl⟩

theorem summaries_rawTag :
    ((summaries spans).entries.map Sigma.snd).map (·.rawTag) = (summaries spans).keys := by
  rw [List.map_map, AList.keys, List.keys]
  exact List.map_congr_left fun line hline => rawTag_of_lineOf (mem_summaries.mp hline)

/-- **No tag has two lines.** -/
theorem summarizeTags_nodup : ((summarizeTags order index).map (·.rawTag)).Nodup := by
  rw [(summarizeTags_perm.map _).nodup_iff, summaries_rawTag]
  exact (summaries index.spans).keys_nodup

theorem summaryOf_summarizeTags :
    summaryOf (summarizeTags order index) tag = lineOf index.spans tag := by
  refine Option.ext fun entry => ?_
  constructor
  · intro h
    have hmem := mem_summarizeTags.mp (List.mem_of_find?_eq_some h)
    have htag : entry.rawTag = tag := by simpa using List.find?_some h
    rwa [htag] at hmem
  · intro h
    have htag := rawTag_of_lineOf h
    have hmem : entry ∈ summarizeTags order index := mem_summarizeTags.mpr (by rwa [htag])
    obtain ⟨other, hother⟩ : ∃ other, summaryOf (summarizeTags order index) tag = some other :=
      Option.isSome_iff_exists.mp (List.find?_isSome.mpr ⟨entry, hmem, by simpa using htag⟩)
    have hline := mem_summarizeTags.mp (List.mem_of_find?_eq_some hother)
    have hrawTag : other.rawTag = tag := by simpa using List.find?_some hother
    rw [hrawTag, h] at hline
    rw [hother, hline]

theorem lineOf_counts (spans : List PoolSpan) (tag : ℕ) :
    ((lineOf spans tag).map (·.allocations)).getD 0 = (spans.filter (carries tag)).length ∧
    ((lineOf spans tag).map (·.pagedAllocations)).getD 0 =
      (spans.filter (carries tag)).countP (·.poolKind.isPaged) ∧
    ((lineOf spans tag).map (·.nonpagedAllocations)).getD 0 =
      (spans.filter (carries tag)).countP (!·.poolKind.isPaged) := by
  unfold lineOf
  cases spans.filter (carries tag) with
  | nil => exact ⟨rfl, rfl, rfl⟩
  | cons first rest => exact ⟨rfl, rfl, rfl⟩

theorem sum_allocations :
    ((summarizeTags order index).map (·.allocations)).sum =
      (reportOf index.toPoolIndex).allocatedChunks := by
  have hkeys : (summaries index.spans).entries.map (fun line => line.2.allocations) =
      (summaries index.spans).keys.map fun tag =>
        ((index.spans.filter (·.state = .allocated)).filter (·.rawTag = tag)).length := by
    rw [AList.keys, List.keys, List.map_map]
    refine List.map_congr_left fun line hline => ?_
    have hcount := (lineOf_counts index.spans line.1).1
    rw [mem_summaries.mp hline, ← filter_allocated_tag] at hcount
    exact hcount
  calc ((summarizeTags order index).map (·.allocations)).sum
      = (((summaries index.spans).entries.map Sigma.snd).map (·.allocations)).sum :=
        (summarizeTags_perm.map _).sum_eq
    _ = (index.spans.filter (·.state = .allocated)).length := by
        rw [List.map_map]
        refine (congrArg List.sum hkeys).trans (sum_counts (AList.keys_nodup _) fun tag => ?_)
        exact mem_grouped
    _ = (reportOf index.toPoolIndex).allocatedChunks := (List.countP_eq_length_filter).symm

end Counting

/-! ## The rows of a tag -/

section Rows

variable {index : TagIndex} {tag i : ℕ} {row : RowIdentity}

theorem mem_foldl_selectRow (spanRows : List RowIdentity) (found : List ℕ)
    (rows : List RowIdentity) :
    row ∈ found.foldl (selectRow spanRows) rows ↔
      row ∈ rows ∨ ∃ position ∈ found, spanRows[position]? = some row := by
  induction found generalizing rows with
  | nil => simp
  | cons position found ih =>
    rw [List.foldl_cons, ih, selectRow]
    cases hread : spanRows[position]? with
    | none => simp [hread]
    | some other =>
      simp only [List.mem_insert_iff, List.mem_cons, exists_eq_or_imp, hread, Option.some.injEq]
      constructor
      · rintro ((rfl | h) | h)
        · exact .inr (.inl rfl)
        · exact .inl h
        · exact .inr (.inr h)
      · rintro (h | rfl | h)
        · exact .inl (.inr h)
        · exact .inl (.inl rfl)
        · exact .inr h

theorem nodup_foldl_selectRow (spanRows : List RowIdentity) (found : List ℕ)
    {rows : List RowIdentity} (h : rows.Nodup) :
    (found.foldl (selectRow spanRows) rows).Nodup := by
  induction found generalizing rows with
  | nil => exact h
  | cons position found ih =>
    rw [List.foldl_cons]
    refine ih ?_
    rw [selectRow]
    cases spanRows[position]? with
    | none => exact h
    | some row => exact h.insert

theorem selectedRows_nodup : (selectedRows index tag).Nodup :=
  nodup_foldl_selectRow _ _ List.nodup_nil

variable {snapshot : PoolSnapshot} {order : Iteration RowIdentity}

theorem mem_selectedRows :
    row ∈ selectedRows (TagIndex.build snapshot) tag ↔
      ∃ span ∈ (TagIndex.build snapshot).spans,
        (span.state = .allocated ∧ span.rawTag = tag) ∧ RowIdentity.ofSpan span = row := by
  rw [selectedRows, mem_foldl_selectRow, postings_build, spanRows_build]
  simp only [List.not_mem_nil, false_or, mem_positions, List.getElem?_map, Option.map_eq_some_iff,
    carries_iff]
  constructor
  · rintro ⟨i, ⟨span, hspan, hcarries⟩, other, hother, hrow⟩
    obtain rfl : span = other := Option.some.inj (hspan.symm.trans hother)
    exact ⟨span, List.mem_of_getElem? hspan, hcarries, hrow⟩
  · rintro ⟨span, hspan, hcarries, hrow⟩
    obtain ⟨i, hi⟩ := List.mem_iff_getElem?.mp hspan
    exact ⟨i, ⟨span, hi, hcarries⟩, span, hi, hrow⟩

/-- **The context of a tag is every span that shares its row with a chunk of the tag.** -/
theorem mem_contextForTag :
    i ∈ contextForTag order (TagIndex.build snapshot) tag ↔
      ∃ span, (TagIndex.build snapshot).spans[i]? = some span ∧
        ∃ chunk ∈ (TagIndex.build snapshot).spans,
          (chunk.state = .allocated ∧ chunk.rawTag = tag) ∧
            RowIdentity.ofSpan chunk = RowIdentity.ofSpan span := by
  rw [contextForTag, (List.perm_insertionSort _ _).mem_iff, List.mem_flatMap]
  simp only [(order.perm _).mem_iff, rowPostings_build, mem_positions, decide_eq_true_eq,
    mem_selectedRows]
  constructor
  · rintro ⟨row, ⟨chunk, hchunk, hcarries, rfl⟩, span, hspan, hrow⟩
    exact ⟨span, hspan, chunk, hchunk, hcarries, hrow.symm⟩
  · rintro ⟨span, hspan, chunk, hchunk, hcarries, hrow⟩
    exact ⟨_, ⟨chunk, hchunk, hcarries, rfl⟩, span, hspan, hrow.symm⟩

theorem contextForTag_pairwise :
    (contextForTag order (TagIndex.build snapshot) tag).Pairwise (· < ·) := by
  have hnodup : ((order.run (selectedRows (TagIndex.build snapshot) tag)).flatMap fun row =>
      ((TagIndex.build snapshot).rowPostings.lookup row).getD []).Nodup := by
    refine List.nodup_flatMap.mpr ⟨fun row _ => ?_, ?_⟩
    · rw [rowPostings_build]
      exact positions_pairwise.imp Nat.ne_of_lt
    · refine ((order.perm _).nodup_iff.mpr selectedRows_nodup).imp fun {left right} hne => ?_
      rw [Function.onFun, rowPostings_build, rowPostings_build]
      intro i hleft hright
      obtain ⟨span, hspan, hrow⟩ := mem_positions.mp hleft
      obtain ⟨other, hother, hrow'⟩ := mem_positions.mp hright
      obtain rfl : span = other := Option.some.inj (hspan.symm.trans hother)
      exact hne ((of_decide_eq_true hrow).symm.trans (of_decide_eq_true hrow'))
  have hsorted : (contextForTag order (TagIndex.build snapshot) tag).Pairwise (· ≤ ·) :=
    List.pairwise_insertionSort _ _
  have hdistinct : (contextForTag order (TagIndex.build snapshot) tag).Nodup :=
    (List.perm_insertionSort _ _).nodup_iff.mpr hnodup
  exact hsorted.imp₂ (fun _ _ hle hne => Nat.lt_of_le_of_ne hle hne) hdistinct

end Rows

/-! ## Agreement -/

theorem length_filter_passes (spans : List PoolSpan) :
    (spans.filter (PoolPageFilter.passes none)) = spans ∧
    (spans.filter (PoolPageFilter.passes (some .paged))).length =
      spans.countP (·.poolKind.isPaged) ∧
    (spans.filter (PoolPageFilter.passes (some .nonPaged))).length =
      spans.countP (!·.poolKind.isPaged) :=
  ⟨List.filter_eq_self.mpr fun _ _ => rfl, List.countP_eq_length_filter.symm,
    List.countP_eq_length_filter.symm⟩

/-- **The index and the queries agree on every snapshot.** -/
theorem index_queries_agree (snapshot : PoolSnapshot) (rows : Iteration RowIdentity)
    (tags : Iteration (Sigma fun _ : ℕ => PoolTagSummary)) (tag : ℕ) :
    (TagIndex.build snapshot).spans.Perm snapshot.spans ∧
    -- the positions filed under the tag
    (((TagIndex.build snapshot).postings.lookup tag).getD []).Pairwise (· < ·) ∧
    (∀ i, i ∈ ((TagIndex.build snapshot).postings.lookup tag).getD [] ↔
      ∃ span, (TagIndex.build snapshot).spans[i]? = some span ∧
        span.state = .allocated ∧ span.rawTag = tag) ∧
    -- the chunks of the tag, and the tag's one line in the census
    ((summarizeTags tags (TagIndex.build snapshot)).map (·.rawTag)).Nodup ∧
    (collectTag (TagIndex.build snapshot) tag none).length =
      ((summaryOf (summarizeTags tags (TagIndex.build snapshot)) tag).map
        (·.allocations)).getD 0 ∧
    (collectTag (TagIndex.build snapshot) tag (some .paged) ++
      collectTag (TagIndex.build snapshot) tag (some .nonPaged)).Perm
        (collectTag (TagIndex.build snapshot) tag none) ∧
    (∀ span ∈ collectTag (TagIndex.build snapshot) tag (some .paged),
      span.poolKind.isPaged = true) ∧
    (∀ span ∈ collectTag (TagIndex.build snapshot) tag (some .nonPaged),
      span.poolKind.isPaged = false) ∧
    (collectTag (TagIndex.build snapshot) tag (some .paged)).length =
      ((summaryOf (summarizeTags tags (TagIndex.build snapshot)) tag).map
        (·.pagedAllocations)).getD 0 ∧
    (collectTag (TagIndex.build snapshot) tag (some .nonPaged)).length =
      ((summaryOf (summarizeTags tags (TagIndex.build snapshot)) tag).map
        (·.nonpagedAllocations)).getD 0 ∧
    -- all the lines together
    ((summarizeTags tags (TagIndex.build snapshot)).map (·.allocations)).sum =
      (reportOf (TagIndex.build snapshot).toPoolIndex).allocatedChunks ∧
    -- the rows of the tag
    (contextForTag rows (TagIndex.build snapshot) tag).Pairwise (· < ·) ∧
    (∀ i, i ∈ contextForTag rows (TagIndex.build snapshot) tag ↔
      ∃ span, (TagIndex.build snapshot).spans[i]? = some span ∧
        ∃ chunk ∈ (TagIndex.build snapshot).spans,
          (chunk.state = .allocated ∧ chunk.rawTag = tag) ∧
            RowIdentity.ofSpan chunk = RowIdentity.ofSpan span) := by
  obtain ⟨hall, hpaged, hnonPaged⟩ :=
    length_filter_passes ((TagIndex.build snapshot).spans.filter (carries tag))
  obtain ⟨hcount, hcountPaged, hcountNonPaged⟩ :=
    lineOf_counts (TagIndex.build snapshot).spans tag
  simp only [postings_build, collectTag_build, summaryOf_summarizeTags]
  refine ⟨build_perm snapshot, positions_pairwise, fun i => ?_, summarizeTags_nodup,
    (congrArg List.length hall).trans hcount.symm, ?_, ?_, ?_, hpaged.trans hcountPaged.symm,
    hnonPaged.trans hcountNonPaged.symm, sum_allocations, contextForTag_pairwise,
    fun _ => mem_contextForTag⟩
  · simp only [mem_positions, carries_iff]
  · rw [hall]
    exact List.filter_append_perm (fun span : PoolSpan => span.poolKind.isPaged) _
  · intro span hspan
    simpa [PoolPageFilter.passes] using List.of_mem_filter hspan
  · intro span hspan
    simpa [PoolPageFilter.passes] using List.of_mem_filter hspan

/-! ## The order of the census -/

section Order

variable {spans : List PoolSpan} {left right : ℕ} {a b : PoolTagSummary}

instance : Std.Total PoolTagSummary.le where
  total a b := by
    rcases Nat.lt_trichotomy a.totalBytes b.totalBytes with hlt | heq | hgt
    · exact .inr (.inl hlt)
    · rcases le_total a.displayTag b.displayTag with hle | hle
      · exact .inl (.inr ⟨heq.symm, hle⟩)
      · exact .inr (.inr ⟨heq, hle⟩)
    · exact .inl (.inl hgt)

instance : IsTrans PoolTagSummary PoolTagSummary.le where
  trans a b c hab hbc := by
    rcases hab with hab | ⟨hab, hle⟩
    · rcases hbc with hbc | ⟨hbc, -⟩
      · exact .inl (hbc.trans hab)
      · exact .inl (hbc.trans_lt hab)
    · rcases hbc with hbc | ⟨hbc, hle'⟩
      · exact .inl (hbc.trans_eq hab)
      · exact .inr ⟨hbc.trans hab, hle.trans hle'⟩

theorem PoolTagSummary.le_le_iff :
    a.le b ∧ b.le a ↔ a.totalBytes = b.totalBytes ∧ a.displayTag = b.displayTag := by
  constructor
  · rintro ⟨hab | ⟨hab, hle⟩, hba | ⟨hba, hle'⟩⟩
    · omega
    · omega
    · omega
    · exact ⟨hba, le_antisymm hle hle'⟩
  · rintro ⟨hbytes, htag⟩
    exact ⟨.inr ⟨hbytes.symm, htag.le⟩, .inr ⟨hbytes, htag.ge⟩⟩

/-- Two tags in use whose chunks come to as many bytes and are printed alike. -/
def Tied (spans : List PoolSpan) (left right : ℕ) : Prop :=
  left ≠ right ∧ ∃ a b, lineOf spans left = some a ∧ lineOf spans right = some b ∧
    a.totalBytes = b.totalBytes ∧ a.displayTag = b.displayTag

variable {index : TagIndex} {order order' : Iteration (Sigma fun _ : ℕ => PoolTagSummary)}

/-- Without ties the comparison leaves one way to sort the lines. -/
theorem summarizeTags_eq (h : ∀ left right, ¬ Tied index.spans left right) :
    summarizeTags order index = summarizeTags order' index := by
  have hperm : (summarizeTags order index).Perm (summarizeTags order' index) :=
    summarizeTags_perm.trans summarizeTags_perm.symm
  refine hperm.eq_of_pairwise (fun a b ha hb hab hba => ?_)
    (List.pairwise_insertionSort PoolTagSummary.le _)
    (List.pairwise_insertionSort PoolTagSummary.le _)
  have hline := mem_summarizeTags.mp ha
  have hline' := mem_summarizeTags.mp hb
  by_cases htag : a.rawTag = b.rawTag
  · rw [htag] at hline
    exact Option.some.inj (hline.symm.trans hline')
  · exact absurd ⟨htag, a, b, hline, hline', PoolTagSummary.le_le_iff.mp ⟨hab, hba⟩⟩ (h _ _)

theorem tied_sublist
    (hrun : [a, b].Sublist ((order.run (summaries index.spans).entries).map Sigma.snd))
    (hle : a.le b) : [a, b].Sublist (summarizeTags order index) :=
  (stableSort_insertionSort _).stable _ (List.pairwise_pair.mpr hle) hrun

/-- So a map read forwards and backwards gives two censuses. -/
theorem summarizeTags_backwards_ne
    (hsub : [a, b].Sublist ((summaries index.spans).entries.map Sigma.snd))
    (hab : a.le b) (hba : b.le a) :
    summarizeTags .asStored index ≠ summarizeTags .backwards index := by
  intro hsame
  have hforth : [a, b].Sublist (summarizeTags .asStored index) := tied_sublist hsub hab
  have hback : [b, a].Sublist (summarizeTags .backwards index) := by
    refine tied_sublist ?_ hba
    rw [Iteration.backwards, List.map_reverse]
    exact hsub.reverse
  rw [← hsame] at hback
  exact not_both_orders summarizeTags_nodup.of_map hforth hback

/-- **The census has one order exactly when no two tags in use are tied.** -/
theorem census_order_iff (snapshot : PoolSnapshot) :
    (∀ first second, summarizeTags first (TagIndex.build snapshot) =
      summarizeTags second (TagIndex.build snapshot)) ↔
      ∀ left right, ¬ Tied (TagIndex.build snapshot).spans left right := by
  refine ⟨fun hsame left right => ?_, fun h _ _ => summarizeTags_eq h⟩
  rintro ⟨hne, a, b, ha, hb, htied⟩
  obtain ⟨hab, hba⟩ := PoolTagSummary.le_le_iff.mpr htied
  have hmem : ∀ {tag line}, lineOf (TagIndex.build snapshot).spans tag = some line →
      line ∈ (summaries (TagIndex.build snapshot).spans).entries.map Sigma.snd :=
    fun {tag line} hline => List.mem_map.mpr ⟨⟨tag, line⟩, mem_summaries.mpr hline, rfl⟩
  obtain ⟨i, hi⟩ := List.mem_iff_getElem?.mp (hmem ha)
  obtain ⟨j, hj⟩ := List.mem_iff_getElem?.mp (hmem hb)
  rcases Nat.lt_trichotomy i j with hlt | heq | hgt
  · exact summarizeTags_backwards_ne (pair_sublist hi hj hlt) hab hba (hsame _ _)
  · subst heq
    obtain rfl : a = b := Option.some.inj (hi.symm.trans hj)
    exact hne ((rawTag_of_lineOf ha).symm.trans (rawTag_of_lineOf hb))
  · exact summarizeTags_backwards_ne (pair_sublist hj hi hgt) hba hab (hsame _ _)

/-- Two chunks of 32 bytes, with the tags 1 and 2: both print as four dots. -/
def dottedSnapshot : PoolSnapshot :=
  let chunk (address tag : ℕ) : PoolSpan :=
    { headerAddress := address
      usableAddress := address + 16
      size := 32
      requestedSize := none
      rawTag := tag
      displayTag := displayTag tag
      poolKind := .nonPagedNx
      numaNode := 0
      heap := ⟨0, 0x1000, false⟩
      subsegment := none
      backend := .segment
      state := .allocated
      sizeClass := 0 }
  { PoolSnapshot.start .empty true none with spans := [chunk 0x2000 1, chunk 0x3000 2] }

/-- Two runs of the census over the same spans rank their tags differently. -/
theorem dotted_census_has_two_orders :
    (summarizeTags .asStored (TagIndex.build dottedSnapshot)).map (·.rawTag) = [2, 1] ∧
    (summarizeTags .backwards (TagIndex.build dottedSnapshot)).map (·.rawTag) = [1, 2] := by
  decide +kernel

end Order

end DbgScope.Pool
