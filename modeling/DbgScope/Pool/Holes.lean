import DbgScope.Pool.Neighbours

/-!
# The hole next to an allocation

The free chunks an overflow or an underflow of an allocation would run into are ranked, and what
ranks first is to be immediate: to be the first hole, at no distance. The distance is measured
between the addresses users see, and between two chunks that border there are still the headers of
the second one; only the big-page table can say that a block of a kernel pool has none.
-/

namespace DbgScope.Pool

open PoolSnapshot PoolIndex

/-! ## Ranking -/

def RanksFirst (index : PoolIndex) (direction : Direction) (i j : ℕ) : Prop :=
  ∃ hole rest, index.rankedHoles i direction = hole :: rest ∧ hole.spanIndex = j ∧
    hole.immediate = true ∧ ∀ other ∈ rest, other.immediate = false

def firstHole (direction : Direction) (origin span : PoolSpan) (position : ℕ) : Hole where
  spanIndex := position
  address := span.usableAddress
  size := span.size
  state := span.state
  distance := holeDistance direction origin span
  immediate := holeDistance direction origin span == 0

section Ranking

variable {index : PoolIndex} {direction : Direction} {i j : ℕ} {origin span : PoolSpan}

variable (index direction origin) in
theorem holesFrom_append (rounds cursor : ℕ) (found : List Hole) (hfound : found ≠ []) :
    ∃ more, index.holesFrom origin direction rounds cursor found = found ++ more ∧
      ∀ hole ∈ more, hole.immediate = false := by
  have hnothing : ∃ more, found = found ++ more ∧ ∀ hole ∈ more, hole.immediate = false :=
    ⟨[], (List.append_nil _).symm, List.forall_mem_nil _⟩
  induction rounds generalizing cursor found with
  | zero => exact hnothing
  | succ rounds ih =>
    unfold holesFrom
    split
    · exact hnothing
    · split
      · exact hnothing
      · split
        · exact hnothing
        · next next _ _ span _ _ =>
          have hlater : found.isEmpty = false := List.isEmpty_eq_false_iff.mpr hfound
          rw [hlater]
          obtain ⟨more, hmore, himmediate⟩ := ih next (found ++ [_]) (by simp)
            ⟨[], (List.append_nil _).symm, List.forall_mem_nil _⟩
          rw [hmore, List.append_assoc]
          exact ⟨_, rfl, List.forall_mem_cons.mpr ⟨rfl, himmediate⟩⟩

variable (direction) in
theorem holes_cases (horigin : index.spans[i]? = some origin) :
    index.holes i direction = [] ∧ (∀ j span, index.beside direction i = some j →
      index.spans[j]? = some span → span.state = .allocated) ∨
    ∃ j span more, index.beside direction i = some j ∧ index.spans[j]? = some span ∧
      span.state ≠ .allocated ∧
      index.holes i direction = firstHole direction origin span j :: more ∧
      ∀ hole ∈ more, hole.immediate = false := by
  unfold holes
  rw [horigin]
  dsimp only
  rw [holesFrom]
  cases hbeside : index.beside direction i with
  | none => exact Or.inl ⟨rfl, fun _ _ hsome => by cases hsome⟩
  | some next =>
    dsimp only
    cases hspan : index.spans[next]? with
    | none =>
      refine Or.inl ⟨rfl, fun j span hj hspan' => ?_⟩
      rw [← Option.some.inj hj, hspan] at hspan'
      cases hspan'
    | some span =>
      dsimp only
      by_cases hstate : span.state = .allocated
      · rw [if_pos hstate]
        refine Or.inl ⟨rfl, fun j other hj hother => ?_⟩
        rw [← Option.some.inj hj, hspan] at hother
        rwa [← Option.some.inj hother]
      · rw [if_neg hstate, List.nil_append]
        obtain ⟨more, hmore, himmediate⟩ :=
          holesFrom_append index direction origin index.spans.length next
          [firstHole direction origin span next] (by simp)
        exact Or.inr ⟨next, span, more, rfl, hspan, hstate, hmore, himmediate⟩

theorem holeLe_of_immediate {a b : Hole} (ha : a.immediate = true) (hb : b.immediate = false) :
    index.holeLe origin a b := by
  unfold holeLe holeKey
  rw [Prod.Lex.toLex_le_toLex, ha, hb]
  exact Or.inl Bool.false_lt_true

/-- **What it takes to rank first**: to be the neighbour, free, and at no distance. -/
theorem ranksFirst_iff (horigin : index.spans[i]? = some origin)
    (hspan : index.spans[j]? = some span) :
    RanksFirst index direction i j ↔ index.beside direction i = some j ∧
      span.state ≠ .allocated ∧ holeDistance direction origin span = 0 := by
  have hranked : index.rankedHoles i direction =
      (index.holes i direction).insertionSort (index.holeLe origin) := by
    unfold rankedHoles
    rw [horigin]
  unfold RanksFirst
  rw [hranked]
  rcases holes_cases direction horigin with
    ⟨hnone, hblocked⟩ | ⟨next, free, more, hbeside, hfree, hstate, hholes, hmore⟩
  · rw [hnone]
    refine iff_of_false (by rintro ⟨_, _, h, -⟩; cases h) ?_
    rintro ⟨hbeside, hstate, -⟩
    exact hstate (hblocked j span hbeside hspan)
  · rw [hholes]
    constructor
    · rintro ⟨hole, rest, hsorted, rfl, himmediate, -⟩
      have hmem : hole ∈ firstHole direction origin free next :: more :=
        (List.mem_insertionSort _).mp (hsorted ▸ List.mem_cons_self)
      rcases List.mem_cons.mp hmem with rfl | hmem
      · obtain rfl : free = span := Option.some.inj (hfree.symm.trans hspan)
        exact ⟨hbeside, hstate, eq_of_beq himmediate⟩
      · rw [hmore hole hmem] at himmediate
        cases himmediate
    · rintro ⟨hj, -, hdistance⟩
      obtain rfl : next = j := Option.some.inj (hbeside.symm.trans hj)
      obtain rfl : free = span := Option.some.inj (hfree.symm.trans hspan)
      have himmediate : (firstHole direction origin free next).immediate = true :=
        beq_iff_eq.mpr hdistance
      refine ⟨_, _, List.insertionSort_cons_of_forall_rel _ fun hole hmem =>
        holeLe_of_immediate himmediate (hmore hole hmem), rfl, himmediate, fun hole hmem => ?_⟩
      exact hmore hole ((List.mem_insertionSort _).mp hmem)

end Ranking

/-! ## Where chunks lie -/

/-- The block of an LFH slot or of a VS chunk, and where the slot or the chunk starts and ends. -/
inductive Extent (region : PoolRegion) (span : PoolSpan) : ℕ → ℕ → Prop
  | slot (k : ℕ) (hlfh : region.backend = .lfh)
      (husable : span.usableAddress =
        region.address + k * region.unitSize + region.poolHeader.size)
      (hend : span.spanEnd = region.address + (k + 1) * region.unitSize) :
      Extent region span (region.address + k * region.unitSize)
        (region.address + (k + 1) * region.unitSize)
  | chunk (link : Link) (hvs : region.backend = .vs)
      (hplaced : Placed region link.address link.chunk.size)
      (hreported : Reported region link span) : Extent region span link.address link.stop

/-- The big-page table names a block at the very start of the chunk. -/
def NamedAtStart (region : PoolRegion) (start stop : ℕ) : Prop :=
  region.backend = .vs ∧
    ∃ named, vsBigPool region start (stop - start) = some named ∧ named.1 = start

section Extents

variable {region : PoolRegion} {span left right : PoolSpan} {start middle stop : ℕ}

theorem Stems.extent (h : Stems region span)
    (hbackend : region.backend = .lfh ∨ region.backend = .vs)
    (hordinary : region.heap.special = false) (hchunk : span.state.isChunk = true) :
    ∃ start stop, Extent region span start stop := by
  rcases hbackend with hlfh | hvs
  · obtain ⟨k, hstart, husable, hend⟩ := h.slot hlfh hordinary hchunk
    exact ⟨_, _, .slot k hlfh (hstart ▸ husable) hend⟩
  · obtain ⟨link, hplaced, hreported⟩ := h.chunk hvs hordinary hchunk
    exact ⟨_, _, .chunk link hvs hplaced hreported⟩

theorem Reported.spanEnd_le {link : Link} (h : Reported region link span)
    (hplaced : Placed region link.address link.chunk.size) : span.spanEnd ≤ link.stop := by
  have hspace := hplaced.space
  unfold PoolSpan.spanEnd
  rw [h.usable, h.size]
  unfold Link.usable Link.usableSize
  cases hnamed : vsBigPool region link.address link.chunk.size with
  | none => exact (hplaced.spanEnd 0 [] .allocated).le
  | some named =>
    obtain ⟨-, -, hhigh⟩ := vsBigPool_some hnamed
    rwa [saturatingAdd_of_lt (by omega : link.address + link.chunk.size < 2 ^ 64)] at hhigh

theorem Extent.spanEnd_le (h : Extent region span start stop) : span.spanEnd ≤ stop := by
  cases h with
  | slot k hlfh husable hend => exact hend.le
  | chunk link hvs hplaced hreported => exact hreported.spanEnd_le hplaced

/-- Headers in front of a block are left out of it, but where the big-page table says otherwise. -/
theorem Extent.usable_eq_start_iff (h : Extent region span start stop)
    (hkernel : 0 < region.poolHeader.size) :
    start ≤ span.usableAddress ∧ (span.usableAddress = start ↔ NamedAtStart region start stop) := by
  cases h with
  | slot k hlfh husable hend =>
    refine ⟨by omega, iff_of_false (by omega) ?_⟩
    rintro ⟨hvs, -⟩
    rw [hlfh] at hvs
    cases hvs
  | chunk link hvs hplaced hreported =>
    have hsize : link.stop - link.address = link.chunk.size := Nat.add_sub_cancel_left _ _
    unfold NamedAtStart
    rw [hreported.usable, hsize]
    unfold Link.usable
    cases hnamed : vsBigPool region link.address link.chunk.size with
    | none =>
      obtain ⟨hlow, hhigh⟩ := hplaced.physical
      have hspace := hplaced.space
      dsimp only
      rw [wrappingAdd_of_lt (by omega)]
      refine ⟨by omega, iff_of_false (by omega) ?_⟩
      rintro ⟨-, named, hsome, -⟩
      cases hsome
    | some named =>
      obtain ⟨hlow, -, -⟩ := vsBigPool_some hnamed
      refine ⟨hlow, fun heq => ⟨hvs, named, rfl, heq⟩, ?_⟩
      rintro ⟨-, other, hother, heq⟩
      rwa [← Option.some.inj hother] at heq

/-- Two bordering chunks are at no distance when nothing is between the first one's block and the
second one's. -/
theorem distance_eq_zero_iff (hleft : Extent region left start middle)
    (hright : Extent region right middle stop) (hkernel : 0 < region.poolHeader.size) :
    right.usableAddress - left.spanEnd = 0 ↔
      left.spanEnd = middle ∧ NamedAtStart region middle stop := by
  have hend := hleft.spanEnd_le
  obtain ⟨hlow, hstart⟩ := hright.usable_eq_start_iff hkernel
  rw [← hstart]
  omega

end Extents

/-! ## Walks -/

def Stemming (region : PoolRegion) (before : List PoolSpan) (w : World PoolSnapshot) : Prop :=
  ∃ new, w.state.spans = before ++ new ∧ ∀ span ∈ new, Stems region span

theorem stemming_files (region : PoolRegion) (before : List PoolSpan) :
    Files region (Stemming region before) where
  note h := h
  write := by
    rintro w snapshot ⟨new, hspans, hstems⟩ hsame
    exact ⟨new, hsame.spans.trans hspans, hstems⟩
  record := by
    rintro w span ⟨new, hspans, hstems⟩ hspan
    refine ⟨new ++ [span], ?_,
      List.forall_mem_append.mpr ⟨hstems, List.forall_mem_singleton.mpr hspan⟩⟩
    show (w.state.recordSpan span).spans = _
    rw [recordSpan_spans, hspans, List.append_assoc]

theorem walkRegion_stems {memory : PoolMemory} (hexact : Exact memory) (limit : ℕ)
    {region : PoolRegion} (hbackend : region.backend = .lfh ∨ region.backend = .vs)
    (hspace : region.InSpace) (w₀ : World PoolSnapshot) :
    ∀ span ∈ filedSince w₀ (walkRegion memory limit region w₀).2, Stems region span := by
  have hend : region.requestedEnd < 2 ^ 64 - 1 := by
    rw [hspace.requestedEnd]
    exact hspace
  have hwalk : walkOne memory limit region = walkRegion memory limit region := by
    unfold walkOne
    rw [if_neg (by rcases hbackend with h | h <;> rw [h] <;> decide)]
  have hfiled := walkOne_files (stemming_files region w₀.state.spans) hexact limit hend w₀
    ⟨[], (List.append_nil _).symm, List.forall_mem_nil _⟩
  rw [hwalk] at hfiled
  obtain ⟨new, hspans, hstems⟩ := Run.Ends.anyway hfiled
  unfold filedSince
  rwa [hspans, List.drop_left]

/-- **The bordering hole ranks first where no header is in front of the second block.** Over every
index of the spans a walk filed for an LFH or VS subsegment of the kernel pool, and for every
allocation with a free chunk behind it or in front of it. -/
theorem bordering_hole_ranks_first {memory : PoolMemory} (hexact : Exact memory) (limit : ℕ)
    {region : PoolRegion} (hbackend : region.backend = .lfh ∨ region.backend = .vs)
    (hordinary : region.heap.special = false) (hspace : region.InSpace)
    (hkernel : 0 < region.poolHeader.size) (w₀ : World PoolSnapshot) :
    (∀ span ∈ filedSince w₀ (walkRegion memory limit region w₀).2, span.state.isChunk = true →
      ∃ start stop, Extent region span start stop) ∧
    ∀ (index : PoolIndex) (i j : ℕ) (left right : PoolSpan) (start middle stop : ℕ),
      left ∈ filedSince w₀ (walkRegion memory limit region w₀).2 →
      right ∈ filedSince w₀ (walkRegion memory limit region w₀).2 →
      index.spans[i]? = some left → index.spans[j]? = some right →
      left.state.isChunk = true → right.state.isChunk = true →
      Extent region left start middle → Extent region right middle stop →
      (left.state = .allocated → right.state ≠ .allocated →
        (RanksFirst index .overflow i j ↔
          j = i + 1 ∧ left.spanEnd = middle ∧ NamedAtStart region middle stop)) ∧
      (right.state = .allocated → left.state ≠ .allocated →
        (RanksFirst index .underflow j i ↔
          j = i + 1 ∧ left.spanEnd = middle ∧ NamedAtStart region middle stop)) := by
  have hstems := walkRegion_stems hexact limit hbackend hspace w₀
  refine ⟨fun span hspan hchunk => (hstems span hspan).extent hbackend hordinary hchunk, ?_⟩
  intro index i j left right start middle stop hl hr hi hj hlchunk hrchunk hleft hright
  have hdistance := distance_eq_zero_iff hleft hright hkernel
  have hsame : sameBoundary left right = true :=
    sameBoundary_iff.mpr ⟨(hstems left hl).site.trans (hstems right hr).site.symm, hlchunk, hrchunk⟩
  have hbeside : (∃ l r, index.spans[i]? = some l ∧ index.spans[i + 1]? = some r ∧
      sameBoundary l r = true) ∧ j = i + 1 ↔ j = i + 1 := by
    refine ⟨fun h => h.2, ?_⟩
    rintro rfl
    exact ⟨⟨left, right, hi, hj, hsame⟩, rfl⟩
  refine ⟨fun _ hfree => ?_, fun _ hfree => ?_⟩
  · rw [ranksFirst_iff hi hj, show index.beside .overflow i = index.successor i from rfl,
      successor_eq_some, ← and_comm (b := j = i + 1), hbeside,
      show holeDistance .overflow left right = 0 ↔ _ from hdistance]
    exact ⟨fun h => ⟨h.1, h.2.2⟩, fun h => ⟨h.1, hfree, h.2⟩⟩
  · rw [ranksFirst_iff hj hi, show index.beside .underflow j = index.predecessor j from rfl,
      predecessor_eq_some, ← and_comm (b := j = i + 1), hbeside,
      show holeDistance .underflow right left = 0 ↔ _ from hdistance]
    exact ⟨fun h => ⟨h.1, h.2.2⟩, fun h => ⟨h.1, hfree, h.2⟩⟩

/-! ## A cached chunk before a reusable one -/

/-- Three chunks of a page: allocated, cached, and free. -/
def threeChunks : ℕ → ℕ
  | 0x1000 => 0x0001000000101000
  | 0x1100 => 0x0001001000101100
  | 0x1200 => 0x0000001000e01200
  | _ => 0

/-- Their subsegment, with sixteen-byte headers of both kinds. -/
def threeChunksPage : PoolRegion :=
  { vsPage with
    poolHeader := { size := 0x10, previousSize := 0, poolIndex := 0, blockSize := 2, poolType := 2,
                    tag := 4 }
    cachedChunks := {0x1100} }

def threeChunksIndex : PoolIndex :=
  PoolIndex.build (walkDiscoveredRegions (smallTarget threeChunks none) 8 [threeChunksPage] none
    false emptySnapshot).2.state

theorem bordering_hole_ranks_first_threeChunks :
    (0 < threeChunksPage.poolHeader.size) ∧
    ∀ span ∈ filedSince emptySnapshot (walkRegion (smallTarget threeChunks none) 8 threeChunksPage
      emptySnapshot).2, span.state.isChunk = true →
      ∃ start stop, Extent threeChunksPage span start stop := by
  have hexact : Exact (smallTarget threeChunks none) := by
    intro _ _ size bytes h
    rw [← Except.ok.inj h, length_bytesAt]
  exact ⟨by decide, (bordering_hole_ranks_first hexact 8 (Or.inr rfl) rfl
    (by unfold PoolRegion.InSpace; decide) (by decide) emptySnapshot).1⟩

/-- The cached chunk borders the allocation, and the free one behind it comes first. -/
theorem bordering_hole_ranks_second :
    threeChunksIndex.spans.map (fun span => (span.usableAddress, span.spanEnd, span.state)) =
      [(0x1020, 0x1100, .allocated), (0x1120, 0x1200, .cachedFree),
        (0x1220, 0x2000, .reusableFree)] ∧
    (threeChunksIndex.rankedHoles 0 .overflow).map
        (fun hole => (hole.spanIndex, hole.distance, hole.immediate)) =
      [(2, 0x120, false), (1, 0x20, false)] ∧
    holeAdvice "overflow" (threeChunksIndex.rankedHoles 0 .overflow) =
      "  overflow: reusable hole at 0x1220+0xde0, distance 0x120.\n" ∧
    ¬ RanksFirst threeChunksIndex .overflow 0 1 := by
  have hholes : (threeChunksIndex.rankedHoles 0 .overflow).map
      (fun hole => (hole.spanIndex, hole.distance, hole.immediate)) =
      [(2, 0x120, false), (1, 0x20, false)] := by decide +kernel
  refine ⟨by decide +kernel, hholes, by decide +kernel, ?_⟩
  rintro ⟨hole, rest, hranked, hindex, -⟩
  rw [hranked, List.map_cons, List.cons.injEq, Prod.mk.injEq, hindex] at hholes
  exact absurd hholes.1.1 (by decide)

end DbgScope.Pool
