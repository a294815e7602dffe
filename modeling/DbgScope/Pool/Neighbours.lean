import DbgScope.StableSort
import DbgScope.Pool.Filing
import DbgScope.Pool.Index
import DbgScope.Pool.VsSubsegments

/-!
# What a reported neighbour is

A walk over any mix of regions, sorted into an index, and the chunk an address is in with its
neighbours. Outside of VS subsegments two neighbours touch because the query asks them to. In a VS
subsegment the walk has to leave nothing out between two chunks without filing a gap; it does where
every header of the chain is there (`Chained.spaced`).
-/

namespace DbgScope.Pool

open Run (Ends Triple)
open PoolSnapshot PoolIndex

/-! ## The index -/

instance : Std.Refl spanLe := ⟨fun _ => le_refl _⟩

instance : IsTrans PoolSpan spanLe := ⟨fun _ _ _ => le_trans⟩

instance : Std.Total spanLe := ⟨fun _ _ => le_total _ _⟩

theorem spanLe_iff {a b : PoolSpan} (h : a.heap = b.heap) :
    spanLe a b ↔ a.usableAddress ≤ b.usableAddress := by
  unfold spanLe
  rw [h]
  simp [Prod.Lex.toLex_le_toLex]

theorem sameBoundary_iff {left right : PoolSpan} : sameBoundary left right = true ↔
    left.site = right.site ∧ left.state.isChunk = true ∧ right.state.isChunk = true := by
  unfold sameBoundary PoolSpan.site
  simp only [Bool.and_eq_true, decide_eq_true_iff, Site.mk.injEq]
  tauto

variable {index : PoolIndex} {i j : ℕ}

theorem successor_eq_some : index.successor i = some j ↔
    j = i + 1 ∧ ∃ left right, index.spans[i]? = some left ∧ index.spans[i + 1]? = some right ∧
      sameBoundary left right = true := by
  unfold successor
  simp only [Option.bind_eq_bind, Option.bind_eq_some_iff, Option.ite_none_right_eq_some,
    Option.some.injEq]
  constructor
  · rintro ⟨left, hleft, right, hright, hsame, rfl⟩
    exact ⟨rfl, left, right, hleft, hright, hsame⟩
  · rintro ⟨rfl, left, right, hleft, hright, hsame⟩
    exact ⟨left, hleft, right, hright, hsame, rfl⟩

theorem predecessor_eq_some : index.predecessor j = some i ↔
    j = i + 1 ∧ ∃ left right, index.spans[i]? = some left ∧ index.spans[i + 1]? = some right ∧
      sameBoundary left right = true := by
  unfold predecessor checkedSub
  simp only [Option.bind_eq_bind, Option.bind_eq_some_iff, Option.ite_none_right_eq_some,
    Option.some.injEq]
  constructor
  · rintro ⟨_, ⟨hle, rfl⟩, left, hleft, right, hright, hsame, rfl⟩
    obtain ⟨i, rfl⟩ : ∃ i, j = i + 1 := ⟨j - 1, by omega⟩
    exact ⟨rfl, left, right, hleft, hright, hsame⟩
  · rintro ⟨rfl, left, right, hleft, hright, hsame⟩
    exact ⟨i, ⟨by omega, rfl⟩, left, hleft, right, hright, hsame, rfl⟩

/-- Two entries of an index that are next to each other, chunks of one subsegment, and touch. -/
structure Beside (index : PoolIndex) (i : ℕ) (left right : PoolSpan) : Prop where
  first : index.spans[i]? = some left
  second : index.spans[i + 1]? = some right
  site : left.site = right.site
  firstChunk : left.state.isChunk = true
  secondChunk : right.state.isChunk = true
  touch : touching left right = true

theorem neighbourhoodOf_next {answer : PoolNeighbourhood}
    (h : index.neighbourhoodOf i = some answer) (right : PoolSpan) :
    answer.next = some right ↔ Beside index i answer.chunk right := by
  unfold neighbourhoodOf at h
  simp only [Option.bind_eq_bind, Option.bind_eq_some_iff, Option.pure_def,
    Option.some.injEq] at h
  obtain ⟨chunk, hchunk, rfl⟩ := h
  simp only [Option.filter_eq_some_iff, Option.bind_eq_some_iff, successor_eq_some]
  constructor
  · rintro ⟨⟨j, ⟨rfl, left, right', hleft, hright', hsame⟩, hright⟩, htouching⟩
    obtain rfl : chunk = left := Option.some.inj (hchunk.symm.trans hleft)
    obtain rfl : right' = right := Option.some.inj (hright'.symm.trans hright)
    obtain ⟨hsite, hl, hr⟩ := sameBoundary_iff.mp hsame
    exact ⟨hleft, hright, hsite, hl, hr, htouching⟩
  · intro h
    exact ⟨⟨i + 1, ⟨rfl, chunk, right, hchunk, h.second,
      sameBoundary_iff.mpr ⟨h.site, h.firstChunk, h.secondChunk⟩⟩, h.second⟩, h.touch⟩

theorem neighbourhoodOf_previous {answer : PoolNeighbourhood}
    (h : index.neighbourhoodOf j = some answer) (left : PoolSpan) :
    answer.previous = some left ↔ ∃ i, j = i + 1 ∧ Beside index i left answer.chunk := by
  unfold neighbourhoodOf at h
  simp only [Option.bind_eq_bind, Option.bind_eq_some_iff, Option.pure_def,
    Option.some.injEq] at h
  obtain ⟨chunk, hchunk, rfl⟩ := h
  simp only [Option.filter_eq_some_iff, Option.bind_eq_some_iff, predecessor_eq_some]
  constructor
  · rintro ⟨⟨i, ⟨rfl, left', right, hleft', hright, hsame⟩, hleft⟩, htouching⟩
    obtain rfl : chunk = right := Option.some.inj (hchunk.symm.trans hright)
    obtain rfl : left' = left := Option.some.inj (hleft'.symm.trans hleft)
    obtain ⟨hsite, hl, hr⟩ := sameBoundary_iff.mp hsame
    exact ⟨i, rfl, hleft, hright, hsite, hl, hr, htouching⟩
  · rintro ⟨i, rfl, h⟩
    exact ⟨⟨i, ⟨rfl, left, chunk, h.first, hchunk,
      sameBoundary_iff.mpr ⟨h.site, h.firstChunk, h.secondChunk⟩⟩, h.first⟩, h.touch⟩

/-- **Next and previous are inverse to each other**, entry by entry. -/
theorem next_iff_previous {left right : PoolNeighbourhood}
    (hleft : index.neighbourhoodOf i = some left)
    (hright : index.neighbourhoodOf (i + 1) = some right) :
    left.next = some right.chunk ↔ right.previous = some left.chunk := by
  rw [neighbourhoodOf_next hleft, neighbourhoodOf_previous hright]
  constructor
  · exact fun h => ⟨i, rfl, h⟩
  · rintro ⟨j, hj, h⟩
    obtain rfl : i = j := by omega
    exact h

/-! ## Chunks of one subsegment -/

section Subsegment

variable {region : PoolRegion} {links : List Link} {new xs ys : List PoolSpan} {i : ℕ}
  {left right : PoolSpan}

theorem ChunkSpan.usable_le {l r : Link} (hl : ChunkSpan region l left)
    (hr : ChunkSpan region r right) (h : l.stop ≤ r.address) :
    left.usableAddress ≤ right.usableAddress := by
  have hhigh := hl.high
  have hlow := hr.low
  have husable := hr.usable
  omega

theorem ChunkSpan.ne {l r : Link} (hl : ChunkSpan region l left) (hr : ChunkSpan region r right)
    (h : l.stop ≤ r.address) : left ≠ right := by
  rintro rfl
  have hbefore := hl.before
  have hlow := hr.low
  omega

theorem chunkSpan_at (hfiled : List.Forall₂ (ChunkSpan region) links xs) {k : ℕ} {span : PoolSpan}
    (h : xs[k]? = some span) : ∃ link, links[k]? = some link ∧ ChunkSpan region link span := by
  obtain ⟨hk, rfl⟩ := List.getElem?_eq_some_iff.mp h
  have hk' : k < links.length := hfiled.length_eq ▸ hk
  exact ⟨links[k], List.getElem?_eq_getElem hk', hfiled.get hk' hk⟩

theorem ordered_at (hordered : links.Pairwise fun l r => l.stop ≤ r.address) {j k : ℕ} {l r : Link}
    (hl : links[j]? = some l) (hr : links[k]? = some r) (hlt : j < k) : l.stop ≤ r.address := by
  obtain ⟨hj, rfl⟩ := List.getElem?_eq_some_iff.mp hl
  obtain ⟨hk, rfl⟩ := List.getElem?_eq_some_iff.mp hr
  exact List.pairwise_iff_getElem.mp hordered j k hj hk hlt

theorem chunks_nodup (hfiled : List.Forall₂ (ChunkSpan region) links xs)
    (hordered : links.Pairwise fun l r => l.stop ≤ r.address) : xs.Nodup := by
  refine List.pairwise_iff_getElem.mpr fun j k hj hk hlt => ?_
  obtain ⟨l, hl, hleft⟩ := chunkSpan_at hfiled (List.getElem?_eq_getElem hj)
  obtain ⟨r, hr, hright⟩ := chunkSpan_at hfiled (List.getElem?_eq_getElem hk)
  exact hleft.ne hright (ordered_at hordered hl hr hlt)

/-- The spans filed for a VS subsegment with nothing left out unseen. -/
structure Unbroken (region : PoolRegion) (links : List Link) (new : List PoolSpan) : Prop where
  site : ∀ span ∈ new, span.site = region.site
  gap : ∀ span ∈ new, span.state.isChunk = false → span.usableAddress = span.headerAddress
  filed : List.Forall₂ (ChunkSpan region) links (new.filter fun span => span.state.isChunk)
  ordered : links.Pairwise fun l r => l.stop ≤ r.address
  spaced : links.IsChain fun l r => Spaced new l.stop r.address

def PoolRegion.ownChunk (region : PoolRegion) (span : PoolSpan) : Bool :=
  span.state.isChunk && decide (span.site = region.site)

theorem ownChunk_site {span : PoolSpan} (h : region.ownChunk span = true) :
    span.site = region.site := by
  unfold PoolRegion.ownChunk at h
  exact of_decide_eq_true (Bool.and_eq_true_iff.mp h).2

/-- **Two chunks of such a subsegment that are next to each other in the index border.** -/
theorem Unbroken.border (h : Unbroken region links new) (hsort : StableSort spanLe xs ys)
    (hnew : new.Sublist xs)
    (honly : xs.filter region.ownChunk = new.filter fun span => span.state.isChunk)
    (hleft : ys[i]? = some left) (hright : ys[i + 1]? = some right)
    (hl : region.ownChunk left = true) (hr : region.ownChunk right = true) :
    ∃ l ∈ links, ∃ r ∈ links, ChunkSpan region l left ∧ ChunkSpan region r right ∧
      l.stop = r.address := by
  have hnodup : (xs.filter region.ownChunk).Nodup := honly ▸ chunks_nodup h.filed h.ordered
  -- each of the two is the span of a chunk of the chain
  have hown : ∀ {k : ℕ} {span : PoolSpan}, ys[k]? = some span → region.ownChunk span = true →
      ∃ (p : ℕ) (link : Link), (new.filter fun span => span.state.isChunk)[p]? = some span ∧
        links[p]? = some link ∧ ChunkSpan region link span := by
    intro k span hspan hchunk
    have hmem : span ∈ new.filter fun span => span.state.isChunk := by
      rw [← honly, List.mem_filter]
      exact ⟨hsort.perm.mem_iff.mp (List.mem_of_getElem? hspan), hchunk⟩
    obtain ⟨p, hp⟩ := List.mem_iff_getElem?.mp hmem
    obtain ⟨link, hlink, hspan⟩ := chunkSpan_at h.filed hp
    exact ⟨p, link, hp, hlink, hspan⟩
  obtain ⟨p, l, hp, hlinkl, hspanl⟩ := hown hleft hl
  obtain ⟨q, r, hq, hlinkr, hspanr⟩ := hown hright hr
  have hchunks : (new.filter fun span => span.state.isChunk).Sublist xs :=
    (List.filter_sublist).trans hnew
  have hchunk : ∀ {span : PoolSpan}, span ∈ (new.filter fun span => span.state.isChunk) →
      region.ownChunk span = true := fun hmem => (List.mem_filter.mp (honly ▸ hmem)).2
  have hheap : ∀ {a b : PoolSpan}, region.ownChunk a = true → region.ownChunk b = true →
      (spanLe a b ↔ a.usableAddress ≤ b.usableAddress) := fun ha hb =>
    spanLe_iff (congrArg Site.heap ((ownChunk_site ha).trans (ownChunk_site hb).symm))
  refine ⟨l, List.mem_of_getElem? hlinkl, r, List.mem_of_getElem? hlinkr, hspanl, hspanr, ?_⟩
  rcases Nat.lt_trichotomy p q with hlt | rfl | hgt
  · have hlr := ordered_at h.ordered hlinkl hlinkr hlt
    rcases Nat.lt_or_ge (p + 1) q with hfar | hnear
    · -- another chunk of the chain was filed between the two
      have hm := List.getElem?_eq_getElem (hfar.trans (List.getElem?_eq_some_iff.mp hq).1)
      obtain ⟨m, hlinkm, hspanm⟩ := chunkSpan_at h.filed hm
      have hmown := hchunk (List.mem_of_getElem? hm)
      have hlm := hspanl.usable_le hspanm (ordered_at h.ordered hlinkl hlinkm (by omega))
      have hmr := hspanm.usable_le hspanr (ordered_at h.ordered hlinkm hlinkr (by omega))
      refine absurd (List.Sublist.trans ?_ hchunks) (hsort.not_between hnodup hleft hright hl hr
        ((hheap hl hmown).mpr hlm) ((hheap hmown hr).mpr hmr) ((hheap hl hr).mpr (hlm.trans hmr)))
      exact cons_sublist_drop hp (Nat.zero_le p) (cons_sublist_drop hm (le_refl _)
        (cons_sublist_drop hq hfar (List.nil_sublist _)))
    · -- the next chunk of the chain that was filed: a gap before it would be between them
      obtain rfl : q = p + 1 := by omega
      obtain ⟨hpl, rfl⟩ := List.getElem?_eq_some_iff.mp hlinkl
      obtain ⟨hql, rfl⟩ := List.getElem?_eq_some_iff.mp hlinkr
      rcases List.isChain_iff_getElem.mp h.spaced p hql with heq | ⟨gap, hgap, hstate, hlow, hhigh⟩
      · exact heq
      · have husable := h.gap gap hgap hstate
        have hsite := h.site gap hgap
        have := hspanl.high
        have := hspanr.low
        have := hspanr.usable
        refine absurd (hnew.subset hgap) (hsort.not_mem_between hleft hright ?_ ?_)
        · rw [spanLe_iff (congrArg Site.heap (hsite.trans (ownChunk_site hl).symm))]
          omega
        · rw [spanLe_iff (congrArg Site.heap ((ownChunk_site hr).trans hsite.symm))]
          omega
  · obtain rfl := Option.some.inj (hp.symm.trans hq)
    have hnodup' : (ys.filter region.ownChunk).Nodup :=
      (hsort.perm.filter _).nodup_iff.mpr hnodup
    exact absurd (once_of_nodup_filter hnodup' hl hleft hright) (by omega)
  · refine absurd ((pair_sublist hq hp hgt).trans hchunks)
      (hsort.not_swapped hnodup hleft hright hl hr ?_)
    rw [hheap hr hl]
    exact hspanr.usable_le hspanl (ordered_at h.ordered hlinkr hlinkl hgt)

end Subsegment

/-! ## Whole walks -/

/-- What a walk may meet for its VS neighbours to border: a target that stands still, with some of
its memory missing, and regions of it; in every VS subsegment each header of the chunk chain is
there, and no two regions are the same VS subsegment. -/
structure Surveyed (memory : PoolMemory) (content : ℕ → UInt8) (there : ℕ → Prop)
    (chains : PoolRegion → List Link) (regions : List PoolRegion) : Prop where
  truth : Truthful memory content
  sparse : Sparse memory there
  space : ∀ region ∈ regions, region.InSpace
  intact : ∀ region ∈ regions, region.backend = .vs →
    (Subsegment.mk region content (chains region)).Intact
  own : regions.Pairwise fun a b => a.backend = .vs → a.site ≠ b.site

/-- What the walk of one region leaves. -/
structure Part (chains : PoolRegion → List Link) (region : PoolRegion) (new : List PoolSpan) :
    Prop where
  stems : ∀ span ∈ new, Stems region span
  unbroken : region.backend = .vs →
    ∃ links, links.Sublist (chains region) ∧ Unbroken region links new

def Unlimited (snapshot : PoolSnapshot) : Prop :=
  snapshot.matchLimit = none ∧ snapshot.stoppedAfterMatches = none

def Filing (region : PoolRegion) (before : List PoolSpan) (w : World PoolSnapshot) : Prop :=
  (∃ new, w.state.spans = before ++ new ∧ ∀ span ∈ new, Stems region span) ∧ Unlimited w.state

theorem filing_files (region : PoolRegion) (before : List PoolSpan) :
    Files region (Filing region before) where
  note h := h
  write := by
    rintro w snapshot ⟨⟨new, hspans, hstems⟩, hlimit, hstopped⟩ hsame
    exact ⟨⟨new, hsame.spans.trans hspans, hstems⟩, hsame.matchLimit.trans hlimit,
      hsame.stopped.trans hstopped⟩
  record := by
    rintro w span ⟨⟨new, hspans, hstems⟩, hlimit, hstopped⟩ hspan
    rw [recordSpan_unlimited hlimit]
    refine ⟨⟨new ++ [span], ?_, fun other hother => ?_⟩, hlimit, hstopped⟩
    · show w.state.spans ++ [span] = before ++ (new ++ [span])
      rw [hspans, List.append_assoc]
    · rcases List.mem_append.mp hother with hold | hnew
      · exact hstems other hold
      · rw [List.mem_singleton.mp hnew]
        exact hspan

section Walks

variable {memory : PoolMemory} {content : ℕ → UInt8} {there : ℕ → Prop}
  {chains : PoolRegion → List Link} {regions : List PoolRegion} {limit : ℕ}

theorem Truthful.exact (h : Truthful memory content) : Exact memory := by
  intro history address size bytes hread
  rw [h history address size bytes hread, length_bytesAt]

variable {region : PoolRegion} {new : List PoolSpan}
  (h : Surveyed memory content there chains regions)
include h

omit h in
theorem Chained.unbroken {before after : PoolSnapshot} {new : List PoolSpan}
    {links done rest : List Link} {next : ℕ}
    (h : Chained ⟨region, content, chains region⟩ memory there before new links done rest next
      after) (hi : (Subsegment.mk region content (chains region)).Intact)
    (hsparse : Sparse memory there) (hstems : ∀ span ∈ new, Stems region span) :
    Unbroken region links new where
  site span hspan := (hstems span hspan).site
  gap span hspan := (hstems span hspan).gap hi.region.backend hi.region.ordinary
  filed := h.filed
  ordered := hi.chain.pairwise.sublist h.sublist
  spaced := h.spaced hsparse

def Parted (chains : PoolRegion → List Link) (region : PoolRegion) (before : List PoolSpan)
    (w : World PoolSnapshot) : Prop :=
  (∃ new, w.state.spans = before ++ new ∧ Part chains region new) ∧ Unlimited w.state

theorem walkOne_part (hmem : region ∈ regions) (before : List PoolSpan) :
    Triple (fun w => w.state.spans = before ∧ Unlimited w.state)
      (walkOne memory limit region) (fun _ => Parted chains region before)
      (fun _ => Parted chains region before) := by
  rintro w ⟨rfl, hlimit⟩
  have hspace := h.space region hmem
  have hend : region.requestedEnd < 2 ^ 64 - 1 := by
    rw [hspace.requestedEnd]
    exact hspace
  have hfiling := walkOne_files (filing_files region w.state.spans) h.truth.exact limit hend w
    ⟨⟨[], (List.append_nil _).symm, List.forall_mem_nil _⟩, hlimit⟩
  by_cases hvs : region.backend = .vs
  · have hi := h.intact region hmem hvs
    have hwalk : walkOne memory limit region = walkRegion memory limit region := by
      unfold walkOne
      rw [if_neg (by rw [hvs]; decide)]
    have hchained := walkRegion_chained there limit hi h.truth hlimit
    rw [hwalk] at hfiling ⊢
    rcases hrun : walkRegion memory limit region w with ⟨r, v⟩
    rw [hrun] at hfiling
    rw [show walkRegion memory limit (Subsegment.mk region content (chains region)).region w =
      (r, v) from hrun] at hchained
    have hpart : ∀ {new links done rest next}, Filing region w.state.spans v →
        Chained ⟨region, content, chains region⟩ memory there w.state new links done rest next
          v.state → Parted chains region w.state.spans v := by
      rintro new links done rest next ⟨⟨new', hspans, hstems⟩, hlimit⟩ hchained
      obtain rfl : new' = new := List.append_cancel_left (hspans.symm.trans hchained.spans)
      exact ⟨⟨new', hspans, hstems, fun _ =>
        ⟨links, hchained.sublist, hchained.unbroken hi h.sparse hstems⟩⟩, hlimit⟩
    cases r with
    | error error =>
      obtain ⟨new, links, done, rest, next, hchained⟩ := hchained
      exact hpart hfiling hchained
    | ok _ =>
      obtain ⟨new, links, done, rest, next, hchained, -⟩ := hchained
      exact hpart hfiling hchained
  · have hpart : ∀ v, Filing region w.state.spans v → Parted chains region w.state.spans v := by
      rintro v ⟨⟨new, hspans, hstems⟩, hlimit⟩
      exact ⟨⟨new, hspans, hstems, fun h => absurd h hvs⟩, hlimit⟩
    exact Ends.imp hfiling (fun _ => hpart) fun _ => hpart

def Collected (chains : PoolRegion → List Link) (regions : List PoolRegion)
    (spans : List PoolSpan) : Prop :=
  ∃ parts : List (PoolRegion × List PoolSpan), (parts.map Prod.fst).Sublist regions ∧
    spans = (parts.map Prod.snd).flatten ∧ ∀ part ∈ parts, Part chains part.1 part.2

def Adds (chains : PoolRegion → List Link) (regions : List PoolRegion) (before : List PoolSpan)
    (w : World PoolSnapshot) : Prop :=
  (∃ new, w.state.spans = before ++ new ∧ Collected chains regions new) ∧ Unlimited w.state

theorem walkRegions_adds {rest : List PoolRegion} (hrest : rest ⊆ regions) (walked : ℕ)
    (before : List PoolSpan) : Triple (fun w => w.state.spans = before ∧ Unlimited w.state)
      (walkRegions memory limit rest walked) (fun _ => Adds chains rest before)
      (fun _ => Adds chains rest before) := by
  induction rest generalizing walked before with
  | nil =>
    refine Triple.pure fun w hw =>
      ⟨⟨[], ?_, [], List.nil_sublist _, rfl, List.forall_mem_nil _⟩, hw.2⟩
    rw [hw.1, List.append_nil]
  | cons region rest ih =>
    -- the region's part alone
    have hone : ∀ {w : World PoolSnapshot}, Parted chains region before w →
        Adds chains (region :: rest) before w := by
      rintro w ⟨⟨new, hspans, hpart⟩, hlimit⟩
      refine ⟨⟨new, hspans, [(region, new)], ?_, (List.append_nil new).symm, ?_⟩, hlimit⟩
      · exact (List.nil_sublist rest).cons_cons region
      · intro part hmem
        rw [List.mem_singleton.mp hmem]
        exact hpart
    -- and with the others' behind it
    have hmore : ∀ {w : World PoolSnapshot} {new : List PoolSpan}, Part chains region new →
        Adds chains rest (before ++ new) w → Adds chains (region :: rest) before w := by
      rintro w new hpart ⟨⟨more, hspans, parts, hsub, rfl, hparts⟩, hlimit⟩
      refine ⟨⟨new ++ (parts.map Prod.snd).flatten, ?_, (region, new) :: parts, ?_, rfl, ?_⟩,
        hlimit⟩
      · rw [hspans, List.append_assoc]
      · exact hsub.cons_cons region
      · intro part hmem
        rcases List.mem_cons.mp hmem with rfl | hmem
        · exact hpart
        · exact hparts part hmem
    refine Triple.bind (Q := fun _ => Parted chains region before) (Triple.attempt ?_)
      fun r => ?_
    · exact (walkOne_part h (hrest List.mem_cons_self) before).post fun _ _ hw => hw
    cases r with
    | ok _ =>
      dsimp only
      rintro w ⟨⟨new, hspans, hpart⟩, hlimit⟩
      have hreached : (limitReached : Walk PoolSnapshot Bool) w = (.ok false, w) := by
        unfold limitReached
        rw [Run.read_apply]
        unfold matchLimitReached
        rw [hlimit.2]
        rfl
      rw [Run.bind_of_ok hreached]
      have hrun := ih (fun _ hmem => hrest (List.mem_cons_of_mem _ hmem)) (walked + 1)
        (before ++ new) w ⟨hspans, hlimit⟩
      exact Ends.imp hrun (fun _ _ => hmore hpart) fun _ _ => hmore hpart
    | error error =>
      dsimp only
      refine Triple.ite (fun _ => ?_) fun _ => ?_
      · exact Triple.pure fun w hw => hone hw
      · exact Triple.fail fun w hw => hone hw

theorem walkDiscoveredRegions_collected {budget : Option ℕ} {expired : Bool}
    {w₀ w : World PoolSnapshot} (hw₀ : w₀.state.spans = [] ∧ Unlimited w₀.state)
    (hrun : walkDiscoveredRegions memory limit regions budget expired w₀ = (.ok (), w)) :
    ∃ xs, Collected chains regions xs ∧ w.state.spans = xs.insertionSort spanLe := by
  have hrecord : Triple (fun w => w.state.spans = [] ∧ Unlimited w.state)
      (recordDiscoveredRegions memory limit regions budget expired)
      (fun _ => Adds chains regions []) (fun _ => Adds chains regions []) := by
    refine Triple.bind (walkRegions_adds h (List.Subset.refl _) 0 []) fun walked => ?_
    refine Triple.ite (fun _ => ?_) fun _ => Triple.pure fun _ hw => hw
    exact fun w hw => hw
  obtain ⟨_, v, hv, hsorted⟩ := Run.bind_ok hrun
  have hadds := hrecord w₀ hw₀
  rw [hv] at hadds
  obtain ⟨⟨xs, hspans, hcollected⟩, -⟩ := hadds
  obtain rfl : _ = w := congrArg Prod.snd hsorted
  refine ⟨xs, hcollected, ?_⟩
  show v.state.spans.insertionSort spanLe = _
  rw [hspans, List.nil_append]

/-- Where a chunk lies: its place in the chunk chain, its slot, or the range of its block. -/
inductive RawExtent (chains : PoolRegion → List Link) (regions : List PoolRegion)
    (span : PoolSpan) : ℕ → ℕ → Prop
  | chunk {region : PoolRegion} {link : Link} (hmem : region ∈ regions)
      (hvs : region.backend = .vs) (hlink : link ∈ chains region)
      (hspan : ChunkSpan region link span) :
      RawExtent chains regions span link.address link.stop
  | slot {region : PoolRegion} (k : ℕ) (hmem : region ∈ regions) (hlfh : region.backend = .lfh)
      (hordinary : region.heap.special = false)
      (hstart : span.headerAddress = region.address + k * region.unitSize)
      (hstop : span.spanEnd = region.address + (k + 1) * region.unitSize) :
      RawExtent chains regions span (region.address + k * region.unitSize)
        (region.address + (k + 1) * region.unitSize)
  | block {region : PoolRegion} (hmem : region ∈ regions)
      (hother : region.heap.special = true ∨ region.backend = .segment ∨ region.backend = .large) :
      RawExtent chains regions span span.headerAddress span.spanEnd

/-- The second chunk starts where the first one ends, in the same heap and subsegment. -/
def Borders (chains : PoolRegion → List Link) (regions : List PoolRegion)
    (left right : PoolSpan) : Prop :=
  left.heap = right.heap ∧ left.subsegment = right.subsegment ∧
    ∃ start middle stop, RawExtent chains regions left start middle ∧
      RawExtent chains regions right middle stop

omit h in
theorem Part.rawExtent {span : PoolSpan} (h : Part chains region new) (hmem : region ∈ regions)
    (hspan : span ∈ new) (hchunk : span.state.isChunk = true) (hvs : region.backend ≠ .vs) :
    RawExtent chains regions span span.headerAddress span.spanEnd := by
  by_cases hspecial : region.heap.special = true
  · exact .block hmem (Or.inl hspecial)
  cases hbackend : region.backend with
  | lfh =>
    have hordinary := Bool.eq_false_iff.mpr hspecial
    obtain ⟨k, hstart, -, hstop⟩ := (h.stems span hspan).slot hbackend hordinary hchunk
    rw [hstart, hstop]
    exact .slot k hmem hbackend hordinary hstart hstop
  | vs => exact absurd hbackend hvs
  | segment => exact .block hmem (Or.inr (Or.inl hbackend))
  | large => exact .block hmem (Or.inr (Or.inr hbackend))

omit h in
theorem filter_ownChunk {before after : List (PoolRegion × List PoolSpan)}
    (hparts : ∀ part ∈ before ++ (region, new) :: after, Part chains part.1 part.2)
    (hother : ∀ part, part ∈ before ∨ part ∈ after → part.1.site ≠ region.site) :
    ((before ++ (region, new) :: after).map Prod.snd).flatten.filter region.ownChunk =
      new.filter fun span => span.state.isChunk := by
  have hnone : ∀ parts : List (PoolRegion × List PoolSpan),
      (∀ part ∈ parts, Part chains part.1 part.2 ∧ part.1.site ≠ region.site) →
      (parts.map Prod.snd).flatten.filter region.ownChunk = [] := by
    intro parts h
    rw [List.filter_eq_nil_iff]
    intro span hspan hown
    obtain ⟨spans, hspans, hspan⟩ := List.mem_flatten.mp hspan
    obtain ⟨part, hpart, rfl⟩ := List.mem_map.mp hspans
    obtain ⟨hpart, hsite⟩ := h part hpart
    exact hsite ((hpart.stems span hspan).site.symm.trans (ownChunk_site hown))
  have hnew : new.filter region.ownChunk = new.filter fun span => span.state.isChunk := by
    refine List.filter_congr fun span hspan => ?_
    have hsite := ((hparts (region, new) (by simp)).stems span hspan).site
    unfold PoolRegion.ownChunk
    rw [hsite, decide_eq_true rfl, Bool.and_true]
  rw [List.map_append, List.map_cons, List.flatten_append, List.flatten_cons, List.filter_append,
    List.filter_append, hnew, hnone before, hnone after, List.nil_append, List.append_nil]
  · exact fun part hmem => ⟨hparts part (by simp [hmem]), hother part (Or.inr hmem)⟩
  · exact fun part hmem => ⟨hparts part (by simp [hmem]), hother part (Or.inl hmem)⟩

/-- **Two entries of the index that are beside each other border.** -/
theorem Beside.borders {index : PoolIndex} {xs : List PoolSpan}
    (hcollected : Collected chains regions xs) (hsort : StableSort spanLe xs index.spans) {i : ℕ}
    {left right : PoolSpan} (hbeside : Beside index i left right) :
    Borders chains regions left right := by
  obtain ⟨parts, hsub, rfl, hparts⟩ := hcollected
  have hpart : ∀ {k : ℕ} {span : PoolSpan}, index.spans[k]? = some span →
      ∃ part ∈ parts, span ∈ part.2 := by
    intro k span hspan
    obtain ⟨spans, hspans, hspan⟩ :=
      List.mem_flatten.mp (hsort.perm.mem_iff.mp (List.mem_of_getElem? hspan))
    obtain ⟨part, hpart, rfl⟩ := List.mem_map.mp hspans
    exact ⟨part, hpart, hspan⟩
  have hregion : ∀ part ∈ parts, part.1 ∈ regions := fun part hmem =>
    hsub.subset (List.mem_map_of_mem hmem)
  obtain ⟨⟨region, new⟩, hmem, hleft⟩ := hpart hbeside.first
  obtain ⟨⟨region', new'⟩, hmem', hright⟩ := hpart hbeside.second
  have hsite : region.site = left.site := (((hparts _ hmem).stems left hleft).site).symm
  have hsite' : region'.site = right.site := (((hparts _ hmem').stems right hright).site).symm
  refine ⟨congrArg Site.heap hbeside.site, congrArg Site.subsegment hbeside.site, ?_⟩
  by_cases hvs : region.backend = .vs
  · obtain ⟨before, after, rfl⟩ := List.append_of_mem hmem
    obtain ⟨links, hlinks, hunbroken⟩ := (hparts _ hmem).unbroken hvs
    -- no other part is of this subsegment
    have hown := h.own.sublist hsub
    rw [List.map_append, List.map_cons, List.pairwise_append, List.pairwise_cons] at hown
    have hother : ∀ part, part ∈ before ∨ part ∈ after → part.1.site ≠ region.site := by
      rintro part (hbefore | hafter) hsame
      · refine hown.2.2 part.1 (List.mem_map_of_mem hbefore) region (by simp) ?_ hsame
        exact (congrArg Site.backend hsame).trans hvs
      · exact hown.2.1.1 part.1 (List.mem_map_of_mem hafter) hvs hsame.symm
    have hnew : new.Sublist ((before ++ (region, new) :: after).map Prod.snd).flatten := by
      rw [List.map_append, List.map_cons, List.flatten_append, List.flatten_cons]
      exact (List.sublist_append_left _ _).trans (List.sublist_append_right _ _)
    have howned : ∀ {span : PoolSpan}, span.site = region.site → span.state.isChunk = true →
        region.ownChunk span = true := fun hsite hchunk =>
      Bool.and_eq_true_iff.mpr ⟨hchunk, decide_eq_true hsite⟩
    obtain ⟨l, hl, r, hr, hspanl, hspanr, heq⟩ := hunbroken.border hsort hnew
      (filter_ownChunk hparts hother) hbeside.first hbeside.second
      (howned hsite.symm hbeside.firstChunk)
      (howned (hbeside.site.symm.trans hsite.symm) hbeside.secondChunk)
    have hregion := hregion _ hmem
    refine ⟨l.address, l.stop, r.stop, .chunk hregion hvs (hlinks.subset hl) hspanl, ?_⟩
    rw [heq]
    exact .chunk hregion hvs (hlinks.subset hr) hspanr
  · have hvs' : region'.backend ≠ .vs := by
      rwa [show region'.backend = region.backend from
        congrArg Site.backend (hsite'.trans (hbeside.site.symm.trans hsite.symm))]
    have htouch : left.spanEnd = right.headerAddress := by
      have htouch := hbeside.touch
      unfold touching at htouch
      rw [show left.backend = region.backend from (congrArg Site.backend hsite).symm,
        decide_eq_false hvs, Bool.false_or] at htouch
      exact eq_of_beq htouch
    refine ⟨left.headerAddress, left.spanEnd, right.spanEnd, ?_, ?_⟩
    · exact (hparts _ hmem).rawExtent (hregion _ hmem) hleft hbeside.firstChunk hvs
    · rw [htouch]
      exact (hparts _ hmem').rawExtent (hregion _ hmem') hright hbeside.secondChunk hvs'

end Walks

/-! ## An overwritten header -/

def vsPage : PoolRegion :=
  { onePage .vs none with vsHeaderSize := 0x10 }

def twoChunks : ℕ → ℕ
  | 0x1000 => 0x0001000000401000
  | 0x1400 => 0x0001004000c01400
  | _ => 0

def overwrittenChunk : ℕ → ℕ
  | 0x1000 => 0x0001000000401000
  | 0x1420 => 0x0001000200be1420
  | _ => 0

def vsPageWalk (words : ℕ → ℕ) : Except SnapshotError Unit × World PoolSnapshot :=
  walkDiscoveredRegions (smallTarget words none) 8 [vsPage] none false emptySnapshot

/-- The chunk at an address and the one behind it, as header address and end. -/
def nextExtents (words : ℕ → ℕ) (address : ℕ) : Option ((ℕ × ℕ) × Option (ℕ × ℕ)) :=
  ((PoolIndex.build (vsPageWalk words).2.state).neighbourhoodAt address).map fun answer =>
    ((answer.chunk.headerAddress, answer.chunk.spanEnd),
      answer.next.map fun next => (next.headerAddress, next.spanEnd))

def twoHeaders : List ChunkHeader :=
  [.ofFields 0x40#16 0#16 true, .ofFields 0xc0#16 0x40#16 true]

theorem twoChunks_surveyed : Surveyed (smallTarget twoChunks none) (wordBytes twoChunks)
    (fun _ => True) (fun _ => linksFrom 0x1000 twoHeaders) [vsPage] where
  truth _ _ _ _ h := (Except.ok.inj h).symm
  sparse :=
    { here := fun _ _ _ _ _ _ _ _ _ _ _ => trivial
      past := fun _ address size base length h _ hpast => by
        obtain ⟨rfl, rfl⟩ := Prod.mk.inj (Except.ok.inj h)
        omega }
  space region h := by
    obtain rfl := List.mem_singleton.mp h
    unfold PoolRegion.InSpace
    decide
  intact region h _ := by
    obtain rfl := List.mem_singleton.mp h
    have hspace : vsPage.InSpace := by
      unfold PoolRegion.InSpace
      decide
    have hwritten : Written vsPage (wordBytes twoChunks) vsPage.address twoHeaders :=
      ⟨by decide, by decide, by decide, by decide, rfl⟩
    exact ⟨⟨rfl, rfl, hspace⟩, by decide, hwritten.chain hspace (by decide)⟩
  own := List.pairwise_singleton _ _

end DbgScope.Pool
