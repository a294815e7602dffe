import DbgScope.Pool.LfhSlots
import DbgScope.Pool.VsGaps

/-!
# The chunk chain of a VS subsegment

A VS subsegment is tiled by chunks, and each chunk is found from the end of the one before it. Here
every header is as the allocator wrote it, and what varies is the target: which of it reads, and
what the memory manager says about the rest. `Chained` is what the walk has filed against the part
of the chain it has passed: chunks of the chain, in order, and two of them with a chunk left out
between them are kept apart by a gap.
-/

namespace DbgScope.Pool

open Run (Keeps Triple)
open PoolSnapshot

/-! ## Chains -/

/-- A chunk of a chain, and where its header is. -/
structure Link where
  address : ℕ
  chunk : VsChunk
  deriving DecidableEq

def Link.stop (link : Link) : ℕ := link.address + link.chunk.size

def wordAt (content : ℕ → UInt8) (address : ℕ) : ℕ := fromLe (bytesAt content address 8)

def Chain (region : PoolRegion) (content : ℕ → UInt8) : ℕ → List Link → Prop
  | next, [] => next = region.requestedEnd
  | next, link :: rest => link.address = next ∧
    decodeVsChunk (wordAt content (next + region.vsSizesOffset)) next region.heapKey
      region.headerBytes region.requestedEnd = .ok link.chunk ∧
    Chain region content link.stop rest

/-- A VS subsegment, and the chunks it is divided into. -/
structure Subsegment where
  region : PoolRegion
  content : ℕ → UInt8
  links : List Link

structure Subsegment.Intact (sub : Subsegment) : Prop where
  region : VsRegion sub.region
  /-- The word a chunk's sizes are in is part of its header. -/
  sizes : sub.region.vsSizesOffset + 8 ≤ sub.region.vsHeaderSize
  chain : Chain sub.region sub.content sub.region.address sub.links

def Truthful (memory : PoolMemory) (content : ℕ → UInt8) : Prop :=
  ∀ h address size bytes, memory.readExact h address size = .ok bytes →
    bytes = bytesAt content address size

/-- What the target says is there is a run of addresses that are, up to one that is not or to the
end of the query. -/
structure Sparse (memory : PoolMemory) (there : ℕ → Prop) : Prop where
  here : ∀ h address size base length, memory.validRegion h address size = .ok (base, length) →
    ∀ x, address ≤ x → base ≤ x → x < base + length → x < address + size → there x
  past : ∀ h address size base length, memory.validRegion h address size = .ok (base, length) →
    address < base + length → base + length < address + size → ¬ there (base + length)

def HeadsCommitted (memory : PoolMemory) (links : List Link) (bytes : ℕ) : Prop :=
  ∀ h address run, memory.committedRun h address = some run → run.committed = false →
    ∀ link ∈ links, ∀ x, address ≤ x → x < run.runEnd → link.address ≤ x → link.address + bytes ≤ x

/-- It calls no byte of a chunk's headers uncommitted. -/
def Subsegment.HeadersCommitted (sub : Subsegment) (memory : PoolMemory) : Prop :=
  HeadsCommitted memory sub.links sub.region.headerBytes

section Chains

variable {region : PoolRegion} {content : ℕ → UInt8} {next : ℕ} {link : Link} {rest : List Link}

theorem Chain.placed (h : Chain region content next (link :: rest)) (hspace : region.InSpace) :
    Placed region link.address link.chunk.size ∧ link.stop ≤ region.requestedEnd := by
  obtain ⟨rfl, hdecode, -⟩ := h
  obtain ⟨hplaced, hend⟩ := placed_of_decoded hspace hdecode
  exact ⟨hplaced, hend.trans_eq hspace.requestedEnd.symm⟩

theorem Chain.le (h : Chain region content next rest) : ∀ link ∈ rest, next ≤ link.address := by
  induction rest generalizing next with
  | nil => intro link hlink; cases hlink
  | cons first rest ih =>
    obtain ⟨rfl, -, hrest⟩ := h
    intro link hlink
    rcases List.mem_cons.mp hlink with rfl | hlink
    · exact le_refl _
    · exact (Nat.le_add_right _ _).trans (ih hrest link hlink)

theorem Chain.pairwise (h : Chain region content next rest) :
    rest.Pairwise fun l r => l.stop ≤ r.address := by
  induction rest generalizing next with
  | nil => exact List.Pairwise.nil
  | cons first rest ih => exact List.Pairwise.cons (fun r hr => h.2.2.le r hr) (ih h.2.2)

theorem Chain.cons_of_lt (h : Chain region content next rest) (hlt : next < region.requestedEnd) :
    ∃ link tail, rest = link :: tail ∧ link.address = next := by
  cases rest with
  | nil =>
    obtain rfl : next = region.requestedEnd := h
    exact absurd hlt (lt_irrefl _)
  | cons link tail => exact ⟨link, tail, rfl, h.1⟩

end Chains

/-! ## The span of a chunk -/

/-- The span is the one of the chunk: it ends where the chunk does, or is the allocation the
big-page table says is in it. -/
structure ChunkSpan (region : PoolRegion) (link : Link) (span : PoolSpan) : Prop where
  state : span.state = vsState region link.address link.chunk
  low : link.address ≤ span.headerAddress
  before : span.headerAddress < link.stop
  usable : span.headerAddress ≤ span.usableAddress
  high : span.usableAddress ≤ link.stop
  extent : (∃ named, vsBigPool region link.address link.chunk.size = some named ∧
      span.usableAddress = named.1 ∧ span.size = named.2.size ∧ span.rawTag = named.2.tag) ∨
    vsBigPool region link.address link.chunk.size = none ∧ span.spanEnd = link.stop

variable {region : PoolRegion} {link : Link}

theorem ChunkSpan.isChunk {span : PoolSpan} (h : ChunkSpan region link span) :
    span.state.isChunk = true := by
  rw [h.state]
  exact vsState_isChunk _ _ _

theorem vsNamedSpan_chunkSpan {named : ℕ × BigPageEntry}
    (hplaced : Placed region link.address link.chunk.size)
    (hnamed : vsBigPool region link.address link.chunk.size = some named) :
    ChunkSpan region link (vsNamedSpan region named link.chunk.size
      (vsState region link.address link.chunk)) := by
  obtain ⟨hlow, hhigh, -⟩ := vsBigPool_some hnamed
  have hspace := hplaced.space
  rw [saturatingAdd_of_lt (by omega)] at hhigh
  exact ⟨rfl, hlow, hhigh, le_refl _, hhigh.le, Or.inl ⟨named, hnamed, rfl, rfl, rfl⟩⟩

theorem vsSpan_chunkSpan (hplaced : Placed region link.address link.chunk.size)
    (hpos : 0 < region.vsHeaderSize)
    (hunnamed : vsBigPool region link.address link.chunk.size = none) (base : ℕ)
    (bytes : List UInt8) :
    ChunkSpan region link (vsSpan region base bytes link.address link.chunk.size
      (vsState region link.address link.chunk)) := by
  obtain ⟨hlow, hhigh⟩ := hplaced.physical
  have hspace := hplaced.space
  have husable : wrappingAdd (vsPhysicalHeader region link.address link.chunk.size)
      region.poolHeader.size = vsPhysicalHeader region link.address link.chunk.size +
      region.poolHeader.size := wrappingAdd_of_lt (by omega)
  refine ⟨rfl, hplaced.headerAddress_le _ _ _, ?_, ?_, ?_, Or.inr ⟨hunnamed, hplaced.spanEnd _ _ _⟩⟩
  · show (if region.poolHeader.size = 0 then link.address else
      vsPhysicalHeader region link.address link.chunk.size) < link.address + link.chunk.size
    split <;> omega
  · show (if region.poolHeader.size = 0 then link.address else
      vsPhysicalHeader region link.address link.chunk.size) ≤ wrappingAdd _ _
    rw [husable]
    split <;> omega
  · show wrappingAdd _ _ ≤ link.address + link.chunk.size
    rw [husable]
    exact hhigh

/-- Where the walk reports the block of a chunk. -/
def Link.usable (link : Link) (region : PoolRegion) : ℕ :=
  match vsBigPool region link.address link.chunk.size with
  | some named => named.1
  | none =>
    wrappingAdd (vsPhysicalHeader region link.address link.chunk.size) region.poolHeader.size

def Link.usableSize (link : Link) (region : PoolRegion) : ℕ :=
  match vsBigPool region link.address link.chunk.size with
  | some named => named.2.size
  | none => link.chunk.size - saturatingAdd
      (vsPhysicalHeader region link.address link.chunk.size - link.address) region.poolHeader.size

/-- The span is where the walk reports the block of the chunk. -/
structure Reported (region : PoolRegion) (link : Link) (span : PoolSpan) : Prop where
  usable : span.usableAddress = link.usable region
  size : span.size = link.usableSize region

theorem vsNamedSpan_reported {named : ℕ × BigPageEntry}
    (hnamed : vsBigPool region link.address link.chunk.size = some named) (state : PoolState) :
    Reported region link (vsNamedSpan region named link.chunk.size state) := by
  constructor
  · unfold Link.usable
    rw [hnamed]
    rfl
  · unfold Link.usableSize
    rw [hnamed]
    rfl

theorem vsSpan_reported (hunnamed : vsBigPool region link.address link.chunk.size = none) (base : ℕ)
    (bytes : List UInt8) (state : PoolState) :
    Reported region link (vsSpan region base bytes link.address link.chunk.size state) := by
  constructor
  · unfold Link.usable
    rw [hunnamed]
    rfl
  · unfold Link.usableSize
    rw [hunnamed]
    rfl

/-! ## What has been filed -/

/-- A write that touches neither the spans nor what is counted against them, and at most clears
`complete`. -/
structure Leaves (a b : PoolSnapshot) : Prop where
  spans : b.spans = a.spans
  complete : b.complete = true → a.complete = true
  refused : b.refusedChunks = a.refusedChunks
  matchLimit : b.matchLimit = a.matchLimit
  stopped : b.stoppedAfterMatches = a.stoppedAfterMatches

/-- Nothing is left out from `a` to `b`, or a gap lies between them. -/
def Spaced (new : List PoolSpan) (a b : ℕ) : Prop :=
  a = b ∨ ∃ gap ∈ new, gap.state.isChunk = false ∧ a < gap.headerAddress ∧ gap.headerAddress < b

/-- So it is from the last of the chunks to `next`. -/
def Joined (new : List PoolSpan) (links : List Link) (next : ℕ) : Prop :=
  ∀ last ∈ links.getLast?, Spaced new last.stop next

/-- The spans `new` have been filed since `before`: those of `links`, out of the chunks `done`
that the walk has passed, and gaps. The rest of the chain starts at `next`. -/
structure Chained (sub : Subsegment) (memory : PoolMemory) (there : ℕ → Prop)
    (before : PoolSnapshot) (new : List PoolSpan) (links done rest : List Link) (next : ℕ)
    (after : PoolSnapshot) : Prop where
  split : sub.links = done ++ rest
  chain : Chain sub.region sub.content next rest
  behind : ∀ link ∈ done, link.stop ≤ next
  kept : links.Sublist done
  spans : after.spans = before.spans ++ new
  filed : List.Forall₂ (ChunkSpan sub.region) links (new.filter fun span => span.state.isChunk)
  reported : List.Forall₂ (Reported sub.region) links (new.filter fun span => span.state.isChunk)
  refused : after.refusedChunks = before.refusedChunks
  unlimited : after.matchLimit = none ∧ after.stoppedAfterMatches = none
  told : after.complete = true → links = done
  spaced : Sparse memory there → links.IsChain fun l r => Spaced new l.stop r.address

theorem Spaced.mono {new more : List PoolSpan} {a b : ℕ} (h : Spaced new a b) :
    Spaced (new ++ more) a b := by
  rcases h with rfl | ⟨gap, hgap, h⟩
  · exact Or.inl rfl
  · exact Or.inr ⟨gap, List.mem_append_left _ hgap, h⟩

theorem Joined.mono {new more : List PoolSpan} {links : List Link} {next : ℕ}
    (h : Joined new links next) : Joined (new ++ more) links next :=
  fun last hlast => (h last hlast).mono

namespace Chained

variable {sub : Subsegment} {memory : PoolMemory} {there : ℕ → Prop}
  {before after after' : PoolSnapshot} {new : List PoolSpan} {links done rest : List Link}
  {next : ℕ} {link : Link}

theorem start (hi : sub.Intact) (hbefore : before.matchLimit = none ∧
    before.stoppedAfterMatches = none) :
    Chained sub memory there before [] [] [] sub.links sub.region.address before where
  split := rfl
  chain := hi.chain
  behind _ hlink := by cases hlink
  kept := List.Sublist.slnil
  spans := (List.append_nil _).symm
  filed := List.Forall₂.nil
  reported := List.Forall₂.nil
  refused := rfl
  unlimited := hbefore
  told _ := rfl
  spaced _ := List.IsChain.nil

variable (h : Chained sub memory there before new links done rest next after)
include h

theorem leave (hl : Leaves after after') :
    Chained sub memory there before new links done rest next after' :=
  { h with
    spans := hl.spans.trans h.spans
    refused := hl.refused.trans h.refused
    unlimited := ⟨hl.matchLimit.trans h.unlimited.1, hl.stopped.trans h.unlimited.2⟩
    told := fun hc => h.told (hl.complete hc) }

omit h in
theorem gaps {w w' : World PoolSnapshot} {gaps : List PoolSpan}
    (h : Chained sub memory there before new links done rest next w.state)
    (hg : Gapped w gaps w') (hgap : ∀ gap ∈ gaps, gap.state.isChunk = false) :
    Chained sub memory there before (new ++ gaps) links done rest next w'.state := by
  have hnone : gaps.filter (fun span => span.state.isChunk) = [] :=
    List.filter_eq_nil_iff.mpr fun gap hmem => by rw [hgap gap hmem]; exact Bool.false_ne_true
  obtain ⟨hlimit, hreached⟩ := hg.unlimited h.unlimited.1
  refine { h with
    spans := ?_
    filed := ?_
    reported := ?_
    refused := hg.refused.trans h.refused
    unlimited := ⟨hlimit, ?_⟩
    told := fun hc => h.told (hg.complete hc).1
    spaced := fun hs => (h.spaced hs).imp fun _ _ hlr => hlr.mono }
  · rw [hg.spans, h.spans, List.append_assoc]
  · rw [List.filter_append, hnone, List.append_nil]
    exact h.filed
  · rw [List.filter_append, hnone, List.append_nil]
    exact h.reported
  · have hstopped : w.state.matchLimitReached = false := by
      unfold matchLimitReached
      rw [h.unlimited.2]
      rfl
    rw [hstopped] at hreached
    exact Option.not_isSome_iff_eq_none.mp (by
      rw [show w'.state.stoppedAfterMatches.isSome = false from hreached]
      exact Bool.false_ne_true)

omit h in
theorem chunk (h : Chained sub memory there before new links done (link :: rest) next after)
    {span : PoolSpan} (hspan : ChunkSpan sub.region link span)
    (hreported : Reported sub.region link span)
    (hjoined : Sparse memory there → Joined new links next) :
    Chained sub memory there before (new ++ [span]) (links ++ [link]) (done ++ [link]) rest
      link.stop (after.recordSpan span) := by
  obtain ⟨rfl, hdecode, hchain⟩ := h.chain
  have hrecord := recordSpan_unlimited h.unlimited.1 span
  refine ⟨?_, hchain, ?_, h.kept.append (List.Sublist.refl _), ?_, ?_, ?_, ?_, ?_, ?_,
    fun hs => ?_⟩
  · rw [h.split, List.append_assoc]
    rfl
  · intro l hl
    rcases List.mem_append.mp hl with hold | hnew
    · exact (h.behind l hold).trans (Nat.le_add_right _ _)
    · rw [List.mem_singleton.mp hnew]
  · rw [recordSpan_spans, h.spans, List.append_assoc]
  · rw [List.filter_append, List.filter_singleton, hspan.isChunk]
    exact List.rel_append h.filed (List.Forall₂.cons hspan List.Forall₂.nil)
  · rw [List.filter_append, List.filter_singleton, hspan.isChunk]
    exact List.rel_append h.reported (List.Forall₂.cons hreported List.Forall₂.nil)
  · rw [recordSpan_refusedChunks, h.refused]
  · rw [hrecord]
    exact h.unlimited
  · intro hc
    rw [h.told (recordSpan_complete hc)]
  · refine List.isChain_append.mpr ⟨(h.spaced hs).imp fun _ _ hlr => hlr.mono,
      List.isChain_singleton _, fun l hl r hr => ?_⟩
    obtain rfl : link = r := Option.some.inj hr
    exact (hjoined hs l hl).mono

omit h in
theorem skip (h : Chained sub memory there before new links done (link :: rest) next after)
    (hc : after.complete = false) :
    Chained sub memory there before new links (done ++ [link]) rest link.stop after := by
  obtain ⟨rfl, hdecode, hchain⟩ := h.chain
  refine { h with
    split := ?_
    chain := hchain
    behind := fun l hl => ?_
    kept := h.kept.trans (List.sublist_append_left _ _)
    told := fun hcomplete => ?_ }
  · rw [h.split, List.append_assoc]
    rfl
  · rcases List.mem_append.mp hl with hold | hnew
    · exact (h.behind l hold).trans (Nat.le_add_right _ _)
    · rw [List.mem_singleton.mp hnew]
  · rw [hc] at hcomplete
    cases hcomplete

theorem sublist : links.Sublist sub.links := by
  rw [h.split]
  exact h.kept.trans (List.sublist_append_left _ _)

omit h in
theorem filedSince_eq {w₀ w : World PoolSnapshot}
    (h : Chained sub memory there w₀.state new links done rest next w.state) :
    filedSince w₀ w = new := by
  unfold filedSince
  rw [h.spans, List.drop_left]

theorem not_reached : after.matchLimitReached = false := by
  unfold matchLimitReached
  rw [h.unlimited.2]
  rfl

theorem last_le : ∀ last ∈ links.getLast?, last.stop ≤ next := fun last hlast =>
  h.behind last (h.kept.subset (List.mem_of_getLast? hlast))

end Chained

/-! ## Decoding an extent -/

/-- The chunk loop of an extent stands on the next chunk of the chain; the spans filed so far, in
this extent or before it up to `mark`, end before that chunk. -/
structure Standing (mark base next : ℕ) (s : VsWalk) : Prop where
  offset : base + s.offset = next
  resume : s.resume = next
  found : s.lost = false
  unrefused : s.resyncFrom = none
  covered : max mark s.coveredThrough ≤ next

section Extent

variable {sub : Subsegment} {memory : PoolMemory} {there : ℕ → Prop} {mark limit base size : ℕ}
  {before : PoolSnapshot} {new : List PoolSpan} {links done rest : List Link} {next : ℕ}
  {link : Link} {E : SnapshotError → World PoolSnapshot → Prop}

theorem update_chained {f : PoolSnapshot → PoolSnapshot}
    (hf : ∀ snapshot, Leaves snapshot (f snapshot)) :
    Keeps (fun w => Chained sub memory there before new links done rest next w.state) E
      (update f) :=
  Keeps.modify fun w hw => hw.leave (hf w.state)

theorem complain_chained (message : String) :
    Keeps (fun w => Chained sub memory there before new links done rest next w.state) E
      (complain message) :=
  update_chained fun _ => ⟨rfl, fun h => h, rfl, rfl, rfl⟩

theorem leaves_incomplete (snapshot : PoolSnapshot) :
    Leaves snapshot { snapshot with complete := false } :=
  ⟨rfl, fun h => (Bool.false_ne_true h).elim, rfl, rfl, rfl⟩

theorem clearComplete_chained :
    Triple (fun w => Chained sub memory there before new links done rest next w.state)
      clearComplete (fun _ w => Chained sub memory there before new links done rest next w.state ∧
        w.state.complete = false) E :=
  Triple.modify fun w hw => ⟨hw.leave (leaves_incomplete w.state), rfl⟩

theorem vsContinue_chained (s : VsWalk) :
    Triple (fun w => Chained sub memory there before new links done rest next w.state)
      (vsContinue s) (fun flow w => flow = .again s ∧
        Chained sub memory there before new links done rest next w.state) E := by
  intro w hw
  unfold vsContinue limitReached
  rw [Run.read_bind_apply, hw.not_reached]
  exact ⟨rfl, hw⟩

theorem Standing.past {s : VsWalk} {chunkSize : ℕ} (h : Standing mark base next s)
    (hspace : next + chunkSize < 2 ^ 64) :
    Standing mark base (next + chunkSize) (s.past base chunkSize) := by
  have hoffset := h.offset
  have hcovered := h.covered
  refine ⟨?_, ?_, h.found, h.unrefused, ?_⟩
  · show base + (s.offset + chunkSize) = next + chunkSize
    omega
  · show wrappingAdd base (s.offset + chunkSize) = next + chunkSize
    rw [wrappingAdd_of_lt (by omega)]
    omega
  · show max mark s.coveredThrough ≤ next + chunkSize
    omega

theorem Standing.covering {s : VsWalk} (h : Standing mark base next s) :
    Standing mark base next s.covering :=
  ⟨h.offset, h.resume, h.found, h.unrefused, max_le (le_of_max_le_left h.covered) h.resume.le⟩

theorem vsCheckChain_chained {chunk : VsChunk} {s : VsWalk} (hs : Standing mark base next s) :
    Triple (fun w => Chained sub memory there before new links done rest next w.state)
      (vsCheckChain next chunk s) (fun s' w =>
        Chained sub memory there before new links done rest next w.state ∧
          Standing mark base next s' ∧ s'.offset = s.offset) E := by
  refine Triple.ite (fun _ => ?_) fun _ => Triple.pure fun w hw => ⟨hw, hs, rfl⟩
  refine Triple.ite (fun _ => Triple.bind (complain_chained _) fun _ => ?_) fun _ => ?_
  all_goals
    refine Triple.bind clearComplete_chained fun _ => ?_
    refine Triple.pure fun w hw => ⟨hw.1, ?_, rfl⟩
    exact ⟨hs.offset, hs.resume, hs.found, hs.unrefused, hs.covered⟩

/-- The loop goes on from the next chunk, with all that lies behind it accounted for. -/
def InExtent (sub : Subsegment) (memory : PoolMemory) (there : ℕ → Prop) (before : PoolSnapshot)
    (mark base : ℕ) (s : VsWalk) (after : PoolSnapshot) : Prop :=
  ∃ new links done rest next, Chained sub memory there before new links done rest next after ∧
    Standing mark base next s ∧ (Sparse memory there → Joined new links next)

/-- The next chunk is known to start past `stop`, and the last one filed ends before it. -/
structure Overrun (links : List Link) (next stop covered : ℕ) : Prop where
  last : ∀ last ∈ links.getLast?, last.stop < stop
  next : stop < next
  covered : covered ≤ stop

def LeftExtent (sub : Subsegment) (memory : PoolMemory) (there : ℕ → Prop) (before : PoolSnapshot)
    (mark limit stop : ℕ) (s : VsWalk) (after : PoolSnapshot) : Prop :=
  ∃ new links done rest next, Chained sub memory there before new links done rest next after ∧
    (s.lost = false ∧ s.resyncFrom = none ∧ s.resume = next ∧ max mark s.coveredThrough ≤ next) ∧
    (after.complete = true → stop < next + sub.region.headerBytes ∨ limit ≤ s.chunks) ∧
    (Sparse memory there →
      Joined new links next ∨ Overrun links next stop (max mark s.coveredThrough))

/-- What a round of the chunk loop leaves. -/
def ExtentFlow (sub : Subsegment) (memory : PoolMemory) (there : ℕ → Prop) (before : PoolSnapshot)
    (mark limit base size : ℕ) (s : VsWalk) (flow : Flow VsWalk VsWalk)
    (w : World PoolSnapshot) : Prop :=
  flow.Holds
    (fun s' => InExtent sub memory there before mark base s' w.state ∧ s.offset < s'.offset)
    fun s' => LeftExtent sub memory there before mark limit (base + size) s' w.state

theorem InExtent.left {s : VsWalk} {after : PoolSnapshot}
    (h : InExtent sub memory there before mark base s after)
    (hstop : size < s.offset + sub.region.headerBytes ∨ limit ≤ s.chunks) :
    LeftExtent sub memory there before mark limit (base + size) s after := by
  obtain ⟨new, links, done, rest, next, hchained, hs, hjoined⟩ := h
  refine ⟨new, links, done, rest, next, hchained, ⟨hs.found, hs.unrefused, hs.resume, hs.covered⟩,
    fun _ => ?_, fun hsparse => Or.inl (hjoined hsparse)⟩
  have hoffset := hs.offset
  rcases hstop with hfar | hlimit
  · exact Or.inl (by omega)
  · exact Or.inr hlimit

theorem record_continue_chained {span : PoolSpan} {s s' : VsWalk}
    (hspan : ChunkSpan sub.region link span) (hreported : Reported sub.region link span)
    (hjoined : Sparse memory there → Joined new links next)
    (hs : Standing mark base link.stop s') (hlt : s.offset < s'.offset) :
    Triple (fun w => Chained sub memory there before new links done (link :: rest) next w.state)
      (record span >>= fun _ => vsContinue s')
      (ExtentFlow sub memory there before mark limit base size s) E := by
  refine Triple.bind (Q := fun _ w => Chained sub memory there before (new ++ [span])
    (links ++ [link]) (done ++ [link]) rest link.stop w.state)
    (Triple.modify fun w hw => hw.chunk hspan hreported hjoined) fun _ => ?_
  refine (vsContinue_chained s').post fun flow w hw => ?_
  obtain ⟨rfl, hw⟩ := hw
  refine ⟨⟨_, _, _, _, _, hw, hs, fun _ => ?_⟩, hlt⟩
  intro last hlast
  rw [List.getLast?_append, List.getLast?_singleton, Option.some_or] at hlast
  exact Or.inl (congrArg Link.stop (Option.some.inj hlast).symm)

theorem vsEmit_chained (hi : sub.Intact) (bytes : List UInt8) {s₀ s : VsWalk}
    (hs : Standing mark base next s) (hoffset : s.offset = s₀.offset)
    (haddress : link.address = next)
    (hplaced : Placed sub.region link.address link.chunk.size)
    (hunnamed : vsBigPool sub.region link.address link.chunk.size = none)
    (hjoined : Sparse memory there → Joined new links next) :
    Triple (fun w => Chained sub memory there before new links done (link :: rest) next w.state)
      (vsEmit sub.region base bytes next link.chunk s)
      (ExtentFlow sub memory there before mark limit base size s₀) E := by
  subst haddress
  have hheader := hplaced.header
  have hspace := hplaced.space
  have hsizes := hi.sizes
  unfold PoolRegion.headerBytes at hheader
  have hspan := vsSpan_chunkSpan hplaced (by omega) hunnamed base bytes
  have hlt : s₀.offset < (s.past base link.chunk.size).offset := by
    show s₀.offset < s.offset + link.chunk.size
    omega
  have hemit : Triple
      (fun w => Chained sub memory there before new links done (link :: rest) link.address w.state)
      (record (vsSpan sub.region base bytes link.address link.chunk.size
        (vsState sub.region link.address link.chunk)) >>= fun _ =>
        vsContinue (s.past base link.chunk.size))
      (ExtentFlow sub memory there before mark limit base size s₀) E :=
    record_continue_chained hspan (vsSpan_reported hunnamed base bytes _) hjoined
      (hs.past (by omega)) hlt
  unfold vsEmit
  exact Triple.ite (fun _ => Triple.bind (complain_chained _) fun _ => hemit) fun _ => hemit

theorem tailUncommitted_chained (address : ℕ) :
    Keeps (fun w => Chained sub memory there before new links done rest next w.state) E
      (tailUncommitted memory address) := by
  intro w hw
  exact hw

theorem vsDropTail_chained (bytes : List UInt8) {s₀ s : VsWalk} (hs : Standing mark base next s)
    (haddress : link.address = next)
    (hplaced : Placed sub.region link.address link.chunk.size)
    (hstart : next < base + size) (hover : size < s.offset + link.chunk.size) :
    Triple (fun w => Chained sub memory there before new links done (link :: rest) next w.state)
      (vsDropTail base bytes next link.chunk.size s)
      (ExtentFlow sub memory there before mark limit base size s₀) E := by
  subst haddress
  have hspace := hplaced.space
  have hoffset := hs.offset
  have hcovered := hs.covered
  refine Triple.bind (complain_chained _) fun _ => ?_
  refine Triple.bind clearComplete_chained fun _ => Triple.pure fun w hw => ?_
  obtain ⟨hw, hc⟩ := hw
  have hstop : base + size < link.stop := by
    show base + size < link.address + link.chunk.size
    omega
  refine ⟨new, links, done ++ [link], rest, link.stop, hw.skip hc,
    ⟨hs.found, hs.unrefused, saturatingAdd_of_lt (by omega), by dsimp only; omega⟩,
    fun hcomplete => ?_, fun _ => Or.inr ⟨fun last hlast => ?_, hstop, by dsimp only; omega⟩⟩
  · rw [hc] at hcomplete
    cases hcomplete
  · exact (hw.last_le last hlast).trans_lt hstart

theorem vsChunkStep_chained (hi : sub.Intact) {bytes : List UInt8} (hbytes : bytes.length = size)
    {s : VsWalk} (hs : Standing mark base next s) (haddress : link.address = next)
    (hplaced : Placed sub.region link.address link.chunk.size) (hstart : next < base + size)
    (hjoined : Sparse memory there → Joined new links next) :
    Triple (fun w => Chained sub memory there before new links done (link :: rest) next w.state)
      (vsChunkStep memory sub.region base bytes next link.chunk s)
      (ExtentFlow sub memory there before mark limit base size s) E := by
  have hheader := hplaced.header
  have hspace := hplaced.space
  have hsizes := hi.sizes
  unfold PoolRegion.headerBytes at hheader
  refine Triple.bind (vsCheckChain_chained hs) fun s' => ?_
  rintro w ⟨hw, hs', hsame⟩
  cases hnamed : vsBigPool sub.region next link.chunk.size with
  | some named =>
    subst haddress
    refine record_continue_chained (vsNamedSpan_chunkSpan hplaced hnamed)
      (vsNamedSpan_reported hnamed _) hjoined (hs'.past (by omega)).covering ?_ w hw
    show s.offset < s'.offset + link.chunk.size
    omega
  | none =>
    have hunnamed : vsBigPool sub.region link.address link.chunk.size = none := haddress ▸ hnamed
    have hemit : Triple
        (fun w => Chained sub memory there before new links done (link :: rest) next w.state)
        (vsEmit sub.region base bytes next link.chunk s')
        (ExtentFlow sub memory there before mark limit base size s) E :=
      vsEmit_chained hi bytes hs' hsame haddress hplaced hunnamed hjoined
    dsimp only
    refine Triple.ite (fun hover => ?_) (fun _ => hemit) w hw
    refine Triple.bind (tailUncommitted_chained _) fun uncommitted => ?_
    refine Triple.ite (fun _ => hemit) fun _ => ?_
    exact vsDropTail_chained bytes hs' haddress hplaced hstart (by omega)

/-- **A round of the chunk loop on an intact chain.** -/
theorem vsStep_chained (hi : sub.Intact) (hend : base + size ≤ sub.region.requestedEnd)
    (s : VsWalk) :
    Triple (fun w => InExtent sub memory there before mark base s w.state)
      (vsStep memory limit sub.region base (bytesAt sub.content base size) s)
      (ExtentFlow sub memory there before mark limit base size s) E := by
  have hword : sub.region.requestedEnd < 2 ^ 64 := saturatingAdd_lt _ _
  have hsizes := hi.sizes
  have hfits : s.fits sub.region (bytesAt sub.content base size) ↔
      s.offset + sub.region.headerBytes ≤ size := by
    unfold VsWalk.fits PoolRegion.headerBytes
    rw [length_bytesAt, Nat.add_assoc]
  refine Triple.ite (fun hout => Triple.pure fun w hw => ?_) fun hroom => ?_
  · rw [hfits] at hout
    exact hw.left (Or.inl (by omega))
  rw [not_not, hfits] at hroom
  unfold PoolRegion.headerBytes at hroom
  refine Triple.ite (fun hlimit => ?_) fun _ => ?_
  · refine Triple.bind (Q := fun _ w => InExtent sub memory there before mark base s w.state)
      (Triple.modify fun _ hw => hw) fun _ => Triple.pure fun w hw => ?_
    exact hw.left (Or.inr hlimit)
  rintro w ⟨new, links, done, rest, next, hw, hs, hjoined⟩
  have hoffset := hs.offset
  -- there is room for a header here, so the chain has a chunk here, and its header decodes
  obtain ⟨link, tail, rfl, haddress⟩ := hw.chain.cons_of_lt (by omega)
  have hplaced := (hw.chain.placed hi.region.space).1
  have hread : readU64 (bytesAt sub.content base size) (s.offset + sub.region.vsSizesOffset) =
      some (wordAt sub.content (next + sub.region.vsSizesOffset)) := by
    rw [readU64_bytesAt (by omega), ← Nat.add_assoc, hoffset]
    rfl
  dsimp only
  rw [wrappingAdd_of_lt (by omega), hoffset, hread]
  dsimp only
  rw [hw.chain.2.1]
  exact vsChunkStep_chained hi (length_bytesAt _ _ _) hs haddress hplaced (by omega) hjoined w hw

theorem vsLoop_chained (hi : sub.Intact) (hend : base + size ≤ sub.region.requestedEnd)
    (s : VsWalk) :
    Triple (fun w => InExtent sub memory there before mark base s w.state)
      (Run.loop (vsStep memory limit sub.region base (bytesAt sub.content base size)) id
        (size + 2) s)
      (fun s' w => LeftExtent sub memory there before mark limit (base + size) s' w.state) E := by
  -- the rounds that are left are more than the bytes that are
  refine (Triple.countdown (I := fun rounds s w =>
      InExtent sub memory there before mark base s w.state ∧ size + 2 ≤ s.offset + rounds)
    (fun rounds s => ?_) (fun s w hw => ?_) (size + 2) s).pre fun w hw => ⟨hw, by omega⟩
  · rintro w ⟨hw, hrounds⟩
    refine (vsStep_chained hi hend s w hw).imp (fun flow v hv => ?_) fun _ _ he => he
    cases flow with
    | again s' =>
      obtain ⟨hv, hlt⟩ := hv
      exact ⟨hv, by omega⟩
    | stop s' => exact hv
  · exact hw.1.left (Or.inl (by omega))

/-- What an extent that ends at `stop` hands the next: the address of the next chunk, or nothing,
and then the walk says that it lost the chain. -/
def Resumed (sub : Subsegment) (memory : PoolMemory) (there : ℕ → Prop) (before : PoolSnapshot)
    (mark stop : ℕ) (resumed : Option VsResume) (after : PoolSnapshot) : Prop :=
  ∃ new links done rest next, Chained sub memory there before new links done rest next after ∧
    (resumed = none → after.complete = false) ∧
    ∀ r, resumed = some r → (r.next = next ∧ max mark r.coveredThrough ≤ next) ∧
      (after.complete = true → stop < next + sub.region.headerBytes) ∧
      (Sparse memory there →
        Joined new links next ∨ Overrun links next stop (max mark r.coveredThrough))

theorem vsLimit_chained {p : Prop} (base : ℕ) (s : VsWalk) :
    Triple (fun w => Chained sub memory there before new links done rest next w.state ∧
        (w.state.complete = true → p ∨ limit ≤ s.chunks)) (vsLimit limit base s)
      (fun _ w => Chained sub memory there before new links done rest next w.state ∧
        (w.state.complete = true → p)) E := by
  refine Triple.bind (Q := fun reached w => (Chained sub memory there before new links done rest
    next w.state ∧ (w.state.complete = true → p ∨ limit ≤ s.chunks)) ∧ reached = false)
    (Triple.read fun w hw => ⟨hw, hw.1.not_reached⟩) fun reached => ?_
  refine Triple.pull fun hreached => ?_
  subst hreached
  refine Triple.ite (fun _ => ?_) fun hbelow => Triple.pure fun w hw => ?_
  · refine Triple.bind (clearComplete_chained.pre fun _ hw => hw.1) fun _ => ?_
    refine Triple.modify fun w hw => ⟨hw.1.leave ⟨rfl, fun h => h, rfl, rfl, rfl⟩, fun hc => ?_⟩
    exact absurd (hw.2.symm.trans hc) Bool.false_ne_true
  · exact ⟨hw.1, fun hc => (hw.2 hc).resolve_right fun hlimit => hbelow ⟨rfl, hlimit⟩⟩

theorem vsReports_chained {stop : ℕ} (base : ℕ) (s : VsWalk) :
    Triple (fun w => LeftExtent sub memory there before mark limit stop s w.state)
      (do vsReportRefused s; vsReportBreaks base s; vsLimit limit base s; pure s.resumption)
      (fun resumed w => Resumed sub memory there before mark stop resumed w.state) E := by
  rintro w ⟨new, links, done, rest, next, hw, ⟨hfound, hunrefused, hresume, hcovered⟩, htold,
    hjoined⟩
  have hresumption : s.resumption = some { next, coveredThrough := s.coveredThrough } := by
    unfold VsWalk.resumption
    rw [hfound, hresume]
    rfl
  have hbreaks : Keeps (fun v : World PoolSnapshot =>
      Chained sub memory there before new links done rest next v.state ∧
      (v.state.complete = true → stop < next + sub.region.headerBytes ∨ limit ≤ s.chunks)) E
      (vsReportBreaks base s) := by
    refine Keeps.when fun _ => ?_
    exact Keeps.modify fun v hv => ⟨hv.1.leave ⟨rfl, fun h => h, rfl, rfl, rfl⟩, hv.2⟩
  unfold vsReportRefused
  rw [hunrefused]
  refine Triple.bind (Keeps.pure _) (fun _ => Triple.bind hbreaks fun _ => ?_) w
    ⟨hw, htold⟩
  refine Triple.bind (vsLimit_chained base s) fun _ => Triple.pure fun v hv => ?_
  rw [hresumption]
  refine ⟨new, links, done, rest, next, hv.1, nofun, fun r hr => ?_⟩
  cases hr
  exact ⟨⟨rfl, hcovered⟩, hv.2, hjoined⟩

/-- **Decoding an extent of an intact chain.** -/
theorem walkVs_chained (hi : sub.Intact) (hend : base + size ≤ sub.region.requestedEnd)
    {expected : Option ℕ} (hexpected : ∀ m, expected = some m → m = next)
    (hmark : expected = some next → mark ≤ next)
    (hjoined : Sparse memory there → expected = some next → Joined new links next) :
    Triple (fun w => Chained sub memory there before new links done rest next w.state)
      (walkVs memory limit sub.region base (bytesAt sub.content base size) expected)
      (fun resumed w => Resumed sub memory there before mark (base + size) resumed w.state) E := by
  have hword : sub.region.requestedEnd < 2 ^ 64 := saturatingAdd_lt _ _
  have hsizes := hi.sizes
  unfold walkVs
  cases hfilter : expected.filter fun next => decide (base ≤ next) with
  | none =>
    refine Triple.bind (Q := fun _ w =>
      Chained sub memory there before new links done rest next w.state ∧ w.state.complete = false)
      (Triple.bind (update_chained fun _ => ⟨rfl, fun h => h, rfl, rfl, rfl⟩) fun _ =>
        Triple.bind (complain_chained _) fun _ => clearComplete_chained) fun _ => ?_
    exact Triple.pure fun w hw => ⟨_, _, _, _, _, hw.1, fun _ => hw.2, nofun⟩
  | some m =>
    obtain ⟨hsome, hle⟩ := Option.filter_eq_some_iff.mp hfilter
    obtain rfl := hexpected m hsome
    have hle : base ≤ m := of_decide_eq_true hle
    dsimp only
    rw [length_bytesAt, saturatingAdd_of_lt (by omega)]
    refine Triple.ite (fun hpast => Triple.pure fun w hw => ?_) fun hin => ?_
    · refine ⟨_, _, _, _, _, hw, nofun, fun r hr => ?_⟩
      cases hr
      refine ⟨⟨rfl, max_le (hmark hsome) hle⟩, fun _ => ?_, fun hsparse =>
        Or.inl (hjoined hsparse hsome)⟩
      unfold PoolRegion.headerBytes
      omega
    · unfold walkVsChunks
      rw [length_bytesAt]
      refine Triple.bind ((vsLoop_chained hi hend _).pre fun w hw => ?_) fun s =>
        vsReports_chained base s
      refine ⟨_, _, _, _, _, hw, ⟨?_, rfl, rfl, rfl, max_le (hmark hsome) hle⟩, fun hsparse =>
        hjoined hsparse hsome⟩
      show base + (m - base) = m
      omega

end Extent

end DbgScope.Pool
