import DbgScope.Pool.Gaps

/-!
# Gaps and chunks of a VS region

A VS chunk can be filed past the extent its header was read in, so a gap filed later may lie over
it. The extent loop keeps a mark of how far the chunks reach, `vs_covered`, but the decoder does not
always raise it and three branches of the loop do not ask it. What a round does to the spans is
said once here (`Rounded`); a run files a gap over a chunk just when one of its rounds does.
-/

namespace DbgScope.Pool

open Run (Ends Keeps Triple)
open PoolSnapshot

/-- What a round does: it files the ranges as gaps, none below `low` and none past `high`, and then
chunks from `high` on. -/
structure Rounded (w₀ : World PoolSnapshot) (low high : ℕ) (ranges : List (ℕ × ℕ))
    (gaps chunks : List PoolSpan) (w : World PoolSnapshot) : Prop where
  spans : w.state.spans = w₀.state.spans ++ gaps ++ chunks
  history : ∃ events, w.history = w₀.history ++ events ∧ events.filterMap Event.gapRange = ranges
  gap : ∀ gap ∈ gaps, gap.state.isChunk = false
  covers : ∀ x, (∃ gap ∈ gaps, gap.containsAddress x = true) ↔ ∃ r ∈ ranges, r.1 ≤ x ∧ x < r.2
  bounds : ∀ r ∈ ranges, low ≤ r.1 ∧ r.2 ≤ high
  ordered : low ≤ high
  chunk : ∀ chunk ∈ chunks, chunk.state.isChunk = true ∧ high ≤ chunk.headerAddress

def Gapping (w₀ : World PoolSnapshot) (low high : ℕ) (w : World PoolSnapshot) : Prop :=
  ∃ ranges gaps, Rounded w₀ low high ranges gaps [] w

/-- A round that may have filed chunks. -/
def Chunking (w₀ : World PoolSnapshot) (low high : ℕ) (w : World PoolSnapshot) : Prop :=
  ∃ ranges gaps chunks, Rounded w₀ low high ranges gaps chunks w

section Rounds

variable {memory : PoolMemory} {region : PoolRegion} {limit low high : ℕ}
  {w₀ w : World PoolSnapshot} {ranges : List (ℕ × ℕ)} {gaps chunks : List PoolSpan} {α : Type}
  {E : SnapshotError → World PoolSnapshot → Prop}

theorem Rounded.note (h : Rounded w₀ low high ranges gaps chunks w) {event : Event}
    (hevent : event.gapRange = none) : Rounded w₀ low high ranges gaps chunks (w.note event) := by
  obtain ⟨events, hhistory, hranges⟩ := h.history
  refine { h with history := ⟨events ++ [event], ?_, ?_⟩ }
  · rw [World.note_history, hhistory, List.append_assoc]
  · rw [List.filterMap_append, hranges, List.filterMap_cons_none hevent]
    exact List.append_nil ranges

theorem Rounded.write (h : Rounded w₀ low high ranges gaps chunks w) {snapshot : PoolSnapshot}
    (hspans : snapshot.spans = w.state.spans) :
    Rounded w₀ low high ranges gaps chunks { w with state := snapshot } :=
  { h with spans := hspans.trans h.spans }

theorem Rounded.record (h : Rounded w₀ low high ranges gaps chunks w) {span : PoolSpan}
    (hchunk : span.state.isChunk = true) (hhigh : high ≤ span.headerAddress) :
    Rounded w₀ low high ranges gaps (chunks ++ [span])
      { w with state := w.state.recordSpan span } := by
  refine { h with spans := ?_, chunk := ?_ }
  · rw [recordSpan_spans, h.spans]
    simp only [List.append_assoc]
  · intro chunk hmem
    rcases List.mem_append.mp hmem with hold | hnew
    · exact h.chunk chunk hold
    · rw [List.mem_singleton.mp hnew]
      exact ⟨hchunk, hhigh⟩

theorem Gapping.mono {high' : ℕ} (h : Gapping w₀ low high w) (hle : high ≤ high') :
    Gapping w₀ low high' w := by
  obtain ⟨ranges, gaps, h⟩ := h
  exact ⟨ranges, gaps, { h with
    bounds := fun r hr => ⟨(h.bounds r hr).1, (h.bounds r hr).2.trans hle⟩
    ordered := h.ordered.trans hle
    chunk := fun _ hmem => by cases hmem }⟩

theorem Gapping.chunking (h : Gapping w₀ low high w) : Chunking w₀ low high w := by
  obtain ⟨ranges, gaps, h⟩ := h
  exact ⟨ranges, gaps, [], h⟩

theorem Gapping.start (w : World PoolSnapshot) (low : ℕ) : Gapping w low low w :=
  ⟨[], [], by simp, ⟨[], by simp⟩, by simp, by simp, by simp, le_refl low, by simp⟩

theorem Gapping.note (h : Gapping w₀ low high w) {event : Event} (hevent : event.gapRange = none) :
    Gapping w₀ low high (w.note event) := by
  obtain ⟨ranges, gaps, h⟩ := h
  exact ⟨ranges, gaps, h.note hevent⟩

theorem update_gapping {f : PoolSnapshot → PoolSnapshot}
    (hf : ∀ snapshot, (f snapshot).spans = snapshot.spans) :
    Keeps (Gapping w₀ low high) E (update f) :=
  Keeps.modify fun w ⟨ranges, gaps, hw⟩ => ⟨ranges, gaps, hw.write (hf w.state)⟩

theorem complain_gapping (message : String) :
    Keeps (Gapping w₀ low high) E (complain message) :=
  update_gapping fun _ => rfl

theorem unreadable_gapping {address next : ℕ} (hlow : low ≤ address) (hle : address ≤ next)
    (hhigh : high ≤ next) (hword : next < 2 ^ 64) :
    Triple (Gapping w₀ low high) (unreadable memory region address (next - address))
      (fun _ => Gapping w₀ low next) E := by
  rintro w ⟨ranges, gaps, hw⟩
  have hstop : saturatingAdd address (next - address) = next := by
    rw [saturatingAdd_of_lt (by omega), Nat.add_sub_cancel' hle]
  refine (unreadable_gapped memory region (by omega) (next - address) w rfl).imp
    (fun _ v hv => ?_) fun _ _ he => he
  rw [hstop] at hv
  obtain ⟨new, hnew, hv⟩ := hv
  refine ⟨ranges ++ [(address, next)], gaps ++ new, ?_, ?_, ?_, ?_, ?_, hlow.trans hle,
    fun _ hmem => by cases hmem⟩
  · rw [hv.spans, World.note_state, hw.spans]
    simp only [List.append_assoc, List.append_nil]
  · obtain ⟨events, hhistory, hranges⟩ := hw.history
    obtain ⟨more, hmore, hnone⟩ := hv.history
    refine ⟨events ++ .filed address next :: more, ?_, ?_⟩
    · rw [hmore, World.note_history, hhistory]
      simp only [List.append_assoc, List.singleton_append]
    · rw [List.filterMap_append, hranges]
      show ranges ++ (address, next) :: more.filterMap Event.gapRange = _
      rw [hnone]
  · intro gap hgap
    rcases List.mem_append.mp hgap with hold | hlast
    · exact hw.gap gap hold
    · exact hnew.not_isChunk hlast
  · intro x
    simp only [List.mem_append, or_and_right, exists_or, hw.covers x, hnew.mem_iff,
      List.mem_singleton, exists_eq_left]
  · intro r hr
    rcases List.mem_append.mp hr with hold | hlast
    · exact ⟨(hw.bounds r hold).1, (hw.bounds r hold).2.trans hhigh⟩
    · rw [List.mem_singleton.mp hlast]
      exact ⟨hlow, le_refl next⟩

end Rounds

/-! ## Decoding an extent -/

def PoolRegion.InSpace (region : PoolRegion) : Prop := region.address + region.size < 2 ^ 64 - 1

theorem PoolRegion.InSpace.requestedEnd {region : PoolRegion} (h : region.InSpace) :
    region.requestedEnd = region.address + region.size := by
  unfold PoolRegion.InSpace at h
  exact saturatingAdd_of_lt (by omega)

theorem decodeVsChunk_ok {encoded headerAddress heapKey headerBytes subsegmentEnd : ℕ}
    {chunk : VsChunk}
    (h : decodeVsChunk encoded headerAddress heapKey headerBytes subsegmentEnd = .ok chunk) :
    0 < chunk.size ∧ headerBytes ≤ chunk.size ∧
      saturatingAdd headerAddress chunk.size ≤ subsegmentEnd := by
  unfold decodeVsChunk at h
  dsimp only at h
  split at h
  · cases h
  · next hzero =>
    split at h
    · cases h
    · next hheader =>
      split at h
      · cases h
      · next hend =>
        cases h
        exact ⟨Nat.pos_of_ne_zero hzero, Nat.le_of_not_lt hheader, Nat.le_of_not_lt hend⟩

theorem vsBigPool_some {region : PoolRegion} {headerAddress chunkSize : ℕ}
    {named : ℕ × BigPageEntry} (h : vsBigPool region headerAddress chunkSize = some named) :
    headerAddress ≤ named.1 ∧ named.1 < saturatingAdd headerAddress chunkSize ∧
      saturatingAdd named.1 named.2.size ≤ saturatingAdd headerAddress chunkSize := by
  unfold vsBigPool at h
  split at h
  · have hfound := List.find?_some h
    simp only [Bool.and_eq_true, decide_eq_true_iff] at hfound
    exact ⟨hfound.1.1, hfound.1.2, hfound.2⟩
  · cases h

/-- A chunk whose header lies where the arithmetic on its address does not wrap. -/
structure Placed (region : PoolRegion) (headerAddress chunkSize : ℕ) : Prop where
  header : region.headerBytes ≤ chunkSize
  space : headerAddress + chunkSize < 2 ^ 64 - 1

section Decode

variable {memory : PoolMemory} {region : PoolRegion} {limit low base headerAddress chunkSize : ℕ}
  {w₀ w : World PoolSnapshot} {bytes : List UInt8} {α : Type}
  {E : SnapshotError → World PoolSnapshot → Prop}

theorem Placed.physical (h : Placed region headerAddress chunkSize) :
    headerAddress + region.vsHeaderSize ≤ vsPhysicalHeader region headerAddress chunkSize ∧
      vsPhysicalHeader region headerAddress chunkSize + region.poolHeader.size ≤
        headerAddress + chunkSize := by
  obtain ⟨hheader, hspace⟩ := h
  unfold PoolRegion.headerBytes at hheader
  have hphysical : wrappingAdd headerAddress region.vsHeaderSize =
      headerAddress + region.vsHeaderSize := wrappingAdd_of_lt (by omega)
  unfold vsPhysicalHeader
  dsimp only
  rw [hphysical]
  split
  · next hmoved =>
    rw [Bool.and_eq_true, decide_eq_true_iff] at hmoved
    have hroom := hmoved.2
    unfold PoolRegion.headerBytes at hroom
    rw [wrappingAdd_of_lt (by omega)]
    omega
  · omega

theorem Placed.headerAddress_le (h : Placed region headerAddress chunkSize) (base : ℕ)
    (bytes : List UInt8) (state : PoolState) :
    headerAddress ≤ (vsSpan region base bytes headerAddress chunkSize state).headerAddress := by
  obtain ⟨hlow, -⟩ := h.physical
  unfold vsSpan baseSpan
  dsimp only
  split <;> omega

theorem Placed.spanEnd (h : Placed region headerAddress chunkSize) (base : ℕ)
    (bytes : List UInt8) (state : PoolState) :
    (vsSpan region base bytes headerAddress chunkSize state).spanEnd =
      headerAddress + chunkSize := by
  obtain ⟨hlow, hhigh⟩ := h.physical
  have hspace := h.space
  show saturatingAdd (wrappingAdd (vsPhysicalHeader region headerAddress chunkSize)
      region.poolHeader.size) (chunkSize - saturatingAdd
      (vsPhysicalHeader region headerAddress chunkSize - headerAddress) region.poolHeader.size) = _
  generalize vsPhysicalHeader region headerAddress chunkSize = physical at hlow hhigh
  have hoverhead : saturatingAdd (physical - headerAddress) region.poolHeader.size =
      physical - headerAddress + region.poolHeader.size := saturatingAdd_of_lt (by omega)
  rw [hoverhead, wrappingAdd_of_lt (by omega), saturatingAdd_of_lt (by omega)]
  omega

theorem update_chunking {f : PoolSnapshot → PoolSnapshot}
    (hf : ∀ snapshot, (f snapshot).spans = snapshot.spans) :
    Keeps (Chunking w₀ low base) E (update f) := by
  refine Keeps.modify ?_
  rintro w ⟨ranges, gaps, chunks, hw⟩
  exact ⟨ranges, gaps, chunks, hw.write (hf w.state)⟩

theorem Chunking.note (h : Chunking w₀ low base w) {event : Event}
    (hevent : event.gapRange = none) : Chunking w₀ low base (w.note event) := by
  obtain ⟨ranges, gaps, chunks, hw⟩ := h
  exact ⟨ranges, gaps, chunks, hw.note hevent⟩

theorem chunking_decoding :
    VsDecoding memory (fun span => span.state.isChunk = true ∧ base ≤ span.headerAddress)
      (Chunking w₀ low base) E where
  say _ := update_chunking fun _ => rfl
  clear := update_chunking fun _ => rfl
  record hspan := by
    refine Keeps.modify ?_
    rintro w ⟨ranges, gaps, chunks, hw⟩
    exact ⟨ranges, gaps, _, hw.record hspan.1 hspan.2⟩
  run _ := fun _ hw => hw.note rfl
  capped := Keeps.modify fun _ hw => hw.note rfl
  refused _ := update_chunking fun _ => rfl
  unplaced _ := update_chunking fun _ => rfl

theorem placed_of_decoded (hspace : region.InSpace)
    {encoded : ℕ} {chunk : VsChunk}
    (h : decodeVsChunk encoded headerAddress region.heapKey region.headerBytes
      region.requestedEnd = .ok chunk) :
    Placed region headerAddress chunk.size ∧
      headerAddress + chunk.size ≤ region.address + region.size := by
  obtain ⟨-, hheader, hend⟩ := decodeVsChunk_ok h
  rw [hspace.requestedEnd] at hend
  unfold PoolRegion.InSpace at hspace
  unfold saturatingAdd at hend
  exact ⟨⟨hheader, by omega⟩, by omega⟩

/-- Decoding a VS extent files chunks that start in it or past it, and no gap. -/
theorem walkVs_chunking (hspace : region.InSpace)
    (hextent : base + bytes.length ≤ region.address + region.size) (expected : Option ℕ) :
    Keeps (Chunking w₀ low base) E (walkVs memory limit region base bytes expected) := by
  refine walkVs_keeps chunking_decoding limit expected fun s encoded chunk hfits hchunk => ?_
  have hplaced := (placed_of_decoded hspace hchunk).1
  have hbase : base ≤ wrappingAdd base s.offset := by
    unfold VsWalk.fits at hfits
    unfold PoolRegion.InSpace at hspace
    rw [wrappingAdd_of_lt (by omega)]
    omega
  exact {
    unnamed := fun _ =>
      ⟨vsState_isChunk _ _ _, hbase.trans (hplaced.headerAddress_le base bytes _)⟩
    named := fun named hnamed => ⟨vsState_isChunk _ _ _, hbase.trans (vsBigPool_some hnamed).1⟩ }

end Decode

/-! ## Rounds -/

def Exact (memory : PoolMemory) : Prop :=
  ∀ h address size bytes, memory.readExact h address size = .ok bytes → bytes.length = size

structure VsRegion (region : PoolRegion) : Prop where
  backend : region.backend = .vs
  ordinary : region.heap.special = false
  space : region.InSpace

def RoundEnds (w₀ : World PoolSnapshot) (low : ℕ) (flow : Flow RegionWalk Unit)
    (w : World PoolSnapshot) : Prop :=
  ∃ high, Chunking w₀ low high w ∧ ∀ s', flow = .again s' → high ≤ s'.cursor

/-- How a round that is cut short leaves the spans. -/
def RoundFails (w₀ : World PoolSnapshot) (low : ℕ) (_ : SnapshotError) (w : World PoolSnapshot) :
    Prop := ∃ high, Chunking w₀ low high w

section Region

variable {memory : PoolMemory} {region : PoolRegion} {limit low high : ℕ}
  {w₀ w : World PoolSnapshot} {s : RegionWalk} {E : SnapshotError → World PoolSnapshot → Prop}

theorem Gapping.again (h : Gapping w₀ low high w) {s' : RegionWalk} (hle : high ≤ s'.cursor) :
    RoundEnds w₀ low (.again s') w :=
  ⟨high, h.chunking, fun _ hflow => by cases hflow; exact hle⟩

theorem Gapping.stop (h : Gapping w₀ low high w) : RoundEnds w₀ low (.stop ()) w :=
  ⟨high, h.chunking, fun _ hflow => by cases hflow⟩

/-- **What a round of the extent loop files**: gaps from the cursor on, and then chunks. -/
theorem regionStep_round (limit : ℕ) (hexact : Exact memory) (hr : VsRegion region)
    (s : RegionWalk) (w₀ : World PoolSnapshot) :
    Ends (RoundEnds w₀ s.cursor) (RoundFails w₀ s.cursor)
      (regionStep memory limit region s w₀) := by
  have hword : region.requestedEnd < 2 ^ 64 := saturatingAdd_lt _ _
  have hspace := hr.space.requestedEnd
  have hpoll (high : ℕ) : Keeps (Gapping w₀ s.cursor high) (fun _ => Gapping w₀ s.cursor high)
      (checkBudget memory) := checkBudget_noted fun hw => hw.note rfl
  refine RoundRule.regionStep (G := fun base stop bytes => bytes.length = stop - base)
    (P := Gapping w₀ s.cursor) {
    poll := (hpoll _).imp (fun _ hw => hw) (fun _ _ hw => hw)
      fun _ _ hw => ⟨_, hw.chunking⟩
    query := fun hw => hw.note rfl
    say := fun _ _ => complain_gapping _
    stalls := fun _ _ => update_gapping fun _ => rfl
    gap := fun hpos hlow _ hle hend => unreadable_gapping (by omega) hle (by omega) (by omega)
    covered := fun _ hle _ hw => hw.mono hle
    read := fun _ _ _ => (readExtent_noted joins_length (hpoll _) hexact (fun hw => hw.note rfl)
      (fun _ hw => hw) (by omega)).imp (fun _ hw => hw) (fun _ _ hw => hw)
      fun _ _ hw => ⟨fun _ => ⟨_, hw.chunking⟩, hw⟩
    decode := fun {validBase _ bytes} _ hbase hlt hend hlength => ?_
    again := fun _ _ _ _ hw => hw.again le_rfl
    stop := Gapping.stop
    past := fun _ hw => hw.stop } w₀ (Gapping.start w₀ s.cursor)
  refine Triple.post (Q := fun _ => Chunking w₀ s.cursor validBase) ?_ fun decoded w hw => ?_
  · unfold decodeExtent
    rw [if_neg (by rw [hr.ordinary]; decide), hr.backend]
    dsimp only
    refine Triple.bind (Q := fun _ => Chunking w₀ s.cursor validBase)
      (Triple.modify fun w hw => (hw.note rfl).chunking) fun _ => ?_
    refine Keeps.bind ?_ fun _ => Keeps.pure _
    exact walkVs_chunking hr.space (by omega) _
  · have hstop : RoundEnds w₀ s.cursor (.stop ()) w := ⟨_, hw, nofun⟩
    cases decoded with
    | none => exact hstop
    | some d =>
      refine decoded_some (fun _ => hstop) ⟨_, hw, fun _ hflow => ?_⟩
      cases hflow
      exact hlt.le

end Region

/-! ## Runs -/

def GapsAvoidChunks (spans : List PoolSpan) : Prop :=
  ∀ gap ∈ spans, ∀ chunk ∈ spans, gap.state.isChunk = false → chunk.state.isChunk = true →
    ∀ x, ¬ (gap.containsAddress x = true ∧ chunk.containsAddress x = true)

def filedSince (w₀ w : World PoolSnapshot) : List PoolSpan :=
  w.state.spans.drop w₀.state.spans.length

def roundGaps (memory : PoolMemory) (limit : ℕ) (region : PoolRegion) (s : RegionWalk)
    (w : World PoolSnapshot) : List (ℕ × ℕ) :=
  ((regionStep memory limit region s w).2.history.drop w.history.length).filterMap Event.gapRange

/-- The states of the extent loop of a region. -/
abbrev Visits (memory : PoolMemory) (limit : ℕ) (region : PoolRegion) (w₀ : World PoolSnapshot) :
    RegionWalk → World PoolSnapshot → Prop :=
  Run.Reach (regionStep memory limit region) (RegionWalk.start region) w₀

def RoundClear (memory : PoolMemory) (limit : ℕ) (region : PoolRegion) (w₀ : World PoolSnapshot)
    (s : RegionWalk) (w : World PoolSnapshot) : Prop :=
  ∀ range ∈ roundGaps memory limit region s w, ∀ chunk ∈ filedSince w₀ w,
    chunk.state.isChunk = true → ∀ x, range.1 ≤ x → x < range.2 → chunk.containsAddress x = false

section Runs

variable {memory : PoolMemory} {region : PoolRegion} {w₀ w : World PoolSnapshot} {s : RegionWalk}

theorem regionStep_rounded (limit : ℕ) (hexact : Exact memory) (hr : VsRegion region)
    (s : RegionWalk) (w : World PoolSnapshot) :
    ∃ high gaps chunks, Rounded w s.cursor high (roundGaps memory limit region s w) gaps chunks
        (regionStep memory limit region s w).2 ∧
      ∀ s', (regionStep memory limit region s w).1 = .ok (.again s') → high ≤ s'.cursor := by
  have hround := regionStep_round limit hexact hr s w
  have hranges : ∀ {high ranges gaps chunks}, Rounded w s.cursor high ranges gaps chunks
      (regionStep memory limit region s w).2 → roundGaps memory limit region s w = ranges := by
    intro high ranges gaps chunks h
    obtain ⟨events, hhistory, hranges⟩ := h.history
    unfold roundGaps
    rw [hhistory, List.drop_left, hranges]
  rcases hstep : regionStep memory limit region s w with ⟨r, v⟩
  rw [hstep] at hround hranges
  cases r with
  | error error =>
    obtain ⟨high, ranges, gaps, chunks, h⟩ := hround
    exact ⟨high, gaps, chunks, hranges h ▸ h, fun _ hagain => by cases hagain⟩
  | ok flow =>
    obtain ⟨high, ⟨ranges, gaps, chunks, h⟩, hcursor⟩ := hround
    exact ⟨high, gaps, chunks, hranges h ▸ h, fun s' hagain => hcursor s' (Except.ok.inj hagain)⟩

theorem regionStep_grows (limit : ℕ) (hexact : Exact memory) (hr : VsRegion region)
    (pre : List PoolSpan) (s : RegionWalk) :
    Keeps (fun w => pre <+: w.state.spans) (fun _ w => pre <+: w.state.spans)
      (regionStep memory limit region s) := by
  intro w hw
  obtain ⟨high, gaps, chunks, hround, -⟩ := regionStep_rounded limit hexact hr s w
  have hspans : pre <+: (regionStep memory limit region s w).2.state.spans := by
    rw [hround.spans, List.append_assoc]
    exact hw.trans (List.prefix_append _ _)
  rcases hstep : regionStep memory limit region s w with ⟨r, v⟩
  rw [hstep] at hspans
  cases r <;> exact hspans

structure Apart (w₀ : World PoolSnapshot) (cursor : ℕ) (w : World PoolSnapshot) : Prop where
  grown : w₀.state.spans <+: w.state.spans
  avoid : GapsAvoidChunks (filedSince w₀ w)
  below : ∀ gap ∈ filedSince w₀ w, gap.state.isChunk = false →
    ∀ x, gap.containsAddress x = true → x < cursor

theorem filedSince_append {w₀ w : World PoolSnapshot} (hgrown : w₀.state.spans <+: w.state.spans)
    {v : World PoolSnapshot} {new : List PoolSpan} (hspans : v.state.spans = w.state.spans ++ new) :
    filedSince w₀ v = filedSince w₀ w ++ new := by
  unfold filedSince
  rw [hspans, List.drop_append_of_le_length hgrown.length_le]

theorem Rounded.apart {limit high : ℕ} {gaps chunks : List PoolSpan} {v : World PoolSnapshot}
    (h : Rounded w s.cursor high (roundGaps memory limit region s w) gaps chunks v)
    (hw : Apart w₀ s.cursor w) (hclear : RoundClear memory limit region w₀ s w) :
    Apart w₀ (max s.cursor high) v := by
  have hfiled := filedSince_append hw.grown
    (show v.state.spans = w.state.spans ++ (gaps ++ chunks) by rw [h.spans, List.append_assoc])
  -- a new gap lies in one of the round's ranges
  have hrange : ∀ gap ∈ gaps, ∀ x, gap.containsAddress x = true →
      ∃ r ∈ roundGaps memory limit region s w, r.1 ≤ x ∧ x < r.2 := fun gap hgap x hx =>
    (h.covers x).mp ⟨gap, hgap, hx⟩
  have hnew : ∀ gap ∈ gaps, ∀ x, gap.containsAddress x = true → x < high := by
    intro gap hgap x hx
    obtain ⟨r, hr, -, hlt⟩ := hrange gap hgap x hx
    exact hlt.trans_le (h.bounds r hr).2
  have hmem : ∀ span ∈ filedSince w₀ v,
      span ∈ filedSince w₀ w ∨ span ∈ gaps ∨ span ∈ chunks := by
    intro span hspan
    rwa [hfiled, List.mem_append, List.mem_append] at hspan
  refine ⟨?_, ?_, ?_⟩
  · rw [h.spans, List.append_assoc]
    exact hw.grown.trans (List.prefix_append _ _)
  · intro gap hgap chunk hchunk hgapState hchunkState x ⟨hgx, hcx⟩
    have hstart := (containsAddress_iff.mp hcx).1
    rcases hmem gap hgap with hold | hgap | hwrong
    · have hx := hw.below gap hold hgapState x hgx
      rcases hmem chunk hchunk with hold' | hwrong | hchunk
      · exact hw.avoid gap hold chunk hold' hgapState hchunkState x ⟨hgx, hcx⟩
      · rw [h.gap chunk hwrong] at hchunkState
        cases hchunkState
      · have := (h.chunk chunk hchunk).2
        have := h.ordered
        omega
    · rcases hmem chunk hchunk with hold' | hwrong | hchunk
      · obtain ⟨r, hr, hle, hlt⟩ := hrange gap hgap x hgx
        rw [hclear r hr chunk hold' hchunkState x hle hlt] at hcx
        cases hcx
      · rw [h.gap chunk hwrong] at hchunkState
        cases hchunkState
      · have := (h.chunk chunk hchunk).2
        have := hnew gap hgap x hgx
        omega
    · rw [(h.chunk gap hwrong).1] at hgapState
      cases hgapState
  · intro gap hgap hgapState x hx
    rcases hmem gap hgap with hold | hgap | hwrong
    · have := hw.below gap hold hgapState x hx
      omega
    · have := hnew gap hgap x hx
      omega
    · rw [(h.chunk gap hwrong).1] at hgapState
      cases hgapState

theorem walkExtents_apart (limit : ℕ) (hexact : Exact memory) (hr : VsRegion region)
    (hclear : ∀ s w, Visits memory limit region w₀ s w → RoundClear memory limit region w₀ s w) :
    GapsAvoidChunks (filedSince w₀ (walkExtents memory limit region w₀).2) := by
  have hends : Ends (fun _ w => GapsAvoidChunks (filedSince w₀ w))
      (fun _ w => GapsAvoidChunks (filedSince w₀ w)) (walkExtents memory limit region w₀) := by
    refine Run.loop_reach (I := fun s w => Apart w₀ s.cursor w) ?_ (fun s w hreach hw => ?_)
      (fun s w hw => hw.avoid) _
    · have hnone : filedSince w₀ w₀ = [] := List.drop_length
      refine ⟨List.prefix_refl _, ?_, ?_⟩ <;> rw [hnone] <;> intro gap hgap <;> cases hgap
    · obtain ⟨high, gaps, chunks, hround, hcursor⟩ := regionStep_rounded limit hexact hr s w
      have hapart := hround.apart hw (hclear s w hreach)
      have hadvances := regionStep_advances memory limit region s w trivial
      rcases hstep : regionStep memory limit region s w with ⟨r, v⟩
      rw [hstep] at hapart hadvances hcursor
      cases r with
      | error error => exact hapart.avoid
      | ok flow =>
        cases flow with
        | stop _ => exact hapart.avoid
        | again s' =>
          have hhigh := hcursor s' rfl
          obtain ⟨hlt, -⟩ : s.cursor < s'.cursor ∧ s'.cursor ≤ region.requestedEnd := hadvances
          refine { hapart with below := fun gap hgap hstate x hx => ?_ }
          have := hapart.below gap hgap hstate x hx
          omega
  rcases hrun : walkExtents memory limit region w₀ with ⟨r, after⟩
  rw [hrun] at hends
  cases r <;> exact hends

theorem visits_grown (limit : ℕ) (hexact : Exact memory) (hr : VsRegion region)
    (hreach : Visits memory limit region w₀ s w) : w₀.state.spans <+: w.state.spans := by
  induction hreach with
  | start => exact List.prefix_refl _
  | @again s s' w w' _ hstep ih =>
    have hgrows := regionStep_grows limit hexact hr _ s w ih
    rw [hstep] at hgrows
    exact hgrows

theorem round_prefix (limit : ℕ) (hexact : Exact memory) (hr : VsRegion region)
    (hreach : Visits memory limit region w₀ s w) :
    (regionStep memory limit region s w).2.state.spans <+:
      (walkExtents memory limit region w₀).2.state.spans := by
  have hsize := requestedEnd_sub_le region
  obtain ⟨m, hm, hloop⟩ := hreach.loop_eq (fun _ => ()) (fun s => region.requestedEnd - s.cursor)
    (fun _ _ _ _ hstep => regionStep_lowers hstep)
    (show region.requestedEnd - region.address < region.size + 1 by omega)
  obtain ⟨k, rfl⟩ : ∃ k, m = k + 1 := ⟨m - 1, by omega⟩
  unfold walkExtents
  rw [hloop]
  rcases hstep : regionStep memory limit region s w with ⟨r, v⟩
  cases r with
  | error error => rw [Run.loop_error hstep]
  | ok flow =>
    cases flow with
    | stop _ => rw [Run.loop_stop hstep]
    | again s' =>
      rw [Run.loop_again hstep]
      have hgrows : Keeps (fun w => v.state.spans <+: w.state.spans)
          (fun _ w => v.state.spans <+: w.state.spans)
          (Run.loop (regionStep memory limit region) (fun _ => ()) k s') :=
        Keeps.loop (regionStep_grows limit hexact hr v.state.spans) k s'
      have hgrows := hgrows v (List.prefix_refl _)
      rcases hrun : Run.loop (regionStep memory limit region) (fun _ => ()) k s' v with ⟨r, after⟩
      rw [hrun] at hgrows
      cases r <;> exact hgrows

/-- The mark the loop keeps is past every chunk filed so far, and the next round files nothing
below it. -/
def Heeded (memory : PoolMemory) (limit : ℕ) (region : PoolRegion) (w₀ : World PoolSnapshot)
    (s : RegionWalk) (w : World PoolSnapshot) : Prop :=
  (∀ chunk ∈ filedSince w₀ w, chunk.state.isChunk = true →
    chunk.spanEnd ≤ max s.cursor s.vsCovered) ∧
  ∀ range ∈ roundGaps memory limit region s w, s.vsCovered ≤ range.1

theorem Heeded.roundClear {limit : ℕ} (hexact : Exact memory) (hr : VsRegion region)
    (h : Heeded memory limit region w₀ s w) : RoundClear memory limit region w₀ s w := by
  obtain ⟨high, gaps, chunks, hround, -⟩ := regionStep_rounded limit hexact hr s w
  intro range hrange chunk hchunk hstate x hle hlt
  have hend := h.1 chunk hchunk hstate
  have hcovered := h.2 range hrange
  have hcursor := (hround.bounds range hrange).1
  rw [Bool.eq_false_iff, ne_eq, containsAddress_iff]
  omega

end Runs

/-! ## A chunk of two pages -/

def twoPages : PoolRegion :=
  { onePage .vs none with size := 0x2000, vsHeaderSize := 0x10 }

def oneChunk : ℕ → ℕ
  | 0x1000 => 0x0001000002001000
  | _ => 0

/-- The second page is not there, and the memory manager says that nothing is. -/
def halfCommitted : PoolMemory where
  readExact _ address size := .ok (bytesAt (wordBytes oneChunk) address size)
  validRegion _ address _ := .ok (if address < 0x2000 then (address, 0x2000 - address)
    else (0x3000, 0))
  interrupted _ := .ok false
  outOfBudget _ := false
  committedRun _ address := some (if address < 0x2000 then { runEnd := 0x2000, committed := true }
    else { runEnd := 0x3000, committed := false })

end DbgScope.Pool
