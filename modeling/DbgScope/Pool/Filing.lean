import DbgScope.Pool.VsChain

/-!
# Where a span comes from

Whatever the target answers, every span a region's walk records carries the region's identity: the
allocator, the heap and the subsegment it is of. The walk does three things to its snapshot: it
makes notes, it writes what is not a span, and it records spans of the region. So what these three
keep, the walk keeps (`walkOne_files`).
-/

namespace DbgScope.Pool

open Run (Keeps Triple)
open PoolSnapshot

/-- What tells one subsegment from another. -/
structure Site where
  poolKind : PoolKind
  numaNode : ℕ
  heap : HeapIdentity
  backend : PoolBackend
  subsegment : Option ℕ
  deriving DecidableEq

def PoolSpan.site (span : PoolSpan) : Site :=
  { poolKind := span.poolKind, numaNode := span.numaNode, heap := span.heap,
    backend := span.backend, subsegment := span.subsegment }

def PoolRegion.site (region : PoolRegion) : Site :=
  { poolKind := region.poolKind, numaNode := region.numaNode, heap := region.heap,
    backend := region.backend, subsegment := region.subsegment }

/-- The span is one a walk of the region can record. -/
structure Stems (region : PoolRegion) (span : PoolSpan) : Prop where
  site : span.site = region.site
  /-- An LFH block is a slot of the region. -/
  slot : region.backend = .lfh → region.heap.special = false → span.state.isChunk = true →
    ∃ k, span.headerAddress = region.address + k * region.unitSize ∧
      span.usableAddress = span.headerAddress + region.poolHeader.size ∧
      span.spanEnd = region.address + (k + 1) * region.unitSize
  /-- What is no chunk of a VS region is a gap, which has no header in front. -/
  gap : region.backend = .vs → region.heap.special = false → span.state.isChunk = false →
    span.usableAddress = span.headerAddress
  /-- A VS chunk is where its header puts it. -/
  chunk : region.backend = .vs → region.heap.special = false → span.state.isChunk = true →
    ∃ link : Link, Placed region link.address link.chunk.size ∧ Reported region link span

/-- A write that touches no span. -/
structure SameSpans (a b : PoolSnapshot) : Prop where
  spans : b.spans = a.spans
  matchLimit : b.matchLimit = a.matchLimit
  stopped : b.stoppedAfterMatches = a.stoppedAfterMatches

/-- Notes, writes that touch no span and the region's own spans keep `I`. -/
structure Files (region : PoolRegion) (I : World PoolSnapshot → Prop) : Prop where
  note : ∀ {w event}, I w → I (w.note event)
  write : ∀ {w snapshot}, I w → SameSpans w.state snapshot → I { w with state := snapshot }
  record : ∀ {w span}, I w → Stems region span → I { w with state := w.state.recordSpan span }

abbrev KeepsFiling {α : Type} (I : World PoolSnapshot → Prop) (m : Walk PoolSnapshot α) : Prop :=
  Keeps I (fun _ => I) m

section Files

variable {region : PoolRegion} {I : World PoolSnapshot → Prop} {α : Type}

variable (h : Files region I) {span : PoolSpan} (memory : PoolMemory) (address size : ℕ)
include h

theorem note_files (event : Event) : KeepsFiling I (note event) :=
  Keeps.modify fun _ hw => h.note hw

theorem update_files {f : PoolSnapshot → PoolSnapshot}
    (hf : ∀ snapshot, SameSpans snapshot (f snapshot)) : KeepsFiling I (update f) :=
  Keeps.modify fun w hw => h.write hw (hf w.state)

theorem complain_files (message : String) : KeepsFiling I (complain message) :=
  update_files h fun _ => ⟨rfl, rfl, rfl⟩

theorem clearComplete_files : KeepsFiling I clearComplete :=
  update_files h fun _ => ⟨rfl, rfl, rfl⟩

theorem record_files (hspan : Stems region span) :
    KeepsFiling I (record span) := Keeps.modify fun _ hw => h.record hw hspan

theorem files_decoding : VsDecoding memory (Stems region) I (fun _ => I) where
  say := complain_files h
  clear := clearComplete_files h
  record := record_files h
  run _ := fun _ hw => h.note hw
  capped := note_files h _
  refused _ := update_files h fun _ => ⟨rfl, rfl, rfl⟩
  unplaced _ := update_files h fun _ => ⟨rfl, rfl, rfl⟩

/-! ## The spans of the decoders -/

omit h in
theorem stems_of_site (hsite : span.site = region.site)
    (hother : region.heap.special = true ∨ region.backend = .segment ∨ region.backend = .large) :
    Stems region span := by
  refine ⟨hsite, fun hlfh hordinary => ?_, fun hvs hordinary => ?_, fun hvs hordinary => ?_⟩ <;>
    rcases hother with h | h | h <;> simp_all

omit h in
theorem lfhSpan_stems {slot tag : ℕ} (state : PoolState)
    (hheader : region.poolHeader.size ≤ region.unitSize)
    (hspace : region.address + (slot * region.unitSize + region.unitSize) < 2 ^ 64 - 1)
    (hlfh : region.backend = .lfh) :
    Stems region
      (lfhSpan region (wrappingAdd region.address (slot * region.unitSize)) tag state) := by
  have haddress : wrappingAdd region.address (slot * region.unitSize) =
      region.address + slot * region.unitSize := wrappingAdd_of_lt (by omega)
  rw [haddress]
  have husable : wrappingAdd (region.address + slot * region.unitSize) region.poolHeader.size =
      region.address + slot * region.unitSize + region.poolHeader.size :=
    wrappingAdd_of_lt (by omega)
  have hother : region.backend ≠ .vs := by
    rw [hlfh]
    decide
  refine ⟨rfl, fun _ _ _ => ⟨slot, rfl, husable, ?_⟩, fun hvs => absurd hvs hother,
    fun hvs => absurd hvs hother⟩
  show saturatingAdd (wrappingAdd (region.address + slot * region.unitSize) region.poolHeader.size)
    (region.unitSize - region.poolHeader.size) = _
  rw [husable, saturatingAdd_of_lt (by omega), Nat.succ_mul]
  omega

omit h in
theorem gap_stems {state : PoolState} (hstate : state.isChunk = false) (address size : ℕ) :
    Stems region (baseSpan region address address size 0 state) := by
  have hgap : ¬ (state.isChunk = true) := by
    rw [hstate]
    exact Bool.false_ne_true
  exact ⟨rfl, fun _ _ hchunk => absurd hchunk hgap, fun _ _ _ => rfl,
    fun _ _ hchunk => absurd hchunk hgap⟩

theorem unreadable_files : KeepsFiling I (unreadable memory region address size) :=
  unreadable_keeps (note_files h _) (files_decoding h memory).run fun _ _ _ hstate =>
    gap_keeps (files_decoding h memory).toDecoding (gap_stems hstate _ _)

omit h in
theorem inSpace_of_requestedEnd (h : region.requestedEnd < 2 ^ 64 - 1) : region.InSpace := by
  unfold PoolRegion.requestedEnd saturatingAdd at h
  unfold PoolRegion.InSpace
  omega

omit h in
theorem stems_of_chunk (link : Link) (hsite : span.site = region.site) (hvs : region.backend = .vs)
    (hchunk : span.state.isChunk = true) (hplaced : Placed region link.address link.chunk.size)
    (hreported : Reported region link span) : Stems region span := by
  refine ⟨hsite, fun hlfh => ?_, fun _ _ hgap => ?_, fun _ _ _ => ⟨link, hplaced, hreported⟩⟩
  · rw [hvs] at hlfh
    cases hlfh
  · exact absurd (hgap.symm.trans hchunk) Bool.false_ne_true

/-! ## Regions -/

theorem decodeExtent_files (hspace : region.InSpace) (memory : PoolMemory) (limit : ℕ) {base : ℕ}
    {bytes : List UInt8} (hbase : region.address ≤ base) (hend : base + bytes.length < 2 ^ 64 - 1)
    (s : RegionWalk) : KeepsFiling I (decodeExtent memory limit region base bytes s) := by
  have hd := files_decoding h memory
  refine Keeps.ite (fun hspecial => ?_) fun _ => ?_
  · refine Keeps.bind (note_files h _) fun _ => (walkSpecialPool_keeps hd.toDecoding _ _ ?_).map
    exact fun _ _ _ _ => stems_of_site rfl (Or.inl hspecial)
  · split
    · next hlfh =>
      refine Keeps.bind (note_files h _) fun _ => (walkLfh_keeps hd.toDecoding _ _ ?_).map
      intro slot tag state _ hunit hin
      refine lfhSpan_stems _ hunit ?_ hlfh
      rw [saturatingAdd_of_lt (a := base - region.address) (by omega)] at hin
      unfold saturatingAdd at hin
      omega
    · next hvs =>
      refine Keeps.bind (note_files h _) fun _ => (walkVs_keeps hd limit _ ?_).map
      intro s encoded chunk _ hchunk
      have hplaced := (placed_of_decoded hspace hchunk).1
      exact {
        unnamed := fun hunnamed => stems_of_chunk ⟨_, chunk⟩ rfl hvs (vsState_isChunk _ _ _)
          hplaced (vsSpan_reported hunnamed base bytes _)
        named := fun named hnamed => stems_of_chunk ⟨_, chunk⟩ rfl hvs (vsState_isChunk _ _ _)
          hplaced (vsNamedSpan_reported hnamed _) }
    · next hsegment =>
      refine Keeps.bind (note_files h _) fun _ => (walkPageRanges_keeps hd.toDecoding _ _ ?_).map
      exact fun _ _ _ _ _ => stems_of_site rfl (Or.inr (Or.inl hsegment))
    · exact Keeps.pure _

theorem regionStep_files {memory : PoolMemory} (hexact : Exact memory) (limit : ℕ)
    (hspace : region.requestedEnd < 2 ^ 64 - 1) {s : RegionWalk}
    (hcursor : region.address ≤ s.cursor) : KeepsFiling I (regionStep memory limit region s) := by
  have hregion := inSpace_of_requestedEnd hspace
  have hpoll : KeepsFiling I (checkBudget memory) := checkBudget_noted fun hw => h.note hw
  refine RoundRule.regionStep (G := fun base stop bytes => bytes.length = stop - base)
    (P := fun _ => I) (Q := fun _ => I) {
    poll := hpoll
    query := fun hw => h.note hw
    say := fun _ _ => complain_files h _
    stalls := fun _ _ => update_files h fun _ => ⟨rfl, rfl, rfl⟩
    gap := fun _ _ _ _ _ => unreadable_files h memory _ _
    covered := fun _ _ _ hw => hw
    read := fun _ _ _ => (readExtent_noted joins_length hpoll hexact (fun hw => h.note hw)
      (fun _ hw => hw) (by omega)).imp (fun _ hw => hw) (fun _ _ hw => hw)
      fun _ _ hw => ⟨fun _ => hw, hw⟩
    decode := fun _ hbase _ _ hlength => (decodeExtent_files h hregion memory limit
      (hcursor.trans hbase) (by omega) _).post fun decoded w hw => ?_
    again := fun _ _ _ _ hw => hw
    stop := fun hw => hw
    past := fun _ hw => hw }
  cases decoded with
  | none => exact hw
  | some d => exact decoded_some (fun _ => hw) hw

/-- **What a region's walk records is of the region.** -/
theorem walkOne_files {memory : PoolMemory} (hexact : Exact memory) (limit : ℕ)
    (hspace : region.requestedEnd < 2 ^ 64 - 1) : KeepsFiling I (walkOne memory limit region) := by
  refine Keeps.ite (fun hlarge => walkLarge_keeps (files_decoding h memory).toDecoding
    (stems_of_site rfl (Or.inr (Or.inr hlarge)))) fun _ => ?_
  unfold walkRegion
  split
  · next hsegment _ => exact record_files h (stems_of_site rfl (Or.inr (Or.inl hsegment)))
  · refine Triple.pre (Triple.loop (I := fun s w => I w ∧ region.address ≤ s.cursor)
      (fun s => ?_) (fun _ _ hw => hw.1) _ _) fun w hw => ⟨hw, le_refl _⟩
    refine Triple.pull fun hcursor => ?_
    intro w hw
    have hfiles := regionStep_files h hexact limit hspace hcursor w hw
    have hadvances := regionStep_advances memory limit region s w trivial
    rcases hstep : regionStep memory limit region s w with ⟨r, v⟩
    rw [hstep] at hfiles hadvances
    cases r with
    | error error => exact hfiles
    | ok flow =>
      cases flow with
      | stop _ => exact hfiles
      | again s' =>
        obtain ⟨hlt, -⟩ : s.cursor < s'.cursor ∧ s'.cursor ≤ region.requestedEnd := hadvances
        exact ⟨hfiles, hcursor.trans hlt.le⟩

end Files

end DbgScope.Pool
