import DbgScope.Pool.Moves
import DbgScope.Pool.Rounds

/-!
# Completeness is never overstated

`complete` is only ever cleared. So whatever a walk must not have done while it still claims to be
complete can be kept as an invariant: `Honest Clean` says that a snapshot claiming completeness
satisfies `Clean`. Every function of the walk keeps it, as long as `Clean` survives the moves that
leave `complete` alone (`Benign`), and beside it whatever no write of the walk can break (`Frame`).
-/

namespace DbgScope.Pool

open Run (Keeps Triple)
open PoolSnapshot

structure Honest (Clean F : World PoolSnapshot → Prop) (w : World PoolSnapshot) : Prop where
  clean : w.state.complete = true → Clean w
  stopped : w.state.matchLimitReached = true → w.state.complete = false
  frame : F w

structure Incomplete (F : World PoolSnapshot → Prop) (w : World PoolSnapshot) : Prop where
  incomplete : w.state.complete = false
  frame : F w

/-- What no event and no write of a region's walk can break. -/
structure Frame (F : World PoolSnapshot → Prop) : Prop where
  noted : ∀ w event, F w → F (w.note event)
  said : ∀ (w : World PoolSnapshot) diagnostics, F w →
    F { w with state := { w.state with diagnostics } }
  cleared : ∀ (w : World PoolSnapshot), F w → F { w with state := { w.state with complete := false } }
  stalled : ∀ (w : World PoolSnapshot) stalls, F w → F { w with state := { w.state with stalls } }
  refused : ∀ (w : World PoolSnapshot) refusedChunks, F w →
    F { w with state := { w.state with refusedChunks } }
  unplaced : ∀ (w : World PoolSnapshot) unplacedBytes, F w →
    F { w with state := { w.state with unplacedBytes } }
  recorded : ∀ (w : World PoolSnapshot) span, F w → F { w with state := w.state.recordSpan span }

def Event.isBenign : Event → Bool
  | .filed _ _ | .decoded _ _ => true
  | event => event.isCall

/-- The moves that leave `complete` alone keep `Clean`. -/
structure Benign (Clean F : World PoolSnapshot → Prop) : Prop extends Frame F where
  event : ∀ w event, event.isBenign = true → Clean w → Clean (w.note event)
  diagnostics : ∀ (w : World PoolSnapshot) diagnostics, Clean w →
    Clean { w with state := { w.state with diagnostics } }
  stalls : ∀ (w : World PoolSnapshot) stalls, Clean w →
    Clean { w with state := { w.state with stalls } }
  span : ∀ (w : World PoolSnapshot) (span : PoolSpan), span.state ≠ .unreadable →
    (w.state.recordSpan span).complete = true → Clean w →
    Clean { w with state := w.state.recordSpan span }
  sort : ∀ (w : World PoolSnapshot), Clean w → Clean { w with state := w.state.sortSpans }

/-! ## Recording a span -/

variable (snapshot : PoolSnapshot) (span : PoolSpan)

theorem recordSpan_cases : (∃ matched, snapshot.recordSpan span =
      { snapshot with spans := snapshot.spans ++ [span], matchedAllocations := matched }) ∨
    (∃ matched limit, snapshot.recordSpan span =
      { snapshot with spans := snapshot.spans ++ [span], matchedAllocations := matched,
                      complete := false, stoppedAfterMatches := some limit }) := by
  unfold recordSpan
  split
  · exact Or.inl ⟨_, rfl⟩
  · dsimp only
    split
    · split
      · exact Or.inr ⟨_, _, rfl⟩
      · exact Or.inl ⟨_, rfl⟩
    · exact Or.inl ⟨_, rfl⟩

theorem recordSpan_unlimited {snapshot : PoolSnapshot} (h : snapshot.matchLimit = none)
    (span : PoolSpan) :
    snapshot.recordSpan span = { snapshot with spans := snapshot.spans ++ [span] } := by
  unfold recordSpan
  rw [h]

@[simp] theorem recordSpan_spans : (snapshot.recordSpan span).spans = snapshot.spans ++ [span] := by
  obtain ⟨_, hr⟩ | ⟨_, _, hr⟩ := recordSpan_cases snapshot span <;> rw [hr]

@[simp] theorem recordSpan_refusedChunks :
    (snapshot.recordSpan span).refusedChunks = snapshot.refusedChunks := by
  obtain ⟨_, hr⟩ | ⟨_, _, hr⟩ := recordSpan_cases snapshot span <;> rw [hr]

theorem recordSpan_complete {snapshot : PoolSnapshot} {span : PoolSpan}
    (h : (snapshot.recordSpan span).complete = true) : snapshot.complete = true := by
  obtain ⟨_, hr⟩ | ⟨_, _, hr⟩ := recordSpan_cases snapshot span
  · rwa [hr] at h
  · rw [hr] at h; cases h

theorem recordSpan_stopped {snapshot : PoolSnapshot} {span : PoolSpan}
    (h : (snapshot.recordSpan span).matchLimitReached = true) :
    (snapshot.recordSpan span).complete = false ∨ snapshot.matchLimitReached = true := by
  obtain ⟨_, hr⟩ | ⟨_, _, hr⟩ := recordSpan_cases snapshot span
  · rw [hr] at h; exact Or.inr h
  · rw [hr]; exact Or.inl rfl

theorem recordSpan_incomplete {snapshot : PoolSnapshot} (span : PoolSpan)
    (h : snapshot.complete = false) : (snapshot.recordSpan span).complete = false := by
  cases hc : (snapshot.recordSpan span).complete with
  | false => rfl
  | true => rw [recordSpan_complete hc] at h; cases h

theorem recordSpan_budgetExpired :
    (snapshot.recordSpan span).budgetExpired = snapshot.budgetExpired := by
  obtain ⟨_, hr⟩ | ⟨_, _, hr⟩ := recordSpan_cases snapshot span <;> rw [hr]

section Honest

variable {Clean F : World PoolSnapshot → Prop} {α : Type}

variable (hb : Benign Clean F) (message : String) {w : World PoolSnapshot} {event : Event}
  {m : Walk PoolSnapshot α} (memory : PoolMemory) (limit : ℕ) (region : PoolRegion)
  (validBase address base size : ℕ) (bytes : List UInt8) (headerAddress : ℕ) (chunk : VsChunk)
  (s : VsWalk)
include hb

omit hb in
theorem Incomplete.honest (h : Incomplete F w) : Honest Clean F w :=
  ⟨fun hc => absurd (hc.symm.trans h.incomplete) (by decide), fun _ => h.incomplete, h.frame⟩

abbrev KeepsHonest (Clean F : World PoolSnapshot → Prop) (m : Walk PoolSnapshot α) : Prop :=
  Keeps (Honest Clean F) (Fails (Honest Clean F)) m

theorem honest_note (hevent : event.isBenign = true) (h : Honest Clean F w) :
    Honest Clean F (w.note event) :=
  ⟨fun hc => hb.event w event hevent (h.clean hc), h.stopped, hb.noted w event h.frame⟩

omit hb in
theorem isBenign_of_isCall (h : event.isCall = true) : event.isBenign = true := by
  cases event <;> first | rfl | cases h

theorem honest_calling : Calling (Honest Clean F) :=
  ⟨fun _ _ hcall hw => honest_note hb (isBenign_of_isCall hcall) hw⟩

theorem note_honest (hevent : event.isBenign = true) : KeepsHonest Clean F (note event) :=
  Keeps.modify fun _ hw => honest_note hb hevent hw

theorem complain_honest : KeepsHonest Clean F (complain message) :=
  Keeps.modify fun w hw =>
    ⟨fun hc => hb.diagnostics w _ (hw.clean hc), hw.stopped, hb.said w _ hw.frame⟩

omit hb in
theorem clearComplete_honest (hf : Frame F) : KeepsHonest Clean F clearComplete :=
  Keeps.modify fun w hw => Incomplete.honest ⟨rfl, hf.cleared w hw.frame⟩

omit hb in
theorem clearComplete_restores (hf : Frame F) {P : World PoolSnapshot → Prop}
    {E : SnapshotError → World PoolSnapshot → Prop} (hP : ∀ w, P w → F w) :
    Triple P clearComplete (fun _ => Incomplete F) E :=
  Triple.modify fun w hw => ⟨rfl, hf.cleared w (hP w hw)⟩

omit hb in
theorem complain_incomplete (hf : Frame F) (message : String)
    {E : SnapshotError → World PoolSnapshot → Prop} :
    Triple (Incomplete F) (complain message) (fun _ => Incomplete F) E :=
  Triple.modify fun w hw => ⟨hw.incomplete, hf.said w _ hw.frame⟩

omit hb in
theorem record_incomplete (hf : Frame F) (span : PoolSpan)
    {E : SnapshotError → World PoolSnapshot → Prop} :
    Triple (Incomplete F) (record span) (fun _ => Incomplete F) E :=
  Triple.modify fun w hw =>
    ⟨recordSpan_incomplete span hw.incomplete, hf.recorded w span hw.frame⟩

theorem record_honest {span : PoolSpan} (hspan : span.state ≠ .unreadable) :
    KeepsHonest Clean F (record span) := by
  refine Keeps.modify fun w hw => ⟨fun hc => ?_, fun hs => ?_, ?_⟩
  · exact hb.span w span hspan hc (hw.clean (recordSpan_complete hc))
  · rcases recordSpan_stopped hs with h | h
    · exact h
    · exact recordSpan_incomplete span (hw.stopped h)
  · exact hb.recorded w span hw.frame

omit hb in
theorem limitReached_honest : KeepsHonest Clean F limitReached := Keeps.read _

theorem checkBudget_honest :
    KeepsHonest Clean F (checkBudget memory) := checkBudget_keeps (honest_calling hb) memory

theorem callCommittedRun_honest : KeepsHonest Clean F (callCommittedRun memory address) :=
  fun _ hw => honest_note hb rfl hw

omit hb in
theorem honest_of_incomplete {P : World PoolSnapshot → Prop} {m : Walk PoolSnapshot α}
    {E : SnapshotError → World PoolSnapshot → Prop}
    (h : Triple P m (fun _ => Incomplete F) E) :
    Triple P m (fun _ => Honest Clean F) E :=
  h.post fun _ _ hw => Incomplete.honest hw

theorem honest_decoding :
    Decoding (fun span => span.state ≠ .unreadable) (Honest Clean F) (Fails (Honest Clean F)) where
  say := complain_honest hb
  clear := clearComplete_honest hb.toFrame
  record := record_honest hb

/-! ## The decoders with a fixed stride -/

omit hb in
theorem lfhBitmapState_ne_unreadable {bitmap : List UInt8} {slot : ℕ} {state : PoolState}
    (h : lfhBitmapState bitmap slot = some state) : state ≠ .unreadable := by
  unfold lfhBitmapState at h
  obtain ⟨busy, -, rfl⟩ := Option.map_eq_some_iff.mp h
  cases busy <;> decide

def PoolRegion.OneState (region : PoolRegion) : Prop :=
  ∃ state, region.states = [state] ∧ state.isChunk = true

omit hb in
theorem isChunk_ne_unreadable {state : PoolState} (h : state.isChunk = true) :
    state ≠ .unreadable := by
  rintro rfl
  cases h

omit hb in
theorem PoolRegion.OneState.cellState {region : PoolRegion} (h : region.OneState) (slot : ℕ) :
    (region.cellState slot).isChunk = true := by
  obtain ⟨state, hstates, hchunk⟩ := h
  unfold PoolRegion.cellState
  rw [hstates]
  cases slot with
  | zero => exact hchunk
  | succ slot => exact hchunk

omit hb in
theorem PoolRegion.OneState.wholeState {region : PoolRegion} (h : region.OneState) :
    region.wholeState.isChunk = true := by
  obtain ⟨state, hstates, hchunk⟩ := h
  unfold PoolRegion.wholeState
  rw [hstates]
  exact hchunk

/-! ## Gaps -/

theorem gap_honest (state : PoolState) : KeepsHonest Clean F (gap region address size state) := by
  refine Keeps.guard fun _ => ?_
  by_cases hgap : state.isCoverageGap = true
  · simp only [if_pos hgap]
    refine Triple.bind (clearComplete_restores hb.toFrame fun _ hw => hw.frame) fun _ => ?_
    refine Triple.bind (record_incomplete hb.toFrame _) fun _ => ?_
    exact Triple.pure fun _ hw => Incomplete.honest hw
  · simp only [if_neg hgap]
    refine (record_honest hb ?_).map
    rintro hstate
    exact hgap (by rw [show state = .unreadable from hstate]; rfl)

theorem unreadable_honest : KeepsHonest Clean F (unreadable memory region address size) :=
  unreadable_keeps (note_honest hb rfl) (callCommittedRun_honest hb memory) fun _ _ state _ =>
    gap_honest hb region _ _ state

/-! ## The VS decoder -/

theorem Benign.and_const (p : Prop) : Benign (fun w => Clean w ∧ p) F where
  toFrame := hb.toFrame
  event w event hevent hw := ⟨hb.event w event hevent hw.1, hw.2⟩
  diagnostics w diagnostics hw := ⟨hb.diagnostics w diagnostics hw.1, hw.2⟩
  stalls w stalls hw := ⟨hb.stalls w stalls hw.1, hw.2⟩
  span w span hspan hc hw := ⟨hb.span w span hspan hc hw.1, hw.2⟩
  sort w hw := ⟨hb.sort w hw.1, hw.2⟩

omit hb in
theorem Honest.mono {Clean' : World PoolSnapshot → Prop} {w : World PoolSnapshot}
    (h : Honest Clean F w) (himp : Clean w → Clean' w) : Honest Clean' F w :=
  ⟨fun hc => himp (h.clean hc), h.stopped, h.frame⟩

/-- The chunk loop: a snapshot still complete has refused nothing in this extent. -/
def VsHonest (Clean F : World PoolSnapshot → Prop) (s : VsWalk) : World PoolSnapshot → Prop :=
  Honest (fun w => Clean w ∧ s.resyncFrom = none) F

/-- How the chunk loop is left: honest, or at the limit and about to say so. -/
def VsSettled (Clean F : World PoolSnapshot → Prop) (traversalLimit : ℕ) (s : VsWalk)
    (w : World PoolSnapshot) : Prop :=
  Honest (fun _ => s.resyncFrom = none) F w ∧ (Honest Clean F w ∨ traversalLimit ≤ s.chunks)

/-- What a round of the chunk loop decides. -/
def VsFlow (Clean F : World PoolSnapshot → Prop) (traversalLimit : ℕ) (flow : Flow VsWalk VsWalk)
    (w : World PoolSnapshot) : Prop :=
  match flow with
  | .again s => VsHonest Clean F s w
  | .stop s => VsSettled Clean F traversalLimit s w

omit hb in
theorem VsHonest.settled {s : VsWalk} {w : World PoolSnapshot} (h : VsHonest Clean F s w)
    (traversalLimit : ℕ) : VsSettled Clean F traversalLimit s w :=
  ⟨h.mono fun hw => hw.2, Or.inl (h.mono fun hw => hw.1)⟩

theorem vsRefuse_honest (rejection : VsRejection) (s : VsWalk) :
    Triple (VsHonest Clean F s) (vsRefuse headerAddress rejection s) (VsFlow Clean F limit)
      (Fails (Honest Clean F)) := by
  have hrest : ∀ next : VsWalk, Triple (VsHonest Clean F s)
      (clearComplete >>= fun _ => pure (Flow.again next)) (VsFlow Clean F limit)
      (Fails (Honest Clean F)) := fun next =>
    Triple.bind (clearComplete_restores hb.toFrame fun _ hw => hw.frame) fun _ =>
      Triple.pure fun _ hw => Incomplete.honest hw
  refine Triple.ite (fun _ => ?_) fun _ => hrest _
  refine Triple.bind ?_ fun _ => hrest _
  exact Triple.imp (complain_honest (hb.and_const _) _) (fun _ hw => hw) (fun _ _ hw => hw)
    fun _ _ hw => hw.imp fun _ hw => hw.mono And.left

theorem vsHonest_of_keeps {s : VsWalk} (hm : ∀ Clean', Benign Clean' F → KeepsHonest Clean' F m) :
    Triple (VsHonest Clean F s) m (fun _ => VsHonest Clean F s) (Fails (Honest Clean F)) :=
  Triple.imp (hm _ (hb.and_const _)) (fun _ hw => hw) (fun _ _ hw => hw)
    fun _ _ hw => hw.imp fun _ hw => hw.mono And.left

theorem vsCheckChain_honest : Triple (VsHonest Clean F s) (vsCheckChain headerAddress chunk s)
      (fun s' => VsHonest Clean F s') (Fails (Honest Clean F)) := by
  have hrest : Triple (VsHonest Clean F s)
      (clearComplete >>= fun _ => pure { s with chainBreaks := s.chainBreaks + 1 })
      (fun s' => VsHonest Clean F s') (Fails (Honest Clean F)) :=
    Triple.bind (clearComplete_restores hb.toFrame fun _ hw => hw.frame) fun _ =>
      Triple.pure fun _ hw => Incomplete.honest hw
  refine Triple.ite (fun _ => ?_) fun _ => Triple.pure fun _ hw => hw
  refine Triple.ite (fun _ => ?_) fun _ => hrest
  exact Triple.bind (vsHonest_of_keeps hb fun _ hb' => complain_honest hb' _) fun _ => hrest

theorem vsContinue_honest : Triple (VsHonest Clean F s) (vsContinue s) (VsFlow Clean F limit)
      (Fails (Honest Clean F)) := by
  refine Triple.bind (vsHonest_of_keeps hb fun _ _ => limitReached_honest) fun _ => ?_
  refine Triple.ite (fun _ => ?_) fun _ => Triple.pure fun _ hw => hw
  exact Triple.pure fun _ hw => hw.settled limit

omit hb in
theorem vsState_isChunk : (vsState region headerAddress chunk).isChunk = true := by
  unfold vsState
  split
  · rfl
  · split
    · rfl
    · split <;> rfl

theorem vsEmit_honest : Triple (VsHonest Clean F s) (vsEmit region base bytes headerAddress chunk s)
      (VsFlow Clean F limit) (Fails (Honest Clean F)) := by
  have hstate := isChunk_ne_unreadable (vsState_isChunk region headerAddress chunk)
  have hrest : Triple (VsHonest Clean F s)
      (record (vsSpan region base bytes headerAddress chunk.size
        (vsState region headerAddress chunk)) >>= fun _ => vsContinue (s.past base chunk.size))
      (VsFlow Clean F limit) (Fails (Honest Clean F)) :=
    Triple.bind (vsHonest_of_keeps hb fun _ hb' => record_honest hb' hstate) fun _ =>
      vsContinue_honest hb limit (s.past base chunk.size)
  refine Triple.ite (fun _ => ?_) fun _ => hrest
  exact Triple.bind (vsHonest_of_keeps hb fun _ hb' => complain_honest hb' _) fun _ => hrest

theorem vsDropTail_honest (chunkSize : ℕ) (s : VsWalk) :
    Triple (VsHonest Clean F s) (vsDropTail base bytes headerAddress chunkSize s)
      (VsFlow Clean F limit) (Fails (Honest Clean F)) := by
  refine Triple.bind (vsHonest_of_keeps hb fun _ hb' => complain_honest hb' _) fun _ => ?_
  refine Triple.bind (clearComplete_restores hb.toFrame fun _ hw => hw.frame) fun _ => ?_
  exact Triple.pure fun _ hw => VsHonest.settled (Incomplete.honest hw) limit

theorem vsChunkStep_honest :
    Triple (VsHonest Clean F s) (vsChunkStep memory region base bytes headerAddress chunk s)
      (VsFlow Clean F limit) (Fails (Honest Clean F)) := by
  have hstate := isChunk_ne_unreadable (vsState_isChunk region headerAddress chunk)
  refine Triple.bind (vsCheckChain_honest hb headerAddress chunk s) fun s' => ?_
  split
  · refine Triple.bind (vsHonest_of_keeps hb fun _ hb' => record_honest hb' hstate)
      fun _ => ?_
    exact vsContinue_honest hb limit (s'.past base chunk.size).covering
  · refine Triple.ite (fun _ => ?_) fun _ => vsEmit_honest hb limit _ _ _ _ _ s'
    refine Triple.bind (vsHonest_of_keeps hb fun _ hb' => ?_) fun uncommitted => ?_
    · exact (callCommittedRun_honest hb' memory _).map
    · refine Triple.ite (fun _ => vsEmit_honest hb limit _ _ _ _ _ s') fun _ => ?_
      exact vsDropTail_honest hb limit _ _ _ _ s'

theorem vsStep_honest :
    Triple (VsHonest Clean F s) (vsStep memory limit region base bytes s) (VsFlow Clean F limit)
      (Fails (Honest Clean F)) := by
  refine Triple.ite (fun _ => ?_) fun _ => ?_
  · exact Triple.pure fun _ hw => hw.settled limit
  · refine Triple.ite (fun hlimit => ?_) fun _ => ?_
    · -- the mark may not be benign, so only what the limit will still say is kept
      have hmark : Triple (VsHonest Clean F s) (note (.capped .vsExtent))
          (fun _ => Honest (fun _ => s.resyncFrom = none) F) (Fails (Honest Clean F)) :=
        Triple.modify fun w hw => ⟨fun hc => (hw.clean hc).2, hw.stopped, hb.noted w _ hw.frame⟩
      exact Triple.bind hmark fun _ => Triple.pure fun _ hw => ⟨hw, Or.inr hlimit⟩
    · split
      · exact Triple.pure fun _ hw => hw.settled limit
      · dsimp only
        split
        · exact vsRefuse_honest hb limit _ _ s
        · exact vsChunkStep_honest hb memory limit region base bytes _ _ s

theorem vsReportRefused_honest : Triple (VsSettled Clean F limit s) (vsReportRefused s)
      (fun _ w => Honest (fun _ => True) F w ∧ (Honest Clean F w ∨ limit ≤ s.chunks))
      (Fails (Honest Clean F)) := by
  unfold vsReportRefused
  split
  · exact Triple.pure fun _ hw => ⟨hw.1.mono fun _ => trivial, hw.2⟩
  · next origin horigin =>
    -- something was refused, so completeness is gone already
    have hincomplete : ∀ w, VsSettled Clean F limit s w → Incomplete F w := by
      intro w hw
      cases hc : w.state.complete with
      | false => exact ⟨hc, hw.1.frame⟩
      | true => exact absurd (hw.1.clean hc) (by simp [horigin])
    have hcount : ∀ refused, Triple (VsSettled Clean F limit s)
        (update fun snapshot =>
          { snapshot with refusedChunks := saturatingAdd snapshot.refusedChunks refused })
        (fun _ => Incomplete F) (Fails (Honest Clean F)) := fun refused =>
      Triple.modify fun w hw => ⟨(hincomplete w hw).incomplete,
        hb.refused w _ (hincomplete w hw).frame⟩
    refine Triple.bind (hcount s.refused) fun _ => ?_
    exact (complain_incomplete hb.toFrame _).post fun _ _ hw =>
      ⟨Incomplete.honest hw, Or.inl (Incomplete.honest hw)⟩

theorem vsReportBreaks_honest :
    Triple (fun w => Honest (fun _ => True) F w ∧ (Honest Clean F w ∨ limit ≤ s.chunks))
      (vsReportBreaks base s)
      (fun _ w => Honest (fun _ => True) F w ∧ (Honest Clean F w ∨ limit ≤ s.chunks))
      (Fails (Honest Clean F)) := by
  refine Triple.ite (fun _ => ?_) fun _ => Triple.pure fun _ hw => hw
  refine Triple.modify fun w hw =>
    ⟨⟨fun _ => trivial, hw.1.stopped, hb.said w _ hw.1.frame⟩, ?_⟩
  rcases hw.2 with h | h
  · exact Or.inl ⟨fun hc => hb.diagnostics w _ (h.clean hc), h.stopped, hb.said w _ h.frame⟩
  · exact Or.inr h

theorem vsLimit_honest :
    Triple (fun w => Honest (fun _ => True) F w ∧ (Honest Clean F w ∨ limit ≤ s.chunks))
      (vsLimit limit base s) (fun _ => Honest Clean F) (Fails (Honest Clean F)) := by
  intro w hw
  unfold vsLimit limitReached
  rw [Run.read_bind_apply]
  by_cases hcond : w.state.matchLimitReached = false ∧ limit ≤ s.chunks
  · rw [if_pos hcond]
    have hclear := Triple.bind (clearComplete_restores hb.toFrame
      (P := Honest (fun _ => True) F) (E := Fails (Honest Clean F)) fun _ hw => hw.frame)
      fun _ => complain_incomplete hb.toFrame
        (s!"VS traversal limit reached at {hex base}")
    exact (honest_of_incomplete hclear) w hw.1
  · rw [if_neg hcond]
    show Honest Clean F w
    rcases hw.2 with h | h
    · exact h
    · -- the limit was met, so it was the match limit that stopped the walk
      have hreached : w.state.matchLimitReached = true := by
        cases hr : w.state.matchLimitReached with
        | true => rfl
        | false => exact absurd ⟨hr, h⟩ hcond
      exact Incomplete.honest ⟨hw.1.stopped hreached, hw.1.frame⟩

theorem vsLoop_honest (rounds : ℕ) (s : VsWalk) :
    Triple (VsHonest Clean F s) (Run.loop (vsStep memory limit region base bytes) id rounds s)
      (VsSettled Clean F limit) (Fails (Honest Clean F)) := by
  refine Triple.loop (fun s => ?_) (fun s _ hw => hw.settled limit) rounds s
  refine (vsStep_honest hb memory limit region base bytes s).post ?_
  intro flow w hw
  cases flow with
  | again s' => exact hw
  | stop s' => exact hw

theorem walkVsChunks_honest (next : ℕ) :
    KeepsHonest Clean F (walkVsChunks memory limit region base bytes next) := by
  have hloop : Triple (Honest Clean F) (Run.loop (vsStep memory limit region base bytes) id
      (bytes.length + 2) (VsWalk.start base next)) (VsSettled Clean F limit)
      (Fails (Honest Clean F)) :=
    (vsLoop_honest hb memory limit region base bytes _ _).pre fun _ hw =>
      hw.mono fun hclean => ⟨hclean, rfl⟩
  refine Triple.bind hloop fun s => ?_
  refine Triple.bind (vsReportRefused_honest hb limit s) fun _ => ?_
  refine Triple.bind (vsReportBreaks_honest hb limit base s) fun _ => ?_
  exact Triple.bind (vsLimit_honest hb limit base s) fun _ => Keeps.pure _

theorem vsUnplaced_honest (expected : Option ℕ) :
    KeepsHonest Clean F (vsUnplaced base bytes expected) := by
  refine Triple.bind (Q := fun _ => F)
    (Triple.modify fun w hw => hb.unplaced w _ hw.frame) fun _ => ?_
  refine Triple.bind (Q := fun _ => F) (Triple.modify fun w hw => hb.said w _ hw)
    fun _ => ?_
  exact honest_of_incomplete (clearComplete_restores hb.toFrame fun _ hw => hw)

theorem walkVs_honest (expected : Option ℕ) :
    KeepsHonest Clean F (walkVs memory limit region base bytes expected) := by
  unfold walkVs
  split
  · exact (vsUnplaced_honest hb base bytes expected).map
  · refine Keeps.guard fun _ => ?_
    exact walkVsChunks_honest hb memory limit region base bytes _

/-! ## Regions -/

theorem readExtent_honest : KeepsHonest Clean F (readExtent memory base size) := by
  have hread : ∀ address take, KeepsHonest Clean F (callReadExact memory address take) :=
    fun address take => callReadExact_keeps (honest_calling hb) memory address take
  refine Keeps.ite (fun _ => hread base size) fun _ => Keeps.loop (fun bytes => ?_) _ _
  refine Keeps.guard fun _ => ?_
  refine Keeps.bind (checkBudget_honest hb memory) fun _ => ?_
  refine Keeps.bind (hread _ _) fun chunk => ?_
  refine Keeps.when fun _ => ?_
  exact Keeps.fail fun w hw => fails_own w rfl hw

theorem stalls_honest (f : WalkStalls → WalkStalls) : KeepsHonest Clean F (update fun snapshot =>
      { snapshot with stalls := f snapshot.stalls }) :=
  Keeps.modify fun w hw => 
    ⟨fun hc => hb.stalls w _ (hw.clean hc), hw.stopped, hb.stalled w _ hw.frame⟩

theorem decodeExtent_honest {region : PoolRegion} (hr : region.OneState) (base : ℕ)
    (bytes : List UInt8) (s : RegionWalk) :
    KeepsHonest Clean F (decodeExtent memory limit region base bytes s) := by
  have hnote : KeepsHonest Clean F (note (.decoded base (base + bytes.length))) :=
    note_honest hb rfl
  refine Keeps.ite (fun _ => ?_) fun _ => ?_
  · refine Keeps.bind hnote fun _ => ?_
    exact (walkSpecialPool_keeps (honest_decoding hb) base bytes fun _ _ _ _ => nofun).map
  · split
    · refine Keeps.bind hnote fun _ => ?_
      exact (walkLfh_keeps (honest_decoding hb) base bytes fun _ _ _ hstate _ _ =>
        lfhBitmapState_ne_unreadable hstate).map
    · refine Keeps.bind hnote fun _ => ?_
      refine Keeps.bind (walkVs_honest hb memory limit region base bytes _) fun _ => ?_
      exact Keeps.pure _
    · refine Keeps.bind hnote fun _ => ?_
      exact (walkPageRanges_keeps (honest_decoding hb) base bytes fun slot _ _ _ _ =>
        isChunk_ne_unreadable (hr.cellState slot)).map
    · exact Keeps.pure _

theorem regionStep_honest {region : PoolRegion} (hr : region.OneState) (s : RegionWalk) :
    KeepsHonest Clean F (regionStep memory limit region s) := by
  refine RoundRule.regionStep (G := fun _ _ _ => True) (P := fun _ => Honest Clean F)
    (Q := fun _ => Honest Clean F) {
    poll := checkBudget_honest hb memory
    query := fun hw => honest_note hb rfl hw
    say := fun _ _ => complain_honest hb _
    stalls := fun _ f => stalls_honest hb f
    gap := fun _ _ _ _ _ => unreadable_honest hb memory region _ _
    covered := fun _ _ _ hw => hw
    read := fun _ _ _ => (readExtent_honest hb memory _ _).imp (fun _ hw => hw)
      (fun _ _ hw => ⟨trivial, hw⟩) fun _ _ hw => ⟨fun _ => hw, hw.1⟩
    decode := fun _ _ _ _ _ => (decodeExtent_honest hb memory limit hr _ _ _).post
      fun decoded w hw => ?_
    again := fun _ _ _ _ hw => hw
    stop := fun hw => hw
    past := fun _ hw => hw }
  cases decoded with
  | none => exact hw
  | some d => exact decoded_some (fun _ => hw) hw

theorem walkRegion_honest {region : PoolRegion} (hr : region.OneState) :
    KeepsHonest Clean F (walkRegion memory limit region) := by
  unfold walkRegion
  split
  · exact record_honest hb (isChunk_ne_unreadable hr.wholeState)
  · exact Keeps.loop (regionStep_honest hb memory limit hr) _ _

theorem walkOne_honest {region : PoolRegion} (hr : region.OneState) :
    KeepsHonest Clean F (walkOne memory limit region) := by
  exact Keeps.ite (fun _ => walkLarge_keeps (honest_decoding hb)
    (isChunk_ne_unreadable hr.wholeState)) fun _ =>
    walkRegion_honest hb memory limit hr

/-! ## Whole walks -/

theorem walkRegions_honest {regions : List PoolRegion} (hr : ∀ region ∈ regions, region.OneState)
    (walked : ℕ) : Triple (Honest Clean F) (walkRegions memory limit regions walked)
      (fun r w => Honest Clean F w ∧ (r.2 = true → Raised .budgetExpired w))
      (Fails (Honest Clean F)) := by
  induction regions generalizing walked with
  | nil => exact Triple.pure fun _ hw => ⟨hw, fun h => by cases h⟩
  | cons region rest ih =>
    have hone := walkOne_honest hb memory limit (hr region (by simp))
    refine Triple.bind
      (Q := fun r w => match r with
        | .ok _ => Honest Clean F w
        | .error e => Fails (Honest Clean F) e w)
      (Triple.attempt ?_) fun r => ?_
    · exact Triple.post hone fun _ _ hw => hw
    · cases r with
      | ok _ =>
        refine Triple.bind limitReached_honest fun reached => ?_
        refine Triple.ite (fun _ => ?_) fun _ => ih (fun r hmem => hr r (by simp [hmem])) _
        exact Triple.pure fun _ hw => ⟨hw, fun h => by cases h⟩
      | error e =>
        refine Triple.ite (fun he => ?_) fun _ => Triple.fail fun _ hw => hw
        subst he
        exact Triple.pure fun _ hw => ⟨hw.1, fun _ => hw.2⟩

/-- What a finished walk tells: it is complete only when clean, and says that its time ran out
only when a call raised that. -/
structure Told (Clean : World PoolSnapshot → Prop) (w : World PoolSnapshot) : Prop where
  clean : w.state.complete = true → Clean w
  stopped : w.state.matchLimitReached = true → w.state.complete = false
  expired : w.state.budgetExpired = true → w.state.complete = false ∧ Raised .budgetExpired w

/-- That time ran out is said last; where discovery already met it, the history has it. -/
def Timely (expired : Bool) (w : World PoolSnapshot) : Prop :=
  w.state.budgetExpired = false ∧ (expired = true → Raised .budgetExpired w)

omit hb in
theorem timely_frame (expired : Bool) : Frame (Timely expired) where
  noted _ event hw := ⟨hw.1, fun h => (hw.2 h).note event⟩
  said _ _ hw := hw
  cleared _ hw := hw
  stalled _ _ hw := hw
  refused _ _ hw := hw
  unplaced _ _ hw := hw
  recorded w span hw := ⟨(recordSpan_budgetExpired w.state span).trans hw.1, hw.2⟩

theorem Benign.imp_const (p : Prop) : Benign (fun w => p → Clean w) F where
  toFrame := hb.toFrame
  event w event hevent hw hp := hb.event w event hevent (hw hp)
  diagnostics w diagnostics hw hp := hb.diagnostics w diagnostics (hw hp)
  stalls w stalls hw hp := hb.stalls w stalls (hw hp)
  span w span hspan hc hw hp := hb.span w span hspan hc (hw hp)
  sort w hw hp := hb.sort w (hw hp)

omit hb in
theorem reportExpiry_told (budget : Option ℕ) (walked discovered : ℕ)
    {E : SnapshotError → World PoolSnapshot → Prop} :
    Triple (Raised .budgetExpired) (reportExpiry budget walked discovered)
      (fun _ => Told Clean) E := by
  intro w hw
  have hraised : Raised .budgetExpired w := hw
  exact Told.mk (fun hc => by cases hc) (fun _ => rfl) fun _ => ⟨rfl, hraised⟩

abbrev Ready (Clean : World PoolSnapshot → Prop) (expired : Bool) : World PoolSnapshot → Prop :=
  Honest (fun w => expired = false → Clean w) (Timely expired)

omit hb in
theorem recordDiscoveredRegions_told {expired : Bool} (hb : Benign Clean (Timely expired))
    (memory : PoolMemory) (limit : ℕ) {regions : List PoolRegion}
    (hr : ∀ region ∈ regions, region.OneState) (budget : Option ℕ) :
    Triple (Ready Clean expired)
      (recordDiscoveredRegions memory limit regions budget expired) (fun _ => Told Clean)
      (Fails (Ready Clean expired)) := by
  refine Triple.bind (walkRegions_honest (hb.imp_const _) memory limit hr 0) fun walked => ?_
  refine Triple.ite (fun hout => ?_) fun hout => ?_
  · refine (reportExpiry_told budget _ _).pre fun w hw => ?_
    rcases Bool.or_eq_true_iff.mp hout with h | h
    · exact hw.1.frame.2 h
    · exact hw.2 h
  · refine Triple.pure fun w hw => ⟨fun hc => hw.1.clean hc ?_, hw.1.stopped, fun h => ?_⟩
    · cases expired with
      | false => rfl
      | true => exact absurd rfl hout
    · rw [hw.1.frame.1] at h
      cases h

omit hb in
/-- **A walk of discovered regions tells no more than it did.** -/
theorem walkDiscoveredRegions_told {expired : Bool} (hb : Benign Clean (Timely expired))
    (memory : PoolMemory) (limit : ℕ) {regions : List PoolRegion}
    (hr : ∀ region ∈ regions, region.OneState) (budget : Option ℕ) :
    Triple (Ready Clean expired)
      (walkDiscoveredRegions memory limit regions budget expired) (fun _ => Told Clean)
      (Fails (Ready Clean expired)) := by
  refine Triple.bind (recordDiscoveredRegions_told hb memory limit hr budget) fun _ => ?_
  exact Triple.modify fun w hw =>
    ⟨fun hc => hb.sort w (hw.clean hc), hw.stopped, hw.expired⟩

end Honest

end DbgScope.Pool
