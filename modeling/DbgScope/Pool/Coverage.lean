import DbgScope.Pool.Honest

/-!
# What a finished walk may claim

Discovery makes only `Moves`, and the walk of the discovered regions keeps `Honest`. The rule for
the whole joins them: an invariant of discovery that, while nothing has been complained of, makes
the empty snapshot clean, makes every finished walk tell the truth (`Told`). The results about the
two public walks are three uses of that rule.
-/

namespace DbgScope.Pool

/-! ## The two halves of a walk -/

section Walks

variable {now : History → ℕ} {memory : PoolMemory} {layout : PoolLayout} {limit : ℕ}
  {budget : Option ℕ} {start h h' : History} {snapshot : PoolSnapshot}

def kernelDiscovery (now : History → ℕ) (memory : PoolMemory) (layout : PoolLayout)
    (traversalLimit : ℕ) (budget : Option ℕ) (start : History) :
    Except SnapshotError Unit × World Discovery :=
  discoverPoolRegions (budgeted now memory (budgetDeadlines (now start) budget).1) layout
    traversalLimit { history := start, state := .empty }

def userDiscovery (now : History → ℕ) (memory : PoolMemory) (layout : PoolLayout) (peb : ℕ)
    (heaps : List ℕ) (traversalLimit : ℕ) (budget : Option ℕ) (start : History) :
    Except SnapshotError Bool × World Discovery :=
  discoverUserRegions (budgeted now memory (budgetDeadlines (now start) budget).1) layout peb heaps
    traversalLimit { history := start, state := .empty }

def World.fresh (found : World Discovery) (diagnostics : PoolDiagnostics)
    (matchLimit : Option PoolMatchLimit) : World PoolSnapshot :=
  { history := found.history
    state := .start diagnostics found.state.diagnostics.isEmpty matchLimit }

structure Walked (memory : PoolMemory) (limit : ℕ) (budget : Option ℕ) (expired : Bool)
    (found : World Discovery) (w : World PoolSnapshot) : Prop where
  walked : ∃ diagnostics matchLimit, walkDiscoveredRegions memory limit found.state.regions budget
    expired (found.fresh diagnostics matchLimit) = (.ok (), w)

theorem building_bind {S α β : Type} (init : S) (m : Walk S α)
    (f : Except SnapshotError α × S → Run SnapshotError History β) (h : History) :
    (building init m >>= f) h =
      f ((m { history := h, state := init }).1, (m { history := h, state := init }).2.state)
        (m { history := h, state := init }).2.history := rfl

theorem discoveryExpired_ok {outcome : Except SnapshotError Unit} {expired : Bool}
    (hw : discoveryExpired outcome h = (.ok expired, h')) :
    h' = h ∧ outcome = if expired then .error .budgetExpired else .ok () := by
  unfold discoveryExpired at hw
  cases outcome with
  | ok _ => cases hw; exact ⟨rfl, rfl⟩
  | error e =>
    dsimp only at hw
    by_cases he : e = .budgetExpired
    · rw [if_pos he] at hw
      cases hw
      exact ⟨rfl, by rw [he]; rfl⟩
    · rw [if_neg he] at hw
      cases hw

/-- The last half of either walk, once it is known how discovery ended. -/
theorem walked_of_ok {diagnostics : PoolDiagnostics} {matchLimit : Option PoolMatchLimit}
    {expired : Bool} {found : World Discovery}
    (hw : (do
      let (walked, snapshot) ← building
        (PoolSnapshot.start diagnostics found.state.diagnostics.isEmpty matchLimit)
        (walkDiscoveredRegions memory limit found.state.regions budget expired)
      let () ← Run.lift walked
      pure snapshot) found.history = (.ok snapshot, h)) :
    Walked memory limit budget expired found { history := h, state := snapshot } := by
  rw [building_bind] at hw
  refine ⟨diagnostics, matchLimit, ?_⟩
  unfold World.fresh
  rcases hrun : walkDiscoveredRegions memory limit found.state.regions budget expired
    ⟨found.history, .start diagnostics found.state.diagnostics.isEmpty matchLimit⟩ with ⟨r, w⟩
  rw [hrun] at hw
  cases r with
  | error e => cases hw
  | ok _ => cases hw; rfl

theorem walkUntil_ok {matchLimit : Option PoolMatchLimit}
    (hw : walkUntil now memory layout limit budget matchLimit start = (.ok snapshot, h)) :
    ∃ expired, (kernelDiscovery now memory layout limit budget start).1 =
        (if expired then .error .budgetExpired else .ok ()) ∧
      Walked (budgeted now memory (budgetDeadlines (now start) budget).2) limit budget expired
        (kernelDiscovery now memory layout limit budget start).2
        { history := h, state := snapshot } := by
  unfold walkUntil at hw
  rw [Run.read_bind_apply] at hw
  dsimp only at hw
  rw [building_bind] at hw
  obtain ⟨expired, h₁, hexpired, hw⟩ := Run.bind_ok hw
  obtain ⟨rfl, houtcome⟩ := discoveryExpired_ok hexpired
  exact ⟨expired, houtcome, walked_of_ok hw⟩

theorem walkUserSegmentHeaps_ok {peb : ℕ} {heaps : List ℕ}
    (hw : walkUserSegmentHeaps now memory layout peb heaps budget limit start =
      (.ok snapshot, h)) :
    ∃ expired, (userDiscovery now memory layout peb heaps limit budget start).1 = .ok expired ∧
      Walked (budgeted now memory (budgetDeadlines (now start) budget).2) limit budget expired
        (userDiscovery now memory layout peb heaps limit budget start).2
        { history := h, state := snapshot } := by
  unfold walkUserSegmentHeaps at hw
  rw [Run.read_bind_apply] at hw
  dsimp only at hw
  rw [building_bind] at hw
  obtain ⟨expired, h₁, hexpired, hw⟩ := Run.bind_ok hw
  obtain ⟨houtcome, rfl⟩ := Prod.mk.inj hexpired
  exact ⟨expired, houtcome, walked_of_ok hw⟩

/-! ## The rule for a whole walk -/

/-- An invariant of discovery, and what it makes of a snapshot nothing was complained of. -/
structure Covers (memory : PoolMemory) (layout : PoolLayout) (I J : World Discovery → Prop)
    (Clean : World PoolSnapshot → Prop) : Prop where
  moves : Moves memory layout I J
  benign : ∀ expired, Benign Clean (Timely expired)
  fresh : ∀ (w : World Discovery) diagnostics matchLimit, I w → w.state.diagnostics = [] →
    Clean (w.fresh diagnostics matchLimit)

def OneStates (w : World Discovery) : Prop := ∀ region ∈ w.state.regions, region.OneState

theorem oneStates_moves (memory : PoolMemory) (layout : PoolLayout) :
    Moves memory layout OneStates OneStates where
  weaken _ hw := hw
  before := ⟨fun _ _ _ hw => hw⟩
  after := ⟨fun _ _ _ hw => hw⟩
  fault _ _ _ hw := hw
  say _ _ hw := hw
  dropped _ _ _ hw := hw
  spoken _ hw _ := hw
  capped _ _ _ hw _ := hw
  segments _ hw := hw
  table _ _ hw := hw
  tabled _ _ hw := hw
  region w region horigin hw := by
    intro r hr
    rcases List.mem_append.mp hr with hr | hr
    · exact hw r hr
    · rw [List.mem_singleton.mp hr]
      exact horigin.states

variable {I J : World Discovery → Prop} {Clean : World PoolSnapshot → Prop} {expired : Bool}
  {found : World Discovery} {w : World PoolSnapshot}

theorem Walked.told (hb : Benign Clean (Timely expired)) (hregions : OneStates found)
    (hraised : expired = true → Raised .budgetExpired found)
    (hfresh : expired = false → found.state.diagnostics = [] → ∀ diagnostics matchLimit,
      Clean (found.fresh diagnostics matchLimit)) (hw : Walked memory limit budget expired found w) :
    Told Clean w := by
  obtain ⟨diagnostics, matchLimit, hrun⟩ := hw.walked
  have hready : Ready Clean expired (found.fresh diagnostics matchLimit) :=
    { clean := fun hcomplete hexpired =>
        hfresh hexpired (List.isEmpty_iff.mp hcomplete) diagnostics matchLimit
      stopped := fun hstopped => by cases hstopped
      frame := ⟨rfl, hraised⟩ }
  have hends := walkDiscoveredRegions_told hb memory limit hregions budget _ hready
  rwa [hrun] at hends

theorem RegionOrigin.of_budgeted {deadline : Option ℕ} {region : PoolRegion}
    (h : RegionOrigin (budgeted now memory deadline) layout region) :
    RegionOrigin memory layout region := by
  refine ⟨h.states, fun hlfh => ?_⟩
  obtain ⟨source, origin⟩ := h.lfh hlfh
  have hread : source.Read memory layout :=
    { headerSize := origin.read.headerSize
      encodedOffset := origin.read.encodedOffset
      countOffset := origin.read.countOffset
      bitmapOffset := origin.read.bitmapOffset
      header := origin.read.header
      accepted := origin.read.accepted
      raw := origin.read.raw }
  exact ⟨source, { origin with read := hread }⟩

theorem Moves.budgeted (h : Moves memory layout I J) (now : History → ℕ) (deadline : Option ℕ) :
    Moves (budgeted now memory deadline) layout I J :=
  { h with region := fun w region horigin => h.region w region horigin.of_budgeted }

theorem kernelDiscovery_ends (hm : Moves memory layout I J)
    (hstart : I { history := start, state := .empty }) {expired : Bool}
    (houtcome : (kernelDiscovery now memory layout limit budget start).1 =
      if expired then .error .budgetExpired else .ok ()) :
    UserEnds I J expired (kernelDiscovery now memory layout limit budget start).2 := by
  have hends := discoverPoolRegions_keeps
    (hm.budgeted now (budgetDeadlines (now start) budget).1) limit _ hstart
  unfold kernelDiscovery at houtcome ⊢
  generalize discoverPoolRegions _ _ _ _ = run at hends houtcome ⊢
  obtain ⟨outcome, found⟩ := run
  subst houtcome
  cases expired with
  | false => exact hends
  | true => exact hends

theorem userDiscovery_ends (hm : Moves memory layout I J)
    (hstart : I { history := start, state := .empty }) {peb : ℕ} {heaps : List ℕ} {expired : Bool}
    (houtcome : (userDiscovery now memory layout peb heaps limit budget start).1 = .ok expired) :
    UserEnds I J expired (userDiscovery now memory layout peb heaps limit budget start).2 := by
  have hends := discoverUserRegions_triple
    (hm.budgeted now (budgetDeadlines (now start) budget).1) peb heaps limit _ hstart
  unfold userDiscovery at houtcome ⊢
  generalize discoverUserRegions _ _ _ _ _ _ = run at hends houtcome ⊢
  obtain ⟨outcome, found⟩ := run
  subst houtcome
  exact hends

theorem oneStates_start : OneStates { history := start, state := .empty } := by
  intro region hregion
  cases hregion

theorem oneStates_of_ends (h : UserEnds OneStates OneStates expired found) : OneStates found := by
  cases expired with
  | false => exact h
  | true => exact h.1

theorem UserEnds.raised (h : UserEnds I J expired found) (hexpired : expired = true) :
    Raised .budgetExpired found := by
  subst hexpired
  exact h.2

theorem UserEnds.kept (h : UserEnds I J expired found) (hexpired : expired = false) : I found := by
  subst hexpired
  exact h

/-- **A kernel walk tells no more than it did.** -/
theorem walkUntil_told (hc : Covers memory layout I J Clean)
    (hstart : I { history := start, state := .empty }) {matchLimit : Option PoolMatchLimit}
    (hw : walkUntil now memory layout limit budget matchLimit start = (.ok snapshot, h)) :
    Told Clean { history := h, state := snapshot } := by
  obtain ⟨expired, houtcome, hwalked⟩ := walkUntil_ok hw
  have hregions := kernelDiscovery_ends (oneStates_moves memory layout) oneStates_start houtcome
  have hends := kernelDiscovery_ends hc.moves hstart houtcome
  exact hwalked.told (hc.benign expired) (oneStates_of_ends hregions) hends.raised
    fun hexpired hempty diagnostics matchLimit =>
      hc.fresh _ diagnostics matchLimit (hends.kept hexpired) hempty

/-- **Nor does a user-mode walk.** -/
theorem walkUserSegmentHeaps_told (hc : Covers memory layout I J Clean)
    (hstart : I { history := start, state := .empty }) {peb : ℕ} {heaps : List ℕ}
    (hw : walkUserSegmentHeaps now memory layout peb heaps budget limit start = (.ok snapshot, h)) :
    Told Clean { history := h, state := snapshot } := by
  obtain ⟨expired, houtcome, hwalked⟩ := walkUserSegmentHeaps_ok hw
  have hregions := userDiscovery_ends (oneStates_moves memory layout) oneStates_start houtcome
  have hends := userDiscovery_ends hc.moves hstart houtcome
  exact hwalked.told (hc.benign expired) (oneStates_of_ends hregions) hends.raised
    fun hexpired hempty diagnostics matchLimit =>
      hc.fresh _ diagnostics matchLimit (hends.kept hexpired) hempty

theorem Told.incomplete (h : Told Clean w) (hclean : ¬ Clean w) : w.state.complete = false := by
  cases hcomplete : w.state.complete with
  | false => rfl
  | true => exact absurd (h.clean hcomplete) hclean

/-! ## Completeness -/

/-- What costs a walk its completeness where it happens. -/
structure Flawless (snapshot : PoolSnapshot) : Prop where
  readable : ∀ span ∈ snapshot.spans, span.state ≠ .unreadable
  refused : snapshot.refusedChunks = 0
  unplaced : snapshot.unplacedBytes = 0

/-- A walk that covered everything: nothing unread, nothing refused or left unplaced, no end of
time or of matches, and no complaint from discovery. -/
structure Covered (discovery : Discovery) (snapshot : PoolSnapshot) : Prop
    extends Flawless snapshot where
  inTime : snapshot.budgetExpired = false
  unstopped : snapshot.stoppedAfterMatches = none
  discovered : discovery.diagnostics = []

def CoverageMeans (discovery : Discovery) (snapshot : PoolSnapshot) (h : History) :
    WalkCoverage → Prop
  | .complete => Covered discovery snapshot
  | .budgetExpired => snapshot.complete = false ∧
    ∃ event ∈ h, event.raised = some .budgetExpired
  | .partly => snapshot.complete = false ∧ snapshot.budgetExpired = false

theorem flawless_benign (F : World PoolSnapshot → Prop) (hf : Frame F) (p : Prop) :
    Benign (fun w => Flawless w.state ∧ p) F where
  toFrame := hf
  event _ _ _ hw := hw
  diagnostics _ _ hw := ⟨⟨hw.1.readable, hw.1.refused, hw.1.unplaced⟩, hw.2⟩
  stalls _ _ hw := ⟨⟨hw.1.readable, hw.1.refused, hw.1.unplaced⟩, hw.2⟩
  span w span hspan _ hw := by
    obtain ⟨_, hr⟩ | ⟨_, _, hr⟩ := recordSpan_cases w.state span
    all_goals
      rw [hr]
      refine ⟨⟨fun other hmem => ?_, hw.1.refused, hw.1.unplaced⟩, hw.2⟩
      rcases List.mem_append.mp hmem with hmem | hmem
      · exact hw.1.readable other hmem
      · rwa [List.mem_singleton.mp hmem]
  sort w hw := by
    refine ⟨⟨fun span hmem => ?_, hw.1.refused, hw.1.unplaced⟩, hw.2⟩
    exact hw.1.readable span ((List.mem_insertionSort _).mp hmem)

theorem Walked.covered (hends : UserEnds OneStates OneStates expired found)
    (hw : Walked memory limit budget expired found w) :
    Told (fun w => Covered found.state w.state) w := by
  have htold := hw.told (flawless_benign _ (timely_frame expired) (found.state.diagnostics = []))
    (oneStates_of_ends hends) hends.raised fun _ hempty _ _ =>
      ⟨⟨fun _ hmem => (by cases hmem), rfl, rfl⟩, hempty⟩
  refine ⟨fun hcomplete => ?_, htold.stopped, htold.expired⟩
  obtain ⟨hflawless, hempty⟩ := htold.clean hcomplete
  refine ⟨hflawless, ?_, ?_, hempty⟩
  · cases hexpired : w.state.budgetExpired with
    | false => rfl
    | true => rw [(htold.expired hexpired).1] at hcomplete; cases hcomplete
  · cases hstopped : w.state.stoppedAfterMatches with
    | none => rfl
    | some n =>
      have hreached : w.state.matchLimitReached = true := by
        unfold PoolSnapshot.matchLimitReached
        rw [hstopped]; rfl
      rw [htold.stopped hreached] at hcomplete
      cases hcomplete

theorem Told.coverageMeans {discovery : Discovery} {w : World PoolSnapshot}
    (htold : Told (fun w => Covered discovery w.state) w) :
    CoverageMeans discovery w.state w.history (reportOf (PoolIndex.build w.state)).coverage := by
  cases hcomplete : w.state.complete with
  | true =>
    have hcoverage : (reportOf (PoolIndex.build w.state)).coverage = .complete := by
      simp only [reportOf, PoolIndex.build, PoolSnapshot.sortSpans, hcomplete]
    rw [hcoverage]
    exact htold.clean hcomplete
  | false =>
    cases hexpired : w.state.budgetExpired with
    | true =>
      have hcoverage : (reportOf (PoolIndex.build w.state)).coverage = .budgetExpired := by
        simp only [reportOf, PoolIndex.build, PoolSnapshot.sortSpans, hcomplete, hexpired]
      rw [hcoverage]
      exact ⟨hcomplete, (htold.expired hexpired).2 rfl⟩
    | false =>
      have hcoverage : (reportOf (PoolIndex.build w.state)).coverage = .partly := by
        simp only [reportOf, PoolIndex.build, PoolSnapshot.sortSpans, hcomplete, hexpired]
      rw [hcoverage]
      exact ⟨hcomplete, hexpired⟩

/-- **Completeness is never overstated.** A complete snapshot of either walk covered everything, and
one cut by its budget was cut by a call that raised its end. -/
theorem coverage_never_overstates (now : History → ℕ) (memory : PoolMemory) (layout : PoolLayout)
    (traversalLimit : ℕ) (budget : Option ℕ) (snapshot : PoolSnapshot) (h : History) :
    (∀ matchLimit, walkUntil now memory layout traversalLimit budget matchLimit [] =
        (.ok snapshot, h) →
      (snapshot.complete = true → Covered
        (kernelDiscovery now memory layout traversalLimit budget []).2.state snapshot) ∧
      CoverageMeans (kernelDiscovery now memory layout traversalLimit budget []).2.state snapshot h
        (reportOf (PoolIndex.build snapshot)).coverage) ∧
    (∀ peb heaps, walkUserSegmentHeaps now memory layout peb heaps budget traversalLimit [] =
        (.ok snapshot, h) →
      (snapshot.complete = true → Covered
        (userDiscovery now memory layout peb heaps traversalLimit budget []).2.state snapshot) ∧
      CoverageMeans (userDiscovery now memory layout peb heaps traversalLimit budget []).2.state
        snapshot h (reportOf (PoolIndex.build snapshot)).coverage) := by
  have hmoves := oneStates_moves memory layout
  refine ⟨fun matchLimit hw => ?_, fun peb heaps hw => ?_⟩
  · obtain ⟨expired, houtcome, hwalked⟩ := walkUntil_ok hw
    have htold := hwalked.covered (kernelDiscovery_ends hmoves oneStates_start houtcome)
    exact ⟨htold.clean, htold.coverageMeans⟩
  · obtain ⟨expired, houtcome, hwalked⟩ := walkUserSegmentHeaps_ok hw
    have htold := hwalked.covered (userDiscovery_ends hmoves oneStates_start houtcome)
    exact ⟨htold.clean, htold.coverageMeans⟩

end Walks

def smallLayout (globals : GlobalName → Option ℕ) : PoolLayout where
  globals
  types _ := some { size := 0x40, fields := fun
    | .slotMapRef => none
    | .poolNode | .freePageRanges | .descArray => some 0x10
    | .segmentListHead => some 0x18
    | .lookasides => some 0x40
    | .specialHeaps | .segContexts => some 0x100
    | .firstDescriptorIndex => some 1
    | .segmentMask | .signature => some 8
    | _ => some 0 }

def kernelGlobals : GlobalName → Option ℕ
  | .exPoolState => some 0x1000
  | .rtlpHpHeapGlobals => some 0x2000
  | _ => none

def wordBytes (words : ℕ → ℕ) (address : ℕ) : UInt8 :=
  UInt8.ofNat (words (address / 8 * 8) / 256 ^ (address % 8))

/-- A target that holds `words` and answers every query but those at an unreadable address. -/
def smallTarget (words : ℕ → ℕ) (unreadable : Option ℕ) : PoolMemory where
  readExact _ address size := .ok (bytesAt (wordBytes words) address size)
  validRegion _ address size :=
    if some address = unreadable then .error (.regionQuery address size "not present")
    else .ok (address, size)
  interrupted _ := .ok false
  outOfBudget _ := false
  committedRun _ _ := none

/-- One node, whose first heap is at `0x3000` and holds nothing. -/
def oneHeap : ℕ → ℕ
  | 0x1000 => 1
  | 0x1010 => 0x3000
  | _ => 0

def emptySnapshot : World PoolSnapshot := { history := [], state := .start .empty true none }

def onePage (backend : PoolBackend) (knownTag : Option ℕ) : PoolRegion where
  address := 0x1000
  size := 0x1000
  requestedSize := none
  poolKind := .paged
  numaNode := 0
  heap := { poolState := 0, heap := 0, special := false }
  subsegment := none
  backend
  unitSize := 0x1000
  bitmap := []
  heapKey := 0
  poolHeader := { size := 0, previousSize := 0, poolIndex := 0, blockSize := 0, poolType := 0,
                  tag := 0 }
  vsHeaderSize := 0
  vsSizesOffset := 0
  vsSkipsPageEnd := false
  knownTag
  states := [.allocated]
  reusableChunks := ∅
  cachedChunks := ∅
  bigPool := []

theorem run_of_complete (run : Except SnapshotError PoolSnapshot × History) (complete : Bool)
    (h : run.1.toOption.map PoolSnapshot.complete = some complete) :
    ∃ snapshot, run = (.ok snapshot, run.2) ∧ snapshot.complete = complete := by
  obtain ⟨outcome, history⟩ := run
  cases outcome with
  | error e => cases h
  | ok snapshot => exact ⟨snapshot, rfl, Option.some.inj h⟩

theorem coverage_never_overstates_oneHeap :
    (∃ snapshot h, walkUntil (fun _ => 0) (smallTarget oneHeap none) (smallLayout kernelGlobals) 8
        none none [] = (.ok snapshot, h) ∧
      Covered (kernelDiscovery (fun _ => 0) (smallTarget oneHeap none) (smallLayout kernelGlobals)
        8 none []).2.state snapshot) ∧
    (∃ snapshot h, walkUserSegmentHeaps (fun _ => 0) (smallTarget oneHeap none)
        (smallLayout kernelGlobals) 0 [] none 8 [] = (.ok snapshot, h) ∧
      Covered (userDiscovery (fun _ => 0) (smallTarget oneHeap none) (smallLayout kernelGlobals)
        0 [] 8 none []).2.state snapshot) := by
  constructor
  · obtain ⟨snapshot, hrun, hcomplete⟩ := run_of_complete
      (walkUntil (fun _ => 0) (smallTarget oneHeap none) (smallLayout kernelGlobals) 8 none
        none []) true (by decide +kernel)
    exact ⟨snapshot, _, hrun,
      ((coverage_never_overstates _ _ _ _ _ _ _).1 none hrun).1 hcomplete⟩
  · obtain ⟨snapshot, hrun, hcomplete⟩ := run_of_complete
      (walkUserSegmentHeaps (fun _ => 0) (smallTarget oneHeap none)
        (smallLayout kernelGlobals) 0 [] none 8 []) true (by decide +kernel)
    exact ⟨snapshot, _, hrun,
      ((coverage_never_overstates _ _ _ _ _ _ _).2 0 [] hrun).1 hcomplete⟩

/-! ## Failed reads -/

def Event.isFault : Event → Bool
  | .fault _ _ => true
  | _ => false

/-- A failure nothing was said about; only `bucketCountOf` drops one. -/
def Event.isDropped : Event → Bool
  | .dropped _ _ => true
  | _ => false

def Faulty (h : History) : Prop := ∃ event ∈ h, event.isFault = true

/-- Every bucket count discovery asked a dynamic lookaside for was read. -/
def BucketCountsRead (h : History) : Prop := ∀ event ∈ h, event.isDropped = false

instance (h : History) : Decidable (Faulty h) := inferInstanceAs (Decidable (∃ event ∈ h, _))

instance (h : History) : Decidable (BucketCountsRead h) :=
  inferInstanceAs (Decidable (∀ event ∈ h, _))

def FaultsTold (w : World Discovery) : Prop :=
  Faulty w.history → BucketCountsRead w.history → w.state.diagnostics ≠ []

theorem faulty_append {h : History} {event : Event} (hevent : event.isFault = false) :
    Faulty (h ++ [event]) → Faulty h := by
  rintro ⟨fault, hmem, hfault⟩
  rcases List.mem_append.mp hmem with hmem | hmem
  · exact ⟨fault, hmem, hfault⟩
  · rw [List.mem_singleton.mp hmem, hevent] at hfault
    cases hfault

theorem bucketCountsRead_append {h : History} {event : Event}
    (hread : BucketCountsRead (h ++ [event])) : BucketCountsRead h :=
  fun other hmem => hread other (List.mem_append_left _ hmem)

theorem FaultsTold.note {w : World Discovery} {event : Event} (h : FaultsTold w)
    (hevent : event.isFault = false) : FaultsTold (w.note event) := fun hfaulty hread =>
  h (faulty_append hevent hfaulty) (bucketCountsRead_append hread)

theorem isFault_of_isCall {event : Event} (h : event.isCall = true) : event.isFault = false := by
  cases event <;> first | rfl | cases h

theorem isFault_of_isBenign {event : Event} (h : event.isBenign = true) :
    event.isFault = false := by
  cases event <;> first | rfl | cases h

/-- Between a failure and what is said about it, nothing is known. -/
theorem faultsTold_covers (memory : PoolMemory) (layout : PoolLayout) :
    Covers memory layout FaultsTold (fun _ => True)
      (fun w => Faulty w.history → ¬ BucketCountsRead w.history) where
  moves :=
    { weaken := fun _ _ => trivial
      before := ⟨fun _ _ hcall hw => hw.note (isFault_of_isCall hcall)⟩
      after := ⟨fun _ _ _ _ => trivial⟩
      fault := fun _ _ _ _ => trivial
      say := fun _ _ _ _ _ hempty => by simp [World.say] at hempty
      dropped := fun _ _ _ _ _ hread => by
        have hlast := hread _ (List.mem_append_right _ (List.mem_singleton_self _))
        cases hlast
      spoken := fun _ _ hspoken _ _ => hspoken
      capped := fun _ _ _ _ hspoken _ _ => hspoken
      segments := fun _ hw => hw.note rfl
      table := fun _ _ hw => hw
      tabled := fun _ _ _ => trivial
      region := fun _ _ _ hw => hw }
  benign expired :=
    { timely_frame expired with
      event := fun _ _ hbenign hw hfaulty hread =>
        hw (faulty_append (isFault_of_isBenign hbenign) hfaulty) (bucketCountsRead_append hread)
      diagnostics := fun _ _ hw => hw
      stalls := fun _ _ hw => hw
      span := fun _ _ _ _ hw => hw
      sort := fun _ hw => hw }
  fresh _ _ _ hw hempty hfaulty hread := hw hfaulty hread hempty

/-- **No failed read is silent but a bucket count's.** In every run in which the bucket counts
were read, a read of discovery that failed costs the snapshot its completeness. -/
theorem failed_read_costs_completeness (now : History → ℕ) (memory : PoolMemory)
    (layout : PoolLayout) (traversalLimit : ℕ) (budget : Option ℕ)
    (matchLimit : Option PoolMatchLimit) (snapshot : PoolSnapshot) (h : History)
    (hw : walkUntil now memory layout traversalLimit budget matchLimit [] = (.ok snapshot, h))
    (hread : BucketCountsRead h) (hfaulty : Faulty h) : snapshot.complete = false := by
  have htold := walkUntil_told (faultsTold_covers memory layout)
    (fun hstart => by obtain ⟨_, hmem, _⟩ := hstart; cases hmem) hw
  exact htold.incomplete fun hclean => hclean hfaulty hread

theorem failed_read_costs_completeness_pointer :
    ∃ snapshot h, walkUntil (fun _ => 0) (smallTarget oneHeap (some 0x1018))
        (smallLayout kernelGlobals) 8 none none [] = (.ok snapshot, h) ∧
      Faulty h ∧ snapshot.complete = false := by
  obtain ⟨snapshot, hrun, -⟩ := run_of_complete (walkUntil (fun _ => 0)
    (smallTarget oneHeap (some 0x1018)) (smallLayout kernelGlobals) 8 none none []) false
    (by decide +kernel)
  refine ⟨snapshot, _, hrun, by decide +kernel, ?_⟩
  exact failed_read_costs_completeness _ _ _ _ _ _ _ _ hrun (by decide +kernel)
    (by decide +kernel)

/-- The first node's lookaside does not answer for its bucket count, and the walk that could not
read it is complete. -/
theorem unread_bucket_count_is_silent :
    (walkUntil (fun _ => 0) (smallTarget oneHeap (some 0x1050)) (smallLayout kernelGlobals) 8
      none none []).1.toOption.map PoolSnapshot.complete = some true ∧
    Event.fault 0x1050 4 ∈ (walkUntil (fun _ => 0) (smallTarget oneHeap (some 0x1050))
      (smallLayout kernelGlobals) 8 none none []).2 := by
  decide +kernel

/-! ## Traversal limits -/

/-- A structure other than a segment list was left with part of it unvisited. -/
def Event.isCut : Event → Bool
  | .capped what => decide (what ≠ .segmentList)
  | _ => false

def Cut (h : History) : Prop := ∃ event ∈ h, event.isCut = true

instance (h : History) : Decidable (Cut h) := inferInstanceAs (Decidable (∃ event ∈ h, _))

def CutsTold (w : World Discovery) : Prop := Cut w.history → w.state.diagnostics ≠ []

theorem cut_append {h : History} {event : Event} (hevent : event.isCut = false) :
    Cut (h ++ [event]) → Cut h := by
  rintro ⟨cut, hmem, hcut⟩
  rcases List.mem_append.mp hmem with hmem | hmem
  · exact ⟨cut, hmem, hcut⟩
  · rw [List.mem_singleton.mp hmem, hevent] at hcut
    cases hcut

theorem CutsTold.note {w : World Discovery} {event : Event} (h : CutsTold w)
    (hevent : event.isCut = false) : CutsTold (w.note event) := fun hcut =>
  h (cut_append hevent hcut)

theorem isCut_of_isBenign {event : Event} (h : event.isBenign = true) : event.isCut = false := by
  cases event <;> first | rfl | cases h

theorem cutsTold_covers (memory : PoolMemory) (layout : PoolLayout) :
    Covers memory layout CutsTold CutsTold (fun w => ¬ Cut w.history) where
  moves :=
    { weaken := fun _ hw => hw
      before := ⟨fun _ _ hcall hw => hw.note (isCut_of_isBenign (isBenign_of_isCall hcall))⟩
      after := ⟨fun _ _ hcall hw => hw.note (isCut_of_isBenign (isBenign_of_isCall hcall))⟩
      fault := fun _ _ _ hw => hw.note rfl
      say := fun _ _ _ _ hempty => by simp [World.say] at hempty
      dropped := fun _ _ _ hw => hw.note rfl
      spoken := fun _ hw _ => hw
      capped := fun _ _ _ _ hspoken _ => hspoken
      segments := fun _ hw => hw.note rfl
      table := fun _ _ hw => hw
      tabled := fun _ _ hw => hw
      region := fun _ _ _ hw => hw }
  benign expired :=
    { timely_frame expired with
      event := fun _ _ hbenign hw hcut => hw (cut_append (isCut_of_isBenign hbenign) hcut)
      diagnostics := fun _ _ hw => hw
      stalls := fun _ _ hw => hw
      span := fun _ _ _ _ hw => hw
      sort := fun _ hw => hw }
  fresh _ _ _ hw hempty hcut := hw hcut hempty

def oneNode : ℕ → ℕ
  | 0x3000 => 0xffff800000000100
  | address => oneHeap address

def twoSegments : ℕ → ℕ
  | 0x3100 => 0x10c
  | 0x3108 => 2 ^ 64 - 0x2000
  | 0x3118 => 0x5000
  | 0x5000 => 0x6000
  | 0x5008 => 0x6100
  | 0x6000 => 0x3118
  | 0x6008 => 0x5100
  | address => oneHeap address

def Event.reads : Event → Option ℕ
  | .readExact address _ _ => some address
  | _ => none

end DbgScope.Pool
