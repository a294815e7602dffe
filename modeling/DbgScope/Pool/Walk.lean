import DbgScope.Pool.Discover
import DbgScope.Pool.WalkRegion

/-!
# Whole walks

`SnapshotWalker::walk_until` and `walk_user_segment_heaps`: discover the regions under one share
of the budget, walk them under the rest, and say how much of the pool that covered. Running out of
time is not an error, so a walk that does still returns what it reached.
-/

namespace DbgScope.Pool

open PoolSnapshot

/-! ## Budgets -/

def durationMax : ℕ := (2 ^ 64 - 1) * 10 ^ 9 + 999999999

def instantAdd (start span : ℕ) : Option ℕ :=
  if start + span ≤ durationMax then some (start + span) else none

def discoveryBudgetShare : ℕ × ℕ := (2, 3)

/-- The deadline discovery works to and the one the whole walk works to. -/
def budgetDeadlines (start : ℕ) (budget : Option ℕ) : Option ℕ × Option ℕ :=
  match budget.bind (instantAdd start) with
  | none => (none, none)
  | some whole =>
    (budget.bind fun full =>
      instantAdd start (full / discoveryBudgetShare.2 * discoveryBudgetShare.1), some whole)

def decimalText (whole fraction width : ℕ) (unit : String) : String :=
  let digits := Nat.toDigits 10 fraction
  let padded := List.replicate (width - digits.length) '0' ++ digits
  let kept := (padded.reverse.dropWhile fun c => c == '0').reverse
  let text := String.ofList kept
  if kept.isEmpty then s!"{whole}{unit}" else s!"{whole}.{text}{unit}"

def durationText (nanos : ℕ) : String :=
  if 10 ^ 9 ≤ nanos then decimalText (nanos / 10 ^ 9) (nanos % 10 ^ 9) 9 "s"
  else if 10 ^ 6 ≤ nanos then decimalText (nanos / 10 ^ 6) (nanos % 10 ^ 6) 6 "ms"
  else if 10 ^ 3 ≤ nanos then decimalText (nanos / 10 ^ 3) (nanos % 10 ^ 3) 3 "µs"
  else decimalText nanos 0 0 "ns"

/-! ## The discovered regions -/

def walkOne (memory : PoolMemory) (traversalLimit : ℕ) (region : PoolRegion) :
    Walk PoolSnapshot Unit :=
  if region.backend = .large then walkLarge region
  else walkRegion memory traversalLimit region

/-- Walk regions until one runs out of time or out of matches to look for: how many were walked
through, and whether the time ran out. -/
def walkRegions (memory : PoolMemory) (traversalLimit : ℕ) :
    List PoolRegion → ℕ → Walk PoolSnapshot (ℕ × Bool)
  | [], walked => pure (walked, false)
  | region :: rest, walked => do
    match ← Run.attempt (walkOne memory traversalLimit region) with
    | .ok () =>
      if ← limitReached then pure (walked, false)
      else walkRegions memory traversalLimit rest (walked + 1)
    | .error error => if error = .budgetExpired then pure (walked, true) else Run.fail error

def reportExpiry (budget : Option ℕ) (walked discovered : ℕ) : Walk PoolSnapshot Unit := do
  clearComplete
  update fun snapshot => { snapshot with budgetExpired := true }
  let allowed := match budget with
    | some budget => durationText budget ++ " budget"
    | none => "walk budget"
  complain (s!"the walk ran out of its {allowed}: {walked} of {discovered} discovered regions " ++
    "were walked, and region discovery itself may not have finished. What is reported was " ++
    "really there; what is missing is unknown, not absent. Allow a longer budget for " ++
    "full coverage.")

def recordDiscoveredRegions (memory : PoolMemory) (traversalLimit : ℕ)
    (regions : List PoolRegion) (budget : Option ℕ) (expired : Bool) :
    Walk PoolSnapshot Unit := do
  let (walked, ranOut) ← walkRegions memory traversalLimit regions 0
  if expired || ranOut then reportExpiry budget walked regions.length

def walkDiscoveredRegions (memory : PoolMemory) (traversalLimit : ℕ)
    (regions : List PoolRegion) (budget : Option ℕ) (expired : Bool) :
    Walk PoolSnapshot Unit := do
  recordDiscoveredRegions memory traversalLimit regions budget expired
  update sortSpans

/-! ## The walks -/

variable {S α : Type}

def building (init : S) (m : Walk S α) :
    Run SnapshotError History (Except SnapshotError α × S) := fun h =>
  (.ok ((m { history := h, state := init }).1, (m { history := h, state := init }).2.state),
    (m { history := h, state := init }).2.history)

/-- Whether discovery ran out of its share; any other failure of it is the walk's. -/
def discoveryExpired (outcome : Except SnapshotError Unit) :
    Run SnapshotError History Bool :=
  match outcome with
  | .ok () => pure false
  | .error error => if error = .budgetExpired then pure true else Run.fail error

def kernelStart (discovery : Discovery) (matchLimit : Option PoolMatchLimit) : PoolSnapshot :=
  let noted := PoolDiagnostics.empty.push "per-session paged heaps are not included"
  .start (noted.extend discovery.diagnostics) discovery.diagnostics.isEmpty matchLimit

/-- Walk the pool within a budget and up to a number of matches; `now` is the host's clock. -/
def walkUntil (now : History → ℕ) (memory : PoolMemory) (layout : PoolLayout)
    (traversalLimit : ℕ) (budget : Option ℕ) (matchLimit : Option PoolMatchLimit) :
    Run SnapshotError History PoolSnapshot := do
  let start ← Run.read now
  let deadlines := budgetDeadlines start budget
  let (outcome, discovery) ← building Discovery.empty
    (discoverPoolRegions (budgeted now memory deadlines.1) layout traversalLimit)
  let expired ← discoveryExpired outcome
  let (walked, snapshot) ← building (kernelStart discovery matchLimit)
    (walkDiscoveredRegions (budgeted now memory deadlines.2) traversalLimit discovery.regions
      budget expired)
  let () ← Run.lift walked
  pure snapshot

def walk (now : History → ℕ) (memory : PoolMemory) (layout : PoolLayout) (traversalLimit : ℕ)
    (budget : Option ℕ) : Run SnapshotError History PoolSnapshot :=
  walkUntil now memory layout traversalLimit budget none

/-- Discover user heaps one by one; answers whether the time ran out. -/
def discoverUserHeaps (memory : PoolMemory) (layout : PoolLayout)
    (peb heapKey lfhKey traversalLimit : ℕ) : List ℕ → Walk Discovery Bool
  | [] => pure false
  | heap :: rest => do
    let site : HeapSite :=
      { numaNode := 0
        poolKind := .nonPagedNx
        identity := { poolState := peb, heap, special := false }
        heapKey
        lfhKey }
    match ← Run.attempt (discoverHeapRegions memory layout site heap none traversalLimit) with
    | .ok () => discoverUserHeaps memory layout peb heapKey lfhKey traversalLimit rest
    | .error error =>
      if error = .budgetExpired then pure true
      else if error.haltsWalk then Run.fail error
      else do
        Discovery.complain s!"cannot fully discover heap {hex heap}: {error.text}"
        discoverUserHeaps memory layout peb heapKey lfhKey traversalLimit rest

def discoverUserRegions (memory : PoolMemory) (layout : PoolLayout) (peb : ℕ) (heaps : List ℕ)
    (traversalLimit : ℕ) : Walk Discovery Bool := do
  let globalsAddress ← globalOf layout .rtlpHpHeapGlobals "RtlpHpHeapGlobals"
  let heapKey ← heapGlobal memory layout globalsAddress .heapKey
  let lfhKey ← heapGlobal memory layout globalsAddress .lfhKey
  discoverUserHeaps memory layout peb heapKey lfhKey traversalLimit heaps

def userStart (discovery : Discovery) : PoolSnapshot :=
  .start (PoolDiagnostics.empty.extend discovery.diagnostics) discovery.diagnostics.isEmpty none

def walkUserSegmentHeaps (now : History → ℕ) (memory : PoolMemory) (layout : PoolLayout)
    (peb : ℕ) (heaps : List ℕ) (budget : Option ℕ) (traversalLimit : ℕ) :
    Run SnapshotError History PoolSnapshot := do
  let start ← Run.read now
  let deadlines := budgetDeadlines start budget
  let (outcome, discovery) ← building Discovery.empty
    (discoverUserRegions (budgeted now memory deadlines.1) layout peb heaps traversalLimit)
  let expired ← Run.lift outcome
  let (walked, snapshot) ← building (userStart discovery)
    (walkDiscoveredRegions (budgeted now memory deadlines.2) traversalLimit discovery.regions
      budget expired)
  let () ← Run.lift walked
  pure snapshot

/-! ## What a walk is reported as -/

/-- The part of an index its report reads. -/
structure PoolIndex where
  spans : List PoolSpan
  diagnostics : PoolDiagnostics
  complete : Bool
  budgetExpired : Bool
  stoppedAfterMatches : Option ℕ
  stalls : WalkStalls
  refusedChunks : ℕ
  unplacedBytes : ℕ

def PoolIndex.build (snapshot : PoolSnapshot) : PoolIndex :=
  let sorted := snapshot.sortSpans
  { spans := sorted.spans
    diagnostics := sorted.diagnostics
    complete := sorted.complete
    budgetExpired := sorted.budgetExpired
    stoppedAfterMatches := sorted.stoppedAfterMatches
    stalls := sorted.stalls
    refusedChunks := sorted.refusedChunks
    unplacedBytes := sorted.unplacedBytes }

inductive WalkCoverage where
  | complete
  | budgetExpired
  | partly
  deriving DecidableEq

structure PoolSnapshotReport where
  totalChunks : ℕ
  allocatedChunks : ℕ
  coverage : WalkCoverage
  stoppedAfterMatches : Option ℕ
  diagnostics : PoolDiagnostics
  stalls : WalkStalls
  refusedChunks : ℕ
  unplacedBytes : ℕ

/-- The walk's own assessment of an index. -/
def reportOf (index : PoolIndex) : PoolSnapshotReport :=
  { totalChunks := index.spans.length
    allocatedChunks := index.spans.countP fun span => decide (span.state = .allocated)
    coverage := match index.complete, index.budgetExpired with
      | true, _ => .complete
      | false, true => .budgetExpired
      | false, false => .partly
    stoppedAfterMatches := index.stoppedAfterMatches
    diagnostics := index.diagnostics
    stalls := index.stalls
    refusedChunks := index.refusedChunks
    unplacedBytes := index.unplacedBytes }

end DbgScope.Pool
