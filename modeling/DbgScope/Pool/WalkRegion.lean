import DbgScope.Pool.WalkVs

/-!
# Walking one region

`walk_region`: ask the target which part of the region is there, read it, decode it, go on from
where it ended. What is not there is filed as a gap, split by what the memory manager says is
behind it. The cursor moves on answers nobody vouches for, so every branch of the loop either
leaves it or moves the cursor forward.
-/

namespace DbgScope.Pool

open PoolSnapshot

/-! ## Gaps -/

variable (memory : PoolMemory) (traversalLimit : ℕ) (region : PoolRegion)

def gap (address size : ℕ) (state : PoolState) : Walk PoolSnapshot Bool :=
  if size = 0 then pure false
  else do
    if state.isCoverageGap then clearComplete
    record (baseSpan region address address size 0 state)
    pure state.isCoverageGap

/-- One round of `unreadable`: the cursor, and whether anything was missed so far. -/
def unreadableStep (stop : ℕ) (s : ℕ × Bool) : Walk PoolSnapshot (Flow (ℕ × Bool) Bool) :=
  if stop ≤ s.1 then pure (.stop s.2)
  else do
    let run ← callCommittedRun memory s.1
    -- a run that cannot move the cursor is no answer
    match run.filter fun run => decide (s.1 < run.runEnd) with
    | none => do
      let missed ← gap region s.1 (stop - s.1) .unreadable
      pure (.stop (missed || s.2))
    | some run => do
      let next := min run.runEnd stop
      let missed ← gap region s.1 (next - s.1)
        (if run.committed then .unreadable else .uncommitted)
      pure (.again (next, s.2 || missed))

/-- File address space the walk did not decode; answers whether any of it counted. -/
def unreadable (address size : ℕ) : Walk PoolSnapshot Bool := do
  let stop := saturatingAdd address size
  note (.filed address stop)
  if size = 0 then pure false
  else Run.loop (unreadableStep memory region stop) Prod.snd (size + 1) (address, false)

/-! ## Extents -/

def extentReadChunk : ℕ := 256 * 1024

def readExtentStep (base size : ℕ) (bytes : List UInt8) :
    Walk PoolSnapshot (Flow (List UInt8) (List UInt8)) :=
  if size ≤ bytes.length then pure (.stop bytes)
  else do
    checkBudget memory
    let take := min extentReadChunk (size - bytes.length)
    let address := wrappingAdd base bytes.length
    let chunk ← callReadExact memory address take
    -- a short chunk would shift every later one
    if chunk.length ≠ take then
      let got := chunk.length
      Run.fail (.invalidData (s!"short extent read at {hex address}: asked {hex take}, got " ++
        s!"{hex got}"))
    else pure (.again (bytes ++ chunk))

/-- Read one committed extent, polling the deadline as the bytes come in. -/
def readExtent (base size : ℕ) : Walk PoolSnapshot (List UInt8) :=
  if size ≤ extentReadChunk then callReadExact memory base size
  else Run.loop (readExtentStep memory base size) id (size / extentReadChunk + 2) []

/-! ## The extent loop -/

/-- How many pages in a row a region may refuse to advance over. -/
def maxConsecutiveStalls : ℕ := 8

structure RegionWalk where
  cursor : ℕ
  consecutiveStalls : ℕ
  stalledHere : Bool
  /-- Where the next VS chunk header is. -/
  vsChunk : Option ℕ
  /-- How far the VS spans already filed reach. -/
  vsCovered : ℕ

def pageEnd (address : ℕ) : ℕ :=
  saturatingAdd (address &&& complement (pageSize - 1)) pageSize

/-- Give up on the rest of a region. -/
def giveUp (cursor : ℕ) : Walk PoolSnapshot Unit := do
  let address := region.address
  let size := region.size
  complain (s!"region {hex address}+{hex size}: giving up after consecutive pages that would " ++
    "not advance")
  let _ ← unreadable memory region cursor (region.requestedEnd - cursor)
  pure ()

def stalledStep (validBase reportedBase reportedSize : ℕ) (s : RegionWalk) :
    Walk PoolSnapshot (Flow RegionWalk Unit) := do
  let skip := min (pageEnd validBase) region.requestedEnd - validBase
  complain (s!"valid-region query made no progress at {hex validBase}: the engine answered " ++
    s!"{hex reportedBase}+{hex reportedSize}; stepping over the rest of the page")
  let gapStart := min (max validBase s.vsCovered) (validBase + skip)
  let _ ← unreadable memory region gapStart (validBase + skip - gapStart)
  update fun snapshot =>
    { snapshot with stalls := { snapshot.stalls with
        pages := snapshot.stalls.pages + 1
        skippedBytes := saturatingAdd snapshot.stalls.skippedBytes skip } }
  let stepped : RegionWalk :=
    { s with
      stalledHere := true
      consecutiveStalls := s.consecutiveStalls + 1
      cursor := saturatingAdd validBase skip }
  if maxConsecutiveStalls ≤ stepped.consecutiveStalls then do
    giveUp memory region stepped.cursor
    pure (.stop ())
  else pure (.again stepped)

def decodeExtent (base : ℕ) (bytes : List UInt8) (s : RegionWalk) :
    Walk PoolSnapshot (Option RegionWalk) := do
  -- special pool is told from other page ranges by its heap, so this comes before the backends
  if region.heap.special then do
    note (.decoded base (base + bytes.length))
    walkSpecialPool region base bytes
    pure (some s)
  else
    match region.backend with
    | .lfh => do
      note (.decoded base (base + bytes.length))
      walkLfh region base bytes
      pure (some s)
    | .vs => do
      note (.decoded base (base + bytes.length))
      let resumed ← walkVs memory traversalLimit region base bytes s.vsChunk
      pure (some
        { s with
          vsChunk := resumed.map VsResume.next
          vsCovered := max s.vsCovered ((resumed.map VsResume.coveredThrough).getD 0) })
    | .segment => do
      note (.decoded base (base + bytes.length))
      walkPageRanges region base bytes
      pure (some s)
    | .large => pure none

def extentStep (validBase validEnd : ℕ) (s : RegionWalk) :
    Walk PoolSnapshot (Flow RegionWalk Unit) := do
  let s := { s with consecutiveStalls := 0 }
  match ← Run.attempt (readExtent memory validBase (validEnd - validBase)) with
  | .error error =>
    -- out of time is not memory that would not read
    if error.haltsWalk then Run.fail error
    else do
      complain s!"cannot read region {hex validBase}: {error.text}"
      let _ ← unreadable memory region validBase (validEnd - validBase)
      pure (.again { s with cursor := validEnd })
  | .ok bytes => do
    if s.stalledHere then
      update fun snapshot =>
        { snapshot with stalls := { snapshot.stalls with
            recoveredBytes := saturatingAdd snapshot.stalls.recoveredBytes bytes.length } }
    let some decoded ← decodeExtent memory traversalLimit region validBase bytes s
      | pure (.stop ())
    if ← limitReached then pure (.stop ())
    else pure (.again { decoded with cursor := validEnd })

def fileGap (validBase : ℕ) (s : RegionWalk) : Walk PoolSnapshot Unit := do
  let gapStart := min (max s.cursor s.vsCovered) validBase
  if gapStart < validBase then
    if ← unreadable memory region gapStart (validBase - gapStart) then
      let address := region.address
      let size := region.size
      let missing := validBase - gapStart
      complain (s!"region {hex address}+{hex size} is only committed through {hex gapStart}; " ++
        s!"unreadable space extends {hex missing} bytes")

def answerStep (reportedBase reportedSize : ℕ) (s : RegionWalk) :
    Walk PoolSnapshot (Flow RegionWalk Unit) := do
  let requestedEnd := region.requestedEnd
  let validBase := min (max reportedBase s.cursor) requestedEnd
  fileGap memory region validBase s
  let validEnd := min (saturatingAdd reportedBase reportedSize) requestedEnd
  if validEnd ≤ validBase then
    if requestedEnd ≤ validBase then pure (.stop ())
    else if reportedBase = 0 ∧ reportedSize = 0 then do
      -- not a region at zero but the absence of one: the rest has been answered for
      let gapStart := min (max validBase s.vsCovered) requestedEnd
      let _ ← unreadable memory region gapStart (requestedEnd - gapStart)
      pure (.stop ())
    else stalledStep memory region validBase reportedBase reportedSize s
  else extentStep memory traversalLimit region validBase validEnd s

def regionStep (s : RegionWalk) : Walk PoolSnapshot (Flow RegionWalk Unit) :=
  if region.requestedEnd ≤ s.cursor then pure (.stop ())
  else do
    checkBudget memory
    let cursor := s.cursor
    let remaining := region.requestedEnd - s.cursor
    match ← Run.attempt (callValidRegion memory cursor remaining) with
    | .error error => do
      complain s!"cannot query region {hex cursor}+{hex remaining}: {error.text}"
      let _ ← unreadable memory region cursor remaining
      pure (.stop ())
    | .ok (reportedBase, reportedSize) =>
      answerStep memory traversalLimit region reportedBase reportedSize s

def RegionWalk.start : RegionWalk :=
  { cursor := region.address, consecutiveStalls := 0, stalledHere := false,
    vsChunk := some region.address, vsCovered := region.address }

/-- The extents of a region, each round at least a byte further on. -/
def walkExtents : Walk PoolSnapshot Unit :=
  Run.loop (regionStep memory traversalLimit region) (fun _ => ()) (region.size + 1)
    (RegionWalk.start region)

def walkRegion : Walk PoolSnapshot Unit :=
  match region.backend, region.knownTag with
  | .segment, some tag =>
    -- a page range the big-page table names needs no reading at all
    record (baseSpan region region.address region.address region.size tag region.wholeState)
  | _, _ => walkExtents memory traversalLimit region

end DbgScope.Pool
