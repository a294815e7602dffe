import DbgScope.Pool.Backends
import DbgScope.Pool.Segments

/-!
# The VS decoder

A VS chunk is findable only from the end of the one before it, so decoding an extent starts from
an address the chain named and hands the next extent the address it names in turn. A header that
does not decode ends the chain for the whole region: the sixteen-byte scan that follows it may
find real headers again, but it cannot know that it has.
-/

namespace DbgScope.Pool

open PoolSnapshot

/-- What one committed extent of a VS subsegment hands the next. -/
structure VsResume where
  /-- Where the chain names the next header. -/
  next : ℕ
  /-- How far the spans filed in this extent reach. -/
  coveredThrough : ℕ
  deriving DecidableEq

structure VsWalk where
  offset : ℕ
  /-- Where the next extent resumes. -/
  resume : ℕ
  lost : Bool
  chunks : ℕ
  refused : ℕ
  resyncFrom : Option ℕ
  chainBreaks : ℕ
  /-- What the next header must record as its previous size. -/
  previousChunk : Option ℕ
  coveredThrough : ℕ

variable (memory : PoolMemory) (traversalLimit : ℕ) (region : PoolRegion)

def PoolRegion.headerBytes : ℕ := region.vsHeaderSize + region.poolHeader.size

def PoolRegion.requestedEnd : ℕ := saturatingAdd region.address region.size

def vsState (headerAddress : ℕ) (chunk : VsChunk) : PoolState :=
  if headerAddress ∈ region.cachedChunks then .cachedFree
  else if headerAddress ∈ region.reusableChunks then .reusableFree
  else if chunk.allocated then .allocated
  else .reusableFree

def vsBigPool (headerAddress chunkSize : ℕ) : Option (ℕ × BigPageEntry) :=
  if chunkSize > maxPoolHeaderChunk then
    let stop := saturatingAdd headerAddress chunkSize
    region.bigPool.find? fun named =>
      decide (headerAddress ≤ named.1) && decide (named.1 < stop) &&
        decide (saturatingAdd named.1 named.2.size ≤ stop)
  else none

def vsNamedSpan (named : ℕ × BigPageEntry) (chunkSize : ℕ) (state : PoolState) : PoolSpan :=
  { baseSpan region named.1 named.1 named.2.size named.2.tag state with
    sizeClass := min chunkSize u32Max }

def vsEndsPage (headerAddress : ℕ) : Bool :=
  region.vsSkipsPageEnd &&
    saturatingAdd (wrappingAdd headerAddress region.vsHeaderSize) vsUnit &&& (pageSize - 1) == 0

def vsPhysicalHeader (headerAddress chunkSize : ℕ) : ℕ :=
  let physical := wrappingAdd headerAddress region.vsHeaderSize
  if vsEndsPage region headerAddress && decide (region.headerBytes + vsUnit ≤ chunkSize) then
    wrappingAdd physical vsUnit
  else physical

def vsSpan (base : ℕ) (bytes : List UInt8) (headerAddress chunkSize : ℕ) (state : PoolState) :
    PoolSpan :=
  let physical := vsPhysicalHeader region headerAddress chunkSize
  let overhead := saturatingAdd (physical - headerAddress) region.poolHeader.size
  { baseSpan region (if region.poolHeader.size = 0 then headerAddress else physical)
      (wrappingAdd physical region.poolHeader.size) (chunkSize - overhead)
      (tagAt region bytes (physical - base)) state with
    sizeClass := min chunkSize u32Max }

def vsRefuse (headerAddress : ℕ) (rejection : VsRejection) (s : VsWalk) :
    Walk PoolSnapshot (Flow VsWalk VsWalk) := do
  if s.refused = 0 then
    complain s!"refusing VS chunk at {hex headerAddress}: {rejection.text}"
  clearComplete
  pure (.again
    { s with
      refused := s.refused + 1
      resyncFrom := some (s.resyncFrom.getD headerAddress)
      previousChunk := none
      lost := true
      offset := s.offset + 16 })

def vsBreaksChain (chunk : VsChunk) (s : VsWalk) : Bool :=
  s.previousChunk.any fun expected => chunk.previousSize != expected

/-- Compare a chunk's previous size with the chunk before it. -/
def vsCheckChain (headerAddress : ℕ) (chunk : VsChunk) (s : VsWalk) :
    Walk PoolSnapshot VsWalk :=
  if vsBreaksChain chunk s then do
    if s.chainBreaks = 0 then
      let expected := s.previousChunk.getD 0
      complain (s!"VS chunk at {hex headerAddress} records a previous size of " ++
        s!"{hex chunk.previousSize} where the chunk before it measured {hex expected}")
    clearComplete
    pure { s with chainBreaks := s.chainBreaks + 1 }
  else pure s

def VsWalk.past (s : VsWalk) (base chunkSize : ℕ) : VsWalk :=
  { s with
    previousChunk := some chunkSize
    offset := s.offset + chunkSize
    resume := wrappingAdd base (s.offset + chunkSize)
    chunks := s.chunks + 1 }

/-- The spans filed so far reach to the next header. -/
def VsWalk.covering (s : VsWalk) : VsWalk := { s with coveredThrough := s.resume }

def vsContinue (s : VsWalk) : Walk PoolSnapshot (Flow VsWalk VsWalk) := do
  if ← limitReached then pure (.stop s) else pure (.again s)

/-- Whether the memory manager says nothing is behind an address. -/
def tailUncommitted (address : ℕ) : Walk PoolSnapshot Bool := do
  let run ← callCommittedRun memory address
  pure (run.any fun run => !run.committed)

/-- A chunk that runs past its extent over memory that may be there: no span is emitted. -/
def vsDropTail (base : ℕ) (bytes : List UInt8) (headerAddress chunkSize : ℕ) (s : VsWalk) :
    Walk PoolSnapshot (Flow VsWalk VsWalk) := do
  let past := s.offset + chunkSize - bytes.length
  let extentEnd := saturatingAdd base bytes.length
  complain (s!"VS chunk at {hex headerAddress} is {hex chunkSize} bytes and runs {hex past} " ++
    s!"past the committed extent at {hex extentEnd}; no span is emitted for it")
  clearComplete
  pure (.stop { s with resume := saturatingAdd headerAddress chunkSize })

def vsEmit (base : ℕ) (bytes : List UInt8) (headerAddress : ℕ) (chunk : VsChunk) (s : VsWalk) :
    Walk PoolSnapshot (Flow VsWalk VsWalk) := do
  let size := chunk.size
  -- nothing was allocated from a chunk with no unit to skip, so an allocated one is reported
  if vsEndsPage region headerAddress && decide (size < region.headerBytes + vsUnit) &&
      chunk.allocated then
    complain (s!"VS chunk at {hex headerAddress} is {hex size} bytes, too short to hold a user " ++
      "block moved off the page end; read in place")
  record (vsSpan region base bytes headerAddress size (vsState region headerAddress chunk))
  vsContinue (s.past base size)

/-- One decoded chunk: named by the table, dropped for its tail, or read in place. -/
def vsChunkStep (base : ℕ) (bytes : List UInt8) (headerAddress : ℕ) (chunk : VsChunk)
    (before : VsWalk) : Walk PoolSnapshot (Flow VsWalk VsWalk) := do
  let s ← vsCheckChain headerAddress chunk before
  match vsBigPool region headerAddress chunk.size with
  | some named => do
    record (vsNamedSpan region named chunk.size (vsState region headerAddress chunk))
    vsContinue (s.past base chunk.size).covering
  | none =>
    if s.offset + chunk.size > bytes.length then do
      if ← tailUncommitted memory (saturatingAdd base bytes.length) then
        vsEmit region base bytes headerAddress chunk s
      else vsDropTail base bytes headerAddress chunk.size s
    else vsEmit region base bytes headerAddress chunk s

def VsWalk.fits (s : VsWalk) (region : PoolRegion) (bytes : List UInt8) : Prop :=
  s.offset + region.vsHeaderSize + region.poolHeader.size ≤ bytes.length

instance (s : VsWalk) (region : PoolRegion) (bytes : List UInt8) :
    Decidable (s.fits region bytes) := inferInstanceAs (Decidable (_ ≤ _))

def vsStep (base : ℕ) (bytes : List UInt8) (s : VsWalk) : Walk PoolSnapshot (Flow VsWalk VsWalk) :=
  if ¬ s.fits region bytes then pure (.stop s)
  else if traversalLimit ≤ s.chunks then do
    -- a header that fits is left unread
    note (.capped .vsExtent)
    pure (.stop s)
  else
    let headerAddress := wrappingAdd base s.offset
    match readU64 bytes (s.offset + region.vsSizesOffset) with
    | none => pure (.stop s)
    | some encoded =>
      match decodeVsChunk encoded headerAddress region.heapKey region.headerBytes
          region.requestedEnd with
      | .error rejection => vsRefuse headerAddress rejection s
      | .ok chunk => vsChunkStep memory region base bytes headerAddress chunk s

/-- What an extent's refusals come to. -/
def vsReportRefused (s : VsWalk) : Walk PoolSnapshot Unit :=
  match s.resyncFrom with
  | none => pure ()
  | some origin => do
    let refused := s.refused
    update fun snapshot =>
      { snapshot with refusedChunks := saturatingAdd snapshot.refusedChunks refused }
    complain s!"{refused} VS chunk headers refused, resynchronising from {hex origin}"

/-- What an extent's disagreements come to. -/
def vsReportBreaks (base : ℕ) (s : VsWalk) : Walk PoolSnapshot Unit :=
  if 0 < s.chainBreaks then
    let breaks := s.chainBreaks
    complain (s!"{breaks} VS chunks disagreed with the size of the chunk before them, from " ++
      s!"{hex base}")
  else pure ()

def vsLimit (base : ℕ) (s : VsWalk) : Walk PoolSnapshot Unit := do
  let reached ← limitReached
  if reached = false ∧ traversalLimit ≤ s.chunks then
    clearComplete
    complain s!"VS traversal limit reached at {hex base}"

def vsUnplacedText (base length : ℕ) : Option ℕ → String
  | some next =>
    let back := base - next
    s!"VS extent at {hex base} does not begin on a chunk boundary: the chunk chain " ++
      s!"names {hex next}, {hex back} bytes back inside unreadable memory; {hex length} bytes " ++
      "not decoded"
  | none =>
    s!"VS extent at {hex base} cannot be placed: the chain was already lost earlier in " ++
      s!"this region; {hex length} bytes not decoded"

def vsUnplaced (base : ℕ) (bytes : List UInt8) (expected : Option ℕ) : Walk PoolSnapshot Unit := do
  update fun snapshot =>
    { snapshot with unplacedBytes := saturatingAdd snapshot.unplacedBytes bytes.length }
  complain (vsUnplacedText base bytes.length expected)
  clearComplete

def VsWalk.start (base next : ℕ) : VsWalk :=
  { offset := next - base, resume := next, lost := false, chunks := 0, refused := 0,
    resyncFrom := none, chainBreaks := 0, previousChunk := none, coveredThrough := base }

/-- What an extent hands the next, unless it lost the chain. -/
def VsWalk.resumption (s : VsWalk) : Option VsResume :=
  if s.lost then none else some { next := s.resume, coveredThrough := s.coveredThrough }

def walkVsChunks (base : ℕ) (bytes : List UInt8) (next : ℕ) :
    Walk PoolSnapshot (Option VsResume) := do
  let s ← Run.loop (vsStep memory traversalLimit region base bytes) id (bytes.length + 2)
    (VsWalk.start base next)
  vsReportRefused s
  vsReportBreaks base s
  vsLimit traversalLimit base s
  pure s.resumption

def walkVs (base : ℕ) (bytes : List UInt8) (expected : Option ℕ) :
    Walk PoolSnapshot (Option VsResume) :=
  match expected.filter fun next => decide (base ≤ next) with
  | none => do
    vsUnplaced base bytes expected
    pure none
  | some next =>
    -- a chunk that began before this extent may cover all of it
    if saturatingAdd base bytes.length ≤ next then
      pure (some { next, coveredThrough := base })
    else walkVsChunks memory traversalLimit region base bytes next

end DbgScope.Pool
