import DbgScope.Pool.Region
import Mathlib.Data.List.Sort

/-!
# The snapshot a walk builds

Spans, diagnostics and the flags that say how much of the pool they cover. Diagnostics are kept as
a bounded sample with a total per kind; a span is recorded through `recordSpan`, which is also
where a query that asked for so many matches and no more is answered.
-/

namespace DbgScope.Pool

/-! ## Diagnostics -/

/-- How many verbatim examples of one kind of diagnostic to keep. -/
def diagnosticExamples : ℕ := 8

def isWhitespace (c : Char) : Bool :=
  let n := c.toNat
  (9 ≤ n && n ≤ 13) || n == 0x20 || n == 0x85 || n == 0xa0 || n == 0x1680 ||
    (0x2000 ≤ n && n ≤ 0x200a) || n == 0x2028 || n == 0x2029 || n == 0x202f || n == 0x205f ||
    n == 0x3000

/-- The message with every number standing in for itself. -/
def diagnosticShape (message : String) : String :=
  let tokens := (message.toList.splitOnP isWhitespace).filter fun token => !token.isEmpty
  " ".intercalate (tokens.map fun token =>
    if token.any Char.isDigit then "#" else String.ofList token)

/-- One kind of complaint, and how many times the walk made it. -/
structure DiagnosticShape where
  shape : String
  total : ℕ
  deriving DecidableEq

/-- A bounded verbatim sample, and the totals that say what the sample left out. -/
structure PoolDiagnostics where
  examples : List String
  shapes : List DiagnosticShape
  positions : List (String × ℕ)
  deriving DecidableEq

namespace PoolDiagnostics

def empty : PoolDiagnostics := { examples := [], shapes := [], positions := [] }

def positionOf (diagnostics : PoolDiagnostics) (shape : String) : PoolDiagnostics × ℕ :=
  match diagnostics.positions.lookup shape with
  | some position => (diagnostics, position)
  | none =>
    let position := diagnostics.shapes.length
    ({ diagnostics with
       shapes := diagnostics.shapes ++ [{ shape, total := 0 }]
       positions := diagnostics.positions ++ [(shape, position)] }, position)

/-- Record one complaint, keeping it verbatim only while its shape has room. -/
def push (diagnostics : PoolDiagnostics) (message : String) : PoolDiagnostics :=
  let placed := diagnostics.positionOf (diagnosticShape message)
  let shapes := placed.1.shapes.modify placed.2 fun seen => { seen with total := seen.total + 1 }
  let total := (shapes[placed.2]?.map DiagnosticShape.total).getD 0
  { placed.1 with
    shapes
    examples := if total ≤ diagnosticExamples then placed.1.examples ++ [message]
      else placed.1.examples }

def extend (diagnostics : PoolDiagnostics) (messages : List String) : PoolDiagnostics :=
  messages.foldl push diagnostics

end PoolDiagnostics

/-! ## Match limits -/

/-- Stop after this many allocated chunks carry the tag. -/
structure PoolMatchLimit where
  rawTag : ℕ
  /-- Paged only, nonpaged only, or both. -/
  paged : Option Bool
  /-- The source's `matches`, a non-zero machine word. -/
  threshold : ℕ
  threshold_pos : 0 < threshold
  threshold_lt : threshold < 2 ^ 64

def PoolMatchLimit.accepts (limit : PoolMatchLimit) (span : PoolSpan) : Bool :=
  decide (span.state = .allocated) && decide (span.rawTag = limit.rawTag) &&
    limit.paged.all fun paged => span.poolKind.isPaged == paged

/-! ## The snapshot -/

/-- What valid-region queries that could not advance cost the walk. -/
structure WalkStalls where
  pages : ℕ
  skippedBytes : ℕ
  recoveredBytes : ℕ
  deriving DecidableEq

structure PoolSnapshot where
  spans : List PoolSpan
  diagnostics : PoolDiagnostics
  complete : Bool
  /-- Whether what stopped this walk short was its deadline. -/
  budgetExpired : Bool
  /-- The match threshold that ended this walk, when one fired. -/
  stoppedAfterMatches : Option ℕ
  matchLimit : Option PoolMatchLimit
  matchedAllocations : ℕ
  stalls : WalkStalls
  /-- Chunk headers a decoder refused and resynchronised past. -/
  refusedChunks : ℕ
  /-- Committed bytes of a VS subsegment the walk declined to decode. -/
  unplacedBytes : ℕ

namespace PoolSnapshot

def start (diagnostics : PoolDiagnostics) (complete : Bool) (matchLimit : Option PoolMatchLimit) :
    PoolSnapshot :=
  { spans := []
    diagnostics
    complete
    budgetExpired := false
    stoppedAfterMatches := none
    matchLimit
    matchedAllocations := 0
    stalls := { pages := 0, skippedBytes := 0, recoveredBytes := 0 }
    refusedChunks := 0
    unplacedBytes := 0 }

def recordSpan (snapshot : PoolSnapshot) (span : PoolSpan) : PoolSnapshot :=
  let recorded := { snapshot with spans := snapshot.spans ++ [span] }
  match snapshot.matchLimit with
  | none => recorded
  | some limit =>
    if limit.accepts span then
      let matched := saturatingAdd snapshot.matchedAllocations 1
      if limit.threshold ≤ matched then
        { recorded with matchedAllocations := matched, complete := false,
                        stoppedAfterMatches := some limit.threshold }
      else { recorded with matchedAllocations := matched }
    else recorded

def matchLimitReached (snapshot : PoolSnapshot) : Bool := snapshot.stoppedAfterMatches.isSome

def spanLe (a b : PoolSpan) : Prop :=
  toLex (a.heap.poolState, toLex (a.heap.heap, toLex (a.heap.special, a.usableAddress))) ≤
    toLex (b.heap.poolState, toLex (b.heap.heap, toLex (b.heap.special, b.usableAddress)))

instance : DecidableRel spanLe := fun _ _ => inferInstanceAs (Decidable (_ ≤ _))

/-- The spans by heap and address; spans that compare equal stay in recording order. -/
def sortSpans (snapshot : PoolSnapshot) : PoolSnapshot :=
  { snapshot with spans := snapshot.spans.insertionSort spanLe }

/-! ## What a walk writes -/

def complain (message : String) : Walk PoolSnapshot Unit :=
  update fun snapshot => { snapshot with diagnostics := snapshot.diagnostics.push message }

def clearComplete : Walk PoolSnapshot Unit :=
  update fun snapshot => { snapshot with complete := false }

def record (span : PoolSpan) : Walk PoolSnapshot Unit :=
  update fun snapshot => snapshot.recordSpan span

def limitReached : Walk PoolSnapshot Bool := Run.read fun w => w.state.matchLimitReached

end PoolSnapshot

def baseSpan (region : PoolRegion) (header usable size tag : ℕ) (state : PoolState) : PoolSpan :=
  { headerAddress := header
    usableAddress := usable
    size
    requestedSize := region.requestedSize
    rawTag := tag
    displayTag := displayTag tag
    poolKind := region.poolKind
    numaNode := region.numaNode
    heap := region.heap
    subsegment := region.subsegment
    backend := region.backend
    state
    sizeClass := region.unitSize }

end DbgScope.Pool
