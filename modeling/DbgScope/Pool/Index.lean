import DbgScope.Pool.Walk

/-!
# Neighbours and holes

`src/pool/index.rs` and the neighbour query of `src/pool/query.rs`: the spans of a walk by heap and
address, what stands next to a chunk, and the free chunks an overflow or an underflow would run
into, best first. A query for an address asks of two neighbours that they touch, except in a VS
subsegment, where a chunk's header stands in front of the one its span records.
-/

namespace DbgScope.Pool

namespace PoolIndex

def sameBoundary (left right : PoolSpan) : Bool :=
  decide (left.poolKind = right.poolKind) && decide (left.numaNode = right.numaNode) &&
    decide (left.heap = right.heap) && decide (left.backend = right.backend) &&
    decide (left.subsegment = right.subsegment) && left.state.isChunk && right.state.isChunk

def predecessor (index : PoolIndex) (position : ℕ) : Option ℕ := do
  let previous ← checkedSub position 1
  let left ← index.spans[previous]?
  let right ← index.spans[position]?
  if sameBoundary left right then some previous else none

/-- No vector is as long as its checked addition would have to be to fail. -/
def successor (index : PoolIndex) (position : ℕ) : Option ℕ := do
  let left ← index.spans[position]?
  let right ← index.spans[position + 1]?
  if sameBoundary left right then some (position + 1) else none

/-! ## Neighbourhoods -/

end PoolIndex

/-- A chunk and what borders it. -/
structure PoolNeighbourhood where
  chunk : PoolSpan
  previous : Option PoolSpan
  next : Option PoolSpan

/-- One span's end against the start of the next; in a VS subsegment the two cannot be compared. -/
def touching (left right : PoolSpan) : Bool :=
  decide (left.backend = .vs) || left.spanEnd == right.headerAddress

namespace PoolIndex

def neighbourhoodOf (index : PoolIndex) (position : ℕ) : Option PoolNeighbourhood := do
  let chunk ← index.spans[position]?
  pure
    { chunk
      previous := ((index.predecessor position).bind fun previous =>
        index.spans[previous]?).filter fun previous => touching previous chunk
      next := ((index.successor position).bind fun next =>
        index.spans[next]?).filter fun next => touching chunk next }

def neighbourhoodAt (index : PoolIndex) (address : ℕ) : Option PoolNeighbourhood := do
  index.neighbourhoodOf (← index.spans.findIdx? fun span => span.containsAddress address)

end PoolIndex

/-! ## Holes -/

inductive Direction where
  | underflow
  | overflow
  deriving DecidableEq

structure Hole where
  spanIndex : ℕ
  address : ℕ
  size : ℕ
  state : PoolState
  distance : ℕ
  immediate : Bool
  deriving DecidableEq

/-- How far a span is from an allocation, by the addresses their users see. -/
def holeDistance (direction : Direction) (origin span : PoolSpan) : ℕ :=
  match direction with
  | .underflow => origin.usableAddress - span.spanEnd
  | .overflow => span.usableAddress - origin.spanEnd

namespace PoolIndex

def beside (index : PoolIndex) (direction : Direction) (position : ℕ) : Option ℕ :=
  match direction with
  | .underflow => index.predecessor position
  | .overflow => index.successor position

/-- The free chunks from `cursor` on, with those found so far; each round moves the cursor, so the
rounds are no limit. -/
def holesFrom (index : PoolIndex) (origin : PoolSpan) (direction : Direction) :
    ℕ → ℕ → List Hole → List Hole
  | 0, _, holes => holes
  | rounds + 1, cursor, holes =>
    match index.beside direction cursor with
    | none => holes
    | some next =>
      match index.spans[next]? with
      | none => holes
      | some span =>
        if span.state = .allocated then holes
        else
          let distance := holeDistance direction origin span
          index.holesFrom origin direction rounds next
            (holes ++
              [{ spanIndex := next
                 address := span.usableAddress
                 size := span.size
                 state := span.state
                 distance
                 immediate := holes.isEmpty && distance == 0 }])

def holes (index : PoolIndex) (allocation : ℕ) (direction : Direction) : List Hole :=
  match index.spans[allocation]? with
  | none => []
  | some origin => index.holesFrom origin direction (index.spans.length + 1) allocation []

def otherClass (index : PoolIndex) (origin : PoolSpan) (hole : Hole) : Bool :=
  (index.spans[hole.spanIndex]?).any fun span =>
    decide (span.backend ≠ origin.backend) || decide (span.sizeClass ≠ origin.sizeClass)

def holeKey (index : PoolIndex) (origin : PoolSpan) (hole : Hole) :
    Bool ×ₗ Bool ×ₗ Bool ×ₗ ℕ ×ₗ ℕ ×ₗ ℕ :=
  toLex (!hole.immediate, toLex (decide (hole.state ≠ .reusableFree),
    toLex (index.otherClass origin hole, toLex (hole.distance,
      toLex (2 ^ 64 - 1 - hole.size, hole.address)))))

def holeLe (index : PoolIndex) (origin : PoolSpan) (a b : Hole) : Prop :=
  index.holeKey origin a ≤ index.holeKey origin b

instance (index : PoolIndex) (origin : PoolSpan) : DecidableRel (index.holeLe origin) :=
  fun _ _ => inferInstanceAs (Decidable (_ ≤ _))

def rankedHoles (index : PoolIndex) (allocation : ℕ) (direction : Direction) : List Hole :=
  match index.spans[allocation]? with
  | none => []
  | some origin => (index.holes allocation direction).insertionSort (index.holeLe origin)

end PoolIndex

/-! ## Advice -/

def holeStateName : PoolState → String
  | .reusableFree => "reusable"
  | .cachedFree => "cached/delay-free"
  | .unreadable => "unreadable"
  | .uncommitted => "uncommitted"
  | .allocated => "allocated"

/-- What `render_advice` prints about the holes in one direction: the first of them. -/
def holeAdvice (name : String) (holes : List Hole) : String :=
  match holes.head? with
  | none => ""
  | some hole =>
    let state := holeStateName hole.state
    s!"  {name}: {state} hole at {hex hole.address}+{hex hole.size}, distance " ++
      s!"{hex hole.distance}.\n"

end DbgScope.Pool
