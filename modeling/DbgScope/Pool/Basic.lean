import DbgScope.Machine

/-!
# Pool spans

The vocabulary of `src/pool.rs`: which allocator a span came from, what the span is, and the span
itself. Three of the five states are chunks the allocator laid out; the other two are the walk
accounting for address space it could not decode, and only `unreadable` counts against coverage.
-/

namespace DbgScope.Pool

/-- Exact allocator identity. -/
inductive PoolKind where
  | nonPagedExecutable
  | nonPagedNx
  | paged
  | prototypePaged
  | specialNonPaged
  | specialNonPagedNx
  | specialPaged
  | specialPrototypePaged
  deriving DecidableEq

def PoolKind.isPaged : PoolKind → Bool
  | .paged | .prototypePaged | .specialPaged | .specialPrototypePaged => true
  | _ => false

inductive PoolBackend where
  | lfh
  | vs
  | segment
  | large
  deriving DecidableEq

inductive PoolState where
  | allocated
  | reusableFree
  | cachedFree
  /-- Not read, and nothing established was empty. -/
  | unreadable
  /-- Address space with no pages behind it, as the memory manager says. -/
  | uncommitted
  deriving DecidableEq

def PoolState.isChunk : PoolState → Bool
  | .allocated | .reusableFree | .cachedFree => true
  | .unreadable | .uncommitted => false

def PoolState.isCoverageGap : PoolState → Bool
  | .unreadable => true
  | .allocated | .reusableFree | .cachedFree | .uncommitted => false

structure HeapIdentity where
  poolState : ℕ
  heap : ℕ
  special : Bool
  deriving DecidableEq

structure PoolSpan where
  headerAddress : ℕ
  usableAddress : ℕ
  size : ℕ
  /-- The exact request, where allocator metadata validates it. -/
  requestedSize : Option ℕ
  rawTag : ℕ
  displayTag : String
  poolKind : PoolKind
  numaNode : ℕ
  heap : HeapIdentity
  subsegment : Option ℕ
  backend : PoolBackend
  state : PoolState
  sizeClass : ℕ
  deriving DecidableEq

/-- One past the span's last byte: the source's `end`. -/
def PoolSpan.spanEnd (span : PoolSpan) : ℕ := saturatingAdd span.usableAddress span.size

def PoolSpan.containsAddress (span : PoolSpan) (address : ℕ) : Bool :=
  span.headerAddress ≤ address && address < span.spanEnd

end DbgScope.Pool
