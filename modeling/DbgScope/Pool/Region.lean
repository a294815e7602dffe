import DbgScope.Pool.BigPages

/-!
# Regions, and what discovery keeps

A region is a run of address space one allocator formats, with everything walking it needs:
discovery reads the allocator's metadata once and leaves it here, so that a region's walk asks the
target for nothing but the region's own bytes.
-/

namespace DbgScope.Pool

structure PoolRegion where
  address : ℕ
  size : ℕ
  requestedSize : Option ℕ
  poolKind : PoolKind
  numaNode : ℕ
  heap : HeapIdentity
  subsegment : Option ℕ
  backend : PoolBackend
  unitSize : ℕ
  /-- An LFH subsegment's busy blocks, one bit per slot. -/
  bitmap : List UInt8
  heapKey : ℕ
  poolHeader : PoolHeaderLayout
  vsHeaderSize : ℕ
  vsSizesOffset : ℕ
  /-- Whether a user block is kept out of the last unit of a page. -/
  vsSkipsPageEnd : Bool
  knownTag : Option ℕ
  /-- Allocator-derived states of the region's cells. -/
  states : List PoolState
  /-- The chunk headers present in the free tree. -/
  reusableChunks : Finset ℕ
  /-- The chunk headers present in the delay-free and lookaside lists. -/
  cachedChunks : Finset ℕ
  /-- The big-page entries whose allocation begins inside this region, in any order. -/
  bigPool : List (ℕ × BigPageEntry)

structure Discovery where
  regions : List PoolRegion
  diagnostics : List String
  /-- The big-page table, opened once for the whole walk. -/
  bigPages : Option BigPageTable

namespace Discovery

def empty : Discovery := { regions := [], diagnostics := [], bigPages := none }

variable {α : Type}

def inDiagnostics (m : Walk (List String) α) : Walk Discovery α :=
  focus diagnostics (fun messages discovery => { discovery with diagnostics := messages }) m

def inTable (table : BigPageTable) (m : Walk (BigPageTable × List String) α) :
    Walk Discovery α :=
  focus (fun discovery => (table, discovery.diagnostics))
    (fun kept discovery => { discovery with bigPages := some kept.1, diagnostics := kept.2 }) m

def bigPage (memory : PoolMemory) (address : ℕ) : Walk Discovery (Option BigPageEntry) := do
  match ← Run.read fun w => w.state.bigPages with
  | none => pure none
  | some table => inTable table (BigPageTable.lookup memory address)

def complain (message : String) : Walk Discovery Unit := inDiagnostics (report message)

def pushRegion (region : PoolRegion) : Walk Discovery Unit :=
  update fun discovery => { discovery with regions := discovery.regions ++ [region] }

/-- A step whose failure becomes a diagnostic, unless it ends the whole walk. -/
def absorbing (step : Walk Discovery Unit) (say : SnapshotError → String) :
    Walk Discovery Unit := do
  match ← Run.attempt step with
  | .ok () => pure ()
  | .error error => if error.haltsWalk then Run.fail error else complain (say error)

end Discovery

end DbgScope.Pool
