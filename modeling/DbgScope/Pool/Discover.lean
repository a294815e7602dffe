import DbgScope.Pool.Evidence
import DbgScope.Pool.Segments

/-!
# Discovery

From the pool state down: the pool nodes and the special heaps, each heap's segment contexts and
large allocations, and the regions they come to. A failure below one heap is that heap's
diagnostic; a halt is about the walk, and is raised.
-/

namespace DbgScope.Pool

open Discovery

/-! ## Large allocations -/

/-- Where the tree of large allocations is, and the fields its nodes are read by. -/
structure LargeFields where
  tree : ℕ
  size : ℕ
  treeNode : ℕ
  virtualAddress : ℕ
  allocatedPages : ℕ

variable (memory : PoolMemory) (layout : PoolLayout) (site : HeapSite)

def PoolLayout.largeFields : Option LargeFields := do
  let tree ← (layout.field .segmentHeap .largeAllocMetadata).toOption
  let large ← (layout.typeLayout .heapLargeAllocData).toOption
  let treeNode ← (layout.field .heapLargeAllocData .treeNode).toOption
  let virtualAddress ← (layout.field .heapLargeAllocData .virtualAddress).toOption
  let allocatedPages ← (layout.field .heapLargeAllocData .allocatedPages).toOption
  some { tree, size := large.size, treeNode, virtualAddress, allocatedPages }

/-- The address and page count a large allocation's metadata records. -/
def largeAllocationOf (fields : LargeFields) (bytes : List UInt8) : Option (ℕ × ℕ) := do
  let virtualAddress ← readU64 bytes fields.virtualAddress
  let pages ← readU64 bytes fields.allocatedPages
  if layout.isUser then decodeLargeAllocationFor virtualAddress pages true
  else decodeLargeAllocation virtualAddress pages

/-- The exact request of a large allocation, where the symbols confirm how it is stored. -/
def largeRequestedSize (fields : LargeFields) (bytes : List UInt8) (allocatedBytes : ℕ) :
    Option ℕ := do
  let aliased := (layout.field .heapLargeAllocData .unusedBytes).toOption =
    some fields.virtualAddress
  let word ← readU64 bytes fields.virtualAddress
  decodeLargeRequestedSize word allocatedBytes aliased

def largeTag (virtualAddress bytes : ℕ) : Walk Discovery (ℕ × ℕ) :=
  if layout.isUser then pure (0, bytes)
  else do
    match ← bigPage memory virtualAddress with
    | some entry => pure (entry.tag, entry.size)
    | none => do
      complain s!"no validated big-page entry for large allocation {hex virtualAddress}"
      pure (0, bytes)

def discoverLargeAllocation (fields : LargeFields) (node : ℕ) : Walk Discovery Unit := do
  checkBudget memory
  let allocationAddress := node - fields.treeNode
  let some allocation ← inDiagnostics (reported
      (guardedRead memory allocationAddress fields.size)
      (fun error => (s!"cannot read large-allocation metadata {hex allocationAddress}: " ++
        s!"{error.text}")))
    | pure ()
  let some (virtualAddress, pages) := largeAllocationOf layout fields allocation
    | pure ()
  if pages > 0x100000 then
    complain s!"rejecting implausible large allocation at {hex allocationAddress}"
  else do
    let bytes := pages * pageSize
    let requestedSize := largeRequestedSize layout fields allocation bytes
    let (tag, trackedSize) ← largeTag memory layout virtualAddress bytes
    let size := min trackedSize bytes
    let .ok poolHeader := layout.poolHeaderLayout
      | pure ()
    pushRegion
      { address := virtualAddress
        size
        requestedSize := if layout.isUser then requestedSize else none
        poolKind := site.poolKind
        numaNode := site.numaNode
        heap := site.identity
        subsegment := none
        backend := .large
        unitSize := min size u32Max
        bitmap := []
        heapKey := site.heapKey
        poolHeader
        vsHeaderSize := 0
        vsSizesOffset := 0
        vsSkipsPageEnd := false
        knownTag := some tag
        states := [.allocated]
        reusableChunks := ∅
        cachedChunks := ∅
        bigPool := [] }

def discoverLargeAllocations (heapAddress traversalLimit : ℕ) : Walk Discovery Unit := do
  let some fields := layout.largeFields
    | pure ()
  let nodes ← inDiagnostics (treeNodes memory layout (wrappingAdd heapAddress fields.tree)
    traversalLimit "large-allocation tree")
  Run.fold (fun _ node => discoverLargeAllocation memory layout site fields node) nodes ()

/-! ## One heap -/

def lfhProbes : List (FieldName × String) :=
  [(.buckets, "LFH buckets"), (.affinitySlots, "LFH affinity slots")]

/-- Touch one LFH root, so that a bad one is a diagnostic rather than a fatal read. -/
def lfhProbe (lfh : ℕ) (probe : FieldName × String) : Walk (List String) Unit :=
  match layout.field .heapLfhContext probe.1 with
  | .error _ => pure ()
  | .ok offset => do
    let label := probe.2
    let _ ← reported (guardedRead memory (wrappingAdd lfh offset) 8)
      (fun error => s!"cannot read {label}: {error.text}")
    pure ()

def lfhProbesOf (heapAddress : ℕ) : Walk (List String) Unit :=
  match layout.field .segmentHeap .lfhContext with
  | .error _ => pure ()
  | .ok lfhOffset =>
    Run.fold (fun _ probe => lfhProbe memory layout (wrappingAdd heapAddress lfhOffset) probe)
      lfhProbes ()

def discoverContext (evidence : VsEvidence)
    (heapAddress contextsOffset contextSize traversalLimit index : ℕ) : Walk Discovery Unit := do
  checkBudget memory
  let contextAddress :=
    wrappingAdd (wrappingAdd heapAddress contextsOffset) (index * contextSize)
  absorbing (discoverSegmentContext memory layout site evidence contextAddress traversalLimit)
    (fun error => (s!"cannot discover segment context {index} at {hex contextAddress}: " ++
      s!"{error.text}"))

def discoverHeapRegions (heapAddress : ℕ) (dynamicLookaside : Option ℕ) (traversalLimit : ℕ) :
    Walk Discovery Unit := do
  let _ ← typeLayoutOf layout .segmentHeap
  let context ← typeLayoutOf layout .heapSegContext
  let contextsOffset ← fieldOf layout .segmentHeap .segContexts
  let (reusableChunks, cachedChunks) ← inDiagnostics
    (discoverVsEvidence memory layout heapAddress dynamicLookaside traversalLimit)
  let skips ← inDiagnostics (vsSkipsPageEnd memory layout heapAddress)
  inDiagnostics (lfhProbesOf memory layout heapAddress)
  let evidence : VsEvidence := { reusableChunks, cachedChunks, vsSkipsPageEnd := skips }
  Run.fold (fun _ index => discoverContext memory layout site evidence heapAddress contextsOffset
    context.size traversalLimit index) [0, 1] ()
  discoverLargeAllocations memory layout site heapAddress traversalLimit

/-! ## The pool -/

structure PoolHeap where
  address : ℕ
  numaNode : ℕ
  poolKind : PoolKind
  special : Bool
  dynamicLookaside : Option ℕ

def nodePoolKind : ℕ → PoolKind
  | 0 => .nonPagedExecutable
  | 1 => .nonPagedNx
  | 2 => .paged
  | _ => .prototypePaged

def specialPoolKinds : List PoolKind :=
  [.specialNonPaged, .specialNonPagedNx, .specialPaged, .specialPrototypePaged]

def nodeLookaside (nodeAddress : ℕ) (kind : PoolKind) : Option ℕ := do
  let offset ← (layout.field .exHeapPoolNode .lookasides).toOption
  let lookaside ← (layout.typeLayout .rtlDynamicLookaside).toOption
  let base ← checkedAdd nodeAddress offset
  checkedAdd base (if kind.isPaged then lookaside.size else 0)

def nodeHeap (numaNode nodeAddress heapsOffset : ℕ) (heaps : List PoolHeap) (heapIndex : ℕ) :
    Walk (List String) (List PoolHeap) := do
  let pointer := wrappingAdd (wrappingAdd nodeAddress heapsOffset) (heapIndex * 8)
  let some heap ← reported (scalar memory pointer 8)
      (fun error => s!"cannot read pool node {numaNode} heap {heapIndex}: {error.text}")
    | pure heaps
  if heap = 0 then pure heaps
  else
    let poolKind := nodePoolKind heapIndex
    pure (heaps ++ [{ address := heap, numaNode, poolKind, special := false,
                      dynamicLookaside := nodeLookaside layout nodeAddress poolKind }])

def nodeHeaps (stateAddress nodeOffset nodeSize heapsOffset : ℕ) (heaps : List PoolHeap)
    (numaNode : ℕ) : Walk (List String) (List PoolHeap) := do
  checkBudget memory
  match (checkedAdd stateAddress nodeOffset).bind
      (fun address => checkedAdd address (wrappingMul numaNode nodeSize)) with
  | none => do
    report "pool-node address overflow"
    pure heaps
  | some nodeAddress =>
    Run.fold (nodeHeap memory layout numaNode nodeAddress heapsOffset) [0, 1, 2, 3] heaps

def specialHeap (stateAddress specialOffset : ℕ) (heaps : List PoolHeap) (special : PoolKind × ℕ) :
    Walk (List String) (List PoolHeap) := do
  let index := special.2
  let some heap ← reported
      (scalar memory (wrappingAdd (wrappingAdd stateAddress specialOffset) (index * 8)) 8)
      (fun error => s!"cannot read special pool heap {index}: {error.text}")
    | pure heaps
  if heap = 0 then pure heaps
  else pure (heaps ++ [{ address := heap, numaNode := 0, poolKind := special.1, special := true,
                         dynamicLookaside := none }])

/-- `RtlpHpHeapGlobals` and one of the keys in it. -/
def heapGlobal {S : Type} (memory : PoolMemory) (layout : PoolLayout) (globalsAddress : ℕ)
    (name : FieldName) : Walk S ℕ := do
  let offset ← fieldOf layout .rtlpHpHeapGlobals name
  scalar memory (wrappingAdd globalsAddress offset) 8

def globalOf {S : Type} (layout : PoolLayout) (name : GlobalName) (text : String) : Walk S ℕ :=
  match layout.globals name with
  | some address => pure address
  | none => Run.fail (missingLayout text)

def discoverPoolHeap (stateAddress heapKey lfhKey traversalLimit : ℕ) (heap : PoolHeap) :
    Walk Discovery Unit :=
  let site : HeapSite :=
    { numaNode := heap.numaNode
      poolKind := heap.poolKind
      identity := { poolState := stateAddress, heap := heap.address, special := heap.special }
      heapKey
      lfhKey }
  let address := heap.address
  absorbing
    (discoverHeapRegions memory layout site heap.address heap.dynamicLookaside traversalLimit)
    (fun error => s!"cannot fully discover heap {hex address}: {error.text}")

def discoverPoolRegions (traversalLimit : ℕ) : Walk Discovery Unit := do
  let stateAddress ← globalOf layout .exPoolState "ExPoolState"
  let _ ← typeLayoutOf layout .exPoolHeapManagerState
  let node ← typeLayoutOf layout .exHeapPoolNode
  let numberOffset ← fieldOf layout .exPoolHeapManagerState .numberOfPools
  let nodeOffset ← fieldOf layout .exPoolHeapManagerState .poolNode
  let specialOffset ← fieldOf layout .exPoolHeapManagerState .specialHeaps
  let heapsOffset ← fieldOf layout .exHeapPoolNode .heaps
  let number ← scalar memory (wrappingAdd stateAddress numberOffset) 4
  if number = 0 ∨ number > 256 then
    Run.fail (.invalidData s!"implausible ExPoolState.NumberOfPools {number}")
  else do
    let nodes ← inDiagnostics (Run.fold
      (nodeHeaps memory layout stateAddress nodeOffset node.size heapsOffset)
      (List.range number) [])
    let heaps ← inDiagnostics (Run.fold (specialHeap memory stateAddress specialOffset)
      specialPoolKinds.zipIdx nodes)
    let globalsAddress ← globalOf layout .rtlpHpHeapGlobals "RtlpHpHeapGlobals"
    let heapKey ← heapGlobal memory layout globalsAddress .heapKey
    let lfhKey ← heapGlobal memory layout globalsAddress .lfhKey
    let table ← inDiagnostics (BigPageTable.openTable memory layout)
    update fun discovery => { discovery with bigPages := table }
    Run.fold (fun _ heap =>
      discoverPoolHeap memory layout stateAddress heapKey lfhKey traversalLimit heap) heaps ()

end DbgScope.Pool
