import DbgScope.Pool.Region

/-!
# Segment contexts

`discover_segment_context`: the page segments on a context's list, the page ranges a segment's
descriptors divide it into, and the region each range becomes. A range is a plain allocation, or
it holds a subsegment whose own header says where its blocks or chunks are.
-/

namespace DbgScope.Pool

open Discovery

/-- What every region of a heap carries. -/
structure HeapSite where
  numaNode : ℕ
  poolKind : PoolKind
  identity : HeapIdentity
  heapKey : ℕ
  lfhKey : ℕ

/-- What a heap's VS allocator said before its segments are walked. -/
structure VsEvidence where
  reusableChunks : Finset ℕ
  cachedChunks : Finset ℕ
  vsSkipsPageEnd : Bool

/-! ## One page range -/

/-- Where a page range's contents are, and how they are divided. -/
structure RangeShape where
  address : ℕ
  size : ℕ
  bitmap : List UInt8
  blockSize : ℕ

def u32Max : ℕ := 2 ^ 32 - 1

def plainRange (address size : ℕ) : RangeShape :=
  { address, size, bitmap := [], blockSize := min size u32Max }

variable (memory : PoolMemory) (layout : PoolLayout) (site : HeapSite) (evidence : VsEvidence)

/-- The blocks of an LFH subsegment; `none` where the range is dropped. -/
def lfhRange (lfhKey address size : ℕ) : Walk (List String) (Option RangeShape) := do
  let subsegment ← typeLayoutOf layout .heapLfhSubsegment
  let blockOffsets ← fieldOf layout .heapLfhSubsegment .blockOffsets
  let encodedData ← fieldOf layout .heapLfhSubsegmentEncodedOffsets .encodedData
  let countOffset ← fieldOf layout .heapLfhSubsegment .blockCount
  let bitmapOffset ← fieldOf layout .heapLfhSubsegment .blockBitmap
  let some header ← reported (guardedRead memory address subsegment.size)
      (fun error => s!"cannot read LFH subsegment {hex address}: {error.text}")
    | pure none
  let encoded := (readU32 header (blockOffsets + encodedData)).getD 0
  let blocks := (readU16 header countOffset).getD 0
  match decodeLfhSubsegment encoded address (lfhKey % 2 ^ 32) blocks size with
  | .error rejection => do
    report s!"rejecting LFH subsegment {hex address}: {rejection.text}"
    pure none
  | .ok lfh => do
    let some raw ← reported (guardedRead memory (wrappingAdd address bitmapOffset)
          (layout.lfhBitmap.bytesFor lfh.blocks))
        (fun error => s!"cannot read LFH bitmap at {hex address}: {error.text}")
      | pure none
    match layout.lfhBitmap.normalise raw lfh.blocks with
    | none => do
      report (s!"LFH bitmap at {hex address} is {raw.length} bytes, short of its {lfh.blocks} " ++
        "blocks")
      pure none
    | some busy =>
      pure (some { address := wrappingAdd address lfh.first, size := lfh.blocks * lfh.blockSize,
                   bitmap := busy, blockSize := lfh.blockSize })

def vsRange (address size : ℕ) : Walk (List String) (Option RangeShape) := do
  let vs ← typeLayoutOf layout .heapVsSubsegment
  let some header ← reported (guardedRead memory address vs.size)
      (fun error => s!"cannot read VS subsegment {hex address}: {error.text}")
    | pure none
  let signatureOffset ← fieldOf layout .heapVsSubsegment .signature
  let signature := (readU16 header signatureOffset).getD 0 &&& 0x7fff
  let sizeOffset ← fieldOf layout .heapVsSubsegment .sizeField
  let declared := (readU16 header sizeOffset).getD 0
  if validVsSignature (signature ^^^ declared) = false then do
    report s!"rejecting VS subsegment {hex address} with invalid signature"
    pure none
  else
    let first := nextMultipleOf vs.size 16
    if first ≥ size then pure none
    else
      let room := size - first
      let declaredSize := declared * 16
      let shape := fun size : ℕ =>
        ({ address := wrappingAdd address first, size, bitmap := [], blockSize := 0 } : RangeShape)
      -- the page range is routinely larger than the subsegment it holds
      if declaredSize = 0 ∨ declaredSize > room then do
        report (s!"VS subsegment {hex address} declares {hex declaredSize} of chunks where its " ++
          s!"page range leaves room for {hex room}")
        pure (some (shape room))
      else pure (some (shape declaredSize))

def bigPoolStep (stop : ℕ) (s : ℕ × List (ℕ × BigPageEntry)) :
    Walk Discovery (Flow (ℕ × List (ℕ × BigPageEntry)) (List (ℕ × BigPageEntry))) :=
  if stop ≤ s.1 then pure (.stop s.2)
  else do
    match ← bigPage memory s.1 with
    | some entry => pure (.again (saturatingAdd s.1 pageSize, s.2 ++ [(s.1, entry)]))
    | none => pure (.again (saturatingAdd s.1 pageSize, s.2))

/-- Every big-page allocation that begins inside a chunk area. -/
def bigPoolOf (address size : ℕ) : Walk Discovery (List (ℕ × BigPageEntry)) :=
  let page := wrappingNextMultipleOf address pageSize
  let stop := saturatingAdd address size
  Run.loop (bigPoolStep memory stop) Prod.snd ((stop - page) / pageSize + 2) (page, [])

def rangeBigPool (special : Bool) (backend : PoolBackend) (shape : RangeShape) :
    Walk Discovery (List (ℕ × BigPageEntry)) :=
  if backend = .vs ∧ special = false then bigPoolOf memory shape.address shape.size else pure []

/-- The shape of a range, by the allocator that formats it. -/
def rangeShape (lfhKey : ℕ) (backend : PoolBackend) (address size : ℕ) :
    Walk (List String) (Option RangeShape) :=
  match backend with
  | .lfh => lfhRange memory layout lfhKey address size
  | .vs => vsRange memory layout address size
  | .segment | .large => pure (some (plainRange address size))

def rangeBigPage (special : Bool) (backend : PoolBackend) (state : PoolState) (address : ℕ) :
    Walk Discovery (Option BigPageEntry) :=
  if backend = .segment ∧ special = false ∧ state = .allocated then bigPage memory address
  else pure none

/-- The shape of a range the table names: the length asked for, not the pages it was given. -/
def RangeShape.trimmed (shape : RangeShape) : Option BigPageEntry → RangeShape
  | none => shape
  | some entry =>
    if entry.size ≠ 0 ∧ entry.size < shape.size then
      { shape with size := entry.size, blockSize := min entry.size u32Max }
    else shape

def discoverRange (flags : ℕ) (state : PoolState) (address size : ℕ) : Walk Discovery Unit := do
  -- special pool is a plain range by its flags, so it is routed by the heap it came from
  let backend := if site.identity.special then PoolBackend.segment else descriptorBackend flags
  let some shape ← inDiagnostics (rangeShape memory layout site.lfhKey backend address size)
    | pure ()
  let bigPool ← rangeBigPool memory site.identity.special backend shape
  let poolHeader ← poolHeaderLayoutOf layout
  let named ← rangeBigPage memory site.identity.special backend state shape.address
  let final := shape.trimmed named
  let vsHeader ← typeLayoutOf layout .heapVsChunkHeader
  let vsSizesOffset ← fieldOf layout .heapVsChunkHeader .sizes
  pushRegion
    { address := final.address
      size := final.size
      requestedSize := none
      poolKind := site.poolKind
      numaNode := site.numaNode
      heap := site.identity
      subsegment := some address
      backend
      unitSize := final.blockSize
      bitmap := final.bitmap
      heapKey := site.heapKey
      poolHeader := if named.isSome then { poolHeader with size := 0 } else poolHeader
      vsHeaderSize := vsHeader.size
      vsSizesOffset
      vsSkipsPageEnd := evidence.vsSkipsPageEnd
      knownTag := named.map BigPageEntry.tag
      states := [state]
      reusableChunks := evidence.reusableChunks
      cachedChunks := evidence.cachedChunks
      bigPool }

/-! ## One segment -/

structure SegmentContext where
  address : ℕ
  shift : ℕ
  firstDescriptor : ℕ
  descriptorCount : ℕ
  segmentSize : ℕ
  descriptorSize : ℕ
  freeNodes : Finset ℕ
  listHead : ℕ
  listEntry : ℕ
  descArray : ℕ
  signatureOffset : ℕ
  unitOffset : ℕ
  flagsOffset : ℕ
  treeSignatureOffset : ℕ
  treeNodeOffset : ℕ

def SegmentContext.descriptorNode (context : SegmentContext) (metadataAddress offset : ℕ) : ℕ :=
  wrappingAdd metadataAddress (offset + context.treeNodeOffset)

/-- Whether a descriptor is the one its range is known by, and neither free nor signed. -/
def SegmentContext.rejects (context : SegmentContext) (metadata : List UInt8)
    (metadataAddress offset : ℕ) (decoded : Descriptor) : Bool :=
  decoded.first && decide (context.descriptorNode metadataAddress offset ∉ context.freeNodes) &&
    !((readU32 metadata (offset + context.treeSignatureOffset)).any validDescriptorTreeSignature)

/-- A range is free when it sits in the free-page tree or its own flags say so. -/
def SegmentContext.rangeState (context : SegmentContext) (metadataAddress offset : ℕ)
    (decoded : Descriptor) : PoolState :=
  if context.descriptorNode metadataAddress offset ∈ context.freeNodes ∨
      decoded.allocated = false then .reusableFree
  else .allocated

def descriptorStep (context : SegmentContext) (segmentAddress metadataAddress : ℕ)
    (metadata : List UInt8) (index : ℕ) : Walk Discovery (Flow ℕ Unit) :=
  if context.descriptorCount ≤ index then pure (.stop ())
  else do
    checkBudget memory
    let offset := index * context.descriptorSize
    match decodeDescriptorAt metadata offset context.descriptorSize context.unitOffset
        context.flagsOffset with
    | none => pure (.again (index + 1))
    | some decoded =>
      if context.rejects metadata metadataAddress offset decoded then do
        let at_ := wrappingAdd metadataAddress offset
        complain s!"rejecting descriptor {index} at {hex at_} with invalid tree signature"
        pure (.again (index + max decoded.unitSize 1))
      else
        match checkedAdd segmentAddress (index <<< context.shift) with
        | none => pure (.stop ())
        | some address =>
          let size := decoded.unitSize <<< context.shift
          if size = 0 then pure (.again (index + max decoded.unitSize 1))
          else do
            discoverRange memory layout site evidence decoded.flags
              (context.rangeState metadataAddress offset decoded) address size
            pure (.again (index + decoded.unitSize))

def discoverDescriptors (context : SegmentContext) (segmentAddress metadataAddress : ℕ)
    (metadata : List UInt8) : Walk Discovery Unit :=
  Run.loop (descriptorStep memory layout site evidence context segmentAddress metadataAddress
    metadata) (fun _ => ()) (context.descriptorCount + 1) context.firstDescriptor

/-! ## The segment list -/

structure SegmentWalk where
  entry : ℕ
  seen : Finset ℕ

def segmentSignature (header : List UInt8) (offset : ℕ) : ℕ :=
  ((readU64 header offset).or (readU32 header offset)).getD 0

def nextSegment (header : List UInt8) (listEntry : ℕ) : ℕ := (readU64 header listEntry).getD 0

def linkPast (entry : ℕ) : Walk Discovery (Option ℕ) := do
  match ← Run.attempt (scalar memory entry 8) with
  | .ok next => pure (some next)
  | .error _ => pure none

def discoverSegment (context : SegmentContext) (entry : ℕ) : Walk Discovery (Option ℕ) := do
  let segmentAddress := entry - context.listEntry
  let some header ← inDiagnostics (reported
      (guardedRead memory segmentAddress context.segmentSize)
      (fun error => s!"cannot read segment header {hex segmentAddress}: {error.text}"))
    | linkPast memory entry
  let signature := segmentSignature header context.signatureOffset
  if validPageSegmentSignature signature segmentAddress context.address site.heapKey = false then
    complain (s!"rejecting page segment {hex segmentAddress} with invalid signature " ++
      s!"{hex signature}")
    pure (some (nextSegment header context.listEntry))
  else do
    let metadataAddress := wrappingAdd segmentAddress context.descArray
    let some metadata ← inDiagnostics (reported
        (guardedRead memory metadataAddress (context.descriptorCount * context.descriptorSize))
        (fun error => s!"cannot read descriptors at {hex metadataAddress}: {error.text}"))
      | pure (some (nextSegment header context.listEntry))
    discoverDescriptors memory layout site evidence context segmentAddress metadataAddress metadata
    pure (some (nextSegment header context.listEntry))

def segmentStep (context : SegmentContext) (traversalLimit : ℕ) (s : SegmentWalk) :
    Walk Discovery (Flow SegmentWalk Unit) :=
  if s.entry = 0 ∨ s.entry = context.listHead then pure (.stop ())
  else if traversalLimit ≤ s.seen.card then
    -- the loop's condition just fails here; an entry already seen leaves nothing unvisited
    if s.entry ∈ s.seen then pure (.stop ())
    else do
      note (.capped .segmentList)
      pure (.stop ())
  else do
    checkBudget memory
    if s.entry ∈ s.seen then do
      complain s!"segment-list cycle at {hex s.entry}"
      pure (.stop ())
    else do
      let some next ← discoverSegment memory layout site evidence context s.entry
        | pure (.stop ())
      pure (.again { entry := next, seen := insert s.entry s.seen })

/-! ## The context -/

def contextScalar (contextAddress : ℕ) (name : FieldName) (size : ℕ) : Walk Discovery ℕ := do
  let offset ← fieldOf layout .heapSegContext name
  scalar memory (wrappingAdd contextAddress offset) size

def segmentContextOf (contextAddress limit : ℕ) : Walk Discovery (Option SegmentContext) := do
  let segment ← typeLayoutOf layout .heapPageSegment
  let descriptor ← typeLayoutOf layout .heapPageRangeDescriptor
  let shift ← contextScalar memory layout contextAddress .unitShift 1
  if ¬ (12 ≤ shift ∧ shift ≤ 20) then pure none
  else do
    let firstDescriptor ← contextScalar memory layout contextAddress .firstDescriptorIndex 1
    let segmentMask ← contextScalar memory layout contextAddress .segmentMask 8
    let descriptorCount := min (wrappingAdd (complement segmentMask) 1 >>> shift) 4096
    if descriptorCount = 0 ∨ firstDescriptor ≥ descriptorCount then pure none
    else do
      let freeTree ← fieldOf layout .heapSegContext .freePageRanges
      let freeNodes ← inDiagnostics (treeNodes memory layout (wrappingAdd contextAddress freeTree)
        limit "free-page tree")
      let listHead ← fieldOf layout .heapSegContext .segmentListHead
      let listEntry ← fieldOf layout .heapPageSegment .listEntry
      let descArray ← fieldOf layout .heapPageSegment .descArray
      let signatureOffset ← fieldOf layout .heapPageSegment .signature
      let unitOffset ← fieldOf layout .heapPageRangeDescriptor .unitSize
      let flagsOffset ← fieldOf layout .heapPageRangeDescriptor .rangeFlags
      let treeSignatureOffset ← fieldOf layout .heapPageRangeDescriptor .treeSignature
      let treeNodeOffset ← fieldOf layout .heapPageRangeDescriptor .treeNode
      match checkedMul descriptorCount descriptor.size with
      | none => Run.fail (.invalidData "descriptor metadata size overflow")
      | some _ =>
        pure (some
          { address := contextAddress
            shift
            firstDescriptor
            descriptorCount
            segmentSize := segment.size
            descriptorSize := descriptor.size
            freeNodes := freeNodes.toFinset
            listHead := wrappingAdd contextAddress listHead
            listEntry
            descArray
            signatureOffset
            unitOffset
            flagsOffset
            treeSignatureOffset
            treeNodeOffset })

def discoverSegmentContext (contextAddress traversalLimit : ℕ) : Walk Discovery Unit := do
  let some context ← segmentContextOf memory layout contextAddress traversalLimit
    | pure ()
  let entry ← scalar memory context.listHead 8
  Run.loop (segmentStep memory layout site evidence context traversalLimit) (fun _ => ())
    (traversalLimit + 1) { entry, seen := ∅ }

end DbgScope.Pool
