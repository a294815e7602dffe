import DbgScope.Pool.Decode

/-!
# Resolved layouts

`src/pool/layout.rs`, the part a walk reads: the sizes and field offsets a target's symbols gave,
and the judgements made from which of them are there. Types and fields are looked up by name and
may be missing; a layout with no `ExPoolState` is `ntdll`'s, and everything that differs between
the two allocators follows from that.
-/

namespace DbgScope.Pool

inductive TypeName where
  | exPoolHeapManagerState
  | exHeapPoolNode
  | segmentHeap
  | heapSegContext
  | heapPageSegment
  | heapPageRangeDescriptor
  | heapVsContext
  | heapVsDelayFreeContext
  | heapVsSubsegment
  | heapVsChunkHeader
  | heapVsChunkFreeHeader
  | heapLfhContext
  | heapLfhSubsegment
  | heapLfhSubsegmentEncodedOffsets
  | rtlpHpHeapGlobals
  | rtlRbTree
  | rtlBalancedNode
  | poolHeader
  | slistHeader
  | heapVsAffinitySlot
  | heapVsSlotMap
  | rtlDynamicLookaside
  | rtlLookaside
  | poolTrackerBigPages
  | heapLargeAllocData
  deriving DecidableEq

def TypeName.text : TypeName → String
  | .exPoolHeapManagerState => "_EX_POOL_HEAP_MANAGER_STATE"
  | .exHeapPoolNode => "_EX_HEAP_POOL_NODE"
  | .segmentHeap => "_SEGMENT_HEAP"
  | .heapSegContext => "_HEAP_SEG_CONTEXT"
  | .heapPageSegment => "_HEAP_PAGE_SEGMENT"
  | .heapPageRangeDescriptor => "_HEAP_PAGE_RANGE_DESCRIPTOR"
  | .heapVsContext => "_HEAP_VS_CONTEXT"
  | .heapVsDelayFreeContext => "_HEAP_VS_DELAY_FREE_CONTEXT"
  | .heapVsSubsegment => "_HEAP_VS_SUBSEGMENT"
  | .heapVsChunkHeader => "_HEAP_VS_CHUNK_HEADER"
  | .heapVsChunkFreeHeader => "_HEAP_VS_CHUNK_FREE_HEADER"
  | .heapLfhContext => "_HEAP_LFH_CONTEXT"
  | .heapLfhSubsegment => "_HEAP_LFH_SUBSEGMENT"
  | .heapLfhSubsegmentEncodedOffsets => "_HEAP_LFH_SUBSEGMENT_ENCODED_OFFSETS"
  | .rtlpHpHeapGlobals => "_RTLP_HP_HEAP_GLOBALS"
  | .rtlRbTree => "_RTL_RB_TREE"
  | .rtlBalancedNode => "_RTL_BALANCED_NODE"
  | .poolHeader => "_POOL_HEADER"
  | .slistHeader => "_SLIST_HEADER"
  | .heapVsAffinitySlot => "_HEAP_VS_AFFINITY_SLOT"
  | .heapVsSlotMap => "_HEAP_VS_SLOT_MAP"
  | .rtlDynamicLookaside => "_RTL_DYNAMIC_LOOKASIDE"
  | .rtlLookaside => "_RTL_LOOKASIDE"
  | .poolTrackerBigPages => "_POOL_TRACKER_BIG_PAGES"
  | .heapLargeAllocData => "_HEAP_LARGE_ALLOC_DATA"

inductive FieldName where
  | numberOfPools
  | poolNode
  | specialHeaps
  | heaps
  | lookasides
  | segContexts
  | vsContext
  | lfhContext
  | largeAllocMetadata
  | segmentListHead
  | freePageRanges
  | unitShift
  | firstDescriptorIndex
  | segmentMask
  | listEntry
  | descArray
  | signature
  | unitSize
  | rangeFlags
  | treeNode
  | treeSignature
  | config
  | slotMapRef
  | affinityMask
  | freeChunkTree
  | delayFreeContext
  | vsContextOffset
  | slotRef
  | listHead
  | sizeField
  | sizes
  | buckets
  | affinitySlots
  | blockOffsets
  | blockBitmap
  | blockCount
  | encodedData
  | heapKey
  | lfhKey
  | root
  | encoded
  | left
  | right
  | previousSize
  | poolIndex
  | blockSize
  | poolType
  | poolTag
  | alignment
  | region
  | bucketCount
  | va
  | key
  | numberOfBytes
  | virtualAddress
  | allocatedPages
  | unusedBytes
  deriving DecidableEq

def FieldName.text : FieldName → String
  | .numberOfPools => "NumberOfPools"
  | .poolNode => "PoolNode"
  | .specialHeaps => "SpecialHeaps"
  | .heaps => "Heaps"
  | .lookasides => "Lookasides"
  | .segContexts => "SegContexts"
  | .vsContext => "VsContext"
  | .lfhContext => "LfhContext"
  | .largeAllocMetadata => "LargeAllocMetadata"
  | .segmentListHead => "SegmentListHead"
  | .freePageRanges => "FreePageRanges"
  | .unitShift => "UnitShift"
  | .firstDescriptorIndex => "FirstDescriptorIndex"
  | .segmentMask => "SegmentMask"
  | .listEntry => "ListEntry"
  | .descArray => "DescArray"
  | .signature => "Signature"
  | .unitSize => "UnitSize"
  | .rangeFlags => "RangeFlags"
  | .treeNode => "TreeNode"
  | .treeSignature => "TreeSignature"
  | .config => "Config"
  | .slotMapRef => "SlotMapRef"
  | .affinityMask => "AffinityMask"
  | .freeChunkTree => "FreeChunkTree"
  | .delayFreeContext => "DelayFreeContext"
  | .vsContextOffset => "VsContextOffset"
  | .slotRef => "SlotRef"
  | .listHead => "ListHead"
  | .sizeField => "Size"
  | .sizes => "Sizes"
  | .buckets => "Buckets"
  | .affinitySlots => "AffinitySlots"
  | .blockOffsets => "BlockOffsets"
  | .blockBitmap => "BlockBitmap"
  | .blockCount => "BlockCount"
  | .encodedData => "EncodedData"
  | .heapKey => "HeapKey"
  | .lfhKey => "LfhKey"
  | .root => "Root"
  | .encoded => "Encoded"
  | .left => "Left"
  | .right => "Right"
  | .previousSize => "PreviousSize"
  | .poolIndex => "PoolIndex"
  | .blockSize => "BlockSize"
  | .poolType => "PoolType"
  | .poolTag => "PoolTag"
  | .alignment => "Alignment"
  | .region => "Region"
  | .bucketCount => "BucketCount"
  | .va => "Va"
  | .key => "Key"
  | .numberOfBytes => "NumberOfBytes"
  | .virtualAddress => "VirtualAddress"
  | .allocatedPages => "AllocatedPages"
  | .unusedBytes => "UnusedBytes"

inductive GlobalName where
  | exPoolState
  | rtlpHpHeapGlobals
  | poolBigPageTable
  | poolBigPageTableSize
  deriving DecidableEq

structure TypeLayout where
  size : ℕ
  fields : FieldName → Option ℕ

/-- A resolved allocator schema: the source's `AllocatorSchema`. -/
structure PoolLayout where
  globals : GlobalName → Option ℕ
  types : TypeName → Option TypeLayout

inductive LayoutError where
  | missing (item : String)
  deriving DecidableEq

def LayoutError.text : LayoutError → String
  | .missing item => s!"missing allocator symbols ({item})"

/-- How an affinity slot names the VS context it belongs to, and where. -/
inductive SlotBackReference where
  | address (offset : ℕ)
  | displacement (offset : ℕ)
  deriving DecidableEq

/-- Where a schema keeps its VS free-chunk state. -/
inductive VsShape where
  | inline (tree : ℕ) (delay : Option ℕ)
  | affinitySlots (slotMapRef affinityMask slotRef tree : ℕ) (delay : Option ℕ)
      (back : SlotBackReference)
  deriving DecidableEq

def inlineVsFields : List (TypeName × FieldName) :=
  [(.heapVsContext, .freeChunkTree), (.heapVsContext, .delayFreeContext)]

/-- What both affinity-slot families need. -/
def affinityVsFields : List (TypeName × FieldName) :=
  [(.heapVsContext, .slotMapRef), (.heapVsContext, .affinityMask),
    (.heapVsAffinitySlot, .freeChunkTree), (.heapVsAffinitySlot, .delayFreeContext),
    (.heapVsSlotMap, .slotRef)]

/-- The back-reference spellings, newest first. -/
def slotBackReferences : List FieldName := [.vsContextOffset, .vsContext]

def fieldText (item : TypeName × FieldName) : String := s!"{item.1.text}.{item.2.text}"

namespace PoolLayout

variable (layout : PoolLayout)

def isUser : Bool :=
  (layout.globals .exPoolState).isNone && (layout.globals .rtlpHpHeapGlobals).isSome

/-- How this schema's allocator packs an LFH block bitmap. -/
def lfhBitmap : LfhBitmap := if layout.isUser then .splitWord else .contiguousBits

def typeLayout (name : TypeName) : Except LayoutError TypeLayout :=
  match layout.types name with
  | some type => .ok type
  | none => .error (.missing name.text)

def field (typeName : TypeName) (name : FieldName) : Except LayoutError ℕ := do
  let type ← layout.typeLayout typeName
  match type.fields name with
  | some offset => .ok offset
  | none => .error (.missing (fieldText (typeName, name)))

def poolHeaderLayout : Except LayoutError PoolHeaderLayout :=
  if layout.isUser then
    .ok { size := 0, previousSize := 0, poolIndex := 0, blockSize := 0, poolType := 0, tag := 0 }
  else do
    let type ← layout.typeLayout .poolHeader
    let previousSize ← layout.field .poolHeader .previousSize
    let poolIndex ← layout.field .poolHeader .poolIndex
    let blockSize ← layout.field .poolHeader .blockSize
    let poolType ← layout.field .poolHeader .poolType
    let tag ← layout.field .poolHeader .poolTag
    .ok { size := type.size, previousSize, poolIndex, blockSize, poolType, tag }

def absent (wanted : List (TypeName × FieldName)) : List String :=
  (wanted.filter fun item => !(layout.field item.1 item.2).isOk).map fieldText

/-- Which VS representation this schema describes, decided by the fields it carries. -/
def vsShape : Except String VsShape :=
  let inlineAbsent := layout.absent inlineVsFields
  let affinityAbsent := layout.absent affinityVsFields
  let backs := slotBackReferences.filterMap fun name =>
    (layout.field .heapVsAffinitySlot name).toOption.map fun offset => (name, offset)
  let commas := fun (items : List String) => ", ".intercalate items
  if affinityAbsent.isEmpty && decide (backs.length > 1) then
    let carried := " and ".intercalate (backs.map fun back => back.1.text)
    .error (s!"_HEAP_VS_AFFINITY_SLOT carries {carried}, so which one names the context is " ++
      "ambiguous and the layout is ambiguous with it")
  else
    let affinity := if affinityAbsent.isEmpty then
        match backs with
        | [(.vsContext, offset)] => some (SlotBackReference.address offset)
        | [(.vsContextOffset, offset)] => some (SlotBackReference.displacement offset)
        | _ => none
      else none
    match inlineAbsent.isEmpty, affinity with
    | true, some _ =>
      let inlineText := commas (inlineVsFields.map fieldText)
      let affinityText := commas (affinityVsFields.map fieldText)
      .error ("both VS structural families are present and the layout is ambiguous " ++
        s!"(inline: {inlineText}; affinity slots: {affinityText})")
    | true, none => do
      let tree ← (layout.field .heapVsContext .freeChunkTree).mapError LayoutError.text
      .ok (.inline tree (layout.field .heapVsContext .delayFreeContext).toOption)
    | false, some back => do
      let slotMapRef ← (layout.field .heapVsContext .slotMapRef).mapError LayoutError.text
      let affinityMask ← (layout.field .heapVsContext .affinityMask).mapError LayoutError.text
      let slotRef ← (layout.field .heapVsSlotMap .slotRef).mapError LayoutError.text
      let tree ← (layout.field .heapVsAffinitySlot .freeChunkTree).mapError LayoutError.text
      .ok (.affinitySlots slotMapRef affinityMask slotRef tree
        (layout.field .heapVsAffinitySlot .delayFreeContext).toOption back)
    | false, none =>
      if affinityAbsent.isEmpty then
        let spellings := commas (slotBackReferences.map FieldName.text)
        .error ("no recognized VS structural family is complete: the affinity-slot shape " ++
          "resolved except for how a slot names its context — _HEAP_VS_AFFINITY_SLOT carries " ++
          s!"none of {spellings}")
      else
        let inlineText := commas inlineAbsent
        let affinityText := commas affinityAbsent
        .error (s!"no recognized VS structural family is complete: inline wants {inlineText}, " ++
          s!"affinity slots want {affinityText}")

end PoolLayout

end DbgScope.Pool
