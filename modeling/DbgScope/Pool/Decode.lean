import DbgScope.Pool.Basic

/-!
# The pool decoders

`src/pool/decode.rs`: the readings of the allocator's own structures. Bytes come in, and a value
or the predicate that failed comes out; nothing here asks the target for anything. The words these
functions take are the ones the target holds, so the encodings (the heap key and the header
address folded into a VS header, the LFH key and the page number folded into an LFH one) are
undone here and nowhere else.
-/

namespace DbgScope.Pool

def pageSize : ℕ := 0x1000

def vsSignature : ℕ := 0x2bed

def vsUnit : ℕ := 16

def pageSegmentSignature : ℕ := 0xa2e64eada2e64ead

def descriptorTreeSignature : ℕ := 0xccddccdd

/-! ## Page-range descriptors -/

def descriptorFlagAllocated : ℕ := 0x01

def descriptorFlagFirst : ℕ := 0x02

def descriptorFlagVs : ℕ := 0x04

def descriptorFlagSubsegment : ℕ := 0x08

/-- Which allocator formats a page range, from its descriptor's flags. -/
def descriptorBackend (flags : ℕ) : PoolBackend :=
  if flags &&& descriptorFlagSubsegment = 0 then .segment
  else if flags &&& descriptorFlagVs ≠ 0 then .vs
  else .lfh

structure Descriptor where
  unitSize : ℕ
  flags : ℕ
  first : Bool
  deriving DecidableEq

def Descriptor.allocated (descriptor : Descriptor) : Bool :=
  descriptor.flags &&& descriptorFlagAllocated != 0

def range (bytes : List UInt8) (offset size : ℕ) : Option (List UInt8) :=
  if offset + size ≤ bytes.length then some ((bytes.drop offset).take size) else none

def readU16 (bytes : List UInt8) (offset : ℕ) : Option ℕ := (range bytes offset 2).map fromLe

def readU32 (bytes : List UInt8) (offset : ℕ) : Option ℕ := (range bytes offset 4).map fromLe

def readU64 (bytes : List UInt8) (offset : ℕ) : Option ℕ := (range bytes offset 8).map fromLe

def decodeDescriptor (word : ℕ) : Option Descriptor :=
  let unitSize := word &&& 0x00ffffff
  let flags := word >>> 24 % 256
  if unitSize ≠ 0 then
    some { unitSize, flags, first := flags &&& descriptorFlagFirst != 0 }
  else none

def decodeDescriptorAt (bytes : List UInt8)
    (offset descriptorSize unitSizeOffset flagsOffset : ℕ) : Option Descriptor := do
  let descriptor ← range bytes offset descriptorSize
  let unitWidth := min (← checkedSub descriptorSize unitSizeOffset) 3
  if unitWidth = 0 then none
  else
    let unitBytes ← range descriptor unitSizeOffset unitWidth
    let flags ← descriptor[flagsOffset]?
    decodeDescriptor (fromLe unitBytes ||| flags.toNat <<< 24)

/-- Whether a segment's signature authenticates it, under either of the two mixes in use. -/
def validPageSegmentSignature (signature segment context heapKey : ℕ) : Bool :=
  let mixed := segment ^^^ context ^^^ heapKey
  signature == mixed ^^^ pageSegmentSignature || signature == mixed

def validDescriptorTreeSignature (signature : ℕ) : Bool := signature == descriptorTreeSignature

/-! ## VS chunk headers -/

structure VsSizes where
  size : ℕ
  previousSize : ℕ
  allocated : Bool
  deriving DecidableEq

def decodeVsSizes (encoded header heapKey : ℕ) : VsSizes :=
  let decoded := encoded ^^^ heapKey ^^^ header
  { size := (decoded >>> 16) % 2 ^ 16
    previousSize := (decoded >>> 32) % 2 ^ 16
    allocated := (decoded >>> 48) % 2 ^ 8 != 0 }

/-- One chunk header, in bytes rather than in the sixteen-byte units it stores. -/
structure VsChunk where
  size : ℕ
  previousSize : ℕ
  allocated : Bool
  deriving DecidableEq

/-- Why a VS chunk header was not believed, and the decoded values that say so. -/
structure VsRejection where
  reason : String
  size : ℕ
  previousSize : ℕ
  encoded : ℕ
  deriving DecidableEq

/-- A hexadecimal number padded with zeros to `digits` digits after its prefix. -/
def hexPadded (digits n : ℕ) : String :=
  let text := Nat.toDigits 16 n
  "0x" ++ String.ofList (List.replicate (digits - text.length) '0' ++ text)

def VsRejection.text (r : VsRejection) : String :=
  (s!"{r.reason} (size {hex r.size}, previous size {hex r.previousSize}, " ++
    s!"encoded {hexPadded 16 r.encoded})")

/-- Decodes a VS chunk header, or says which plausibility check it failed. -/
def decodeVsChunk (encoded headerAddress heapKey headerBytes subsegmentEnd : ℕ) :
    Except VsRejection VsChunk :=
  let sizes := decodeVsSizes encoded headerAddress heapKey
  let size := sizes.size * vsUnit
  let previousSize := sizes.previousSize * vsUnit
  let reject := fun reason => Except.error { reason, size, previousSize, encoded }
  if size = 0 then reject "the size word decodes to zero"
  else if size < headerBytes then reject "the chunk is smaller than its own headers"
  else if saturatingAdd headerAddress size > subsegmentEnd then
    reject "the chunk runs past the end of its subsegment"
  else .ok { size, previousSize, allocated := sizes.allocated }

def validVsSignature (signature : ℕ) : Bool := signature == vsSignature

/-! ## LFH subsegments -/

def decodeLfhOffsets (encoded subsegment lfhKey : ℕ) : ℕ × ℕ :=
  let decoded := encoded ^^^ lfhKey ^^^ (subsegment >>> 12) % 2 ^ 32
  (decoded % 2 ^ 16, (decoded >>> 16) % 2 ^ 16)

def lfhMinBlockSize : ℕ := 8

/-- How an LFH subsegment header divides its page range into blocks. -/
structure LfhSubsegment where
  blockSize : ℕ
  /-- Where the first block starts, past the header and block bitmap. -/
  first : ℕ
  blocks : ℕ
  deriving DecidableEq

/-- Why an LFH subsegment header was not believed, and the decoded values that say so. -/
structure LfhRejection where
  reason : String
  blockSize : ℕ
  blocks : ℕ
  first : ℕ
  regionSize : ℕ
  encoded : ℕ
  deriving DecidableEq

def LfhRejection.text (r : LfhRejection) : String :=
  (s!"{r.reason} (block size {hex r.blockSize}, {r.blocks} blocks at offset {hex r.first} of a " ++
    s!"{hex r.regionSize} byte range, encoded {hexPadded 8 r.encoded})")

/-- Decodes an LFH subsegment header, or says which plausibility check it failed. -/
def decodeLfhSubsegment (encoded subsegment lfhKey blocks regionSize : ℕ) :
    Except LfhRejection LfhSubsegment :=
  let (blockSize, first) := decodeLfhOffsets encoded subsegment lfhKey
  let reject := fun reason =>
    Except.error { reason, blockSize, blocks, first, regionSize, encoded }
  if encoded = 0 ∧ blocks = 0 then reject "header is not initialised"
  else if blocks = 0 then reject "block count is zero"
  else if blockSize < lfhMinBlockSize then
    reject "block size is below the eight byte minimum"
  else if first ≥ regionSize then reject "first block offset is past the end of the range"
  else if blocks * blockSize > regionSize - first then reject "the blocks overrun the range"
  else .ok { blockSize, first, blocks }

/-- How an allocator arranges an LFH subsegment's block bitmap. -/
inductive LfhBitmap where
  /-- `ntdll`'s: a word covers 32 blocks, their busy bits in its low half. -/
  | splitWord
  /-- `nt`'s: one bit per block, with no gaps. -/
  | contiguousBits
  deriving DecidableEq

def LfhBitmap.bytesFor : LfhBitmap → ℕ → ℕ
  | .splitWord, blocks => divCeil blocks 32 * 8
  | .contiguousBits, blocks => divCeil blocks 64 * 8

/-- Where a slot's busy bit is, counting from bit 0 of the bitmap's first byte. -/
def LfhBitmap.busyBit : LfhBitmap → ℕ → ℕ
  | .splitWord, slot => slot / 32 * 64 + slot % 32
  | .contiguousBits, slot => slot

def bitAt (bytes : List UInt8) (bit : ℕ) : Option Bool :=
  bytes[bit / 8]?.map fun byte => byte.toNat.testBit (bit % 8)

/-- `busy[slot / 8] |= 1 << (slot % 8)`. -/
def setBit (busy : List UInt8) (slot : ℕ) : List UInt8 :=
  busy.modify (slot / 8) fun byte => byte ||| UInt8.ofNat (1 <<< (slot % 8))

def LfhBitmap.normaliseFrom (arrangement : LfhBitmap) (bitmap : List UInt8) :
    ℕ → ℕ → List UInt8 → Option (List UInt8)
  | 0, _, busy => some busy
  | left + 1, slot, busy => do
    let set ← bitAt bitmap (arrangement.busyBit slot)
    arrangement.normaliseFrom bitmap left (slot + 1) (if set then setBit busy slot else busy)

def LfhBitmap.normalise (arrangement : LfhBitmap) (bitmap : List UInt8) (blocks : ℕ) :
    Option (List UInt8) :=
  arrangement.normaliseFrom bitmap blocks 0 (List.replicate (divCeil blocks 8) 0)

def lfhBitmapState (bitmap : List UInt8) (slot : ℕ) : Option PoolState :=
  (bitAt bitmap slot).map fun busy => if busy then .allocated else .reusableFree

/-! ## Pool headers -/

structure PoolHeaderLayout where
  size : ℕ
  previousSize : ℕ
  poolIndex : ℕ
  blockSize : ℕ
  poolType : ℕ
  tag : ℕ
  deriving DecidableEq

structure PoolHeader where
  previousSize : ℕ
  blockSize : ℕ
  poolType : ℕ
  poolIndex : ℕ
  tag : ℕ
  deriving DecidableEq

def decodePoolHeader (bytes : List UInt8) (offset : ℕ) (layout : PoolHeaderLayout) :
    Option PoolHeader :=
  if layout.size = 0 then none
  else do
    let _ ← range bytes offset layout.size
    -- two bitfields can share their containing word, the second one in its high byte
    let poolIndexLane := if layout.poolIndex = layout.previousSize then 1 else 0
    let poolTypeLane := if layout.poolType = layout.blockSize then 1 else 0
    let previousSize ← bytes[offset + layout.previousSize]?
    let poolIndex ← bytes[offset + layout.poolIndex + poolIndexLane]?
    let blockSize ← bytes[offset + layout.blockSize]?
    let poolType ← bytes[offset + layout.poolType + poolTypeLane]?
    let tag ← readU32 bytes (offset + layout.tag)
    if blockSize.toNat ≠ 0 ∧ poolType.toNat ≤ 0x7f then
      some { previousSize := previousSize.toNat, blockSize := blockSize.toNat,
             poolType := poolType.toNat, poolIndex := poolIndex.toNat, tag }
    else none

/-- The low bits of a special-pool page's first word that hold the requested byte count. -/
def specialPoolSizeMask : ℕ := 0x1fff

/-- Set in the same word when Verifier is tracking the allocation. -/
def specialPoolTracked : ℕ := 0x4000

/-- What a special-pool page records about the one allocation it holds. -/
structure SpecialPoolHeader where
  tag : ℕ
  requested : ℕ
  /-- Where the fill starts. -/
  headerSize : ℕ
  fill : UInt8
  deriving DecidableEq

def decodeSpecialPoolHeader (bytes : List UInt8) (offset : ℕ) (layout : PoolHeaderLayout) :
    Option SpecialPoolHeader := do
  let _ ← range bytes offset layout.size
  let word ← readU32 bytes (offset + layout.previousSize)
  let requested := word &&& specialPoolSizeMask
  let headerSize := layout.size + if word &&& specialPoolTracked ≠ 0 then 8 else 0
  let aligned := nextMultipleOf requested 16
  if requested = 0 ∨ aligned + headerSize > pageSize then none
  else
    let tag ← readU32 bytes (offset + layout.tag)
    let fill ← bytes[offset + layout.blockSize]?
    some { tag, requested, headerSize, fill }

/-! ## Pointers and lists -/

def isKernelPointer (pointer : ℕ) : Bool := pointer == 0 || 0xffff800000000000 ≤ pointer

def isUserPointer (pointer : ℕ) : Bool := 0x10000 ≤ pointer && pointer < 0x0000800000000000

def decodeRbRootFor (root treeAddress : ℕ) (encoded user : Bool) : Option ℕ :=
  let pointer := if encoded then root ^^^ treeAddress else root
  if pointer == 0 || (if user then isUserPointer pointer else isKernelPointer pointer) then
    some pointer
  else none

def decodeRbRoot (root treeAddress : ℕ) (encoded : Bool) : Option ℕ :=
  decodeRbRootFor root treeAddress encoded false

/-- The 60-bit next field above the low four bits, sign-extended. -/
def decodeSlistHeaderNext (region : ℕ) : ℕ :=
  if region < 2 ^ 63 then region >>> 4 else region >>> 4 + 0xf000000000000000

def decodeLargeAllocationFor (virtualAddressField allocatedPagesField : ℕ) (user : Bool) :
    Option (ℕ × ℕ) :=
  let virtualAddress := virtualAddressField &&& complement 0xffff
  let allocatedPages := allocatedPagesField >>> 12
  if virtualAddress != 0 &&
      (if user then isUserPointer virtualAddress else isKernelPointer virtualAddress) &&
      allocatedPages != 0 then
    some (virtualAddress, allocatedPages)
  else none

def decodeLargeAllocation (virtualAddressField allocatedPagesField : ℕ) : Option (ℕ × ℕ) :=
  decodeLargeAllocationFor virtualAddressField allocatedPagesField false

def decodeLargeRequestedSize (virtualAddressField allocatedBytes : ℕ) (validatedAlias : Bool) :
    Option ℕ :=
  if !validatedAlias then none
  else checkedSub allocatedBytes (virtualAddressField &&& 0xffff)

/-- The largest chunk a pool header can describe, its own sixteen bytes included. -/
def maxPoolHeaderChunk : ℕ := 0xff * 16

/-- Where the big-page table starts looking for an address. -/
def bigPageHash (address tableSize : ℕ) : Option ℕ :=
  if !isPowerOfTwo tableSize then none
  else
    let hash := wrappingMul (address >>> 12) 0x9e5f
    some ((hash ^^^ hash >>> 32) &&& (tableSize - 1))

/-! ## Tags -/

def tagBytes (tag : ℕ) : List UInt8 := toLe 4 tag

def isAsciiGraphic (byte : UInt8) : Bool := 0x21 ≤ byte && byte ≤ 0x7e

def displayTag (tag : ℕ) : String :=
  String.ofList ((tagBytes tag).map fun byte =>
    if isAsciiGraphic byte || byte == 0x20 then Char.ofNat byte.toNat else '.')

end DbgScope.Pool
