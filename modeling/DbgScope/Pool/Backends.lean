import DbgScope.Pool.Snapshot

/-!
# The decoders with a fixed stride

Special pool one page at a time, LFH one slot at a time, plain page ranges one unit at a time, and
the large allocation that is its own region. Each is handed an extent already read, so each is a
loop over bytes in hand; a slot's position is a multiple of its size from the region's base, which
is right wherever the extent happens to start.
-/

namespace DbgScope.Pool

open PoolSnapshot

/-! ## Special pool -/

/-- Where a special-pool block sits, and whether that could be corroborated. -/
structure SpecialPlacement where
  usable : ℕ
  size : ℕ
  /-- The size is an upper bound rather than a measurement. -/
  approximate : Bool

/-- Both runs of fill around a block, from the header's end and from the block's own. -/
def specialPoolFill (header : SpecialPoolHeader) (pageBytes : List UInt8) : List UInt8 :=
  let start := pageSize - nextMultipleOf header.requested 16
  (pageBytes.drop header.headerSize).take (start - header.headerSize) ++
    pageBytes.drop (start + header.requested)

def specialPoolPlacement (page : ℕ) (header : SpecialPoolHeader) (pageBytes : List UInt8) :
    SpecialPlacement :=
  let aligned := nextMultipleOf header.requested 16
  if pageBytes.length = pageSize ∧
      (specialPoolFill header pageBytes).all (fun byte => byte == header.fill) then
    { usable := wrappingAdd page (pageSize - aligned), size := header.requested,
      approximate := false }
  else
    { usable := wrappingAdd page header.headerSize, size := pageBytes.length - header.headerSize,
      approximate := true }

variable (region : PoolRegion)

def recordSpecial (page : ℕ) (header : SpecialPoolHeader) (pageBytes : List UInt8) :
    Walk PoolSnapshot Unit := do
  let placement := specialPoolPlacement page header pageBytes
  if placement.approximate then
    let tag := displayTag header.tag
    complain (s!"special-pool page {hex page} tag `{tag}`: size not corroborated by the fill " ++
      "pattern; reporting the rest of the page as an upper bound")
    clearComplete
  record (baseSpan region page placement.usable placement.size header.tag .allocated)

def nextPage (page : ℕ) : Flow ℕ Unit :=
  match checkedAdd page pageSize with
  | some next => .again next
  | none => .stop ()

def specialStep (base : ℕ) (bytes : List UInt8) (page : ℕ) : Walk PoolSnapshot (Flow ℕ Unit) :=
  match checkedSub page base with
  | none => pure (.stop ())
  | some offset =>
    if bytes.length ≤ offset then pure (.stop ())
    else
      match decodeSpecialPoolHeader bytes offset region.poolHeader with
      | none => do
        complain (s!"special-pool page {hex page}: header describes no block the page could " ++
          "hold; page skipped")
        clearComplete
        pure (nextPage page)
      | some header =>
        -- freed pages are unmapped rather than zeroed, so an untagged page is no allocation
        if header.tag = 0 then pure (nextPage page)
        else do
          recordSpecial region page header ((bytes.drop offset).take pageSize)
          if ← limitReached then pure (.stop ())
          else pure (nextPage page)

def walkSpecialPool (base : ℕ) (bytes : List UInt8) : Walk PoolSnapshot Unit :=
  Run.loop (specialStep region base bytes) (fun _ => ()) (bytes.length / pageSize + 2)
    (wrappingNextMultipleOf base pageSize)

/-! ## LFH slots -/

def straddlesPage (address unit : ℕ) : Bool :=
  address / pageSize != wrappingSub (wrappingAdd address unit) 1 / pageSize

def tagAt (bytes : List UInt8) (offset : ℕ) : ℕ :=
  ((decodePoolHeader bytes offset region.poolHeader).map PoolHeader.tag).getD 0

def lfhSpan (address tag : ℕ) (state : PoolState) : PoolSpan :=
  baseSpan region address (wrappingAdd address region.poolHeader.size)
    (region.unitSize - region.poolHeader.size) tag state

def lfhStep (base : ℕ) (bytes : List UInt8) (slot : ℕ) : Walk PoolSnapshot (Flow ℕ Unit) :=
  let unit := region.unitSize
  let sliceOffset := base - region.address
  match checkedMul slot unit with
  | none => pure (.stop ())
  | some slotOffset =>
    if saturatingAdd slotOffset unit > saturatingAdd sliceOffset bytes.length then pure (.stop ())
    else
      let address := wrappingAdd region.address slotOffset
      -- a block never straddles a page: the allocator skips the slot that would
      if straddlesPage address unit then pure (.again (slot + 1))
      else
        match lfhBitmapState region.bitmap slot with
        | none => do
          complain s!"truncated LFH bitmap at slot {slot}"
          clearComplete
          pure (.stop ())
        | some state => do
          record (lfhSpan region address (tagAt region bytes (slotOffset - sliceOffset)) state)
          if ← limitReached then pure (.stop ())
          else pure (.again (slot + 1))

/-- The slots of an extent. A unit of zero, which no accepted subsegment has, would divide by
zero in the source. -/
def walkLfh (base : ℕ) (bytes : List UInt8) : Walk PoolSnapshot Unit :=
  if region.unitSize < region.poolHeader.size then do
    let unit := region.unitSize
    complain s!"rejecting implausible LFH unit size {unit} at {hex base}"
    clearComplete
  else
    Run.loop (lfhStep region base bytes) (fun _ => ()) (bytes.length + 2)
      (divCeil (base - region.address) region.unitSize)

/-! ## Page ranges -/

def PoolRegion.cellState (slot : ℕ) : PoolState :=
  (region.states[slot]?.or region.states.head?).getD .unreadable

def pageRangeStep (base : ℕ) (bytes : List UInt8) (slot : ℕ) : Walk PoolSnapshot (Flow ℕ Unit) :=
  let unit := max region.unitSize 1
  let sliceOffset := base - region.address
  match checkedMul slot unit with
  | none => pure (.stop ())
  | some slotOffset =>
    if saturatingAdd sliceOffset bytes.length ≤ slotOffset then pure (.stop ())
    else do
      let offset := slotOffset - sliceOffset
      let size := min unit (bytes.length - offset)
      let tag := region.knownTag.getD (tagAt region bytes offset)
      let address := wrappingAdd region.address slotOffset
      let headerSize := min region.poolHeader.size size
      record (baseSpan region address (wrappingAdd address headerSize) (size - headerSize) tag
        (region.cellState slot))
      if ← limitReached then pure (.stop ())
      else pure (.again (slot + 1))

def walkPageRanges (base : ℕ) (bytes : List UInt8) : Walk PoolSnapshot Unit :=
  Run.loop (pageRangeStep region base bytes) (fun _ => ()) (bytes.length + 2)
    (divCeil (base - region.address) (max region.unitSize 1))

/-! ## Large allocations -/

def PoolRegion.wholeState : PoolState := region.states.head?.getD .allocated

def walkLarge : Walk PoolSnapshot Unit :=
  if region.size = 0 then pure ()
  else record (baseSpan region region.address region.address region.size
    (region.knownTag.getD 0) region.wholeState)

end DbgScope.Pool
