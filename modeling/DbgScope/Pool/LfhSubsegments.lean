import DbgScope.Pool.LfhSlots

/-!
# LFH subsegments and the regions made from them

Discovery makes an LFH region from a subsegment's header and bitmap, and the walk files the whole
slots of the region. Held against the subsegment itself, that is too few slots in two cases: the
kernel withholds the slots that straddle a page but numbers the blocks past them, and `ntdll`
withholds none.
-/

namespace DbgScope.Pool

open PoolSnapshot

/-! ## The subsegment a region was made from -/

theorem decodeLfhSubsegment_ok {encoded subsegment lfhKey blocks regionSize : ℕ}
    {lfh : LfhSubsegment}
    (h : decodeLfhSubsegment encoded subsegment lfhKey blocks regionSize = .ok lfh) :
    lfh.blocks = blocks ∧ 0 < blocks ∧ lfhMinBlockSize ≤ lfh.blockSize ∧ lfh.blockSize < 2 ^ 16 ∧
      lfh.first < regionSize ∧ lfh.blocks * lfh.blockSize ≤ regionSize - lfh.first := by
  unfold decodeLfhSubsegment decodeLfhOffsets at h
  dsimp only at h
  split at h
  · cases h
  · split at h
    · cases h
    · next hblocks =>
      split at h
      · cases h
      · next hunit =>
        split at h
        · cases h
        · next hfirst =>
          split at h
          · cases h
          · next hroom =>
            cases h
            exact ⟨rfl, Nat.pos_of_ne_zero hblocks, Nat.le_of_not_lt hunit,
              Nat.mod_lt _ (by decide), Nat.lt_of_not_le hfirst, Nat.le_of_not_lt hroom⟩

theorem readU16_lt (bytes : List UInt8) (offset : ℕ) : (readU16 bytes offset).getD 0 < 2 ^ 16 := by
  unfold readU16 range
  split
  · next hroom =>
    have hlt := fromLe_lt ((bytes.drop offset).take 2)
    rw [List.length_take, List.length_drop, Nat.min_eq_left (by omega)] at hlt
    exact hlt
  · decide

def LfhSource.InSpace (source : LfhSource) : Prop := source.address + source.size < 2 ^ 64

section Source

variable {memory : PoolMemory} {layout : PoolLayout} {source : LfhSource} {region : PoolRegion}

theorem LfhOrigin.bounds (h : LfhOrigin memory layout source region) :
    0 < source.lfh.blocks ∧ source.lfh.blocks < 2 ^ 16 ∧ 8 ≤ source.lfh.blockSize ∧
      source.lfh.blockSize < 2 ^ 16 ∧
      source.lfh.first + source.lfh.blocks * source.lfh.blockSize ≤ source.size := by
  obtain ⟨hblocks, hpos, hmin, hmax, hfirst, hroom⟩ := decodeLfhSubsegment_ok h.read.accepted
  have hcount := readU16_lt source.header source.countOffset
  rw [← hblocks] at hpos hcount
  exact ⟨hpos, hcount, hmin, hmax, by omega⟩

theorem LfhOrigin.address_eq (h : LfhOrigin memory layout source region)
    (hspace : source.InSpace) : region.address = source.address + source.lfh.first := by
  obtain ⟨-, -, -, -, hroom⟩ := h.bounds
  unfold LfhSource.InSpace at hspace
  rw [h.address, wrappingAdd_of_lt (by omega)]

theorem LfhOrigin.lfhRegion (h : LfhOrigin memory layout source region)
    (hbackend : region.backend = .lfh) (hspace : source.InSpace)
    (hheader : region.poolHeader.size ≤ source.lfh.blockSize) :
    LfhRegion region source.lfh.blocks := by
  obtain ⟨hpos, hblocks, hmin, hmax, hroom⟩ := h.bounds
  have haddress := h.address_eq hspace
  have hsmall : source.lfh.blocks * source.lfh.blockSize ≤ 2 ^ 16 * 2 ^ 16 :=
    Nat.mul_le_mul hblocks.le hmax.le
  unfold LfhSource.InSpace at hspace
  refine ⟨hbackend, h.ordinary, ?_, ?_, ?_, ?_, ?_, fun slot hslot => ?_⟩
  · rw [h.unitSize]; omega
  · rwa [h.unitSize]
  · rw [h.size, h.unitSize]
  · rw [haddress, h.size]; omega
  · rw [h.size, h.unitSize]; omega
  · obtain ⟨busy, -, hstate⟩ := lfhBitmapState_normalise h.bitmap hslot
    rw [hstate]
    rfl

def contentBit (content : ℕ → UInt8) (address bit : ℕ) : Bool :=
  (content (address + bit / 8)).toNat.testBit (bit % 8)

theorem bitAt_bytesAt {content : ℕ → UInt8} {address n bit : ℕ} (h : bit / 8 < n) :
    bitAt (bytesAt content address n) bit = some (contentBit content address bit) := by
  unfold bitAt
  rw [getElem?_bytesAt h]
  rfl

theorem bitAt_eq_none {bytes : List UInt8} {bit : ℕ} (h : bytes.length ≤ bit / 8) :
    bitAt bytes bit = none := by
  unfold bitAt
  rw [List.getElem?_eq_none h]
  rfl

def LfhSource.busy (source : LfhSource) (layout : PoolLayout) (content : ℕ → UInt8) (slot : ℕ) :
    Bool :=
  contentBit content (wrappingAdd source.address source.bitmapOffset)
    (layout.lfhBitmap.busyBit slot)

theorem LfhOrigin.state_eq {content : ℕ → UInt8} (hm : Mapped memory content)
    (h : LfhOrigin memory layout source region) {slot : ℕ} (hslot : slot < source.lfh.blocks) :
    lfhBitmapState region.bitmap slot =
      some (if source.busy layout content slot then .allocated else .reusableFree) := by
  obtain ⟨busy, hbusy, hstate⟩ := lfhBitmapState_normalise h.bitmap hslot
  rw [hstate]
  have hraw : source.raw = bytesAt content (wrappingAdd source.address source.bitmapOffset)
      (layout.lfhBitmap.bytesFor source.lfh.blocks) := by
    rcases h.read.raw with ⟨hzero, hnil⟩ | ⟨history, hread⟩
    · rw [hzero, hnil]
      rfl
    · rw [hm.read] at hread
      exact (Except.ok.inj hread).symm
  rw [hraw] at hbusy
  rcases Nat.lt_or_ge (layout.lfhBitmap.busyBit slot / 8)
    (layout.lfhBitmap.bytesFor source.lfh.blocks) with hin | hout
  · rw [bitAt_bytesAt hin] at hbusy
    unfold LfhSource.busy
    rw [Option.some.inj hbusy]
  · rw [bitAt_eq_none (by rwa [length_bytesAt])] at hbusy
    cases hbusy

end Source

/-! ## The slots of a subsegment -/

namespace LfhSource

variable (source : LfhSource)

def slotAddress (slot : ℕ) : ℕ := source.address + source.lfh.first + slot * source.lfh.blockSize

def straddles (slot : ℕ) : Bool :=
  source.slotAddress slot / pageSize != (source.slotAddress (slot + 1) - 1) / pageSize

/-- The kernel's layout: `n` slots inside the page range, one for each block and one for each
withheld slot, and the withheld slots are those that straddle a page. -/
structure LaidOut (n : ℕ) : Prop where
  space : source.InSpace
  inside : source.lfh.first + n * source.lfh.blockSize ≤ source.size
  withheld : n = source.lfh.blocks + ((List.range n).filter source.straddles).length

def filedAt (before after : PoolSnapshot) (slot : ℕ) : List PoolSpan :=
  (after.spans.drop before.spans.length).filter fun span =>
    span.headerAddress == source.slotAddress slot

/-- One span is filed for a slot: it ends where the slot does, and is in the state given. -/
def FiledOnce (before after : PoolSnapshot) (slot : ℕ) (state : PoolState) : Prop :=
  ∃ span, source.filedAt before after slot = [span] ∧
    span.spanEnd = source.slotAddress (slot + 1) ∧ span.state = state

variable {source}

theorem LaidOut.whole_iff {n : ℕ} (h : source.LaidOut n) :
    (∀ slot < n, source.straddles slot = false → slot < source.lfh.blocks) ↔
      ∀ slot < source.lfh.blocks, source.straddles slot = false := by
  obtain ⟨past, hn⟩ : ∃ past, n = source.lfh.blocks + past := ⟨_, h.withheld⟩
  have hcount : (List.range source.lfh.blocks).countP source.straddles +
      ((List.range past).map (source.lfh.blocks + ·)).countP source.straddles = past := by
    have hwithheld := h.withheld
    rw [← List.countP_eq_length_filter, hn, List.range_add, List.countP_append] at hwithheld
    omega
  have hbefore := List.countP_eq_zero (p := source.straddles) (l := List.range source.lfh.blocks)
  have hafter := List.countP_eq_length (p := source.straddles)
    (l := (List.range past).map (source.lfh.blocks + ·))
  rw [List.length_map, List.length_range] at hafter
  constructor
  · intro hwhole slot hslot
    have hall := hafter.mpr fun slot hslot => by
      obtain ⟨k, hk, rfl⟩ := List.mem_map.mp hslot
      rw [List.mem_range] at hk
      by_contra hstraddles
      have := hwhole _ (by omega) (Bool.eq_false_iff.mpr hstraddles)
      omega
    exact Bool.eq_false_iff.mpr (hbefore.mp (by omega) slot (List.mem_range.mpr hslot))
  · intro hnone slot hslot hwhole
    have hzero := hbefore.mpr fun slot hslot => by
      rw [hnone slot (List.mem_range.mp hslot)]
      decide
    by_contra hpast
    have hstraddles := hafter.mp (by omega) slot (List.mem_map.mpr
      ⟨slot - source.lfh.blocks, List.mem_range.mpr (by omega), by omega⟩)
    rw [hwhole] at hstraddles
    cases hstraddles

end LfhSource

section Slots

variable {memory : PoolMemory} {layout : PoolLayout} {content : ℕ → UInt8} {source : LfhSource}
  {region : PoolRegion} {before after : PoolSnapshot}

theorem LfhOrigin.slotAddress_eq (h : LfhOrigin memory layout source region)
    (hspace : source.InSpace) (slot : ℕ) :
    region.address + slot * region.unitSize = source.slotAddress slot := by
  rw [h.address_eq hspace, h.unitSize]
  rfl

theorem LfhOrigin.straddles_eq (h : LfhOrigin memory layout source region)
    (hspace : source.InSpace) {slot : ℕ} (hslot : slot < source.lfh.blocks) :
    region.straddles slot = source.straddles slot := by
  obtain ⟨-, -, hmin, -, hroom⟩ := h.bounds
  have hend : (slot + 1) * source.lfh.blockSize ≤ source.lfh.blocks * source.lfh.blockSize :=
    Nat.mul_le_mul_right _ hslot
  have hnext : source.slotAddress (slot + 1) = source.slotAddress slot + source.lfh.blockSize := by
    unfold LfhSource.slotAddress
    rw [Nat.succ_mul, Nat.add_assoc _ _ source.lfh.blockSize]
  have hin : source.slotAddress slot + source.lfh.blockSize < 2 ^ 64 := by
    rw [← hnext]
    unfold LfhSource.slotAddress
    unfold LfhSource.InSpace at hspace
    omega
  rw [Bool.eq_iff_iff]
  unfold PoolRegion.straddles LfhSource.straddles
  rw [h.slotAddress_eq hspace, h.unitSize, straddlesPage_iff (by omega) hin, hnext, bne_iff_ne]

theorem mem_wholeSlots {n slot : ℕ} :
    slot ∈ region.wholeSlots n ↔ slot < n ∧ region.straddles slot = false := by
  unfold PoolRegion.wholeSlots
  rw [List.mem_filter, List.mem_range, Bool.not_eq_true']

theorem Filed.filedAt {n : ℕ} (hf : Filed region before n after) (hunit : 0 < region.unitSize)
    (haddress : ∀ slot, region.address + slot * region.unitSize = source.slotAddress slot)
    (slot : ℕ) :
    List.Forall₂ (SlotSpan region) ((region.wholeSlots n).filter (· == slot))
      (source.filedAt before after slot) := by
  obtain ⟨filed, hspans, hfiled⟩ := hf.spans
  unfold LfhSource.filedAt
  rw [hspans, List.drop_left]
  refine List.rel_filter (fun k span hspan => ?_) hfiled
  dsimp only
  rw [beq_iff_eq, beq_iff_eq, hspan.headerAddress, ← haddress slot]
  constructor
  · rintro rfl
    rfl
  · intro heq
    exact Nat.eq_of_mul_eq_mul_right hunit (Nat.add_left_cancel heq)

theorem Filed.filedOnce_iff (hm : Mapped memory content) (h : LfhOrigin memory layout source region)
    (hspace : source.InSpace) (hf : Filed region before source.lfh.blocks after) (slot : ℕ) :
    source.FiledOnce before after slot
        (if source.busy layout content slot then .allocated else .reusableFree) ↔
      slot < source.lfh.blocks ∧ source.straddles slot = false := by
  have hunit : 0 < region.unitSize := by
    obtain ⟨-, -, hmin, -⟩ := h.bounds
    rw [h.unitSize]
    omega
  have hspans := hf.filedAt hunit (h.slotAddress_eq hspace) slot
  have hnodup : (region.wholeSlots source.lfh.blocks).Nodup := List.nodup_range.filter _
  rw [List.filter_beq, hnodup.count] at hspans
  by_cases hslot : slot ∈ region.wholeSlots source.lfh.blocks
  · rw [if_pos hslot, List.replicate_one] at hspans
    obtain ⟨span, _, hspan, hnil, hfiled⟩ := List.forall₂_cons_left_iff.mp hspans
    cases hnil
    obtain ⟨hlt, hwhole⟩ := mem_wholeSlots.mp hslot
    refine iff_of_true ⟨span, hfiled, ?_, ?_⟩ ⟨hlt, (h.straddles_eq hspace hlt).symm.trans hwhole⟩
    · rw [hspan.spanEnd, h.slotAddress_eq hspace]
    · have hstate := hspan.state
      rw [h.state_eq hm hlt] at hstate
      exact (Option.some.inj hstate).symm
  · rw [if_neg hslot] at hspans
    refine iff_of_false ?_ ?_
    · rintro ⟨span, hfiled, -⟩
      rw [hfiled] at hspans
      cases hspans
    · rintro ⟨hlt, hwhole⟩
      exact hslot (mem_wholeSlots.mpr ⟨hlt, (h.straddles_eq hspace hlt).trans hwhole⟩)

end Slots

/-! ## From discovery to the walk -/

section Walk

variable {memory : PoolMemory} {layout : PoolLayout} {content : ℕ → UInt8} {source : LfhSource}
  {region : PoolRegion} {limit : ℕ}

def Originate (memory : PoolMemory) (layout : PoolLayout) (old : List PoolRegion)
    (w : World Discovery) : Prop :=
  ∀ region ∈ w.state.regions, region ∈ old ∨ RegionOrigin memory layout region

theorem originate_moves (memory : PoolMemory) (layout : PoolLayout) (old : List PoolRegion) :
    Moves memory layout (Originate memory layout old) (Originate memory layout old) where
  weaken _ hw := hw
  before := ⟨fun _ _ _ hw => hw⟩
  after := ⟨fun _ _ _ hw => hw⟩
  fault _ _ _ hw := hw
  say _ _ hw := hw
  dropped _ _ _ hw := hw
  spoken _ hw _ := hw
  capped _ _ _ hw _ := hw
  segments _ hw := hw
  table _ _ hw := hw
  tabled _ _ hw := hw
  region w region horigin hw := by
    intro other hmem
    rcases List.mem_append.mp hmem with hold | hnew
    · exact hw other hold
    · rw [List.mem_singleton.mp hnew]
      exact Or.inr horigin

theorem discoverSegmentContext_origin {site : HeapSite} {evidence : VsEvidence}
    {contextAddress : ℕ} {w found : World Discovery} {r : Except SnapshotError Unit}
    (hrun : discoverSegmentContext memory layout site evidence contextAddress limit w = (r, found))
    (hpushed : region ∈ found.state.regions) (hnew : region ∉ w.state.regions) :
    RegionOrigin memory layout region := by
  have hkeeps := discoverSegmentContext_keeps (originate_moves memory layout w.state.regions) site
    evidence contextAddress limit w fun region hmem => Or.inl hmem
  rw [hrun] at hkeeps
  have hfound : Originate memory layout w.state.regions found := by
    cases r with
    | ok _ => exact hkeeps
    | error _ => exact hkeeps.1
  exact (hfound region hpushed).resolve_left hnew

theorem walkRegion_subsegment (hm : Mapped memory content)
    (h : LfhOrigin memory layout source region) (hbackend : region.backend = .lfh)
    (hspace : source.InSpace) {w : World PoolSnapshot}
    (hunreached : w.state.matchLimitReached = false) :
    ∃ after, walkRegion memory limit region w = (.ok (), after) ∧
      (Satisfied after.state ∨
        (source.lfh.blockSize < region.poolHeader.size ∧ after.state.complete = false) ∨
        (region.poolHeader.size ≤ source.lfh.blockSize ∧
          Filed region w.state source.lfh.blocks after.state)) := by
  obtain ⟨hpos, -, hmin, -, hroom⟩ := h.bounds
  have hends : Run.Ends (fun _ after => Satisfied after.state ∨
      (source.lfh.blockSize < region.poolHeader.size ∧ after.state.complete = false) ∨
      (region.poolHeader.size ≤ source.lfh.blockSize ∧
        Filed region w.state source.lfh.blocks after.state)) (fun _ _ => False)
      (walkRegion memory limit region w) := by
    rcases Nat.lt_or_ge source.lfh.blockSize region.poolHeader.size with hsmall | hlarge
    · refine (walkRegion_undersized hm hbackend h.ordinary ?_ ?_ ?_ hunreached w rfl).imp
        (fun _ _ hw => Or.inr (Or.inl ⟨hsmall, hw⟩)) fun _ _ he => he
      · unfold LfhSource.InSpace at hspace
        rw [h.address_eq hspace, h.size]
        omega
      · rw [h.size]
        exact Nat.mul_pos hpos (by omega)
      · rwa [h.unitSize]
    · refine (walkRegion_filed hm (h.lfhRegion hbackend hspace hlarge) hunreached w rfl).imp
        (fun _ _ hw => hw.imp_right fun hfiled => Or.inr ⟨hlarge, hfiled⟩) fun _ _ he => he
  rcases hr : walkRegion memory limit region w with ⟨r, after⟩
  rw [hr] at hends
  cases r with
  | ok _ => exact ⟨after, rfl, hends⟩
  | error _ => exact hends.elim

end Walk

/-! ## A subsegment of four blocks -/

def segmentLayout (globals : GlobalName → Option ℕ) : PoolLayout where
  globals
  types _ := some { size := 0x20, fields := fun
    | .firstDescriptorIndex => some 1
    | .unitSize | .blockCount => some 4
    | .rangeFlags => some 7
    | .segmentMask | .signature | .treeNode | .blockBitmap => some 8
    | .freePageRanges => some 0x10
    | .segmentListHead => some 0x18
    | .descArray => some 0x20
    | _ => some 0 }

def userGlobals : GlobalName → Option ℕ
  | .rtlpHpHeapGlobals => some 0x2000
  | _ => none

/-- A context at `0x3000` with one segment, at `0x10000`, whose two pages from `0x11000` on hold a
subsegment of four blocks of `0x50` bytes, from `0xf40` on. The third slot straddles a page; it and
the fifth are busy. -/
def fourBlocks : ℕ → ℕ
  | 0x3000 => 0x10c
  | 0x3008 => 2 ^ 64 - 0x4000
  | 0x3018 => 0x10000
  | 0x10000 => 0x3018
  | 0x10008 => 0x13000
  | 0x10040 => 0x0b000002ccddccdd
  | 0x11000 => 0x40f400041
  | 0x11008 => 0x14
  | _ => 0

def fourBlocksTarget : PoolMemory := frozenTarget (wordBytes fourBlocks)

def plainSite : HeapSite where
  numaNode := 0
  poolKind := .paged
  identity := { poolState := 0, heap := 0, special := false }
  heapKey := 0
  lfhKey := 0

def noEvidence : VsEvidence where
  reusableChunks := ∅
  cachedChunks := ∅
  vsSkipsPageEnd := false

def fourBlocksDiscovery (globals : GlobalName → Option ℕ) :
    Except SnapshotError Unit × World Discovery :=
  discoverSegmentContext fourBlocksTarget (segmentLayout globals) plainSite noEvidence
    0x3000 8 { history := [], state := .empty }

def fourBlocksSource : LfhSource where
  address := 0x11000
  size := 0x2000
  lfhKey := 0
  headerSize := 0x20
  encodedOffset := 0
  countOffset := 4
  bitmapOffset := 8
  header := bytesAt (wordBytes fourBlocks) 0x11000 0x20
  raw := bytesAt (wordBytes fourBlocks) 0x11008 8
  lfh := { blockSize := 0x50, first := 0xf40, blocks := 4 }

def fourBlocksHeader (size : ℕ) : PoolHeaderLayout :=
  { size, previousSize := 0, poolIndex := 0, blockSize := 0, poolType := 0, tag := 0 }

/-- How the walk of a region of the target ends: the snapshot is complete, and so many spans start
where a slot of the subsegment does. -/
def fourBlocksWalk (slot : ℕ) (region : PoolRegion) : Bool × Bool × ℕ :=
  let out := walkRegion fourBlocksTarget 8 region emptySnapshot
  (out.1.isOk, out.2.state.complete,
    (fourBlocksSource.filedAt emptySnapshot.state out.2.state slot).length)

theorem fourBlocks_discovered {globals : GlobalName → Option ℕ} (header : PoolHeaderLayout)
    (hregions : (fourBlocksDiscovery globals).2.state.regions.map (fun region =>
      ((region.backend, region.address, region.size, region.unitSize),
        (region.heap.special, region.bitmap, region.poolHeader))) =
      [((.lfh, 0x11f40, 0x140, 0x50), (false, [4], header))])
    (hheader : (segmentLayout globals).poolHeaderLayout = .ok header)
    (hbitmap : (segmentLayout globals).lfhBitmap.normalise fourBlocksSource.raw 4 = some [4])
    (hbytes : (segmentLayout globals).lfhBitmap.bytesFor 4 = 8) :
    ∃ region, (fourBlocksDiscovery globals).2.state.regions = [region] ∧ region.backend = .lfh ∧
      LfhOrigin fourBlocksTarget (segmentLayout globals) fourBlocksSource region := by
  obtain ⟨region, hsingle, hpart⟩ := List.map_eq_singleton_iff.mp hregions
  simp only [Prod.mk.injEq] at hpart
  obtain ⟨⟨hbackend, haddress, hsize, hunit⟩, hspecial, hbusy, hpool⟩ := hpart
  refine ⟨region, hsingle, hbackend, ?_, ?_, ?_, ?_, ?_, ?_, hspecial⟩
  · refine ⟨⟨_, rfl, rfl⟩, ⟨_, _, rfl, rfl, rfl⟩, rfl, rfl, Or.inr ⟨[], rfl⟩, by decide +kernel,
      Or.inr ⟨[], ?_⟩⟩
    rw [show (segmentLayout globals).lfhBitmap.bytesFor fourBlocksSource.lfh.blocks = 8 from hbytes]
    rfl
  · rw [hbusy]
    exact hbitmap
  · rw [haddress]
    decide
  · rw [hsize]
    decide
  · rw [hunit]
    rfl
  · rw [hpool]
    exact hheader

theorem kernel_fourBlocks :
    ∃ region, (fourBlocksDiscovery kernelGlobals).2.state.regions = [region] ∧
      region.backend = .lfh ∧
      LfhOrigin fourBlocksTarget (segmentLayout kernelGlobals) fourBlocksSource region :=
  fourBlocks_discovered (fourBlocksHeader 0x20) (by decide +kernel) rfl
    (by decide +kernel) (by decide)

theorem user_fourBlocks :
    ∃ region, (fourBlocksDiscovery userGlobals).2.state.regions = [region] ∧
      region.backend = .lfh ∧
      LfhOrigin fourBlocksTarget (segmentLayout userGlobals) fourBlocksSource region :=
  fourBlocks_discovered (fourBlocksHeader 0) (by decide +kernel) rfl
    (by decide +kernel) (by decide)

/-- As the kernel lays it out, the subsegment has five slots, the third of them withheld. -/
theorem fourBlocks_laidOut : fourBlocksSource.LaidOut 5 :=
  ⟨by unfold LfhSource.InSpace; decide, by decide, by decide⟩

theorem fourBlocks_run (globals : GlobalName → Option ℕ) :
    discoverSegmentContext fourBlocksTarget (segmentLayout globals) plainSite noEvidence 0x3000 8
        { history := [], state := .empty } =
      ((fourBlocksDiscovery globals).1, (fourBlocksDiscovery globals).2) := by
  exact Prod.mk.eta.symm

theorem fourBlocks_mapped : Mapped fourBlocksTarget (wordBytes fourBlocks) :=
  (frozenTarget_readable _).mapped

/-! ## The kernel's subsegments and the user's -/

section Subsegments

variable {memory : PoolMemory} {layout : PoolLayout} {content : ℕ → UInt8} {region : PoolRegion}
  {limit : ℕ}

end Subsegments

end DbgScope.Pool
