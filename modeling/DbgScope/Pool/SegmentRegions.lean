import DbgScope.Pool.LfhSubsegments

/-!
# The regions of a segment

`discover_segment_context` goes through a segment's descriptors by their sizes, so the page ranges
it makes regions of follow each other. A region is a part of its page range: an LFH header may move
its start, a VS header or the big-page table may shorten it, and none of them moves it out of the
range. The last descriptor of a segment is not held to the segment's end.
-/

namespace DbgScope.Pool

open Run (Ends Keeps Triple)
open Discovery

/-! ## What pushes no region -/

def HasRegions (regions : List PoolRegion) (w : World Discovery) : Prop :=
  w.state.regions = regions

theorem hasRegions_observing (regions : List PoolRegion) :
    Observing (HasRegions regions) (HasRegions regions) :=
  ⟨fun _ h => h, ⟨fun _ _ _ h => h⟩, ⟨fun _ _ _ h => h⟩, fun _ _ _ h => h⟩

section Quiet

variable {α : Type} {memory : PoolMemory} {layout : PoolLayout} {regions : List PoolRegion}

/-- A failure leaves the regions found so far too. -/
def Quiet (regions : List PoolRegion) (m : Walk Discovery α) : Prop :=
  Keeps (HasRegions regions) (fun _ => HasRegions regions) m

theorem quiet_of_observing {m : Walk Discovery α}
    (h : Keeps (HasRegions regions) (Fails (HasRegions regions)) m) : Quiet regions m :=
  Triple.imp h (fun _ hw => hw) (fun _ _ hw => hw) fun _ _ hw => hw.1

theorem inDiagnostics_quiet (m : Walk (List String) α) : Quiet regions (inDiagnostics m) := by
  intro w hw
  unfold inDiagnostics focus
  rw [Run.zoom_apply]
  rcases m { history := w.history, state := w.state.diagnostics } with ⟨r, v⟩
  cases r with
  | ok a => exact hw
  | error error => exact hw

theorem inDiagnostics_ok {m : Walk (List String) α} {a : α} {w w' : World Discovery}
    (h : inDiagnostics m w = (.ok a, w')) :
    ∃ v, m { history := w.history, state := w.state.diagnostics } = (.ok a, v) := by
  unfold inDiagnostics focus at h
  rw [Run.zoom_apply] at h
  obtain ⟨hok, -⟩ := Prod.mk.inj h
  exact ⟨_, Prod.ext hok rfl⟩

theorem bigPage_quiet (address : ℕ) : Quiet regions (bigPage memory address) := by
  refine Keeps.bind (Keeps.read _) fun table => ?_
  split
  · exact Keeps.pure _
  · next table =>
    intro w hw
    unfold inTable focus
    rw [Run.zoom_apply]
    rcases BigPageTable.lookup memory address
      { history := w.history, state := (table, w.state.diagnostics) } with ⟨r, v⟩
    cases r with
    | ok entry => exact hw
    | error error => exact hw

theorem rangeBigPool_quiet (special : Bool) (backend : PoolBackend) (shape : RangeShape) :
    Quiet regions (rangeBigPool memory special backend shape) := by
  refine Keeps.when fun _ => ?_
  refine Keeps.loop (fun s => ?_) _ _
  refine Keeps.guard fun _ => ?_
  refine Keeps.bind (bigPage_quiet _) fun entry => ?_
  split
  · exact Keeps.pure _
  · exact Keeps.pure _

theorem rangeBigPage_quiet (special : Bool) (backend : PoolBackend) (state : PoolState)
    (address : ℕ) : Quiet regions (rangeBigPage memory special backend state address) := by
  exact Keeps.ite (fun _ => bigPage_quiet address) fun _ => Keeps.pure _

theorem contextScalar_quiet (contextAddress : ℕ) (name : FieldName) (size : ℕ) :
    Quiet regions (contextScalar memory layout contextAddress name size) :=
  Keeps.bind (quiet_of_observing (fieldOf_keeps (hasRegions_observing regions) layout _ _))
    fun _ => quiet_of_observing (scalar_keeps (hasRegions_observing regions) memory _ _)

theorem segmentContextOf_quiet (contextAddress limit : ℕ) :
    Quiet regions (segmentContextOf memory layout contextAddress limit) :=
  segmentContextOf_keeps_of
    (fun _ => quiet_of_observing (typeLayoutOf_keeps (hasRegions_observing regions) layout _))
    (fun _ _ => quiet_of_observing (fieldOf_keeps (hasRegions_observing regions) layout _ _))
    (fun _ _ => contextScalar_quiet contextAddress _ _) (fun _ => inDiagnostics_quiet _)
    fun _ hw => hw

theorem linkPast_quiet (entry : ℕ) : Quiet regions (linkPast memory entry) := by
  refine Keeps.attempt_bind
    (quiet_of_observing (scalar_keeps (hasRegions_observing regions) memory entry 8))
    (fun _ => Keeps.pure _) fun _ => ?_
  exact Keeps.pure _

end Quiet

/-! ## One page range -/

/-- The contents of a page range begin in it and end in it. -/
def RangeShape.Within (shape : RangeShape) (address size : ℕ) : Prop :=
  ∃ first < size, shape.address = wrappingAdd address first ∧ first + shape.size ≤ size

section Range

variable {memory : PoolMemory} {layout : PoolLayout} {regions : List PoolRegion}
  {address size : ℕ} {shape : RangeShape}

theorem lfhRange_within {lfhKey : ℕ} {w w' : World (List String)}
    (h : lfhRange memory layout lfhKey address size w = (.ok (some shape), w')) :
    shape.Within address size := by
  obtain ⟨source, ⟨rfl, rfl⟩, hread, hshapes⟩ := lfhRange_ok h
  obtain ⟨-, -, -, -, hfirst, hroom⟩ := decodeLfhSubsegment_ok hread.accepted
  refine ⟨source.lfh.first, hfirst, hshapes.address, ?_⟩
  rw [hshapes.size]
  omega

theorem vsRange_within {w w' : World (List String)}
    (h : vsRange memory layout address size w = (.ok (some shape), w')) :
    shape.Within address size := by
  unfold vsRange at h
  obtain ⟨vs, w₁, -, h⟩ := Run.bind_ok h
  obtain ⟨header?, w₂, -, h⟩ := Run.bind_ok h
  cases header? with
  | none => cases h
  | some header =>
    obtain ⟨signatureOffset, w₃, -, h⟩ := Run.bind_ok h
    obtain ⟨sizeOffset, w₄, -, h⟩ := Run.bind_ok h
    dsimp only at h
    split at h
    · cases h
    split at h
    · cases h
    next hfirst =>
    split at h
    · cases h
      exact ⟨_, Nat.lt_of_not_le hfirst, rfl, by dsimp only; omega⟩
    · next hdeclared =>
      cases h
      exact ⟨_, Nat.lt_of_not_le hfirst, rfl, by dsimp only; omega⟩

theorem rangeShape_within {lfhKey : ℕ} {backend : PoolBackend} {w w' : World (List String)}
    (hsize : size ≠ 0) (haddress : address < 2 ^ 64)
    (h : rangeShape memory layout lfhKey backend address size w = (.ok (some shape), w')) :
    shape.Within address size := by
  have hplain : (plainRange address size).Within address size := by
    refine ⟨0, Nat.pos_of_ne_zero hsize, ?_, (Nat.zero_add size).le⟩
    show address = wrappingAdd address 0
    rw [wrappingAdd_of_lt haddress, Nat.add_zero]
  cases backend with
  | lfh => exact lfhRange_within h
  | vs => exact vsRange_within h
  | segment =>
    cases h
    exact hplain
  | large =>
    cases h
    exact hplain

/-- The length the big-page table gives is taken only where it is the shorter one. -/
theorem RangeShape.Within.trimmed (h : shape.Within address size) (named : Option BigPageEntry) :
    (shape.trimmed named).Within address size := by
  obtain ⟨first, hfirst, haddress, hsize⟩ := h
  cases named with
  | none => exact ⟨first, hfirst, haddress, hsize⟩
  | some entry =>
    unfold RangeShape.trimmed
    dsimp only
    split
    · next hshorter => exact ⟨first, hfirst, haddress, by dsimp only; omega⟩
    · exact ⟨first, hfirst, haddress, hsize⟩

/-- A region made of a page range is a part of it, unless the range runs past the last address. -/
structure MadeOf (address size : ℕ) (region : PoolRegion) : Prop where
  subsegment : region.subsegment = some address
  inside : address + size ≤ 2 ^ 64 →
    address ≤ region.address ∧ region.address + region.size ≤ address + size

theorem RangeShape.Within.inside (h : shape.Within address size)
    (hspace : address + size ≤ 2 ^ 64) :
    address ≤ shape.address ∧ shape.address + shape.size ≤ address + size := by
  obtain ⟨first, hfirst, haddress, hsize⟩ := h
  rw [haddress, wrappingAdd_of_lt (by omega)]
  omega

theorem discoverRange_pushes (regions : List PoolRegion) (memory : PoolMemory)
    (layout : PoolLayout) (site : HeapSite) (evidence : VsEvidence) (flags : ℕ) (state : PoolState)
    (hsize : size ≠ 0) (haddress : address < 2 ^ 64) :
    Triple (HasRegions regions)
      (discoverRange memory layout site evidence flags state address size)
      (fun _ w => ∃ new, HasRegions (regions ++ new) w ∧
        (new = [] ∨ ∃ region, new = [region] ∧ MadeOf address size region))
      (fun _ => HasRegions regions) := by
  have hobserving := hasRegions_observing regions
  have hquiet : Quiet regions (inDiagnostics (rangeShape memory layout site.lfhKey
      (if site.identity.special then .segment else descriptorBackend flags) address size)) :=
    inDiagnostics_quiet _
  have hshape := Keeps.and_ok (Q := fun shape? _ => ∀ shape, shape? = some shape →
      shape.Within address size) hquiet fun w shape? w' hok shape hshape => by
    subst hshape
    obtain ⟨v, hok⟩ := inDiagnostics_ok hok
    exact rangeShape_within hsize haddress hok
  refine Triple.bind hshape fun shape? => Triple.pull fun hwithin => ?_
  cases shape? with
  | none => exact Triple.pure fun w hw => ⟨[], by rwa [List.append_nil], Or.inl rfl⟩
  | some shape =>
    refine Triple.bind (rangeBigPool_quiet _ _ _) fun bigPool => ?_
    refine Triple.bind (quiet_of_observing (poolHeaderLayoutOf_keeps hobserving layout))
      fun poolHeader => ?_
    refine Triple.bind (rangeBigPage_quiet _ _ _ _) fun named => ?_
    refine Triple.bind (quiet_of_observing (typeLayoutOf_keeps hobserving layout _))
      fun vsHeader => ?_
    refine Triple.bind (quiet_of_observing (fieldOf_keeps hobserving layout _ _))
      fun vsSizesOffset => ?_
    refine Triple.modify fun w hw => ⟨[_], congrArg (· ++ [_]) hw, Or.inr ⟨_, rfl, rfl, ?_⟩⟩
    exact ((hwithin shape rfl).trimmed named).inside

end Range

/-! ## One segment -/

/-- A segment as the walk knows it: its context, where it is, and its descriptors. -/
structure PageSegment where
  context : SegmentContext
  address : ℕ
  metadata : List UInt8

structure PageRange where
  index : ℕ
  descriptor : Descriptor

namespace PageSegment

variable (segment : PageSegment)

def descriptorAt (index : ℕ) : Option Descriptor :=
  decodeDescriptorAt segment.metadata (index * segment.context.descriptorSize)
    segment.context.descriptorSize segment.context.unitOffset segment.context.flagsOffset

def start (range : PageRange) : ℕ := segment.address + range.index <<< segment.context.shift

def stop (range : PageRange) : ℕ :=
  segment.address + (range.index + range.descriptor.unitSize) <<< segment.context.shift

/-- The region is a part of the page range, unless the range runs past the last address. -/
structure Holds (range : PageRange) (region : PoolRegion) : Prop where
  index : range.index < segment.context.descriptorCount
  descriptor : segment.descriptorAt range.index = some range.descriptor
  subsegment : region.subsegment = some (segment.start range)
  inside : segment.stop range ≤ 2 ^ 64 →
    segment.start range ≤ region.address ∧ region.address + region.size ≤ segment.stop range

/-- Each region is a part of its own page range, and the ranges follow each other. -/
structure Divided (ranges : List PageRange) (regions : List PoolRegion) : Prop where
  holds : List.Forall₂ segment.Holds ranges regions
  ascending : ranges.Pairwise fun a b => a.index + a.descriptor.unitSize ≤ b.index

variable {segment}

theorem start_add (range : PageRange) :
    segment.start range + range.descriptor.unitSize <<< segment.context.shift =
      segment.stop range := by
  unfold start stop
  rw [Nat.shiftLeft_eq, Nat.shiftLeft_eq, Nat.shiftLeft_eq, Nat.add_mul, Nat.add_assoc]

theorem stop_le_start {a b : PageRange} (h : a.index + a.descriptor.unitSize ≤ b.index) :
    segment.stop a ≤ segment.start b := by
  unfold start stop
  rw [Nat.shiftLeft_eq, Nat.shiftLeft_eq]
  exact Nat.add_le_add_left (Nat.mul_le_mul_right _ h) _

theorem Divided.nil : segment.Divided [] [] := ⟨.nil, .nil⟩

theorem Divided.snoc {ranges : List PageRange} {regions : List PoolRegion}
    (h : segment.Divided ranges regions) {range : PageRange} {region : PoolRegion}
    (hholds : segment.Holds range region)
    (hpast : ∀ other ∈ ranges, other.index + other.descriptor.unitSize ≤ range.index) :
    segment.Divided (ranges ++ [range]) (regions ++ [region]) := by
  constructor
  · exact List.rel_append h.holds (.cons hholds .nil)
  · rw [List.pairwise_append]
    refine ⟨h.ascending, List.pairwise_singleton _ _, fun a ha b hb => ?_⟩
    rw [List.mem_singleton.mp hb]
    exact hpast a ha

theorem Divided.pairwise {ranges : List PageRange} {regions : List PoolRegion}
    (h : segment.Divided ranges regions)
    (hspace : ∀ range ∈ ranges, segment.stop range ≤ 2 ^ 64) :
    regions.Pairwise fun a b => a.address + a.size ≤ b.address := by
  have hinside := (List.forall₂_and_left _ _).mpr ⟨hspace, h.holds⟩
  refine pairwise_of_forall₂ hinside h.ascending ?_
  rintro range range' region region' ⟨hstop, hholds⟩ ⟨hstop', hholds'⟩ hnext
  calc region.address + region.size
      ≤ segment.stop range := (hholds.inside hstop).2
    _ ≤ segment.start range' := stop_le_start hnext
    _ ≤ region'.address := (hholds'.inside hstop').1

end PageSegment

section Descriptors

variable {memory : PoolMemory} {layout : PoolLayout} {regions : List PoolRegion}

def GoneThrough (segment : PageSegment) (regions : List PoolRegion) (index : ℕ)
    (w : World Discovery) : Prop :=
  ∃ ranges new, HasRegions (regions ++ new) w ∧ segment.Divided ranges new ∧
    ∀ range ∈ ranges, range.index + range.descriptor.unitSize ≤ index

def AddsDivided (segment : PageSegment) (regions : List PoolRegion) (w : World Discovery) : Prop :=
  ∃ ranges new, HasRegions (regions ++ new) w ∧ segment.Divided ranges new

theorem GoneThrough.adds {segment : PageSegment} {index : ℕ} {w : World Discovery}
    (h : GoneThrough segment regions index w) : AddsDivided segment regions w := by
  obtain ⟨ranges, new, hnew, hdivided, -⟩ := h
  exact ⟨ranges, new, hnew, hdivided⟩

theorem GoneThrough.mono {segment : PageSegment} {index index' : ℕ} {w : World Discovery}
    (h : GoneThrough segment regions index w) (hle : index ≤ index') :
    GoneThrough segment regions index' w := by
  obtain ⟨ranges, new, hnew, hdivided, hpast⟩ := h
  exact ⟨ranges, new, hnew, hdivided, fun range hmem => (hpast range hmem).trans hle⟩

theorem goneThrough_quiet {α : Type} {m : Walk Discovery α} {segment : PageSegment} {index : ℕ}
    (h : ∀ regions, Quiet regions m) :
    Triple (GoneThrough segment regions index) m
      (fun _ => GoneThrough segment regions index) (fun _ => AddsDivided segment regions) := by
  rintro w ⟨ranges, new, hnew, hdivided, hpast⟩
  refine Ends.imp (h _ w hnew) (fun _ v hv => ?_) fun _ v hv => ?_
  · exact ⟨ranges, new, hv, hdivided, hpast⟩
  · exact ⟨ranges, new, hv, hdivided⟩

theorem descriptorStep_divides (site : HeapSite) (evidence : VsEvidence) (segment : PageSegment)
    (metadataAddress index : ℕ) :
    Triple (GoneThrough segment regions index)
      (descriptorStep memory layout site evidence segment.context segment.address metadataAddress
        segment.metadata index)
      (fun flow w => flow.Holds (GoneThrough segment regions · w)
        fun _ => AddsDivided segment regions w)
      (fun _ => AddsDivided segment regions) := by
  refine Triple.ite (fun _ => Triple.pure fun w hw => hw.adds) fun hindex => ?_
  refine Triple.bind (goneThrough_quiet fun regions =>
    quiet_of_observing (poll_keeps (hasRegions_observing regions) memory)) fun _ => ?_
  dsimp only
  cases hdecoded : decodeDescriptorAt segment.metadata (index * segment.context.descriptorSize)
      segment.context.descriptorSize segment.context.unitOffset segment.context.flagsOffset with
  | none => exact Triple.pure fun w hw => hw.mono (Nat.le_succ index)
  | some decoded =>
    refine Triple.ite (fun _ => ?_) fun _ => ?_
    · refine Triple.bind (goneThrough_quiet fun _ => inDiagnostics_quiet _) fun _ => ?_
      exact Triple.pure fun w hw => hw.mono (Nat.le_add_right _ _)
    cases haddress : checkedAdd segment.address (index <<< segment.context.shift) with
    | none => exact Triple.pure fun w hw => hw.adds
    | some address =>
      dsimp only
      refine Triple.ite (fun _ => ?_) fun hsize => ?_
      · exact Triple.pure fun w hw => hw.mono (Nat.le_add_right _ _)
      obtain ⟨hspace, haddress⟩ := Option.ite_none_right_eq_some.mp haddress
      obtain rfl := Option.some.inj haddress
      rintro w ⟨ranges, new, hnew, hdivided, hpast⟩
      have hrange := discoverRange_pushes (regions ++ new) memory layout site evidence decoded.flags
        (segment.context.rangeState metadataAddress (index * segment.context.descriptorSize)
          decoded)
        hsize hspace
      refine Triple.bind (hrange.imp (fun _ hw => hw) (fun _ _ hw => hw) fun _ v hv =>
        ⟨ranges, new, hv, hdivided⟩) (fun _ => Triple.pure fun v hv => ?_) w hnew
      obtain ⟨more, hmore, rfl | ⟨region, rfl, hmade⟩⟩ := hv
      · rw [List.append_nil] at hmore
        exact ⟨ranges, new, hmore, hdivided, fun range hmem =>
          (hpast range hmem).trans (Nat.le_add_right _ _)⟩
      · have hholds : segment.Holds ⟨index, decoded⟩ region :=
          ⟨Nat.lt_of_not_le hindex, hdecoded, hmade.subsegment, by
            rw [← PageSegment.start_add]
            exact hmade.inside⟩
        refine ⟨ranges ++ [⟨index, decoded⟩], new ++ [region], ?_, hdivided.snoc hholds hpast,
          fun range hmem => ?_⟩
        · rw [← List.append_assoc]
          exact hmore
        · rcases List.mem_append.mp hmem with hold | hlast
          · exact (hpast range hold).trans (Nat.le_add_right _ _)
          · rw [List.mem_singleton.mp hlast]

theorem discoverDescriptors_divides (site : HeapSite) (evidence : VsEvidence)
    (segment : PageSegment) (metadataAddress : ℕ) :
    Triple (HasRegions regions)
      (discoverDescriptors memory layout site evidence segment.context segment.address
        metadataAddress segment.metadata)
      (fun _ => AddsDivided segment regions) (fun _ => AddsDivided segment regions) := by
  refine (Triple.loop (I := GoneThrough segment regions)
    (R := fun _ => AddsDivided segment regions) (fun index => ?_)
    (fun _ _ hw => hw.adds) _ _).pre fun w hw => ?_
  · refine (descriptorStep_divides site evidence segment metadataAddress index).post
      fun flow _ hw => ?_
    cases flow <;> exact hw
  exact ⟨[], [], by rwa [List.append_nil], .nil, List.forall_mem_nil _⟩

end Descriptors

/-! ## The segments of a context -/

abbrev SegmentPart := PageSegment × List PoolRegion

/-- The regions are those of segments of the context, segment by segment. -/
def Parts (context : SegmentContext) (parts : List SegmentPart) : Prop :=
  ∀ part ∈ parts, part.1.context = context ∧ ∃ ranges, part.1.Divided ranges part.2

def AddsParts (context : SegmentContext) (regions : List PoolRegion) (w : World Discovery) :
    Prop :=
  ∃ parts, HasRegions (regions ++ (parts.map Prod.snd).flatten) w ∧ Parts context parts

section Segments

variable {memory : PoolMemory} {layout : PoolLayout} {regions : List PoolRegion}
  {context : SegmentContext}

theorem addsParts_refl {w : World Discovery} (h : HasRegions regions w) :
    AddsParts context regions w :=
  ⟨[], by rwa [List.map_nil, List.flatten_nil, List.append_nil], List.forall_mem_nil _⟩

theorem AddsDivided.addsParts {segment : PageSegment} {w : World Discovery}
    (h : AddsDivided segment regions w) : AddsParts segment.context regions w := by
  obtain ⟨ranges, new, hnew, hdivided⟩ := h
  refine ⟨[(segment, new)], ?_, fun part hpart => ?_⟩
  · rwa [List.map_singleton, List.flatten_singleton]
  · rw [List.mem_singleton.mp hpart]
    exact ⟨rfl, ranges, hdivided⟩

theorem AddsParts.trans {more : List PoolRegion} {parts : List SegmentPart}
    {w : World Discovery} (hparts : Parts context parts)
    (hmore : more = regions ++ (parts.map Prod.snd).flatten) (h : AddsParts context more w) :
    AddsParts context regions w := by
  obtain ⟨others, hothers, hdivided⟩ := h
  refine ⟨parts ++ others, ?_, fun part hpart => ?_⟩
  · rw [List.map_append, List.flatten_append, ← List.append_assoc, ← hmore]
    exact hothers
  · rcases List.mem_append.mp hpart with hold | hnew
    · exact hparts part hold
    · exact hdivided part hnew

theorem addsParts_step {α : Type} {m : Walk Discovery α}
    (h : ∀ regions, Triple (HasRegions regions) m (fun _ => AddsParts context regions)
      (fun _ => AddsParts context regions)) :
    Triple (AddsParts context regions) m (fun _ => AddsParts context regions)
      (fun _ => AddsParts context regions) := by
  rintro w ⟨parts, hw, hparts⟩
  exact Ends.imp (h _ w hw) (fun _ _ hv => AddsParts.trans hparts rfl hv)
    fun _ _ hv => AddsParts.trans hparts rfl hv

theorem addsParts_quiet {α : Type} {m : Walk Discovery α} (h : ∀ regions, Quiet regions m) :
    Triple (AddsParts context regions) m (fun _ => AddsParts context regions)
      (fun _ => AddsParts context regions) :=
  addsParts_step fun regions => (h regions).imp (fun _ hw => hw) (fun _ _ => addsParts_refl)
    fun _ _ => addsParts_refl

theorem discoverSegment_adds (site : HeapSite) (evidence : VsEvidence) (entry : ℕ) :
    Triple (AddsParts context regions)
      (discoverSegment memory layout site evidence context entry)
      (fun _ => AddsParts context regions) (fun _ => AddsParts context regions) := by
  refine Triple.bind (addsParts_quiet fun _ => inDiagnostics_quiet _) fun header? => ?_
  cases header? with
  | none => exact addsParts_quiet fun _ => linkPast_quiet entry
  | some header =>
    refine Triple.ite (fun _ => ?_) fun _ => ?_
    · exact Triple.bind (addsParts_quiet fun _ => inDiagnostics_quiet _) fun _ =>
        Triple.pure fun _ hw => hw
    refine Triple.bind (addsParts_quiet fun _ => inDiagnostics_quiet _) fun metadata? => ?_
    cases metadata? with
    | none => exact Triple.pure fun _ hw => hw
    | some metadata =>
      refine Triple.bind (addsParts_step fun regions => ?_) fun _ =>
        Triple.pure fun _ hw => hw
      exact (discoverDescriptors_divides site evidence
        { context, address := entry - context.listEntry, metadata } _).imp (fun _ hw => hw)
        (fun _ _ hw => hw.addsParts) fun _ _ hw => hw.addsParts

theorem segmentStep_adds (site : HeapSite) (evidence : VsEvidence) (limit : ℕ)
    (s : SegmentWalk) :
    Triple (AddsParts context regions)
      (segmentStep memory layout site evidence context limit s)
      (fun _ => AddsParts context regions) (fun _ => AddsParts context regions) := by
  refine Triple.ite (fun _ => Triple.pure fun _ hw => hw) fun _ => ?_
  refine Triple.ite (fun _ => ?_) fun _ => ?_
  · refine Triple.ite (fun _ => Triple.pure fun _ hw => hw) fun _ => ?_
    exact Triple.bind (Q := fun _ => AddsParts context regions)
      (Triple.modify fun _ hw => hw) fun _ => Triple.pure fun _ hw => hw
  · refine Triple.bind (addsParts_quiet fun regions =>
      quiet_of_observing (poll_keeps (hasRegions_observing regions) memory)) fun _ => ?_
    refine Triple.ite (fun _ => ?_) fun _ => ?_
    · exact Triple.bind (addsParts_quiet fun _ => inDiagnostics_quiet _) fun _ =>
        Triple.pure fun _ hw => hw
    · refine Triple.bind (discoverSegment_adds site evidence s.entry) fun next => ?_
      cases next with
      | none => exact Triple.pure fun _ hw => hw
      | some next => exact Triple.pure fun _ hw => hw

structure ReadContext (memory : PoolMemory) (layout : PoolLayout) (contextAddress mask : ℕ)
    (context : SegmentContext) : Prop where
  asked : ∃ v v' : World Discovery,
    contextScalar memory layout contextAddress .segmentMask 8 v = (.ok mask, v')
  shift : 12 ≤ context.shift ∧ context.shift ≤ 20
  count : context.descriptorCount =
    min (wrappingAdd (complement mask) 1 >>> context.shift) 4096

theorem segmentContextOf_ok {contextAddress limit : ℕ} {w w' : World Discovery}
    (h : segmentContextOf memory layout contextAddress limit w = (.ok (some context), w')) :
    ∃ mask, ReadContext memory layout contextAddress mask context := by
  unfold segmentContextOf at h
  obtain ⟨segment, w₁, -, h⟩ := Run.bind_ok h
  obtain ⟨descriptor, w₂, -, h⟩ := Run.bind_ok h
  obtain ⟨shift, w₃, -, h⟩ := Run.bind_ok h
  split at h
  · cases h
  next hshift =>
  obtain ⟨first, w₄, -, h⟩ := Run.bind_ok h
  obtain ⟨mask, w₅, hmask, h⟩ := Run.bind_ok h
  dsimp only at h
  split at h
  · cases h
  obtain ⟨_, w₆, -, h⟩ := Run.bind_ok h
  obtain ⟨_, w₇, -, h⟩ := Run.bind_ok h
  obtain ⟨_, w₈, -, h⟩ := Run.bind_ok h
  obtain ⟨_, w₉, -, h⟩ := Run.bind_ok h
  obtain ⟨_, w₁₀, -, h⟩ := Run.bind_ok h
  obtain ⟨_, w₁₁, -, h⟩ := Run.bind_ok h
  obtain ⟨_, w₁₂, -, h⟩ := Run.bind_ok h
  obtain ⟨_, w₁₃, -, h⟩ := Run.bind_ok h
  obtain ⟨_, w₁₄, -, h⟩ := Run.bind_ok h
  obtain ⟨_, w₁₅, -, h⟩ := Run.bind_ok h
  cases hmul : checkedMul (min (wrappingAdd (complement mask) 1 >>> shift) 4096)
      descriptor.size with
  | none => simp only [hmul] at h; cases h
  | some _ =>
    simp only [hmul] at h
    cases h
    exact ⟨mask, ⟨w₄, w₅, hmask⟩, not_not.mp hshift, rfl⟩

def AddsSegments (memory : PoolMemory) (layout : PoolLayout) (contextAddress : ℕ)
    (regions : List PoolRegion) (w : World Discovery) : Prop :=
  ∃ parts : List SegmentPart, w.state.regions = regions ++ (parts.map Prod.snd).flatten ∧
    ∀ part ∈ parts, (∃ mask, ReadContext memory layout contextAddress mask part.1.context) ∧
      ∃ ranges, part.1.Divided ranges part.2

theorem HasRegions.addsSegments {contextAddress : ℕ} {w : World Discovery}
    (h : HasRegions regions w) : AddsSegments memory layout contextAddress regions w :=
  ⟨[], by rwa [List.map_nil, List.flatten_nil, List.append_nil], List.forall_mem_nil _⟩

theorem AddsParts.addsSegments {contextAddress mask : ℕ} {w : World Discovery}
    (h : AddsParts context regions w)
    (hread : ReadContext memory layout contextAddress mask context) :
    AddsSegments memory layout contextAddress regions w := by
  obtain ⟨parts, hregions, hparts⟩ := h
  refine ⟨parts, hregions, fun part hmem => ?_⟩
  obtain ⟨hcontext, hdivided⟩ := hparts part hmem
  exact ⟨⟨mask, hcontext ▸ hread⟩, hdivided⟩

/-- **What a context adds.** -/
theorem discoverSegmentContext_adds (memory : PoolMemory) (layout : PoolLayout) (site : HeapSite)
    (evidence : VsEvidence) (contextAddress limit : ℕ) (w : World Discovery) :
    AddsSegments memory layout contextAddress w.state.regions
      (discoverSegmentContext memory layout site evidence contextAddress limit w).2 := by
  suffices h : Triple (HasRegions w.state.regions)
      (discoverSegmentContext memory layout site evidence contextAddress limit)
      (fun _ => AddsSegments memory layout contextAddress w.state.regions)
      (fun _ => AddsSegments memory layout contextAddress w.state.regions) from
    (h w rfl).anyway
  have hcontext := Keeps.and_ok (Q := fun context? _ => ∀ context, context? = some context →
      ∃ mask, ReadContext memory layout contextAddress mask context)
    (segmentContextOf_quiet contextAddress limit : Quiet w.state.regions _)
    fun _ _ _ hok context hcontext => segmentContextOf_ok (hcontext ▸ hok)
  refine Triple.bind (hcontext.imp (fun _ hw => hw) (fun _ _ hw => hw)
    fun _ _ hw => hw.addsSegments) fun context? => Triple.pull fun hread => ?_
  cases context? with
  | none => exact Triple.pure fun _ hw => hw.addsSegments
  | some context =>
    obtain ⟨mask, hread⟩ := hread context rfl
    have hscalar : Quiet w.state.regions (scalar memory context.listHead 8) :=
      quiet_of_observing (scalar_keeps (hasRegions_observing _) memory _ _)
    refine Triple.bind (hscalar.imp (fun _ hw => hw) (fun _ _ hw => hw)
      fun _ _ hw => hw.addsSegments) fun entry => ?_
    refine (Keeps.loop (I := AddsParts context w.state.regions)
      (E := fun _ => AddsParts context w.state.regions)
      (segmentStep_adds site evidence limit) _ _).imp (fun _ => addsParts_refl)
      (fun _ _ hw => hw.addsSegments hread) fun _ _ hw => hw.addsSegments hread

end Segments

/-! ## Where the regions of a segment are -/

def segmentBytes (mask : ℕ) : ℕ := wrappingAdd (complement mask) 1

/-- Every page range of the segment ends with it or before. -/
def PageSegment.Fits (segment : PageSegment) : Prop :=
  ∀ index < segment.context.descriptorCount, ∀ descriptor,
    segment.descriptorAt index = some descriptor →
      index + descriptor.unitSize ≤ segment.context.descriptorCount

theorem ReadContext.count_le {memory : PoolMemory} {layout : PoolLayout} {contextAddress mask : ℕ}
    {context : SegmentContext} (h : ReadContext memory layout contextAddress mask context) :
    context.descriptorCount <<< context.shift ≤ segmentBytes mask := by
  rw [h.count, Nat.shiftLeft_eq]
  calc min (segmentBytes mask >>> context.shift) 4096 * 2 ^ context.shift
      ≤ segmentBytes mask / 2 ^ context.shift * 2 ^ context.shift := by
        rw [← Nat.shiftRight_eq_div_pow]
        exact Nat.mul_le_mul_right _ (Nat.min_le_left _ _)
    _ ≤ segmentBytes mask := Nat.div_mul_le_self _ _

def longDescriptor : ℕ → ℕ
  | 0x1000 => 0x20c
  | 0x1008 => 0xffffffffffff0000
  | 0x1018 => 0x100000
  | 0x100000 => 0x1018
  | 0x100008 => 0x101000
  | 0x100090 => 0x100
  | _ => 0

def longDescriptorRegions : List (ℕ × ℕ) :=
  (discoverSegmentContext (smallTarget longDescriptor none) (smallLayout kernelGlobals)
    { numaNode := 0, poolKind := .paged, identity := { poolState := 0, heap := 0, special := false },
      heapKey := 0, lfhKey := 0 }
    { reusableChunks := ∅, cachedChunks := ∅, vsSkipsPageEnd := false } 0x1000 8
    { history := [], state := .empty }).2.state.regions.map fun region =>
      (region.address, region.size)

end DbgScope.Pool
