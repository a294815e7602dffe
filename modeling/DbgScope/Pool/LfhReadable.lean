import DbgScope.Pool.Gaps
import DbgScope.Pool.LfhSubsegments

/-!
# LFH slots over missing pages

The walk of an LFH region over a target some of whose pages are missing. A slot that lies in one
page is in an extent or in a gap, wherever the extents are cut, since they are cut at pages; so the
slots filed are the ones that lie in one page and can be read, in order, and each is filed as its
own bytes say.
-/

namespace DbgScope.Pool

open PoolSnapshot

/-! ## The slots that can be read -/

def PoolRegion.slotReadable (region : PoolRegion) (readable : ℕ → Bool) (slot : ℕ) : Bool :=
  (List.range region.unitSize).all fun i =>
    readable (region.address + slot * region.unitSize + i)

/-- The slots below `n` that lie in one page and can be read. -/
def PoolRegion.readableSlots (region : PoolRegion) (readable : ℕ → Bool) (n : ℕ) : List ℕ :=
  (List.range n).filter fun slot => !region.straddles slot && region.slotReadable readable slot

/-- The fields of a pool header lie in it, if there is one. -/
structure PoolHeaderLayout.Fits (layout : PoolHeaderLayout) : Prop where
  previousSize : layout.size = 0 ∨ layout.previousSize < layout.size
  poolIndex : layout.size = 0 ∨
    layout.poolIndex + (if layout.poolIndex = layout.previousSize then 1 else 0) < layout.size
  blockSize : layout.size = 0 ∨ layout.blockSize < layout.size
  poolType : layout.size = 0 ∨
    layout.poolType + (if layout.poolType = layout.blockSize then 1 else 0) < layout.size
  tag : layout.size = 0 ∨ layout.tag + 4 ≤ layout.size

def PoolRegion.slotSpan (region : PoolRegion) (content : ℕ → UInt8) (slot : ℕ) : PoolSpan :=
  let address := region.address + slot * region.unitSize
  lfhSpan region address (tagAt region (bytesAt content address region.unitSize) 0)
    ((lfhBitmapState region.bitmap slot).getD .unreadable)

section Slots

variable {region : PoolRegion} {readable : ℕ → Bool} {content : ℕ → UInt8}

theorem slotReadable_iff {slot : ℕ} : region.slotReadable readable slot = true ↔
    ∀ x, region.address + slot * region.unitSize ≤ x →
      x < region.address + (slot + 1) * region.unitSize → readable x = true := by
  unfold PoolRegion.slotReadable
  rw [List.all_eq_true, Nat.succ_mul]
  constructor
  · intro h x hx hx'
    have hbyte := h (x - (region.address + slot * region.unitSize)) (by
      rw [List.mem_range]
      omega)
    rwa [Nat.add_sub_cancel' hx] at hbyte
  · intro h i hi
    rw [List.mem_range] at hi
    exact h _ (Nat.le_add_right _ _) (by omega)

theorem mem_readableSlots {n slot : ℕ} : slot ∈ region.readableSlots readable n ↔
    slot < n ∧ region.straddles slot = false ∧ region.slotReadable readable slot = true := by
  unfold PoolRegion.readableSlots
  rw [List.mem_filter, List.mem_range, Bool.and_eq_true, Bool.not_eq_true']

theorem readableSlots_succ (region : PoolRegion) (readable : ℕ → Bool) (n : ℕ) :
    region.readableSlots readable (n + 1) = region.readableSlots readable n ++
      if !region.straddles n && region.slotReadable readable n then [n] else [] := by
  unfold PoolRegion.readableSlots
  rw [List.range_succ, List.filter_append, List.filter_singleton, Bool.cond_eq_ite]

theorem readableSlots_eq {n m : ℕ} (hle : n ≤ m) (h : ∀ slot, n ≤ slot → slot < m →
    region.straddles slot = true ∨ region.slotReadable readable slot = false) :
    region.readableSlots readable m = region.readableSlots readable n := by
  induction m, hle using Nat.le_induction with
  | base => rfl
  | succ m hle ih =>
    rw [readableSlots_succ, ih fun slot hlow hhigh => h slot hlow (by omega), if_neg,
      List.append_nil]
    rcases h m hle (Nat.lt_succ_self m) with hstraddles | hmissing
    · simp [hstraddles]
    · simp [hmissing]

theorem tagAt_slot (hfits : region.poolHeader.Fits)
    (hheader : region.poolHeader.size ≤ region.unitSize) {base n offset : ℕ}
    (hin : offset + region.unitSize ≤ n) :
    tagAt region (bytesAt content base n) offset =
      tagAt region (bytesAt content (base + offset) region.unitSize) 0 := by
  unfold tagAt decodePoolHeader
  by_cases hnone : region.poolHeader.size = 0
  · rw [if_pos hnone, if_pos hnone]
  rw [if_neg hnone, if_neg hnone]
  have hprevious := hfits.previousSize.resolve_left hnone
  have hindex := hfits.poolIndex.resolve_left hnone
  have hblock := hfits.blockSize.resolve_left hnone
  have htype := hfits.poolType.resolve_left hnone
  have htag := hfits.tag.resolve_left hnone
  -- each field is read from the same address
  have hbyte : ∀ field, field < region.poolHeader.size →
      (bytesAt content base n)[offset + field]? =
        (bytesAt content (base + offset) region.unitSize)[0 + field]? := by
    intro field hfield
    rw [getElem?_bytesAt (by omega), getElem?_bytesAt (by omega), Nat.zero_add, Nat.add_assoc]
  dsimp only
  rw [range_bytesAt (by omega), range_bytesAt (by omega), hbyte _ hprevious, hbyte _ hblock,
    Nat.add_assoc offset, Nat.add_assoc offset, Nat.add_assoc 0, Nat.add_assoc 0, hbyte _ hindex,
    hbyte _ htype, readU32_bytesAt (by omega), readU32_bytesAt (by omega)]
  simp only [Nat.zero_add, Nat.add_assoc]
  rfl

end Slots

/-! ## Filing them -/

/-- A slot's span, as the slot's own bytes say. -/
structure ReadSlot (region : PoolRegion) (content : ℕ → UInt8) (slot : ℕ) (span : PoolSpan) :
    Prop extends SlotSpan region slot span where
  usable : span.usableAddress = span.headerAddress + region.poolHeader.size
  filed : ∃ tag, span = lfhSpan region (region.address + slot * region.unitSize) tag span.state
  tagged : region.poolHeader.Fits → span = region.slotSpan content slot

/-- Spans in the order of their addresses, apart from each other; `ends` is where they may end. -/
structure Laid (ends : ℕ → Prop) (spans : List PoolSpan) : Prop where
  ordered : spans.Pairwise fun a b => a.spanEnd ≤ b.headerAddress
  placed : ∀ span ∈ spans, span.headerAddress ≤ span.usableAddress ∧
    span.usableAddress ≤ span.spanEnd ∧ span.headerAddress < span.spanEnd ∧ ends span.spanEnd

theorem Laid.nil (ends : ℕ → Prop) : Laid ends [] := ⟨.nil, List.forall_mem_nil _⟩

theorem Laid.imp {ends ends' : ℕ → Prop} {spans : List PoolSpan} (h : Laid ends spans)
    (hends : ∀ e, ends e → ends' e) : Laid ends' spans := by
  refine ⟨h.ordered, fun span hspan => ?_⟩
  obtain ⟨hlow, hhigh, hlt, hend⟩ := h.placed span hspan
  exact ⟨hlow, hhigh, hlt, hends _ hend⟩

theorem Laid.append {ends : ℕ → Prop} {spans more : List PoolSpan} {low : ℕ}
    (h : Laid (fun e => ends e ∧ e ≤ low) spans) (h' : Laid ends more)
    (hmore : ∀ span ∈ more, low ≤ span.headerAddress) : Laid ends (spans ++ more) := by
  constructor
  · rw [List.pairwise_append]
    refine ⟨h.ordered, h'.ordered, fun a ha b hb => ?_⟩
    obtain ⟨-, -, -, -, hle⟩ := h.placed a ha
    exact hle.trans (hmore b hb)
  · intro span hspan
    rcases List.mem_append.mp hspan with hold | hnew
    · exact (h.imp fun _ hend => hend.1).placed span hold
    · exact h'.placed span hnew

/-- The slots below `slots` have been filed, and the gaps between them. -/
structure LfhFiled (region : PoolRegion) (content : ℕ → UInt8) (readable : ℕ → Bool)
    (before : PoolSnapshot) (ends : ℕ → Prop) (slots : ℕ) (after : PoolSnapshot) : Prop where
  unreached : after.matchLimitReached = false
  filed : ∃ new, after.spans = before.spans ++ new ∧
    List.Forall₂ (ReadSlot region content) (region.readableSlots readable slots)
      (new.filter fun span => span.state.isChunk) ∧ Laid ends new
  said : ∃ messages : List String,
    after.diagnostics = messages.foldl PoolDiagnostics.push before.diagnostics ∧
    ∀ message ∈ messages, ∃ gapStart missing, message = committedThrough region gapStart missing

section Filing

variable {memory : PoolMemory} {region : PoolRegion} {readable : ℕ → Bool} {content : ℕ → UInt8}
  {blocks offset next limit : ℕ} {before after : PoolSnapshot} {ends ends' : ℕ → Prop}
  {E : SnapshotError → World PoolSnapshot → Prop}

theorem LfhFiled.imp {slots slots' : ℕ}
    (h : LfhFiled region content readable before ends slots after)
    (hslots : region.readableSlots readable slots' = region.readableSlots readable slots)
    (hends : ∀ e, ends e → ends' e) :
    LfhFiled region content readable before ends' slots' after := by
  obtain ⟨new, hspans, hfiled, hlaid⟩ := h.filed
  exact { h with filed := ⟨new, hspans, hslots ▸ hfiled, hlaid.imp hends⟩ }

theorem LfhFiled.record {slot : ℕ} {span : PoolSpan}
    (h : LfhFiled region content readable before ends slot after)
    (hslot : !region.straddles slot && region.slotReadable readable slot)
    (hspan : ReadSlot region content slot span) (hunit : 0 < region.unitSize)
    (hheader : region.poolHeader.size ≤ region.unitSize)
    (hends : ∀ e, ends e → ends' e ∧ e ≤ region.address + slot * region.unitSize)
    (hend : ends' (region.address + (slot + 1) * region.unitSize)) :
    Satisfied (after.recordSpan span) ∨
      LfhFiled region content readable before ends' (slot + 1) (after.recordSpan span) := by
  obtain ⟨matched, hrecord⟩ | ⟨matched, limit, hrecord⟩ := recordSpan_cases after span
  · obtain ⟨new, hspans, hfiled, hlaid⟩ := h.filed
    have hchunk : span.state.isChunk = true := by
      have hstate := hspan.state
      obtain ⟨busy, -, hbusy⟩ := Option.map_eq_some_iff.mp hstate
      rw [← hbusy]
      cases busy <;> rfl
    rw [hrecord]
    refine Or.inr ⟨h.unreached, ⟨new ++ [span], ?_, ?_, ?_⟩, h.said⟩
    · show after.spans ++ [span] = _
      rw [hspans, List.append_assoc]
    · rw [readableSlots_succ, if_pos hslot, List.filter_append, List.filter_singleton, hchunk]
      exact List.rel_append hfiled (.cons hspan .nil)
    · refine Laid.append (hlaid.imp hends) ⟨List.pairwise_singleton _ _, fun other hother => ?_⟩
        fun other hother => ?_
      · rw [List.mem_singleton.mp hother, hspan.usable, hspan.spanEnd, hspan.headerAddress]
        rw [Nat.succ_mul] at hend ⊢
        exact ⟨by omega, by omega, by omega, hend⟩
      · rw [List.mem_singleton.mp hother, hspan.headerAddress]
  · rw [hrecord]
    exact Or.inl ⟨rfl, rfl⟩

theorem readSlot_lfhSpan (hr : LfhRegion region blocks) {slot n : ℕ} (hslot : slot < blocks)
    {state : PoolState} (hstate : lfhBitmapState region.bitmap slot = some state)
    (hoffset : offset ≤ slot * region.unitSize) (hin : (slot + 1) * region.unitSize ≤ offset + n) :
    ReadSlot region content slot (lfhSpan region (region.address + slot * region.unitSize)
      (tagAt region (bytesAt content (region.address + offset) n)
        (slot * region.unitSize - offset)) state) := by
  have hle := hr.slot_le (Nat.succ_le_of_lt hslot)
  have hspace := hr.space
  have hheader := hr.header
  rw [Nat.succ_mul] at hle hin
  refine ⟨lfhSpan_slot hr hslot hstate _, wrappingAdd_of_lt (by omega), ⟨_, rfl⟩, fun hfits => ?_⟩
  unfold PoolRegion.slotSpan
  rw [tagAt_slot hfits hheader (by omega), hstate,
    show region.address + offset + (slot * region.unitSize - offset) =
      region.address + slot * region.unitSize by omega]
  rfl

def SlotEnds (region : PoolRegion) (offset slot e : ℕ) : Prop :=
  e ≤ region.address + offset ∨ ∃ k < slot, region.straddles k = false ∧
    e = region.address + (k + 1) * region.unitSize

theorem SlotEnds.le {slot e : ℕ} (h : SlotEnds region offset slot e)
    (hoffset : offset ≤ slot * region.unitSize) : e ≤ region.address + slot * region.unitSize := by
  rcases h with hle | ⟨k, hk, -, rfl⟩
  · omega
  · exact Nat.add_le_add_left (Nat.mul_le_mul_right _ hk) _

theorem lfhFiled_slots (before : PoolSnapshot) (hr : LfhRegion region blocks)
    (hle : next ≤ region.size) (hlt : offset < next)
    (hthere : ∀ x, region.address + offset ≤ x → x < region.address + next → readable x = true) :
    SlotRules region offset (bytesAt content (region.address + offset) (next - offset))
      fun slot => LfhFiled region content readable before (SlotEnds region offset slot) slot := by
  refine ⟨fun _ _ hw => hw.unreached, fun slot snapshot hstraddles => ?_,
    fun slot snapshot state hwhole hoffset hin hstate hw => ?_⟩
  · have hslots : region.readableSlots readable (slot + 1) = region.readableSlots readable slot :=
      readableSlots_eq (Nat.le_succ slot) fun k hlow hhigh => by
        obtain rfl : k = slot := by omega
        exact Or.inl hstraddles
    have hends : ∀ e, SlotEnds region offset (slot + 1) e ↔ SlotEnds region offset slot e := by
      refine fun e => or_congr_right (exists_congr fun k => ?_)
      refine ⟨fun ⟨hk, hwhole, he⟩ => ⟨?_, hwhole, he⟩, fun ⟨hk, h⟩ => ⟨by omega, h⟩⟩
      rcases Nat.lt_succ_iff_lt_or_eq.mp hk with hk | rfl
      · exact hk
      · rw [hstraddles] at hwhole
        cases hwhole
    exact ⟨fun h => h.imp hslots.symm fun e => (hends e).mp,
      fun h => h.imp hslots fun e => (hends e).mpr⟩
  · rw [length_bytesAt, Nat.add_sub_cancel' hlt.le] at hin
    have hslot := hr.lt_blocks (hin.trans hle)
    have hread : region.slotReadable readable slot = true :=
      slotReadable_iff.mpr fun x hx hx' => hthere x (by omega) (by omega)
    refine hw.record (by rw [hwhole, hread]; rfl)
      (readSlot_lfhSpan hr hslot hstate hoffset (by omega)) hr.unit hr.header (fun e he => ?_) ?_
    · refine ⟨he.imp_right fun ⟨k, hk, h⟩ => ⟨k, by omega, h⟩, he.le hoffset⟩
    · exact Or.inr ⟨slot, Nat.lt_succ_self slot, hwhole, rfl⟩

theorem straddles_or_missing (hr : LfhRegion region blocks) (hle : next ≤ region.size)
    (hlt : offset < next) (hedge : region.Edge offset)
    (hgap : ∀ x, region.address + offset ≤ x → x < region.address + next → readable x = false)
    {slot : ℕ} (hlow : offset / region.unitSize ≤ slot) (hhigh : slot < next / region.unitSize) :
    region.straddles slot = true ∨ region.slotReadable readable slot = false := by
  have hin : (slot + 1) * region.unitSize ≤ next :=
    (Nat.mul_le_mul_right _ hhigh).trans (Nat.div_mul_le_self _ _)
  have hunit := hr.unit
  rw [Nat.succ_mul] at hin
  rcases Nat.lt_or_ge (slot * region.unitSize) offset with hbefore | hafter
  · -- the gap starts in the slot, and at a page
    have hslot : offset / region.unitSize = slot := by
      refine le_antisymm hlow ?_
      rw [Nat.le_div_iff_mul_le hunit]
      exact hbefore.le
    have hinside : offset % region.unitSize ≠ 0 := by
      have hdiv := Nat.div_add_mod' offset region.unitSize
      rw [hslot] at hdiv
      omega
    have hpage : (region.address + offset) % pageSize = 0 :=
      (hedge.start hlt hle).resolve_left (by omega)
    rw [← hslot]
    exact Or.inl (straddles_of_page hr (by omega) hpage hinside)
  · refine Or.inr (Bool.eq_false_iff.mpr fun hread => ?_)
    have hbyte := slotReadable_iff.mp hread (region.address + slot * region.unitSize) le_rfl
      (by rw [Nat.succ_mul]; omega)
    rw [hgap _ (by omega) (by omega)] at hbyte
    cases hbyte

theorem lfhFiled_gap (hr : LfhRegion region blocks) (hle : next ≤ region.size)
    (hlt : offset < next) (hedge : region.Edge offset)
    (hgap : ∀ x, region.address + offset ≤ x → x < region.address + next → readable x = false) :
    Run.Triple (fun w => LfhFiled region content readable before (· ≤ region.address + offset)
        (offset / region.unitSize) w.state)
      (unreadable memory region (region.address + offset) (next - offset))
      (fun _ w => LfhFiled region content readable before (· ≤ region.address + next)
        (next / region.unitSize) w.state) E := by
  intro w hw
  have hspace := hr.space
  obtain ⟨missed, w', hrun, gaps, rfl, hsplit, -⟩ := unreadable_pieces memory region
    (show region.address + offset < 2 ^ 64 by omega) (next - offset) w
  rw [saturatingAdd_of_lt (by omega), Nat.add_assoc, Nat.add_sub_cancel' hlt.le] at hsplit
  rw [hrun]
  obtain ⟨new, hspans, hfiled, hlaid⟩ := hw.filed
  have hslots : region.readableSlots readable (next / region.unitSize) =
      region.readableSlots readable (offset / region.unitSize) :=
    readableSlots_eq (Nat.div_le_div_right hlt.le) fun slot hlow hhigh =>
      straddles_or_missing hr hle hlt hedge hgap hlow hhigh
  refine ⟨hw.unreached, ⟨new ++ gaps, ?_, ?_, ?_⟩, hw.said⟩
  · show w.state.spans ++ gaps = _
    rw [hspans, List.append_assoc]
  · have hnone : gaps.filter (fun span => span.state.isChunk) = [] := by
      rw [List.filter_eq_nil_iff]
      intro gap hmem
      rw [hsplit.toGaps.not_isChunk hmem]
      decide
    rw [List.filter_append, hnone, List.append_nil, hslots]
    exact hfiled
  · refine Laid.append (hlaid.imp fun e he => ⟨?_, he⟩) ⟨?_, fun gap hmem => ?_⟩ fun gap hmem => ?_
    · omega
    · have hordered := hsplit.tiles.pairwise
      rwa [List.pairwise_map] at hordered
    · have hnonempty := hsplit.nonempty gap hmem
      have hlast := (hsplit.toGaps.mem_iff (x := gap.spanEnd - 1)).mp
        ⟨gap, hmem, containsAddress_iff.mpr (by omega)⟩
      rw [hsplit.bare gap hmem]
      exact ⟨le_rfl, hnonempty.le, hnonempty, by omega⟩
    · exact hsplit.tiles.le_fst (List.mem_map_of_mem hmem)

variable (limit) in
/-- **The walk of an LFH region files the slots that lie in one page and can be read**, unless it is
told to stop. -/
theorem walkRegion_lfhFiled (h : Patchy memory content readable) (hr : LfhRegion region blocks)
    (hunreached : before.matchLimitReached = false) :
    Run.Triple (fun w => w.state = before) (walkRegion memory limit region)
      (fun _ w => Satisfied w.state ∨ LfhFiled region content readable before
        (· ≤ region.address + region.size) blocks w.state) E := by
  have hd : Passes memory content readable limit region (fun offset =>
      LfhFiled region content readable before (· ≤ region.address + offset)
        (offset / region.unitSize)) E := by
    refine ⟨fun _ _ hw => hw.unreached, fun offset next s hlt hle hedge _ hthere => ?_,
      fun offset next hlt hle hedge _ hgap => lfhFiled_gap hr hle hlt hedge hgap,
      fun offset snapshot gapStart missing _ hw => ?_⟩
    · have hlength : offset + (bytesAt content (region.address + offset) (next - offset)).length =
          next := by
        rw [length_bytesAt]
        omega
      refine decodeExtent_lfh hr.backend hr.ordinary (Q := LfhFiled region content readable before
          (· ≤ region.address + offset) (offset / region.unitSize))
        (R := fun after => Satisfied after ∨ LfhFiled region content readable before
          (· ≤ region.address + next) (next / region.unitSize) after) ?_
      refine (walkLfh_slots hr (lfhFiled_slots before hr hle hlt hthere) (hlength.trans_le hle)
        (hedge.start hlt hle)).imp (fun _ hw => ?_) (fun _ w hw => ?_) fun _ _ he => he
      · exact hw.imp rfl fun e he => Or.inl he
      · rw [hlength] at hw
        refine hw.imp_right fun hw => hw.imp rfl fun e he => ?_
        rcases he with he | ⟨k, hk, -, rfl⟩
        · omega
        · exact Nat.add_le_add_left ((Nat.mul_le_mul_right _ hk).trans (Nat.div_mul_le_self _ _)) _
    · obtain ⟨messages, hsaid, hmessages⟩ := hw.said
      refine { hw with said := ⟨messages ++ [committedThrough region gapStart missing], ?_, ?_⟩ }
      · rw [List.foldl_append, ← hsaid]
        rfl
      · intro message hmem
        rcases List.mem_append.mp hmem with hold | hnew
        · exact hmessages message hold
        · exact ⟨gapStart, missing, List.mem_singleton.mp hnew⟩
  rw [walkRegion_lfh hr.backend]
  refine (walkExtents_passes h hd hr.space).imp (fun w hw => ?_) (fun _ w hw => ?_) fun _ _ he => he
  · rw [hw, Nat.zero_div]
    exact ⟨hunreached, ⟨[], (List.append_nil _).symm, .nil, Laid.nil _⟩, [], rfl,
      List.forall_mem_nil _⟩
  · refine hw.imp_right fun hw => ?_
    have hblocks : region.size / region.unitSize = blocks := by
      rw [hr.size, Nat.mul_div_cancel _ hr.unit]
    rwa [hblocks] at hw

end Filing

/-! ## However memory is cut -/

theorem committedThrough_ne (region : PoolRegion) (gapStart missing slot : ℕ) :
    committedThrough region gapStart missing ≠ s!"truncated LFH bitmap at slot {slot}" := by
  intro heq
  have hfirst := congrArg (fun message => message.toList.head?) heq
  have hregion : (toString "region ").toList.head? = some 'r' := by decide
  have htruncated : (toString "truncated LFH bitmap at slot ").toList.head? = some 't' := by decide
  simp [committedThrough, hregion, htruncated] at hfirst

def PoolRegion.WholeAndReadable (region : PoolRegion) (readable : ℕ → Bool) (slot : ℕ) : Prop :=
  (region.address + slot * region.unitSize) / pageSize =
      (region.address + (slot + 1) * region.unitSize - 1) / pageSize ∧
    ∀ x, region.address + slot * region.unitSize ≤ x →
      x < region.address + (slot + 1) * region.unitSize → readable x = true

theorem mem_readableSlots_iff {region : PoolRegion} {blocks : ℕ} (hr : LfhRegion region blocks)
    {readable : ℕ → Bool} {slot : ℕ} : slot ∈ region.readableSlots readable blocks ↔
      slot < blocks ∧ region.WholeAndReadable readable slot := by
  rw [mem_readableSlots]
  refine and_congr_right fun hslot => and_congr ?_ slotReadable_iff
  have hle := hr.slot_le (Nat.succ_le_of_lt hslot)
  have hspace := hr.space
  rw [Nat.succ_mul] at hle ⊢
  unfold PoolRegion.straddles
  rw [Bool.eq_false_iff, ne_eq, straddlesPage_iff hr.unit (by omega), not_not, Nat.add_assoc]

/-- What is filed for a slot: all but the tag is the region's to say, and the bit's. -/
structure FiledSlot (layout : PoolLayout) (source : LfhSource) (region : PoolRegion) (slot : ℕ)
    (span : PoolSpan) : Prop where
  filed : ∃ tag, span = lfhSpan region (region.address + slot * region.unitSize) tag span.state
  headerAddress : span.headerAddress = region.address + slot * region.unitSize
  usable : span.usableAddress = span.headerAddress + region.poolHeader.size
  spanEnd : span.spanEnd = region.address + (slot + 1) * region.unitSize
  state : ∃ busy, bitAt source.raw (layout.lfhBitmap.busyBit slot) = some busy ∧
    span.state = if busy then .allocated else .reusableFree

/-- **LFH spans are exactly the whole readable slots, however memory is cut.** -/
theorem lfh_walk_files_readable_slots {memory : PoolMemory} {layout : PoolLayout}
    {source : LfhSource} {region : PoolRegion} (h : LfhOrigin memory layout source region)
    (hbackend : region.backend = .lfh) (hspace : source.InSpace)
    (hheader : region.poolHeader.size ≤ region.unitSize) (content : ℕ → UInt8)
    (readable : ℕ → Bool) (limit : ℕ) {w₀ : World PoolSnapshot}
    (hunreached : w₀.state.matchLimitReached = false) :
    ∃ slots : List ℕ, slots.Pairwise (· < ·) ∧
      (∀ slot, slot ∈ slots ↔ slot < source.lfh.blocks ∧ region.WholeAndReadable readable slot) ∧
      ∀ target, Patchy target content readable →
        ∃ w, walkRegion target limit region w₀ = (.ok (), w) ∧
          (w.state.matchLimitReached = false →
            ∃ new, w.state.spans = w₀.state.spans ++ new ∧
              List.Forall₂ (FiledSlot layout source region) slots
                (new.filter fun span => span.state.isChunk) ∧
              (region.poolHeader.Fits → (new.filter fun span => span.state.isChunk) =
                slots.map (region.slotSpan content)) ∧
              ∃ messages : List String,
                w.state.diagnostics = messages.foldl PoolDiagnostics.push w₀.state.diagnostics ∧
                ∀ message ∈ messages, ∀ slot : ℕ,
                  message ≠ s!"truncated LFH bitmap at slot {slot}") := by
  have hr : LfhRegion region source.lfh.blocks :=
    h.lfhRegion hbackend hspace (h.unitSize ▸ hheader)
  refine ⟨region.readableSlots readable source.lfh.blocks, ?_, fun slot => mem_readableSlots_iff hr,
    fun target hp => ?_⟩
  · exact List.pairwise_lt_range.filter _
  have hends := walkRegion_lfhFiled (E := fun _ _ => False) limit hp hr hunreached w₀ rfl
  rcases hrun : walkRegion target limit region w₀ with ⟨r, w⟩
  rw [hrun] at hends
  cases r with
  | error error => exact hends.elim
  | ok _ =>
    refine ⟨w, rfl, fun hreached => ?_⟩
    rcases hends with hmet | hfiled
    · rw [hmet.reached] at hreached
      cases hreached
    obtain ⟨new, hspans, hslots, -⟩ := hfiled.filed
    obtain ⟨messages, hsaid, hmessages⟩ := hfiled.said
    refine ⟨new, hspans, ?_, fun hfits => ?_, messages, hsaid, fun message hmem slot => ?_⟩
    · have hbelow := (List.forall₂_and_left _ _).mpr
        ⟨fun slot hmem => (mem_readableSlots_iff hr).mp hmem, hslots⟩
      refine hbelow.imp fun slot span ⟨⟨hslot, _⟩, hspan⟩ => ?_
      obtain ⟨busy, hbusy, hstate⟩ := lfhBitmapState_normalise h.bitmap hslot
      exact ⟨hspan.filed, hspan.headerAddress, hspan.usable, hspan.spanEnd, busy, hbusy,
        Option.some.inj (hspan.state.symm.trans hstate)⟩
    · rw [← List.forall₂_eq_eq_eq, List.forall₂_map_right_iff]
      exact (hslots.imp fun slot span hspan => hspan.tagged hfits).flip
    · obtain ⟨gapStart, missing, rfl⟩ := hmessages message hmem
      exact committedThrough_ne region gapStart missing slot

def halfFourBlocks : PoolMemory :=
  { fourBlocksTarget with
    validRegion := fun _ address size =>
      .ok (if address < 0x12000 then (address, min size (0x12000 - address)) else (0, 0)) }

theorem halfFourBlocks_patchy :
    Patchy halfFourBlocks (wordBytes fourBlocks) fun x => decide (x < 0x12000) where
  read _ _ _ _ := rfl
  valid history address size hsize := by
    by_cases haddress : address < 0x12000
    · refine ⟨address, min size (0x12000 - address), congrArg _ (if_pos haddress), ?_⟩
      refine .found (by omega) (by omega) (fun x hx hx' => absurd hx (Nat.not_le.mpr hx'))
        (fun x _ hx _ => decide_eq_true (by omega)) (Or.inl le_rfl) ?_
      rcases Nat.le_total size (0x12000 - address) with hle | hle
      · exact Or.inl (by omega)
      · rw [Nat.min_eq_right hle, Nat.add_sub_cancel' haddress.le]
        exact Or.inr (by decide)
    · refine ⟨0, 0, congrArg _ (if_neg haddress), ?_⟩
      exact .nothing (fun x hx _ => decide_eq_false (by omega)) (Or.inr ⟨rfl, rfl⟩)
  poll _ := rfl

theorem lfh_walk_files_readable_slots_halfFourBlocks :
    ∃ region, (fourBlocksDiscovery kernelGlobals).2.state.regions = [region] ∧
      ∃ slots : List ℕ, (∀ slot, slot ∈ slots ↔
          slot < 4 ∧ region.WholeAndReadable (fun x => decide (x < 0x12000)) slot) ∧
        ∃ w, walkRegion halfFourBlocks 8 region emptySnapshot = (.ok (), w) ∧
          (w.state.matchLimitReached = false → ∃ new, w.state.spans = new ∧
            List.Forall₂ (FiledSlot (segmentLayout kernelGlobals) fourBlocksSource region) slots
              (new.filter fun span => span.state.isChunk)) := by
  obtain ⟨region, hregions, hbackend, horigin⟩ := kernel_fourBlocks
  have hpool : (segmentLayout kernelGlobals).poolHeaderLayout = .ok (fourBlocksHeader 0x20) := rfl
  have hheader : region.poolHeader.size ≤ region.unitSize := by
    rw [horigin.unitSize, Except.ok.inj (horigin.poolHeader.symm.trans hpool)]
    decide
  have hunreached : emptySnapshot.state.matchLimitReached = false := rfl
  obtain ⟨slots, -, hslots, hwalks⟩ := lfh_walk_files_readable_slots horigin hbackend
    fourBlocks_laidOut.space hheader (wordBytes fourBlocks) (fun x => decide (x < 0x12000)) 8
    hunreached
  obtain ⟨w, hwalk, hfiled⟩ := hwalks halfFourBlocks halfFourBlocks_patchy
  refine ⟨region, hregions, slots, hslots, w, hwalk, fun hunreached => ?_⟩
  obtain ⟨new, hspans, hnew, -⟩ := hfiled hunreached
  exact ⟨new, hspans, hnew⟩

end DbgScope.Pool
