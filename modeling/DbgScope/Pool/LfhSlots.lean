import DbgScope.Pool.Patchy

/-!
# LFH subsegments, slot by slot

What the walk of an LFH region files over a target that reads: one span for every slot of the
region that lies in one page, in order, in the state its busy bit gives. From that follows how it
compares with the subsegment the region was made from, the kernel's and `ntdll`'s.
-/

namespace DbgScope.Pool

open Run (Triple)
open PoolSnapshot

/-! ## Bitmaps -/

theorem testBit_setBit (byte : UInt8) (slot i : ℕ) :
    (byte ||| UInt8.ofNat (1 <<< (slot % 8))).toNat.testBit i =
      (byte.toNat.testBit i || decide (i = slot % 8)) := by
  have hmask : (UInt8.ofNat (1 <<< (slot % 8))).toNat = 2 ^ (slot % 8) := by
    rw [UInt8.toNat_ofNat', Nat.one_shiftLeft]
    refine Nat.mod_eq_of_lt (Nat.pow_lt_pow_right (by decide) (by omega))
  rw [UInt8.toNat_or, Nat.testBit_or, hmask, Nat.testBit_two_pow]
  congr 1
  exact decide_eq_decide.mpr eq_comm

theorem length_setBit (busy : List UInt8) (slot : ℕ) : (setBit busy slot).length = busy.length := by
  simp [setBit]

theorem bitAt_setBit {busy : List UInt8} {slot : ℕ} (h : slot / 8 < busy.length) (k : ℕ) :
    bitAt (setBit busy slot) k = if k = slot then some true else bitAt busy k := by
  unfold bitAt setBit
  rw [List.getElem?_modify]
  by_cases hbyte : slot / 8 = k / 8
  · have hk : k / 8 < busy.length := by omega
    rw [List.getElem?_eq_getElem hk]
    simp only [hbyte, if_true, Option.map_eq_map, Option.map_some, testBit_setBit]
    by_cases hks : k = slot
    · subst hks
      simp
    · rw [if_neg hks]
      have hbit : k % 8 ≠ slot % 8 := by omega
      simp [hbit]
  · simp only [hbyte, if_false, Option.map_eq_map, Option.map_id_fun', id]
    rw [if_neg (by rintro rfl; exact hbyte rfl)]

variable {arrangement : LfhBitmap} {raw : List UInt8}

theorem normaliseFrom_spec : ∀ {left slot : ℕ} {busy out : List UInt8},
      arrangement.normaliseFrom raw left slot busy = some out → slot + left ≤ 8 * busy.length →
      (∀ k, slot ≤ k → k < slot + left → bitAt busy k = some false) →
      ∀ k, bitAt out k = if slot ≤ k ∧ k < slot + left then bitAt raw (arrangement.busyBit k)
        else bitAt busy k := by
  intro left
  induction left with
  | zero =>
    intro slot busy out h _ _ k
    cases h
    rw [if_neg (by omega)]
  | succ left ih =>
    intro slot busy out h hlength hclear k
    unfold LfhBitmap.normaliseFrom at h
    obtain ⟨set, hset, h⟩ := Option.bind_eq_some_iff.mp h
    have hslot : slot / 8 < busy.length := by omega
    -- the bit of this slot is now the one read, and the others are as they were
    have hnow : ∀ k, bitAt (if set = true then setBit busy slot else busy) k =
        if k = slot then some set else bitAt busy k := by
      intro k
      cases set with
      | true => rw [if_pos rfl, bitAt_setBit hslot]
      | false =>
        rw [if_neg (by decide)]
        split
        · next hk => rw [hk]; exact hclear slot (le_refl _) (by omega)
        · rfl
    have hwidth : (if set = true then setBit busy slot else busy).length = busy.length := by
      split
      · exact length_setBit busy slot
      · rfl
    have hrest := ih h (by rw [hwidth]; omega) (fun j hj hj' => by
      rw [hnow, if_neg (by omega)]
      exact hclear j (by omega) (by omega)) k
    rw [hrest, hnow]
    by_cases hk : k = slot
    · rw [hk, if_neg (by omega), if_pos rfl, if_pos (by omega), hset]
    · rw [if_neg hk]
      congr 1
      exact propext ⟨by omega, by omega⟩

theorem bitAt_replicate_zero {n k : ℕ} (h : k < 8 * n) :
    bitAt (List.replicate n 0) k = some false := by
  unfold bitAt
  rw [List.getElem?_replicate, if_pos (by omega)]
  simp

theorem bitAt_normalise {bitmap : List UInt8} {blocks k : ℕ}
    (h : arrangement.normalise raw blocks = some bitmap) (hk : k < blocks) :
    bitAt bitmap k = bitAt raw (arrangement.busyBit k) := by
  have hroom : blocks ≤ 8 * divCeil blocks 8 := by
    unfold divCeil
    omega
  have hspec := normaliseFrom_spec h (by rw [List.length_replicate]; omega)
    (fun j _ hj => bitAt_replicate_zero (by omega)) k
  rw [hspec, if_pos (by omega)]

theorem normaliseFrom_reaches : ∀ {left slot : ℕ} {busy out : List UInt8},
      arrangement.normaliseFrom raw left slot busy = some out →
      ∀ k, slot ≤ k → k < slot + left → (bitAt raw (arrangement.busyBit k)).isSome = true := by
  intro left
  induction left with
  | zero => intro slot busy out _ k _ _; omega
  | succ left ih =>
    intro slot busy out h k hk hk'
    unfold LfhBitmap.normaliseFrom at h
    obtain ⟨set, hset, h⟩ := Option.bind_eq_some_iff.mp h
    by_cases hslot : k = slot
    · rw [hslot, hset]
      rfl
    · exact ih h k (by omega) (by omega)

theorem lfhBitmapState_normalise {bitmap : List UInt8} {blocks k : ℕ}
    (h : arrangement.normalise raw blocks = some bitmap) (hk : k < blocks) :
    ∃ busy, bitAt raw (arrangement.busyBit k) = some busy ∧
      lfhBitmapState bitmap k = some (if busy then .allocated else .reusableFree) := by
  obtain ⟨busy, hbusy⟩ :=
    Option.isSome_iff_exists.mp (normaliseFrom_reaches h k (by omega) (by omega))
  refine ⟨busy, hbusy, ?_⟩
  unfold lfhBitmapState
  rw [bitAt_normalise h hk, hbusy]
  rfl

theorem normaliseFrom_isSome : ∀ {left slot : ℕ} {busy : List UInt8},
      (∀ k, slot ≤ k → k < slot + left → (bitAt raw (arrangement.busyBit k)).isSome = true) →
      ∃ out, arrangement.normaliseFrom raw left slot busy = some out := by
  intro left
  induction left with
  | zero => exact fun _ => ⟨_, rfl⟩
  | succ left ih =>
    intro slot busy h
    obtain ⟨set, hset⟩ := Option.isSome_iff_exists.mp (h slot le_rfl (by omega))
    unfold LfhBitmap.normaliseFrom
    rw [hset]
    exact ih fun k hk hk' => h k (by omega) (by omega)

theorem testBit_fromLe (bytes : List UInt8) (i : ℕ) :
    (fromLe bytes).testBit i = (bitAt bytes i).getD false := by
  induction bytes generalizing i with
  | nil => simp [fromLe, bitAt]
  | cons byte bytes ih =>
    have hbyte : byte.toNat < 2 ^ 8 := byte.toNat_lt
    rw [fromLe, Nat.add_comm, show (256 : ℕ) = 2 ^ 8 from rfl, Nat.testBit_two_pow_mul_add _ hbyte]
    by_cases hi : i < 8
    · have hfirst : i / 8 = 0 := by omega
      have hbit : i % 8 = i := by omega
      simp [bitAt, hi, hfirst, hbit]
    · have hrest : i / 8 = (i - 8) / 8 + 1 := by omega
      have hbit : i % 8 = (i - 8) % 8 := by omega
      rw [if_neg hi, ih]
      simp [bitAt, hrest, hbit]

def bitmapWord (raw : List UInt8) (index : ℕ) : ℕ := fromLe ((raw.drop (index * 8)).take 8)

theorem bitAt_bitmapWord {word bit : ℕ} (hbit : bit < 64) (h : word * 8 + 8 ≤ raw.length) :
    bitAt raw (word * 64 + bit) = some ((bitmapWord raw word).testBit bit) := by
  have hbyte : (word * 64 + bit) / 8 = word * 8 + bit / 8 := by omega
  have hlow : (word * 64 + bit) % 8 = bit % 8 := by omega
  have hin : word * 8 + bit / 8 < raw.length := by omega
  rw [bitmapWord, testBit_fromLe]
  unfold bitAt
  rw [hbyte, hlow, List.getElem?_take_of_lt (by omega), List.getElem?_drop,
    List.getElem?_eq_getElem hin]
  rfl

def LfhBitmap.perWord : LfhBitmap → ℕ
  | .splitWord => 32
  | .contiguousBits => 64

/-- The bit of the bitmap that says whether a block is busy. -/
def LfhBitmap.sourceBit (raw : List UInt8) (block : ℕ) : LfhBitmap → Bool
  | .splitWord => (bitmapWord raw (block / 32) % 2 ^ 32).testBit (block % 32)
  | .contiguousBits => (bitmapWord raw (block / 64)).testBit (block % 64)

/-- `busy_bit` in checked words. -/
def LfhBitmap.checkedBusyBit (slot : ℕ) : LfhBitmap → Option ℕ
  | .splitWord => (checkedMul (slot / 32) 64).bind fun start => checkedAdd start (slot % 32)
  | .contiguousBits => some slot

theorem bitAt_busyBit {blocks block : ℕ} (h : arrangement.bytesFor blocks ≤ raw.length)
    (hblock : block < blocks) :
    bitAt raw (arrangement.busyBit block) = some (arrangement.sourceBit raw block) := by
  cases arrangement with
  | splitWord =>
    have hword : block / 32 * 8 + 8 ≤ raw.length := by
      simp only [LfhBitmap.bytesFor, divCeil] at h
      omega
    have hbit := bitAt_bitmapWord (show block % 32 < 64 by omega) hword
    rw [LfhBitmap.busyBit, hbit, LfhBitmap.sourceBit, Nat.testBit_mod_two_pow,
      decide_eq_true (Nat.mod_lt block (by decide)), Bool.true_and]
  | contiguousBits =>
    have hword : block / 64 * 8 + 8 ≤ raw.length := by
      simp only [LfhBitmap.bytesFor, divCeil] at h
      omega
    have hbit := bitAt_bitmapWord (show block % 64 < 64 by omega) hword
    rwa [Nat.div_add_mod' block 64] at hbit

theorem isLeast_bytesFor (arrangement : LfhBitmap) (blocks : ℕ) :
    IsLeast {bytes | ∃ words, bytes = words * 8 ∧ blocks ≤ words * arrangement.perWord}
      (arrangement.bytesFor blocks) := by
  have hbytes : arrangement.bytesFor blocks = divCeil blocks arrangement.perWord * 8 := by
    cases arrangement <;> rfl
  rw [hbytes]
  refine ⟨⟨_, rfl, ?_⟩, ?_⟩
  · cases arrangement <;> (simp only [LfhBitmap.perWord, divCeil]; omega)
  · rintro _ ⟨words, rfl, hcovers⟩
    cases arrangement <;> (simp only [LfhBitmap.perWord, divCeil] at hcovers ⊢; omega)

theorem checkedBusyBit_eq {blocks slot : ℕ} (h : arrangement.bytesFor blocks < 2 ^ 61)
    (hslot : slot < blocks) :
    arrangement.checkedBusyBit slot = some (arrangement.busyBit slot) := by
  cases arrangement with
  | splitWord =>
    simp only [LfhBitmap.bytesFor, divCeil] at h
    simp only [LfhBitmap.checkedBusyBit, LfhBitmap.busyBit, checkedMul, checkedAdd]
    rw [if_pos (by omega), Option.bind_some, if_pos (by omega)]
  | contiguousBits => rfl

/-- **Normalising a bitmap reads the bit of every block.** -/
theorem normalise_reads_busy_bits (arrangement : LfhBitmap) (raw : List UInt8) (blocks : ℕ)
    (h : arrangement.bytesFor blocks ≤ raw.length) :
    (∃ busy, arrangement.normalise raw blocks = some busy ∧
      ∀ block < blocks, lfhBitmapState busy block =
        some (if arrangement.sourceBit raw block then .allocated else .reusableFree)) ∧
    IsLeast {bytes | ∃ words, bytes = words * 8 ∧ blocks ≤ words * arrangement.perWord}
      (arrangement.bytesFor blocks) ∧
    (raw.length < 2 ^ 61 → ∀ slot < blocks,
      arrangement.checkedBusyBit slot = some (arrangement.busyBit slot)) := by
  refine ⟨?_, isLeast_bytesFor arrangement blocks, fun hlength slot hslot =>
    checkedBusyBit_eq (h.trans_lt hlength) hslot⟩
  obtain ⟨busy, hbusy⟩ : ∃ busy, arrangement.normalise raw blocks = some busy :=
    normaliseFrom_isSome fun block _ hblock => by
      rw [bitAt_busyBit h (by omega)]
      rfl
  refine ⟨busy, hbusy, fun block hblock => ?_⟩
  obtain ⟨set, hset, hstate⟩ := lfhBitmapState_normalise hbusy hblock
  rw [bitAt_busyBit h hblock] at hset
  rw [hstate, ← Option.some.inj hset]

theorem normalise_reads_busy_bits_measured :
    ∃ busy, LfhBitmap.splitWord.normalise [0x97, 0x0e, 0x0a, 0xf6, 0x97, 0x0e, 0x0a, 0xf6, 0, 0, 0,
        0xc0, 0, 0, 0, 0] 62 = some busy ∧
      lfhBitmapState busy 31 = some .allocated ∧ lfhBitmapState busy 32 = some .reusableFree := by
  obtain ⟨⟨busy, hbusy, hstate⟩, -⟩ := normalise_reads_busy_bits .splitWord [0x97, 0x0e, 0x0a, 0xf6,
    0x97, 0x0e, 0x0a, 0xf6, 0, 0, 0, 0xc0, 0, 0, 0, 0] 62 (by decide)
  exact ⟨busy, hbusy, (hstate 31 (by decide)).trans (by decide),
    (hstate 32 (by decide)).trans (by decide)⟩

/-! ## The slots of an extent -/

structure LfhRegion (region : PoolRegion) (blocks : ℕ) : Prop where
  backend : region.backend = .lfh
  ordinary : region.heap.special = false
  unit : 0 < region.unitSize
  header : region.poolHeader.size ≤ region.unitSize
  size : region.size = blocks * region.unitSize
  space : region.address + region.size < 2 ^ 64
  last : region.size + region.unitSize < 2 ^ 64 - 1
  bitmap : ∀ slot < blocks, (lfhBitmapState region.bitmap slot).isSome = true

def PoolRegion.straddles (region : PoolRegion) (slot : ℕ) : Bool :=
  straddlesPage (region.address + slot * region.unitSize) region.unitSize

/-- The slots below `n` that lie in one page. -/
def PoolRegion.wholeSlots (region : PoolRegion) (n : ℕ) : List ℕ :=
  (List.range n).filter fun slot => !region.straddles slot

structure SlotSpan (region : PoolRegion) (slot : ℕ) (span : PoolSpan) : Prop where
  headerAddress : span.headerAddress = region.address + slot * region.unitSize
  spanEnd : span.spanEnd = region.address + (slot + 1) * region.unitSize
  state : lfhBitmapState region.bitmap slot = some span.state

/-- Everything is as in `before`, but for the spans of the whole slots below `slots`. -/
structure Filed (region : PoolRegion) (before : PoolSnapshot) (slots : ℕ) (after : PoolSnapshot) :
    Prop where
  complete : after.complete = before.complete
  unreached : after.matchLimitReached = false
  spans : ∃ filed, after.spans = before.spans ++ filed ∧
    List.Forall₂ (SlotSpan region) (region.wholeSlots slots) filed

theorem wholeSlots_succ (region : PoolRegion) (n : ℕ) :
    region.wholeSlots (n + 1) =
      region.wholeSlots n ++ if region.straddles n then [] else [n] := by
  unfold PoolRegion.wholeSlots
  rw [List.range_succ, List.filter_append]
  cases hn : region.straddles n <;> simp [hn]

theorem filed_skip {region : PoolRegion} {before after : PoolSnapshot} {slot : ℕ}
    (hstraddles : region.straddles slot = true) :
    Filed region before (slot + 1) after ↔ Filed region before slot after := by
  have hslots : region.wholeSlots (slot + 1) = region.wholeSlots slot := by
    rw [wholeSlots_succ, if_pos hstraddles, List.append_nil]
  constructor
  · exact fun h => { h with spans := hslots ▸ h.spans }
  · exact fun h => { h with spans := hslots ▸ h.spans }

theorem Filed.record {region : PoolRegion} {before after : PoolSnapshot} {slot : ℕ}
    {span : PoolSpan} (h : Filed region before slot after)
    (hstraddles : region.straddles slot = false) (hspan : SlotSpan region slot span) :
    Satisfied (after.recordSpan span) ∨ Filed region before (slot + 1) (after.recordSpan span) := by
  obtain ⟨matched, hrecord⟩ | ⟨matched, limit, hrecord⟩ := recordSpan_cases after span
  · obtain ⟨filed, hspans, hfiled⟩ := h.spans
    rw [hrecord]
    refine Or.inr ⟨h.complete, h.unreached, filed ++ [span], ?_, ?_⟩
    · show after.spans ++ [span] = _
      rw [hspans, List.append_assoc]
    · rw [wholeSlots_succ, if_neg (by rw [hstraddles]; decide)]
      exact List.rel_append hfiled (List.Forall₂.cons hspan List.Forall₂.nil)
  · rw [hrecord]
    exact Or.inl ⟨rfl, rfl⟩

section Slots

variable {region : PoolRegion} {blocks offset slot : ℕ} {bytes : List UInt8}
  {P : ℕ → PoolSnapshot → Prop} {E : SnapshotError → World PoolSnapshot → Prop}

variable (hr : LfhRegion region blocks)
include hr

theorem LfhRegion.slot_le (h : slot ≤ blocks) : slot * region.unitSize ≤ region.size := by
  rw [hr.size]
  exact Nat.mul_le_mul_right _ h

theorem LfhRegion.lt_blocks (h : (slot + 1) * region.unitSize ≤ region.size) : slot < blocks := by
  rw [hr.size] at h
  have := Nat.le_of_mul_le_mul_right h hr.unit
  omega

theorem lfhSpan_slot (hslot : slot < blocks) {state : PoolState}
    (hstate : lfhBitmapState region.bitmap slot = some state) (tag : ℕ) :
    SlotSpan region slot (lfhSpan region (region.address + slot * region.unitSize) tag state) := by
  have hle := hr.slot_le (Nat.succ_le_of_lt hslot)
  have hspace := hr.space
  have hheader := hr.header
  rw [Nat.succ_mul] at hle
  refine ⟨rfl, ?_, hstate⟩
  show saturatingAdd (wrappingAdd (region.address + slot * region.unitSize) region.poolHeader.size)
    (region.unitSize - region.poolHeader.size) = _
  rw [wrappingAdd_of_lt (by omega), saturatingAdd_of_lt (by omega), Nat.succ_mul]
  omega

/-- What the slots of an extent do to `P`, which speaks of the slots below one of them: a slot that
straddles a page does nothing, and the span of another is recorded. -/
structure SlotRules (region : PoolRegion) (offset : ℕ) (bytes : List UInt8)
    (P : ℕ → PoolSnapshot → Prop) : Prop where
  unreached : ∀ slot snapshot, P slot snapshot → snapshot.matchLimitReached = false
  skip : ∀ slot snapshot, region.straddles slot = true → (P (slot + 1) snapshot ↔ P slot snapshot)
  record : ∀ slot snapshot state, region.straddles slot = false →
    offset ≤ slot * region.unitSize → (slot + 1) * region.unitSize ≤ offset + bytes.length →
    lfhBitmapState region.bitmap slot = some state → P slot snapshot →
    Satisfied (snapshot.recordSpan (lfhSpan region (region.address + slot * region.unitSize)
      (tagAt region bytes (slot * region.unitSize - offset)) state)) ∨
    P (slot + 1) (snapshot.recordSpan (lfhSpan region (region.address + slot * region.unitSize)
      (tagAt region bytes (slot * region.unitSize - offset)) state))

theorem lfhStep_slots (hp : SlotRules region offset bytes P)
    (hextent : offset + bytes.length ≤ region.size) (hslot : slot ≤ blocks)
    (hreach : offset ≤ slot * region.unitSize) : Triple (fun w => P slot w.state)
      (lfhStep region (region.address + offset) bytes slot)
      (fun flow w => match flow with
        | .again next => next = slot + 1 ∧ (slot + 1) * region.unitSize ≤ offset + bytes.length ∧
            P (slot + 1) w.state
        | .stop _ => Satisfied w.state ∨ ¬ (slot + 1) * region.unitSize ≤ offset + bytes.length ∧
            P slot w.state) E := by
  intro w hw
  have hle := hr.slot_le hslot
  have hlast := hr.last
  have hspace := hr.space
  have hmul : checkedMul slot region.unitSize = some (slot * region.unitSize) :=
    if_pos (by omega)
  have hstep : (slot + 1) * region.unitSize = slot * region.unitSize + region.unitSize :=
    Nat.succ_mul slot region.unitSize
  unfold lfhStep
  rw [hmul, Nat.add_sub_cancel_left]
  dsimp only
  rw [saturatingAdd_of_lt (by omega), saturatingAdd_of_lt (by omega)]
  by_cases hin : (slot + 1) * region.unitSize ≤ offset + bytes.length
  · rw [if_neg (by omega), wrappingAdd_of_lt (by omega)]
    by_cases hstraddles : region.straddles slot = true
    · rw [if_pos (show straddlesPage _ _ = true from hstraddles)]
      exact ⟨rfl, hin, (hp.skip _ _ hstraddles).mpr hw⟩
    · have hwhole := Bool.eq_false_iff.mpr hstraddles
      have hlt := hr.lt_blocks (hin.trans hextent)
      rw [if_neg (show ¬ straddlesPage _ _ = true from hstraddles)]
      obtain ⟨state, hstate⟩ := Option.isSome_iff_exists.mp (hr.bitmap slot hlt)
      rw [hstate]
      dsimp only
      refine Triple.bind (P := fun w => P slot w.state)
        (Q := fun _ w => Satisfied w.state ∨ P (slot + 1) w.state)
        (Triple.modify fun v hv => ?_) (fun _ => ?_) w hw
      · exact hp.record slot _ state hwhole hreach hin hstate hv
      · intro v hv
        unfold limitReached
        rw [Run.read_bind_apply]
        rcases hv with hmet | hv
        · rw [hmet.reached]
          exact Or.inl hmet
        · rw [hp.unreached _ _ hv]
          exact ⟨rfl, hin, hv⟩
  · rw [if_pos (by omega)]
    exact Or.inr ⟨hin, hw⟩

omit hr in
theorem straddlesPage_iff {address unit : ℕ} (hunit : 0 < unit) (h : address + unit < 2 ^ 64) :
    straddlesPage address unit = true ↔
      address / pageSize ≠ (address + unit - 1) / pageSize := by
  have hsub : wrappingSub (address + unit) 1 = address + unit - 1 := by
    unfold wrappingSub
    omega
  unfold straddlesPage
  rw [wrappingAdd_of_lt h, hsub, bne_iff_ne]

theorem LfhRegion.div_lt (hoffset : offset ≤ region.size) (hinside : offset % region.unitSize ≠ 0) :
    offset / region.unitSize < blocks := by
  refine Nat.div_lt_of_lt_mul ?_
  rw [Nat.mul_comm, ← hr.size]
  rcases Nat.lt_or_ge offset region.size with h | h
  · exact h
  · rw [Nat.le_antisymm hoffset h, hr.size, Nat.mul_mod_left] at hinside
    exact absurd rfl hinside

theorem straddles_of_page (hoffset : offset ≤ region.size)
    (hpage : (region.address + offset) % pageSize = 0) (hinside : offset % region.unitSize ≠ 0) :
    region.straddles (offset / region.unitSize) = true := by
  have hdiv := Nat.div_add_mod' offset region.unitSize
  have hmod := Nat.mod_lt offset hr.unit
  have hspace := hr.space
  have hle := hr.slot_le (Nat.succ_le_of_lt (hr.div_lt hoffset hinside))
  rw [Nat.succ_mul] at hle
  unfold PoolRegion.straddles
  rw [straddlesPage_iff hr.unit (by omega)]
  unfold pageSize at *
  omega

theorem first_slot (hoffset : offset ≤ region.size)
    (hstart : offset = 0 ∨ (region.address + offset) % pageSize = 0) :
    divCeil offset region.unitSize ≤ blocks ∧
      offset ≤ divCeil offset region.unitSize * region.unitSize ∧
      (divCeil offset region.unitSize = offset / region.unitSize ∨
        divCeil offset region.unitSize = offset / region.unitSize + 1 ∧
          region.straddles (offset / region.unitSize) = true) := by
  have hdiv := Nat.div_add_mod' offset region.unitSize
  have hmod := Nat.mod_lt offset hr.unit
  by_cases hinside : offset % region.unitSize = 0
  · rw [divCeil_eq_div hr.unit hinside]
    refine ⟨Nat.div_le_of_le_mul ?_, by omega, Or.inl rfl⟩
    rw [Nat.mul_comm, ← hr.size]
    exact hoffset
  · have hpage : (region.address + offset) % pageSize = 0 := by
      rcases hstart with hzero | hpage
      · rw [hzero, Nat.zero_mod] at hinside
        exact absurd rfl hinside
      · exact hpage
    rw [divCeil_eq_succ hr.unit hinside, Nat.succ_mul]
    exact ⟨hr.div_lt hoffset hinside, by omega,
      Or.inr ⟨rfl, straddles_of_page hr hoffset hpage hinside⟩⟩

theorem walkLfh_slots (hp : SlotRules region offset bytes P)
    (hextent : offset + bytes.length ≤ region.size)
    (hstart : offset = 0 ∨ (region.address + offset) % pageSize = 0) :
    Triple (fun w => P (offset / region.unitSize) w.state)
      (walkLfh region (region.address + offset) bytes)
      (fun _ w => Satisfied w.state ∨
        P ((offset + bytes.length) / region.unitSize) w.state) E := by
  have hdiv := Nat.div_add_mod' offset region.unitSize
  obtain ⟨hblocks, hreach, hslots⟩ := first_slot hr (by omega) hstart
  unfold walkLfh
  rw [if_neg (Nat.not_lt.mpr hr.header), Nat.add_sub_cancel_left]
  generalize divCeil offset region.unitSize = first at hblocks hreach hslots
  refine (Triple.countdown (I := fun rounds slot w => P slot w.state ∧
      (slot ≤ blocks ∧ offset ≤ slot * region.unitSize) ∧
      slot + rounds = first + bytes.length + 2 ∧
      (slot = first ∨ slot * region.unitSize ≤ offset + bytes.length))
    (fun rounds slot => ?_) ?_ _ _).pre fun w hw => ?_
  · rintro w ⟨hw, ⟨hle, hpast⟩, hrounds, hbound⟩
    refine (lfhStep_slots (E := E) hr hp hextent hle hpast w hw).imp (fun flow v hv => ?_)
      fun _ _ hv => hv
    cases flow with
    | again next =>
      obtain ⟨rfl, hin, hv⟩ := hv
      refine ⟨hv, ⟨hr.lt_blocks (hin.trans hextent), ?_⟩, by omega, Or.inr hin⟩
      exact hpast.trans (Nat.mul_le_mul_right _ (Nat.le_succ slot))
    | stop _ =>
      refine hv.imp_right fun ⟨hin, hv⟩ => ?_
      by_cases hlast : slot * region.unitSize ≤ offset + bytes.length
      · have hend : (offset + bytes.length) / region.unitSize = slot :=
          Nat.div_eq_of_lt_le hlast (Nat.lt_of_not_le hin)
        rwa [hend]
      · -- the extent ends in the slot it starts in
        have hsame : slot = first := hbound.resolve_right hlast
        rcases hslots with hfirst | ⟨hfirst, hstraddles⟩
        · rw [hsame, hfirst] at hlast
          omega
        · rw [hsame, hfirst, Nat.succ_mul] at hlast
          have hend : (offset + bytes.length) / region.unitSize = offset / region.unitSize :=
            Nat.div_eq_of_lt_le (by omega) (by rw [Nat.succ_mul]; omega)
          rwa [hend, ← hp.skip _ _ hstraddles, ← hfirst, ← hsame]
  · rintro slot w ⟨-, -, hrounds, hbound⟩
    have hslot : slot = first + (bytes.length + 2) := by omega
    rcases hbound with hsame | hbound
    · omega
    · rw [hslot, Nat.add_mul] at hbound
      have := Nat.le_mul_of_pos_right (bytes.length + 2) hr.unit
      omega
  · refine ⟨?_, ⟨hblocks, hreach⟩, by omega, Or.inl rfl⟩
    rcases hslots with hfirst | ⟨hfirst, hstraddles⟩
    · rw [hfirst]
      exact hw
    · rw [hfirst]
      exact (hp.skip _ _ hstraddles).mpr hw

end Slots

/-! ## LFH regions -/

section Region

variable {memory : PoolMemory} {content : ℕ → UInt8} {region : PoolRegion} {blocks limit : ℕ}
  {before : PoolSnapshot} {E : SnapshotError → World PoolSnapshot → Prop}

theorem walkRegion_lfh (hbackend : region.backend = .lfh) :
    walkRegion memory limit region = walkExtents memory limit region := by
  unfold walkRegion
  rw [hbackend]

theorem decodeExtent_lfh (hbackend : region.backend = .lfh)
    (hordinary : region.heap.special = false)
    {base : ℕ} {bytes : List UInt8} {s : RegionWalk} {Q R : PoolSnapshot → Prop}
    (h : Triple (fun w => Q w.state) (walkLfh region base bytes) (fun _ w => R w.state) E) :
    Triple (fun w => Q w.state) (decodeExtent memory limit region base bytes s)
      (fun decoded w => decoded = some s ∧ R w.state) E := by
  unfold decodeExtent
  rw [if_neg (by rw [hordinary]; decide), hbackend]
  refine Triple.bind (Q := fun _ w => Q w.state) (Triple.modify fun _ hw => hw) fun _ => ?_
  refine Triple.bind h fun _ => ?_
  exact Triple.pure fun _ hw => ⟨rfl, hw⟩

theorem PoolRegion.Edge.start {offset next : ℕ} (h : region.Edge offset) (hlt : offset < next)
    (hnext : next ≤ region.size) : offset = 0 ∨ (region.address + offset) % pageSize = 0 := by
  rcases h with hzero | hsize | hpage
  · exact Or.inl hzero
  · omega
  · exact Or.inr hpage

/-- **The walk of an LFH region files its whole slots and nothing else**, unless it is told to
stop. -/
theorem walkRegion_filed (h : Mapped memory content) (hr : LfhRegion region blocks)
    (hunreached : before.matchLimitReached = false) :
    Triple (fun w => w.state = before) (walkRegion memory limit region)
      (fun _ w => Satisfied w.state ∨ Filed region before blocks w.state) E := by
  have hd : Passes memory content (fun _ => true) limit region
      (fun offset => Filed region before (offset / region.unitSize)) E := by
    refine ⟨fun _ _ hfiled => hfiled.unreached, fun offset next s hlt hle hedge _ _ => ?_,
      fun offset next hlt _ _ _ hgap => ?_, fun _ _ _ _ hgap => ?_⟩
    · have hlength : offset + (bytesAt content (region.address + offset) (next - offset)).length =
          next := by
        rw [length_bytesAt]
        omega
      have hp : SlotRules region offset (bytesAt content (region.address + offset) (next - offset))
          (Filed region before) :=
        ⟨fun _ _ hw => hw.unreached, fun _ _ hs => filed_skip hs,
          fun slot _ _ hwhole _ hin hstate hw => hw.record hwhole
            (lfhSpan_slot hr (hr.lt_blocks (hin.trans (hlength.trans_le hle))) hstate _)⟩
      refine decodeExtent_lfh hr.backend hr.ordinary
        (Q := Filed region before (offset / region.unitSize)) (R := fun after =>
          Satisfied after ∨ Filed region before (next / region.unitSize) after) ?_
      refine (walkLfh_slots hr hp (hlength.trans_le hle) (hedge.start hlt hle)).post fun _ w hw => ?_
      rwa [hlength] at hw
    · cases hgap (region.address + offset) le_rfl (by omega)
    · obtain ⟨_, hgap⟩ := hgap
      cases hgap
  rw [walkRegion_lfh hr.backend]
  refine (walkExtents_passes h.patchy hd hr.space).imp (fun w hw => ?_) (fun _ w hw => ?_)
    fun _ _ he => he
  · rw [hw, Nat.zero_div]
    exact ⟨rfl, hunreached, [], by simp, List.Forall₂.nil⟩
  · rwa [hr.size, Nat.mul_div_cancel _ hr.unit] at hw

theorem walkRegion_undersized (h : Mapped memory content) (hbackend : region.backend = .lfh)
    (hordinary : region.heap.special = false) (hspace : region.address + region.size < 2 ^ 64)
    (hpos : 0 < region.size) (hsmall : region.unitSize < region.poolHeader.size)
    (hunreached : before.matchLimitReached = false) :
    Triple (fun w => w.state = before) (walkRegion memory limit region)
      (fun _ w => w.state.complete = false) E := by
  have hd : Passes memory content (fun _ => true) limit region (fun offset snapshot =>
      (0 < offset → snapshot.complete = false) ∧ snapshot.matchLimitReached = false) E := by
    refine ⟨fun _ _ hw => hw.2, fun offset next s _ _ _ _ _ => ?_,
      fun offset next hlt _ _ _ hgap => ?_, fun _ _ _ _ hgap => ?_⟩
    · refine decodeExtent_lfh hbackend hordinary
        (Q := fun snapshot => (0 < offset → snapshot.complete = false) ∧
          snapshot.matchLimitReached = false)
        (R := fun snapshot => Satisfied snapshot ∨ (0 < next → snapshot.complete = false) ∧
          snapshot.matchLimitReached = false) ?_
      unfold walkLfh
      rw [if_pos hsmall]
      intro w hw
      exact Or.inr ⟨fun _ => rfl, hw.2⟩
    · cases hgap (region.address + offset) le_rfl (by omega)
    · obtain ⟨_, hgap⟩ := hgap
      cases hgap
  rw [walkRegion_lfh hbackend]
  refine (walkExtents_passes h.patchy hd hspace).imp (fun w hw => ?_) (fun _ w hw => ?_)
    fun _ _ he => he
  · rw [hw]
    exact ⟨fun habsurd => absurd habsurd (lt_irrefl 0), hunreached⟩
  · rcases hw with hmet | hw
    · exact hmet.incomplete
    · exact hw.1 hpos

end Region

end DbgScope.Pool
