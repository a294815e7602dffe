import DbgScope.Pool.Patchy

/-!
# Special-pool pages

A special-pool page holds one block, against the page's end, with a fill byte the page records
before and behind it. `KernelPage` is such a page; `pageReport` is what the walk makes of any page.
The walk of an extent files the reports of its pages in order, so what holds of one page's report
holds of the walk.
-/

namespace DbgScope.Pool

open PoolSnapshot

/-! ## Pages -/

def pageOf (bytes : List UInt8) (offset : ℕ) : List UInt8 := (bytes.drop offset).take pageSize

def blockStart (requested : ℕ) : ℕ := pageSize - nextMultipleOf requested 16

structure Filled (header : SpecialPoolHeader) (page : List UInt8) : Prop where
  whole : page.length = pageSize
  leading : ∀ i, header.headerSize ≤ i → i < blockStart header.requested →
    page[i]? = some header.fill
  padding : ∀ i, blockStart header.requested + header.requested ≤ i → i < pageSize →
    page[i]? = some header.fill

structure KernelPage (layout : PoolHeaderLayout) (requested : ℕ) (tracked : Bool) (fill : UInt8)
    (tag : ℕ) (page : List UInt8) : Prop where
  requested_pos : 1 ≤ requested
  tagged : tag ≠ 0
  fits : nextMultipleOf requested 16 + (layout.size + if tracked then 8 else 0) ≤ pageSize
  word : ∃ word, readU32 page layout.previousSize = some word ∧ word % 2 ^ 13 = requested ∧
    word.testBit 14 = tracked
  fillByte : page[layout.blockSize]? = some fill
  tagWord : readU32 page layout.tag = some tag
  filled : Filled
    { tag, requested, headerSize := layout.size + if tracked then 8 else 0, fill } page

def noBlock (page : ℕ) : String :=
  s!"special-pool page {hex page}: header describes no block the page could " ++
    "hold; page skipped"

/-- What the walk says of a block whose size is only bounded. -/
def notCorroborated (page tag : ℕ) : String :=
  let tag := displayTag tag
  s!"special-pool page {hex page} tag `{tag}`: size not corroborated by the fill " ++
    "pattern; reporting the rest of the page as an upper bound"

structure PageReport where
  span : Option PoolSpan
  message : Option String

/-- What it makes of the block a page's header describes. -/
def blockReport (region : PoolRegion) (address : ℕ) (header : SpecialPoolHeader)
    (page : List UInt8) : PageReport :=
  let placement := specialPoolPlacement address header page
  { span := some (baseSpan region address placement.usable placement.size header.tag .allocated)
    message := if placement.approximate then some (notCorroborated address header.tag) else none }

def pageReport (region : PoolRegion) (bytes : List UInt8) (address offset : ℕ) : PageReport :=
  match decodeSpecialPoolHeader bytes offset region.poolHeader with
  | none => { span := none, message := some (noBlock address) }
  | some header =>
    if header.tag = 0 then { span := none, message := none }
    else blockReport region address header (pageOf bytes offset)

def firstPage (base : ℕ) : ℕ := nextMultipleOf base pageSize

def pageCount (base length : ℕ) : ℕ := divCeil (base + length - firstPage base) pageSize

def extentPages (base length : ℕ) : List ℕ :=
  (List.range (pageCount base length)).map fun k => firstPage base + k * pageSize

/-! ## One page -/

section Page

variable {region : PoolRegion} {bytes page : List UInt8} {address offset : ℕ}

theorem le_nextMultipleOf_sixteen (a : ℕ) : a ≤ nextMultipleOf a 16 := by
  unfold nextMultipleOf divCeil
  omega

theorem readU32_pageOf {at' value : ℕ} (h : readU32 (pageOf bytes offset) at' = some value) :
    readU32 bytes (offset + at') = some value := by
  obtain ⟨part, hpart, rfl⟩ := Option.map_eq_some_iff.mp h
  unfold range pageOf at hpart
  obtain ⟨hlength, hpart⟩ := Option.ite_none_right_eq_some.mp hpart
  rw [List.length_take, List.length_drop] at hlength
  refine Option.map_eq_some_iff.mpr ⟨part, ?_, rfl⟩
  unfold range
  rw [if_pos (by omega), ← hpart, List.drop_take, List.take_take, List.drop_drop,
    Nat.min_eq_left (by omega)]

theorem getElem?_pageOf {i : ℕ} {byte : UInt8} (h : (pageOf bytes offset)[i]? = some byte) :
    bytes[offset + i]? = some byte := by
  unfold pageOf at h
  rw [List.getElem?_take] at h
  obtain ⟨-, h⟩ := Option.ite_none_right_eq_some.mp h
  rwa [List.getElem?_drop] at h

theorem all_window {low high : ℕ} {fill : UInt8} (hhigh : high ≤ page.length) :
    ((page.drop low).take (high - low)).all (fun byte => byte == fill) = true ↔
      ∀ i, low ≤ i → i < high → page[i]? = some fill := by
  rw [List.all_eq_true]
  constructor
  · intro h i hlow hi
    have hbyte : page[i]? = some (page.get ⟨i, by omega⟩) := List.getElem?_eq_getElem _
    have hmem : page.get ⟨i, by omega⟩ ∈ (page.drop low).take (high - low) := by
      refine List.mem_of_getElem? (i := i - low) ?_
      rw [List.getElem?_take, if_pos (by omega), List.getElem?_drop, Nat.add_sub_cancel' hlow,
        hbyte]
    rw [hbyte, eq_of_beq (h _ hmem)]
  · intro h byte hmem
    obtain ⟨i, hi⟩ := List.mem_iff_getElem?.mp hmem
    rw [List.getElem?_take] at hi
    obtain ⟨hlt, hi⟩ := Option.ite_none_right_eq_some.mp hi
    rw [List.getElem?_drop, h (low + i) (Nat.le_add_right _ _) (by omega)] at hi
    exact beq_iff_eq.mpr (Option.some.inj hi).symm

theorem filled_iff {header : SpecialPoolHeader} : Filled header page ↔
    page.length = pageSize ∧
      (specialPoolFill header page).all (fun byte => byte == header.fill) = true := by
  have hfill : specialPoolFill header page =
      (page.drop header.headerSize).take (blockStart header.requested - header.headerSize) ++
        page.drop (blockStart header.requested + header.requested) := rfl
  have hstart : blockStart header.requested ≤ pageSize := Nat.sub_le _ _
  have hrest : page.length = pageSize →
      page.drop (blockStart header.requested + header.requested) =
        (page.drop (blockStart header.requested + header.requested)).take
          (pageSize - (blockStart header.requested + header.requested)) := fun hlength => by
    rw [List.take_of_length_le (by rw [List.length_drop, hlength])]
  constructor
  · rintro ⟨hwhole, hleading, hpadding⟩
    refine ⟨hwhole, ?_⟩
    rw [hfill, List.all_append, Bool.and_eq_true, all_window (by omega), hrest hwhole,
      all_window (by omega)]
    exact ⟨hleading, hpadding⟩
  · rintro ⟨hwhole, hall⟩
    rw [hfill, List.all_append, Bool.and_eq_true, all_window (by omega), hrest hwhole,
      all_window (by omega)] at hall
    exact ⟨hwhole, hall.1, hall.2⟩

theorem KernelPage.decode {layout : PoolHeaderLayout} {requested : ℕ} {tracked : Bool}
    {fill : UInt8} {tag : ℕ}
    (h : KernelPage layout requested tracked fill tag (pageOf bytes offset)) :
    decodeSpecialPoolHeader bytes offset layout = some
      { tag, requested, headerSize := layout.size + if tracked then 8 else 0, fill } := by
  obtain ⟨word, hword, hsize, htracked⟩ := h.word
  have hlength : pageSize ≤ bytes.length - offset := by
    have hwhole := h.filled.whole
    unfold pageOf at hwhole
    rw [List.length_take, List.length_drop] at hwhole
    omega
  have hfits := h.fits
  have hrange : range bytes offset layout.size = some ((bytes.drop offset).take layout.size) := by
    have hpage : 0 < pageSize := by decide
    exact if_pos (by omega)
  have hrequested : word &&& specialPoolSizeMask = requested := by
    rw [← hsize]
    exact Nat.and_two_pow_sub_one_eq_mod word 13
  have hbit : (word &&& specialPoolTracked ≠ 0) ↔ tracked = true := by
    rw [show specialPoolTracked = 2 ^ 14 from rfl, Nat.and_two_pow, htracked]
    cases tracked <;> decide
  unfold decodeSpecialPoolHeader
  rw [hrange, readU32_pageOf hword, readU32_pageOf h.tagWord, getElem?_pageOf h.fillByte]
  simp only [Option.bind_eq_bind, Option.bind_some, hrequested, hbit]
  have hpos := h.requested_pos
  rw [if_neg (by omega)]

/-- **The block of a page the kernel laid out is where the kernel put it.** -/
theorem KernelPage.report {requested : ℕ} {tracked : Bool} {fill : UInt8} {tag : ℕ}
    (h : KernelPage region.poolHeader requested tracked fill tag (pageOf bytes offset))
    (haddress : address + pageSize ≤ 2 ^ 64) : pageReport region bytes address offset =
      { span := some (baseSpan region address (address + pageSize - nextMultipleOf requested 16)
          requested tag .allocated)
        message := none } := by
  have hplacement : specialPoolPlacement address
      { tag, requested, headerSize := region.poolHeader.size + if tracked then 8 else 0, fill }
      (pageOf bytes offset) =
        { usable := address + pageSize - nextMultipleOf requested 16, size := requested,
          approximate := false } := by
    have hfits := h.fits
    have hle := le_nextMultipleOf_sixteen requested
    have hpos := h.requested_pos
    unfold specialPoolPlacement
    rw [if_pos (filled_iff.mp h.filled)]
    dsimp only
    rw [wrappingAdd_of_lt (by omega), Nat.add_sub_assoc (by omega)]
  unfold pageReport
  rw [h.decode]
  dsimp only
  rw [if_neg h.tagged]
  unfold blockReport
  rw [hplacement]
  rfl

theorem decodeSpecialPoolHeader_fits {layout : PoolHeaderLayout} {header : SpecialPoolHeader}
    (h : decodeSpecialPoolHeader bytes offset layout = some header) :
    1 ≤ header.requested ∧ nextMultipleOf header.requested 16 + header.headerSize ≤ pageSize := by
  unfold decodeSpecialPoolHeader at h
  obtain ⟨_, -, h⟩ := Option.bind_eq_some_iff.mp h
  obtain ⟨word, -, h⟩ := Option.bind_eq_some_iff.mp h
  obtain ⟨hfits, h⟩ := Option.ite_none_left_eq_some.mp h
  obtain ⟨_, -, h⟩ := Option.bind_eq_some_iff.mp h
  obtain ⟨_, -, h⟩ := Option.bind_eq_some_iff.mp h
  rw [← Option.some.inj h]
  dsimp only at hfits ⊢
  exact ⟨by omega, by omega⟩

theorem pageReport_inside {span : PoolSpan} (haddress : address + pageSize ≤ 2 ^ 64)
    (h : (pageReport region bytes address offset).span = some span) :
    span.headerAddress = address ∧ address ≤ span.usableAddress ∧
      span.usableAddress + span.size ≤ address + pageSize ∧
      ((pageReport region bytes address offset).message = none →
        ∃ header, decodeSpecialPoolHeader bytes offset region.poolHeader = some header ∧
          Filled header (pageOf bytes offset)) := by
  unfold pageReport at h ⊢
  rcases hdecode : decodeSpecialPoolHeader bytes offset region.poolHeader with _ | header
  · rw [hdecode] at h
    cases h
  rw [hdecode] at h
  dsimp only at h ⊢
  by_cases htag : header.tag = 0
  · rw [if_pos htag] at h
    cases h
  rw [if_neg htag] at h ⊢
  obtain ⟨hpos, hfits⟩ := decodeSpecialPoolHeader_fits hdecode
  have hle := le_nextMultipleOf_sixteen header.requested
  have hlength : (pageOf bytes offset).length ≤ pageSize := List.length_take_le _ _
  unfold blockReport at h ⊢
  dsimp only at h ⊢
  rw [← Option.some.inj h]
  unfold specialPoolPlacement
  by_cases hfilled : (pageOf bytes offset).length = pageSize ∧
      (specialPoolFill header (pageOf bytes offset)).all (fun byte => byte == header.fill) = true
  · rw [if_pos hfilled]
    refine ⟨rfl, ?_, ?_, fun _ => ⟨header, rfl, filled_iff.mpr hfilled⟩⟩
    · show address ≤ wrappingAdd address _
      rw [wrappingAdd_of_lt (by omega)]
      omega
    · show wrappingAdd address _ + header.requested ≤ _
      rw [wrappingAdd_of_lt (by omega)]
      omega
  · rw [if_neg hfilled]
    refine ⟨rfl, ?_, ?_, fun hnone => by cases hnone⟩
    · show address ≤ wrappingAdd address _
      rw [wrappingAdd_of_lt (by omega)]
      omega
    · show wrappingAdd address _ + ((pageOf bytes offset).length - header.headerSize) ≤ _
      rw [wrappingAdd_of_lt (by omega)]
      omega

end Page

/-! ## The pages of an extent -/

section Extent

variable {region : PoolRegion} {base : ℕ} {bytes : List UInt8} {before after : PoolSnapshot}

theorem mem_extentPages {length page : ℕ} : page ∈ extentPages base length ↔
    page % pageSize = 0 ∧ base ≤ page ∧ page < base + length := by
  unfold extentPages pageCount firstPage nextMultipleOf divCeil pageSize
  rw [List.mem_map]
  constructor
  · rintro ⟨k, hk, rfl⟩
    rw [List.mem_range] at hk
    omega
  · rintro ⟨hpage, hlow, hhigh⟩
    refine ⟨(page - (base + 0x1000 - 1) / 0x1000 * 0x1000) / 0x1000, ?_, ?_⟩
    · rw [List.mem_range]
      omega
    · omega

structure PagesFiled (before : PoolSnapshot) (reports : List PageReport) (after : PoolSnapshot) :
    Prop where
  unreached : after.matchLimitReached = false
  spans : after.spans = before.spans ++ reports.filterMap PageReport.span
  diagnostics : after.diagnostics =
    (reports.filterMap PageReport.message).foldl PoolDiagnostics.push before.diagnostics
  complete : after.complete = (before.complete && (reports.filterMap PageReport.message).isEmpty)

def PageReport.tell (report : PageReport) (snapshot : PoolSnapshot) : PoolSnapshot :=
  match report.message with
  | some message => { snapshot with diagnostics := snapshot.diagnostics.push message
                                    complete := false }
  | none => snapshot

def PageReport.file (report : PageReport) (snapshot : PoolSnapshot) : PoolSnapshot :=
  match report.span with
  | some span => (report.tell snapshot).recordSpan span
  | none => report.tell snapshot

theorem PageReport.tell_spans (report : PageReport) (snapshot : PoolSnapshot) :
    (report.tell snapshot).spans = snapshot.spans := by
  unfold PageReport.tell
  cases report.message <;> rfl

theorem PageReport.tell_reached (report : PageReport) (snapshot : PoolSnapshot) :
    (report.tell snapshot).matchLimitReached = snapshot.matchLimitReached := by
  unfold PageReport.tell
  cases report.message <;> rfl

theorem PageReport.tell_diagnostics (report : PageReport) (snapshot : PoolSnapshot) :
    (report.tell snapshot).diagnostics =
      report.message.toList.foldl PoolDiagnostics.push snapshot.diagnostics := by
  unfold PageReport.tell
  cases report.message <;> rfl

theorem PageReport.tell_complete (report : PageReport) (snapshot : PoolSnapshot) :
    (report.tell snapshot).complete = (snapshot.complete && report.message.toList.isEmpty) := by
  unfold PageReport.tell
  cases report.message <;> simp

theorem filterMap_singleton_toList {α β : Type} (f : α → Option β) (a : α) :
    [a].filterMap f = (f a).toList := by
  cases h : f a <;> simp [h]

theorem PagesFiled.file {reports : List PageReport} (h : PagesFiled before reports after)
    (report : PageReport) : Satisfied (report.file after) ∨
      PagesFiled before (reports ++ [report]) (report.file after) := by
  have htold : (report.tell after).diagnostics =
        ((reports ++ [report]).filterMap PageReport.message).foldl PoolDiagnostics.push
          before.diagnostics ∧
      (report.tell after).complete = (before.complete &&
        ((reports ++ [report]).filterMap PageReport.message).isEmpty) := by
    rw [report.tell_diagnostics, report.tell_complete, h.diagnostics, h.complete,
      List.filterMap_append, filterMap_singleton_toList, List.foldl_append, Bool.and_assoc]
    refine ⟨rfl, congrArg _ ?_⟩
    cases reports.filterMap PageReport.message <;> simp
  have hspans : before.spans ++ (reports ++ [report]).filterMap PageReport.span =
      (report.tell after).spans ++ report.span.toList := by
    rw [List.filterMap_append, filterMap_singleton_toList, report.tell_spans, h.spans,
      List.append_assoc]
  have hreached := report.tell_reached after
  rw [h.unreached] at hreached
  unfold PageReport.file
  rcases hspan : report.span with _ | span
  · rw [hspan] at hspans
    exact Or.inr ⟨hreached, by rw [hspans]; exact (List.append_nil _).symm, htold.1, htold.2⟩
  · rw [hspan] at hspans
    obtain ⟨matched, hrecord⟩ | ⟨matched, limit, hrecord⟩ :=
      recordSpan_cases (report.tell after) span
    · dsimp only
      rw [hrecord]
      exact Or.inr ⟨hreached, hspans.symm, htold.1, htold.2⟩
    · dsimp only
      rw [hrecord]
      exact Or.inl ⟨rfl, rfl⟩

theorem recordSpecial_files (region : PoolRegion) (address : ℕ) (header : SpecialPoolHeader)
    (page : List UInt8) (w : World PoolSnapshot) : recordSpecial region address header page w =
      (.ok (), { w with state := (blockReport region address header page).file w.state }) := by
  unfold recordSpecial blockReport PageReport.file PageReport.tell
  dsimp only
  cases (specialPoolPlacement address header page).approximate <;> rfl

theorem specialStep_files (region : PoolRegion) {page : ℕ} (hbase : base ≤ page)
    (hpage : page < base + bytes.length) {w : World PoolSnapshot}
    (hunreached : w.state.matchLimitReached = false) :
    ∃ flow w', specialStep region base bytes page w = (.ok flow, w') ∧
      w'.state = (pageReport region bytes page (page - base)).file w.state ∧
      (w'.state.matchLimitReached = false → flow = nextPage page) ∧
      (w'.state.matchLimitReached = true → flow = .stop ()) := by
  have hoffset : checkedSub page base = some (page - base) := if_pos hbase
  unfold specialStep
  rw [hoffset]
  dsimp only
  rw [if_neg (by omega)]
  rcases hdecode : decodeSpecialPoolHeader bytes (page - base) region.poolHeader with _ | header
  · have hreport : pageReport region bytes page (page - base) =
        { span := none, message := some (noBlock page) } := by
      unfold pageReport
      rw [hdecode]
    refine ⟨_, _, rfl, ?_, fun _ => rfl, fun hreached => ?_⟩
    · rw [hreport]
      rfl
    · exact absurd hreached (Bool.eq_false_iff.mp hunreached)
  by_cases htag : header.tag = 0
  · have hreport : pageReport region bytes page (page - base) =
        { span := none, message := none } := by
      unfold pageReport
      rw [hdecode]
      exact if_pos htag
    dsimp only
    rw [if_pos htag]
    refine ⟨_, _, rfl, ?_, fun _ => rfl, fun hreached => ?_⟩
    · rw [hreport]
      rfl
    · exact absurd hreached (Bool.eq_false_iff.mp hunreached)
  · have hrecord := recordSpecial_files region page header (pageOf bytes (page - base)) w
    have hreport : pageReport region bytes page (page - base) =
        blockReport region page header (pageOf bytes (page - base)) := by
      unfold pageReport
      rw [hdecode]
      exact if_neg htag
    rw [← hreport] at hrecord
    dsimp only
    rw [if_neg htag]
    change ∃ flow w',
      (recordSpecial region page header (pageOf bytes (page - base)) >>= _) w = _ ∧ _
    rw [Run.bind_of_ok hrecord]
    unfold limitReached
    rw [Run.read_bind_apply]
    cases hreached : ((pageReport region bytes page (page - base)).file w.state).matchLimitReached
    · exact ⟨_, _, rfl, rfl, fun _ => rfl, fun h => absurd h (Bool.eq_false_iff.mp hreached)⟩
    · exact ⟨_, _, rfl, rfl, fun h => absurd hreached (Bool.eq_false_iff.mp h), fun _ => rfl⟩

def reportAt (region : PoolRegion) (base : ℕ) (bytes : List UInt8) (k : ℕ) : PageReport :=
  pageReport region bytes (firstPage base + k * pageSize) (firstPage base + k * pageSize - base)

theorem le_firstPage (base : ℕ) : base ≤ firstPage base := by
  unfold firstPage nextMultipleOf divCeil pageSize
  omega

theorem lt_pageCount {length k : ℕ} :
    k < pageCount base length ↔ firstPage base + k * pageSize < base + length := by
  have hlow := le_firstPage base
  unfold pageCount divCeil pageSize
  omega

theorem nextPage_cases (page : ℕ) : nextPage page = .again (page + pageSize) ∧
      page + pageSize < 2 ^ 64 ∨ nextPage page = .stop () ∧ 2 ^ 64 ≤ page + pageSize := by
  unfold nextPage checkedAdd
  split_ifs with hnext
  · exact Or.inl ⟨rfl, hnext⟩
  · exact Or.inr ⟨rfl, Nat.not_lt.mp hnext⟩

theorem specialStep_passes (region : PoolRegion) (hspace : base + bytes.length ≤ 2 ^ 64) {k : ℕ}
    (hk : k ≤ pageCount base bytes.length) {E : SnapshotError → World PoolSnapshot → Prop} :
    Run.Triple
      (fun w => PagesFiled before ((List.range k).map (reportAt region base bytes)) w.state)
      (specialStep region base bytes (firstPage base + k * pageSize))
      (fun flow w => match flow with
        | .again page => page = firstPage base + (k + 1) * pageSize ∧
            k < pageCount base bytes.length ∧
            PagesFiled before ((List.range (k + 1)).map (reportAt region base bytes)) w.state
        | .stop _ => Satisfied w.state ∨ PagesFiled before
            ((List.range (pageCount base bytes.length)).map (reportAt region base bytes)) w.state)
      E := by
  intro w hw
  have hlow := le_firstPage base
  rcases Nat.lt_or_ge k (pageCount base bytes.length) with hlt | hge
  · have hpage := lt_pageCount.mp hlt
    obtain ⟨flow, w', hstep, hstate, hagain, hstop⟩ :=
      specialStep_files region (hlow.trans (Nat.le_add_right _ _)) hpage hw.unreached
    rw [hstep]
    have hfiled := hw.file (reportAt region base bytes k)
    rw [show (reportAt region base bytes k).file w.state = w'.state from hstate.symm,
      show [reportAt region base bytes k] = [k].map (reportAt region base bytes) from rfl,
      ← List.map_append, ← List.range_succ] at hfiled
    rcases hfiled with hmet | hfiled
    · rw [hstop hmet.reached]
      exact Or.inl hmet
    · rw [hagain hfiled.unreached]
      cases nextPage_cases (firstPage base + k * pageSize) with
      | inl hnext =>
        rw [hnext.1]
        refine ⟨?_, hlt, hfiled⟩
        rw [Nat.succ_mul, Nat.add_assoc]
      | inr hlast =>
        -- the last page of the address space
        rw [hlast.1]
        have hend : ¬ k + 1 < pageCount base bytes.length := by
          have hpast := hlast.2
          rw [lt_pageCount, Nat.succ_mul]
          omega
        rw [Nat.le_antisymm hlt (Nat.not_lt.mp hend)] at hfiled
        exact Or.inr hfiled
  · have hpast : base + bytes.length ≤ firstPage base + k * pageSize :=
      Nat.not_lt.mp fun h => absurd (lt_pageCount.mpr h) (Nat.not_lt.mpr hge)
    have hoffset : checkedSub (firstPage base + k * pageSize) base =
        some (firstPage base + k * pageSize - base) := if_pos (by omega)
    unfold specialStep
    rw [hoffset]
    dsimp only
    rw [if_pos (by omega)]
    rw [Nat.le_antisymm hk hge] at hw
    exact Or.inr hw

/-- **The walk of an extent files the reports of its pages**, unless it is told to stop. -/
theorem walkSpecialPool_files_pages (region : PoolRegion) (hspace : base + bytes.length ≤ 2 ^ 64)
    (hunreached : before.matchLimitReached = false)
    {E : SnapshotError → World PoolSnapshot → Prop} :
    Run.Triple (fun w => w.state = before) (walkSpecialPool region base bytes)
      (fun _ w => Satisfied w.state ∨ PagesFiled before
        ((List.range (pageCount base bytes.length)).map (reportAt region base bytes)) w.state)
      E := by
  have hlow := le_firstPage base
  have hnone : PagesFiled before [] before :=
    ⟨hunreached, (List.append_nil _).symm, rfl, (Bool.and_true _).symm⟩
  rcases Nat.lt_or_ge (firstPage base) (2 ^ 64) with hfirst | hfirst
  · have hstart : wrappingNextMultipleOf base pageSize = firstPage base := Nat.mod_eq_of_lt hfirst
    have hrounds : pageCount base bytes.length < bytes.length / pageSize + 2 := by
      clear hstart hnone
      unfold pageCount divCeil pageSize
      omega
    unfold walkSpecialPool
    rw [hstart]
    refine (Run.Triple.countdown (I := fun n page w => ∃ k ≤ pageCount base bytes.length,
      page = firstPage base + k * pageSize ∧ pageCount base bytes.length < k + n ∧
      PagesFiled before ((List.range k).map (reportAt region base bytes)) w.state)
      (fun n page w hw => ?_) (fun page w hw => ?_) _ _).pre fun w hw => ?_
    · obtain ⟨k, hk, rfl, hleft, hw⟩ := hw
      refine (specialStep_passes region hspace hk w hw).imp (fun flow w' hw' => ?_) fun _ _ h => h
      cases flow with
      | again page =>
        obtain ⟨rfl, hlt, hfiled⟩ := hw'
        exact ⟨k + 1, hlt, rfl, by omega, hfiled⟩
      | stop _ => exact hw'
    · obtain ⟨k, hk, -, hleft, -⟩ := hw
      omega
    · exact ⟨0, Nat.zero_le _, by rw [Nat.zero_mul, Nat.add_zero], by rwa [Nat.zero_add],
        hw ▸ hnone⟩
  · -- no page starts in the extent, and the loop is left at once
    intro w hw
    have hcount : pageCount base bytes.length = 0 :=
      Nat.eq_zero_of_not_pos fun h => by
        have := lt_pageCount.mp h
        omega
    have hstart : wrappingNextMultipleOf base pageSize < base := by
      unfold firstPage at hfirst
      unfold wrappingNextMultipleOf nextMultipleOf divCeil pageSize at *
      omega
    have hstop : specialStep region base bytes (wrappingNextMultipleOf base pageSize) w =
        (.ok (.stop ()), w) := by
      unfold specialStep checkedSub
      rw [if_neg (Nat.not_le.mpr hstart)]
      rfl
    unfold walkSpecialPool
    rw [Run.loop_stop hstop, hcount]
    exact Or.inr (hw ▸ hnone)

end Extent

/-! ## The walk -/

/-- **A special-pool page decodes to the block the kernel placed, and no page to a block outside
it.** Unless a page is reported as uncertain, both runs of fill are what the page records. -/
theorem special_pool_blocks (region : PoolRegion) {base : ℕ} {bytes : List UInt8}
    (hspace : base + bytes.length ≤ 2 ^ 64) {w : World PoolSnapshot}
    (hunreached : w.state.matchLimitReached = false) :
    ∃ w', walkSpecialPool region base bytes w = (.ok (), w') ∧
      (w'.state.matchLimitReached = false → PagesFiled w.state
        ((extentPages base bytes.length).map fun page =>
          pageReport region bytes page (page - base)) w'.state) ∧
      ∀ page, page ∈ extentPages base bytes.length →
        (∀ requested tracked fill tag,
          KernelPage region.poolHeader requested tracked fill tag (pageOf bytes (page - base)) →
          pageReport region bytes page (page - base) =
            { span := some (baseSpan region page (page + pageSize - nextMultipleOf requested 16)
                requested tag .allocated)
              message := none }) ∧
        ∀ span, (pageReport region bytes page (page - base)).span = some span →
          span.headerAddress = page ∧ page ≤ span.usableAddress ∧
          span.usableAddress + span.size ≤ page + pageSize ∧
          ((pageReport region bytes page (page - base)).message = none →
            ∃ header, decodeSpecialPoolHeader bytes (page - base) region.poolHeader = some header ∧
              Filled header (pageOf bytes (page - base))) := by
  have hends := walkSpecialPool_files_pages (E := fun _ _ => False) region hspace hunreached w rfl
  have hreports : (List.range (pageCount base bytes.length)).map (reportAt region base bytes) =
      (extentPages base bytes.length).map
        fun page => pageReport region bytes page (page - base) := by
    unfold extentPages
    rw [List.map_map]
    rfl
  rcases hrun : walkSpecialPool region base bytes w with ⟨r, w'⟩
  rw [hrun, hreports] at hends
  cases r with
  | error error => exact hends.elim
  | ok _ =>
    refine ⟨w', rfl, fun hreached => ?_, fun page hpage => ?_⟩
    · rcases hends with hmet | hfiled
      · rw [hmet.reached] at hreached
        cases hreached
      · exact hfiled
    · obtain ⟨haligned, hlow, hhigh⟩ := mem_extentPages.mp hpage
      have haddress : page + pageSize ≤ 2 ^ 64 := by
        unfold pageSize at haligned ⊢
        omega
      exact ⟨fun _ _ _ _ hkernel => hkernel.report haddress,
        fun span hspan => pageReport_inside haddress hspan⟩

/-- A page with a block of `0x68` bytes, as the kernel lays it out. -/
def oneBlock : ℕ → UInt8
  | 0 => 0x68
  | 1 | 3 => 0
  | 4 => 0x54
  | 5 => 0x73
  | 6 => 0x70
  | 7 => 0x31
  | i => if 0xf90 ≤ i ∧ i < 0xff8 then 0x41 else 0xfd

def oneBlockRegion : PoolRegion :=
  { onePage .segment none with
    heap := { poolState := 0, heap := 0, special := true }
    poolHeader := { size := 0x10, previousSize := 0, poolIndex := 0, blockSize := 2, poolType := 2,
                    tag := 4 } }

theorem oneBlock_fill {i : ℕ} (h : 8 ≤ i) (hblock : ¬ (0xf90 ≤ i ∧ i < 0xff8)) :
    oneBlock i = 0xfd := by
  unfold oneBlock
  split <;> first | omega | exact if_neg hblock

theorem oneBlock_page : KernelPage oneBlockRegion.poolHeader 0x68 false 0xfd 0x31707354
    (bytesAt oneBlock 0 pageSize) where
  requested_pos := by decide
  tagged := by decide
  fits := by decide
  word := ⟨_, readU32_bytesAt (by decide), by decide, by decide⟩
  fillByte := getElem?_bytesAt (by decide)
  tagWord := readU32_bytesAt (by decide)
  filled := by
    have hstart : blockStart 0x68 = 0xf90 := by decide
    refine ⟨length_bytesAt _ _ _, fun i hlow hi => ?_, fun i hlow hi => ?_⟩
    · dsimp only [oneBlockRegion] at hlow
      rw [hstart] at hi
      rw [getElem?_bytesAt (by unfold pageSize; omega), Nat.zero_add,
        oneBlock_fill (by omega) (by omega)]
    · dsimp only at hlow
      rw [hstart] at hlow
      rw [getElem?_bytesAt hi, Nat.zero_add, oneBlock_fill (by omega) (by omega)]

theorem special_pool_blocks_oneBlock :
    ∃ w', walkSpecialPool oneBlockRegion 0x1000 (bytesAt oneBlock 0 pageSize) emptySnapshot =
        (.ok (), w') ∧
      pageReport oneBlockRegion (bytesAt oneBlock 0 pageSize) 0x1000 0 =
        { span := some (baseSpan oneBlockRegion 0x1000 0x1f90 0x68 0x31707354 .allocated)
          message := none } := by
  have hlength : (bytesAt oneBlock 0 pageSize).length = 0x1000 := length_bytesAt _ _ _
  have hpage : pageOf (bytesAt oneBlock 0 pageSize) 0 = bytesAt oneBlock 0 pageSize :=
    List.take_of_length_le hlength.le
  have hunreached : emptySnapshot.state.matchLimitReached = false := rfl
  obtain ⟨w', hrun, -, hpages⟩ := special_pool_blocks oneBlockRegion
    (show 0x1000 + (bytesAt oneBlock 0 pageSize).length ≤ 2 ^ 64 by rw [hlength]; decide) hunreached
  obtain ⟨hkernel, -⟩ := hpages 0x1000 (mem_extentPages.mpr ⟨by decide, le_rfl, by omega⟩)
  exact ⟨w', hrun, hkernel 0x68 false 0xfd 0x31707354 (hpage.symm ▸ oneBlock_page)⟩

end DbgScope.Pool
