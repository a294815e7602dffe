import DbgScope.Pool.VsChain

/-!
# Walking an intact VS subsegment

The extent loop over a chain whose headers are all there. `Going` says where the chain stands
against the cursor: as long as the walk is complete the next chunk is not behind it, and what has
been left out behind it is told by a gap. From it follows what a whole run files: of chunks the
allocator wrote, chunks and nothing else, and all of them where the walk ends complete.
-/

namespace DbgScope.Pool

open Run (Ends Keeps Triple)
open PoolSnapshot

/-! ## The extent loop -/

/-- The walk has come to `pos`, and expects the next chunk at `vs`. As long as it is complete that
chunk's headers are not behind it, and nothing of the chain is left out behind it unseen: an extent
may have ended in a chunk, but then nothing is there where it ended. -/
def Going (sub : Subsegment) (memory : PoolMemory) (there : ℕ → Prop) (before : PoolSnapshot)
    (vs : Option ℕ) (covered pos : ℕ) (after : PoolSnapshot) : Prop :=
  ∃ new links done rest next, Chained sub memory there before new links done rest next after ∧
    (∀ m, vs = some m → m = next ∧ covered ≤ next) ∧
    (sub.HeadersCommitted memory → after.complete = true →
      vs = some next ∧ pos < next + sub.region.headerBytes) ∧
    (Sparse memory there → vs = some next →
      Joined new links next ∨ ¬ there pos ∧ Overrun links next pos covered)

def CutShort (sub : Subsegment) (memory : PoolMemory) (there : ℕ → Prop)
    (before after : PoolSnapshot) : Prop :=
  ∃ new links done rest next, Chained sub memory there before new links done rest next after

/-- The run ends here, of itself. -/
def Finished (sub : Subsegment) (memory : PoolMemory) (there : ℕ → Prop)
    (before after : PoolSnapshot) : Prop :=
  ∃ new links done rest next, Chained sub memory there before new links done rest next after ∧
    (sub.HeadersCommitted memory → after.complete = true → links = sub.links)

section Going

variable {sub : Subsegment} {memory : PoolMemory} {there : ℕ → Prop} {limit : ℕ}
  {before after : PoolSnapshot} {vs : Option ℕ} {covered pos : ℕ}
  {E : SnapshotError → World PoolSnapshot → Prop}

theorem Going.leave {after' : PoolSnapshot} (h : Going sub memory there before vs covered pos after)
    (hl : Leaves after after') : Going sub memory there before vs covered pos after' := by
  obtain ⟨new, links, done, rest, next, hchained, hvs, htold, hjoined⟩ := h
  exact ⟨new, links, done, rest, next, hchained.leave hl, hvs,
    fun hh hc => htold hh (hl.complete hc), hjoined⟩

theorem Going.cutShort (h : Going sub memory there before vs covered pos after) :
    CutShort sub memory there before after := by
  obtain ⟨new, links, done, rest, next, hchained, -⟩ := h
  exact ⟨new, links, done, rest, next, hchained⟩

theorem Finished.cutShort (h : Finished sub memory there before after) :
    CutShort sub memory there before after := by
  obtain ⟨new, links, done, rest, next, hchained, -⟩ := h
  exact ⟨new, links, done, rest, next, hchained⟩

theorem Going.advance {pos' : ℕ} (h : Going sub memory there before vs covered pos after)
    (hpos : 0 < sub.region.headerBytes) (hle : pos ≤ pos') (hcovered : pos' ≤ max pos covered) :
    Going sub memory there before vs covered pos' after := by
  obtain ⟨new, links, done, rest, next, hchained, hvs, htold, hjoined⟩ := h
  refine ⟨new, links, done, rest, next, hchained, hvs, fun hh hc => ?_, fun hs hsome => ?_⟩
  · obtain ⟨hsome, hlt⟩ := htold hh hc
    have := (hvs next hsome).2
    exact ⟨hsome, by omega⟩
  · rcases hjoined hs hsome with hjoin | ⟨hgone, hover⟩
    · exact Or.inl hjoin
    · have := hover.covered
      obtain rfl : pos = pos' := by omega
      exact Or.inr ⟨hgone, hover⟩

theorem Going.finished (hi : sub.Intact)
    (h : Going sub memory there before vs covered sub.region.requestedEnd after) :
    Finished sub memory there before after := by
  obtain ⟨new, links, done, rest, next, hchained, -, htold, -⟩ := h
  refine ⟨new, links, done, rest, next, hchained, fun hh hc => ?_⟩
  have hlt := (htold hh hc).2
  cases rest with
  | nil => rw [hchained.told hc, hchained.split, List.append_nil]
  | cons link tail =>
    obtain ⟨hplaced, hend⟩ := hchained.chain.placed hi.region.space
    have hheader := hplaced.header
    have haddress := hchained.chain.1
    unfold Link.stop at hend
    omega

/-- **A gap is filed** from where the walk is, or from where the spans already filed end. -/
theorem unreadable_going (hi : sub.Intact) {address stop : ℕ} (hlow : pos ≤ address)
    (hhigh : address ≤ max pos covered) (hle : address ≤ stop)
    (hend : stop ≤ sub.region.requestedEnd) :
    Triple (fun w => Going sub memory there before vs covered pos w.state)
      (unreadable memory sub.region address (stop - address))
      (fun _ w => Going sub memory there before vs covered stop w.state) E := by
  have hword : sub.region.requestedEnd < 2 ^ 64 := saturatingAdd_lt _ _
  have hsizes := hi.sizes
  have hbytes : 0 < sub.region.headerBytes := by
    unfold PoolRegion.headerBytes
    omega
  rintro w ⟨new, links, done, rest, next, hchained, hvs, htold, hjoined⟩
  have hstop : saturatingAdd address (stop - address) = stop := by
    rw [saturatingAdd_of_lt (by omega), Nat.add_sub_cancel' hle]
  refine (unreadable_gapped memory sub.region (by omega) (stop - address) w rfl).imp
    (fun _ v hv => ?_) fun _ _ he => he
  rw [hstop] at hv
  obtain ⟨gaps, hgaps, hv⟩ := hv
  have hfiled := hchained.gaps (w := w.note (.filed address stop)) hv
    fun gap hgap => hgaps.not_isChunk hgap
  refine ⟨new ++ gaps, links, done, rest, next, hfiled, hvs, fun hh hc => ?_, fun hs hsome => ?_⟩
  · obtain ⟨hc, hread⟩ := hv.complete hc
    obtain ⟨hsome, hlt⟩ := htold hh hc
    have hcovered := (hvs next hsome).2
    refine ⟨hsome, Nat.lt_of_not_le fun hpast => ?_⟩
    -- the gap holds a byte of the next chunk's headers, so it is no uncommitted one
    obtain ⟨gap, hgap, hx⟩ := hgaps.mem_iff.mpr
      (show address ≤ max address next ∧ max address next < stop by omega)
    rw [containsAddress_iff] at hx
    obtain ⟨link, tail, rfl, haddress⟩ := hchained.chain.cons_of_lt (by omega)
    rcases hgaps.kind gap hgap with hstate | ⟨-, h, run, hrun, hcommitted, hrunEnd⟩
    · exact hread gap hgap hstate
    · have hmem : link ∈ sub.links := by rw [hchained.split]; simp
      have hfar := hh h _ run hrun hcommitted link hmem (max address next) hx.1 (by omega)
        (by omega)
      omega
  · rcases hjoined hs hsome with hjoin | ⟨hgone, hover⟩
    · exact Or.inl hjoin.mono
    · have hpos := hover.covered
      obtain rfl : address = pos := by omega
      rcases hle.eq_or_lt with rfl | hlt
      · exact Or.inr ⟨hgone, hover⟩
      · -- the gap starts where the extent ended, between the last chunk filed and the next one
        obtain ⟨gap, hgap, hx⟩ := hgaps.mem_iff.mpr ⟨le_refl address, hlt⟩
        rw [containsAddress_iff] at hx
        have hfirst : address ≤ gap.headerAddress :=
          hgaps.tiles.le_fst (List.mem_map_of_mem (f := PoolSpan.range) hgap)
        refine Or.inl fun last hlast => Or.inr ⟨gap, List.mem_append_right _ hgap,
          hgaps.not_isChunk hgap, ?_, ?_⟩
        · have := hover.last last hlast
          omega
        · have := hover.next
          omega

theorem update_going {f : PoolSnapshot → PoolSnapshot}
    (hf : ∀ snapshot, Leaves snapshot (f snapshot)) :
    Keeps (fun w => Going sub memory there before vs covered pos w.state) E (update f) :=
  Keeps.modify fun w hw => hw.leave (hf w.state)

theorem complain_going (message : String) :
    Keeps (fun w => Going sub memory there before vs covered pos w.state) E
      (complain message) :=
  update_going fun _ => ⟨rfl, fun h => h, rfl, rfl, rfl⟩

/-- What a round of the extent loop leaves. -/
def RegionFlow (sub : Subsegment) (memory : PoolMemory) (there : ℕ → Prop) (before : PoolSnapshot)
    (flow : Flow RegionWalk Unit) (w : World PoolSnapshot) : Prop :=
  flow.Holds (fun s => Going sub memory there before s.vsChunk s.vsCovered s.cursor w.state)
    fun _ => Finished sub memory there before w.state

theorem Resumed.going {s : RegionWalk} {stop : ℕ} {resumed : Option VsResume}
    (h : Resumed sub memory there before s.vsCovered stop resumed after)
    (hpast : Sparse memory there → stop < sub.region.requestedEnd → ¬ there stop)
    (hi : sub.Intact) :
    Going sub memory there before (resumed.map VsResume.next)
      (max s.vsCovered ((resumed.map VsResume.coveredThrough).getD 0)) stop after := by
  obtain ⟨new, links, done, rest, next, hchained, hlost, hresumed⟩ := h
  cases resumed with
  | none =>
    refine ⟨new, links, done, rest, next, hchained, nofun, fun _ hc => ?_, nofun⟩
    exact absurd ((hlost rfl).symm.trans hc) Bool.false_ne_true
  | some r =>
    obtain ⟨⟨hnext, hcovered⟩, htold, hjoined⟩ := hresumed r rfl
    have hsome : ((some r).map VsResume.next) = some next := congrArg some hnext
    refine ⟨new, links, done, rest, next, hchained, fun m hm => ?_, fun _ hc => ⟨hsome, htold hc⟩,
      fun hs _ => ?_⟩
    · rw [hsome] at hm
      exact ⟨(Option.some.inj hm).symm, hcovered⟩
    · refine (hjoined hs).imp_right fun hover => ⟨hpast hs ?_, hover⟩
      -- the next chunk, or the end of the chain, is past where the extent ended
      have hlt := hover.next
      cases rest with
      | nil =>
        have : next = sub.region.requestedEnd := hchained.chain
        omega
      | cons link tail =>
        have hend := (hchained.chain.placed hi.region.space).2
        have haddress := hchained.chain.1
        unfold Link.stop at hend
        omega

theorem decodeExtent_going (hi : sub.Intact) {s : RegionWalk} {base size : ℕ}
    (hend : base + size ≤ sub.region.requestedEnd) (hhere : Sparse memory there → there base)
    (hpast : Sparse memory there → base + size < sub.region.requestedEnd → ¬ there (base + size)) :
    Triple (fun w => Going sub memory there before s.vsChunk s.vsCovered base w.state)
      (decodeExtent memory limit sub.region base (bytesAt sub.content base size) s)
      (fun decoded w => ∃ d, decoded = some d ∧
        Going sub memory there before d.vsChunk d.vsCovered (base + size) w.state) E := by
  unfold decodeExtent
  rw [if_neg (by rw [hi.region.ordinary]; decide), hi.region.backend]
  refine Triple.bind (Q := fun _ w =>
    Going sub memory there before s.vsChunk s.vsCovered base w.state)
    (Triple.modify fun w hw => hw) fun _ => ?_
  refine Triple.bind (Q := fun resumed w =>
    Resumed sub memory there before s.vsCovered (base + size) resumed w.state) ?_ fun resumed =>
      Triple.pure fun w hw => ⟨_, rfl, hw.going hpast hi⟩
  rintro w ⟨new, links, done, rest, next, hchained, hvs, -, hjoined⟩
  refine walkVs_chained hi hend (fun m hm => (hvs m hm).1) (fun hsome => (hvs next hsome).2)
    (fun hs hsome => ?_) w hchained
  exact (hjoined hs hsome).resolve_right fun hgone => hgone.1 (hhere hs)

/-- **A round of the extent loop on an intact chain.** -/
theorem regionStep_going (hi : sub.Intact) (htruth : Truthful memory sub.content)
    (s : RegionWalk) (hcursor : s.cursor ≤ sub.region.requestedEnd) :
    Triple (fun w => Going sub memory there before s.vsChunk s.vsCovered s.cursor w.state)
      (regionStep memory limit sub.region s) (RegionFlow sub memory there before)
      (fun _ w => CutShort sub memory there before w.state) := by
  have hword : sub.region.requestedEnd < 2 ^ 64 := saturatingAdd_lt _ _
  have hheader : 0 < sub.region.headerBytes := by
    have hsizes := hi.sizes
    unfold PoolRegion.headerBytes
    omega
  have hpoll (pos : ℕ) : Keeps
      (fun w => Going sub memory there before s.vsChunk s.vsCovered pos w.state)
      (fun _ w => Going sub memory there before s.vsChunk s.vsCovered pos w.state)
      (checkBudget memory) := checkBudget_noted fun hw => hw
  refine RoundRule.regionStep
    (G := fun base stop bytes => bytes = bytesAt sub.content base (stop - base))
    (P := fun pos w => Going sub memory there before s.vsChunk s.vsCovered pos w.state) {
    poll := (hpoll _).imp (fun _ hw => hw) (fun _ _ hw => hw) fun _ _ hw => hw.cutShort
    query := fun hw => hw
    say := fun _ _ => complain_going _
    stalls := fun _ _ => update_going fun _ => ⟨rfl, fun h => h, rfl, rfl, rfl⟩
    gap := fun _ => unreadable_going hi
    covered := fun _ hle hcovered hw => hw.advance hheader hle hcovered
    read := fun _ _ _ => (readExtent_noted (joins_bytesAt sub.content) (hpoll _) htruth
      (fun hw => hw) (fun _ hw => hw) (by omega)).imp (fun _ hw => hw) (fun _ _ hw => hw)
      fun _ _ hw => ⟨fun _ => hw.cutShort, hw⟩
    decode := fun {validBase validEnd bytes} hanswer hbase hlt hend hbytes => ?_
    again := fun {s' w} _ _ hchunk hcovered hw => ?_
    stop := fun hw => hw.finished hi
    past := fun {w} hdone hw => ?_ }
  · obtain ⟨h, base, length, hvalid, hfrom, hto⟩ := hanswer
    have hsum : validBase + (validEnd - validBase) = validEnd := by omega
    have hsat : saturatingAdd base length ≤ base + length := saturatingAdd_le _ _
    rw [hbytes]
    refine (decodeExtent_going (s := { s with consecutiveStalls := 0 }) hi (hsum.trans_le hend)
      (fun hs => ?_) fun hs hlt' => ?_).post ?_
    · exact hs.here _ _ _ _ _ hvalid _ (by omega) (by omega) (by omega) (by omega)
    · have hexact : saturatingAdd base length = base + length := by
        unfold saturatingAdd at hto ⊢
        omega
      rw [hsum, show validEnd = base + length by omega]
      exact hs.past _ _ _ _ _ hvalid (by omega) (by omega)
    · rintro _ w ⟨d, rfl, hw⟩
      obtain ⟨_, _, _, _, _, hchained, -⟩ := id hw
      rw [hsum] at hw
      exact decoded_some (fun hreached => absurd hreached (hchained.not_reached ▸ nofun)) hw
  · show Going sub memory there before s'.vsChunk s'.vsCovered s'.cursor w.state
    rwa [hchunk, hcovered]
  · rw [Nat.le_antisymm hcursor hdone] at hw
    exact hw.finished hi

/-- **A run of `walk_region` on an intact chain.** -/
theorem walkRegion_chained (there : ℕ → Prop) (limit : ℕ) (hi : sub.Intact)
    (htruth : Truthful memory sub.content) {w₀ : World PoolSnapshot}
    (hw₀ : w₀.state.matchLimit = none ∧ w₀.state.stoppedAfterMatches = none) :
    Ends (fun _ w => Finished sub memory there w₀.state w.state)
      (fun _ w => CutShort sub memory there w₀.state w.state)
      (walkRegion memory limit sub.region w₀) := by
  have hsizes := hi.sizes
  have hsize := requestedEnd_sub_le sub.region
  have hend := hi.region.space.requestedEnd
  have hwalk : walkRegion memory limit sub.region = walkExtents memory limit sub.region := by
    unfold walkRegion
    rw [hi.region.backend]
  rw [hwalk]
  -- the rounds that are left are more than the bytes that are
  refine Triple.countdown (I := fun rounds s w =>
      Going sub memory there w₀.state s.vsChunk s.vsCovered s.cursor w.state ∧
        s.cursor ≤ sub.region.requestedEnd ∧ sub.region.requestedEnd < s.cursor + rounds)
    (fun rounds s => ?_) ?_ _ _ w₀ ⟨?_, ?_, ?_⟩
  · rintro w ⟨hw, hcursor, hrounds⟩
    have hgoing : Ends (RegionFlow sub memory there w₀.state)
        (fun _ w => CutShort sub memory there w₀.state w.state)
        (regionStep memory limit sub.region s w) := regionStep_going hi htruth s hcursor w hw
    have hadvances := regionStep_advances memory limit sub.region s w trivial
    rcases hstep : regionStep memory limit sub.region s w with ⟨r, v⟩
    rw [hstep] at hgoing hadvances
    cases r with
    | error error => exact hgoing
    | ok flow =>
      cases flow with
      | stop _ => exact hgoing
      | again s' =>
        obtain ⟨hlt, hle⟩ : s.cursor < s'.cursor ∧ s'.cursor ≤ sub.region.requestedEnd := hadvances
        exact ⟨hgoing, hle, by omega⟩
  · rintro s w ⟨-, hcursor, hrounds⟩
    omega
  · refine ⟨[], [], [], sub.links, sub.region.address, Chained.start hi hw₀, fun m hm => ?_,
      fun _ _ => ⟨rfl, ?_⟩, fun _ _ => Or.inl nofun⟩
    · exact ⟨(Option.some.inj hm).symm, le_refl _⟩
    · show sub.region.address < sub.region.address + sub.region.headerBytes
      unfold PoolRegion.headerBytes
      omega
  · show sub.region.address ≤ _
    omega
  · show _ < sub.region.address + (sub.region.size + 1)
    omega

end Going

/-! ## Chunks as the allocator writes them -/

structure ChunkHeader where
  units : ℕ
  previous : ℕ
  allocated : Bool
  units_lt : units < 2 ^ 16
  previous_lt : previous < 2 ^ 16

namespace ChunkHeader

/-- The header two fields of a sizes word record. -/
def ofFields (units previous : BitVec 16) (allocated : Bool) : ChunkHeader :=
  ⟨units.toNat, previous.toNat, allocated, units.isLt, previous.isLt⟩

def chunk (header : ChunkHeader) : VsChunk :=
  { size := header.units * vsUnit, previousSize := header.previous * vsUnit,
    allocated := header.allocated }

def word (header : ChunkHeader) : ℕ :=
  header.units <<< 16 ||| header.previous <<< 32 ||| header.allocated.toNat <<< 48

def encoded (header : ChunkHeader) (heapKey address : ℕ) : ℕ :=
  header.word ^^^ heapKey ^^^ address

theorem word_eq (header : ChunkHeader) :
    header.word =
      header.units * 2 ^ 16 + header.previous * 2 ^ 32 + header.allocated.toNat * 2 ^ 48 := by
  have hunits := header.units_lt
  have hprevious := header.previous_lt
  have hlow : header.units <<< 16 < 2 ^ 32 := by
    rw [Nat.shiftLeft_eq]
    omega
  have hboth : header.previous <<< 32 + header.units <<< 16 < 2 ^ 48 := by
    rw [Nat.shiftLeft_eq, Nat.shiftLeft_eq]
    omega
  unfold word
  rw [Nat.or_comm (header.units <<< 16), ← Nat.shiftLeft_add_eq_or_of_lt hlow, Nat.or_comm,
    ← Nat.shiftLeft_add_eq_or_of_lt hboth]
  simp only [Nat.shiftLeft_eq]
  omega

theorem decodeVsSizes_encoded (header : ChunkHeader) (heapKey address : ℕ) :
    decodeVsSizes (header.encoded heapKey address) address heapKey =
      { size := header.units, previousSize := header.previous, allocated := header.allocated } := by
  have hmixed : header.encoded heapKey address ^^^ heapKey ^^^ address = header.word := by
    unfold encoded
    rw [Nat.xor_assoc header.word, Nat.xor_comm heapKey address, ← Nat.xor_assoc header.word,
      Nat.xor_xor_cancel_right, Nat.xor_xor_cancel_right]
  have hword := header.word_eq
  have hunits := header.units_lt
  have hprevious := header.previous_lt
  have hallocated := Bool.toNat_lt header.allocated
  unfold decodeVsSizes
  rw [hmixed]
  simp only [Nat.shiftRight_eq_div_pow, VsSizes.mk.injEq]
  refine ⟨by omega, by omega, ?_⟩
  rw [show header.word / 2 ^ 48 % 2 ^ 8 = header.allocated.toNat by omega]
  cases header.allocated <;> rfl

end ChunkHeader

def linksFrom : ℕ → List ChunkHeader → List Link
  | _, [] => []
  | address, header :: rest =>
    { address, chunk := header.chunk } :: linksFrom (address + header.chunk.size) rest

def Written (region : PoolRegion) (content : ℕ → UInt8) : ℕ → List ChunkHeader → Prop
  | address, [] => address = region.address + region.size
  | address, header :: rest => region.headerBytes ≤ header.chunk.size ∧
    wordAt content (address + region.vsSizesOffset) = header.encoded region.heapKey address ∧
    Written region content (address + header.chunk.size) rest

theorem Written.le {region : PoolRegion} {content : ℕ → UInt8} {address : ℕ}
    {headers : List ChunkHeader} (h : Written region content address headers) :
    address ≤ region.address + region.size := by
  induction headers generalizing address with
  | nil => exact le_of_eq h
  | cons header rest ih => exact (Nat.le_add_right _ _).trans (ih h.2.2)

theorem Written.chain {region : PoolRegion} {content : ℕ → UInt8} {address : ℕ}
    {headers : List ChunkHeader} (h : Written region content address headers)
    (hspace : region.InSpace) (hpos : 0 < region.headerBytes) :
    Chain region content address (linksFrom address headers) := by
  have hend := hspace.requestedEnd
  unfold PoolRegion.InSpace at hspace
  induction headers generalizing address with
  | nil => exact h.trans hend.symm
  | cons header rest ih =>
    obtain ⟨hheader, hword, hrest⟩ := h
    have hle := hrest.le
    refine ⟨rfl, ?_, ih hrest⟩
    unfold decodeVsChunk
    rw [hword, ChunkHeader.decodeVsSizes_encoded]
    show (if header.chunk.size = 0 then _ else if header.chunk.size < _ then _ else
      if saturatingAdd address header.chunk.size > _ then _ else _) = _
    rw [if_neg (by omega), if_neg (by omega),
      if_neg (by rw [saturatingAdd_of_lt (by omega)]; omega)]
    rfl

/-- **Nothing is fabricated in a VS subsegment.** The walk files chunks of the subsegment only, each
at most once and in order, and refuses none of their headers; and a walk that ends complete has
filed all of them where the memory manager says nothing wrong. -/
theorem vs_walk_files_the_chunks {memory : PoolMemory} {region : PoolRegion} {content : ℕ → UInt8}
    {headers : List ChunkHeader} (limit : ℕ) (hr : VsRegion region)
    (hsizes : region.vsSizesOffset + 8 ≤ region.vsHeaderSize)
    (hwritten : Written region content region.address headers) (htruth : Truthful memory content)
    {w₀ : World PoolSnapshot} (hw₀ : w₀.state.matchLimit = none ∧
      w₀.state.stoppedAfterMatches = none) :
    ∃ filed, filed.Sublist (linksFrom region.address headers) ∧
      List.Forall₂ (ChunkSpan region) filed
        ((filedSince w₀ (walkRegion memory limit region w₀).2).filter fun s => s.state.isChunk) ∧
      (walkRegion memory limit region w₀).2.state.refusedChunks = w₀.state.refusedChunks ∧
      ((walkRegion memory limit region w₀).1 = .ok () →
        (walkRegion memory limit region w₀).2.state.complete = true →
        ((∀ h address, memory.committedRun h address = none) ∨ region.poolHeader.size = 0 ∧
          HeadsCommitted memory (linksFrom region.address headers) region.vsHeaderSize) →
        filed = linksFrom region.address headers) := by
  have hpos : 0 < region.headerBytes := by
    unfold PoolRegion.headerBytes
    omega
  have hi : (Subsegment.mk region content (linksFrom region.address headers)).Intact :=
    ⟨hr, hsizes, hwritten.chain hr.space hpos⟩
  have hrun := walkRegion_chained (fun _ => True) limit hi htruth hw₀
  dsimp only at hrun
  rcases hwalk : walkRegion memory limit region w₀ with ⟨r, w⟩
  rw [hwalk] at hrun
  cases r with
  | error error =>
    obtain ⟨new, links, done, rest, next, h⟩ := hrun
    refine ⟨links, h.sublist, ?_, h.refused, nofun⟩
    rw [h.filedSince_eq]
    exact h.filed
  | ok _ =>
    obtain ⟨new, links, done, rest, next, h, hall⟩ := hrun
    refine ⟨links, h.sublist, ?_, h.refused, fun _ hc htold => hall ?_ hc⟩
    · rw [h.filedSince_eq]
      exact h.filed
    · rcases htold with hnone | ⟨hbare, hheads⟩
      · intro history address run hrun
        rw [hnone] at hrun
        cases hrun
      · show HeadsCommitted memory _ (region.vsHeaderSize + region.poolHeader.size)
        rwa [hbare]

def wholeChunk : ChunkHeader := .ofFields 0x200#16 0#16 true

theorem halfCommitted_headsCommitted :
    HeadsCommitted halfCommitted (linksFrom 0x1000 [wholeChunk]) 0x10 := by
  intro h address run hrun hcommitted link hlink x hx _ _
  obtain rfl := List.mem_singleton.mp hlink
  obtain rfl := Option.some.inj hrun
  by_cases hlow : address < 0x2000
  · rw [if_pos hlow] at hcommitted
    cases hcommitted
  · show 0x1000 + 0x10 ≤ x
    omega

theorem vs_walk_files_the_chunks_twoPages :
    List.Forall₂ (ChunkSpan twoPages) (linksFrom 0x1000 [wholeChunk])
      ((filedSince emptySnapshot (walkRegion halfCommitted 8 twoPages emptySnapshot).2).filter
        fun s => s.state.isChunk) := by
  have hregion : VsRegion twoPages := ⟨rfl, rfl, by unfold PoolRegion.InSpace; decide⟩
  have hwritten : Written twoPages (wordBytes oneChunk) twoPages.address [wholeChunk] :=
    ⟨by decide, by decide, rfl⟩
  have htruth : Truthful halfCommitted (wordBytes oneChunk) :=
    fun _ _ _ _ h => (Except.ok.inj h).symm
  have hunlimited : emptySnapshot.state.matchLimit = none ∧
      emptySnapshot.state.stoppedAfterMatches = none := ⟨rfl, rfl⟩
  obtain ⟨filed, -, hspans, -, hall⟩ :=
    vs_walk_files_the_chunks 8 hregion (by decide) hwritten htruth hunlimited
  have hok : (walkRegion halfCommitted 8 twoPages emptySnapshot).1 = .ok () := by decide +kernel
  have hcomplete : (walkRegion halfCommitted 8 twoPages emptySnapshot).2.state.complete = true := by
    decide +kernel
  rw [hall hok hcomplete (Or.inr ⟨rfl, halfCommitted_headsCommitted⟩)] at hspans
  exact hspans

end DbgScope.Pool
