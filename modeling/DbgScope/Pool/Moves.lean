import DbgScope.Pool.Observing
import DbgScope.Pool.Walk

/-!
# What discovery can do

Discovery calls the target, says what it could not do, keeps batches of the big-page table, and
pushes regions. `Moves I J` says that a property survives each of these, and the lemmas below that
it then survives every function of discovery; what a region can look like when it is pushed is
`RegionOrigin`. Each invariant of discovery is one instance of `Moves`.
-/

namespace DbgScope.Pool

open Run (Keeps Triple)
open Discovery

variable {α : Type}

/-! ## What a region was made from -/

def Answered (memory : PoolMemory) (address size : ℕ) (bytes : List UInt8) : Prop :=
  (size = 0 ∧ bytes = []) ∨ ∃ h, memory.readExact h address size = .ok bytes

/-- An LFH subsegment as it was read: its page range, its header, its bitmap, and the offsets they
were read at. -/
structure LfhSource where
  address : ℕ
  size : ℕ
  lfhKey : ℕ
  headerSize : ℕ
  encodedOffset : ℕ
  countOffset : ℕ
  bitmapOffset : ℕ
  header : List UInt8
  raw : List UInt8
  lfh : LfhSubsegment

/-- The header and the bitmap were read where the layout says they are, and believed. -/
structure LfhSource.Read (memory : PoolMemory) (layout : PoolLayout) (source : LfhSource) :
    Prop where
  headerSize : ∃ type, layout.typeLayout .heapLfhSubsegment = .ok type ∧
    type.size = source.headerSize
  encodedOffset : ∃ outer inner, layout.field .heapLfhSubsegment .blockOffsets = .ok outer ∧
    layout.field .heapLfhSubsegmentEncodedOffsets .encodedData = .ok inner ∧
    outer + inner = source.encodedOffset
  countOffset : layout.field .heapLfhSubsegment .blockCount = .ok source.countOffset
  bitmapOffset : layout.field .heapLfhSubsegment .blockBitmap = .ok source.bitmapOffset
  header : Answered memory source.address source.headerSize source.header
  accepted : decodeLfhSubsegment ((readU32 source.header source.encodedOffset).getD 0)
    source.address (source.lfhKey % 2 ^ 32) ((readU16 source.header source.countOffset).getD 0)
    source.size = .ok source.lfh
  raw : Answered memory (wrappingAdd source.address source.bitmapOffset)
    (layout.lfhBitmap.bytesFor source.lfh.blocks) source.raw

/-- The shape a subsegment's blocks give its page range. -/
structure LfhSource.Shapes (layout : PoolLayout) (source : LfhSource) (shape : RangeShape) :
    Prop where
  bitmap : layout.lfhBitmap.normalise source.raw source.lfh.blocks = some shape.bitmap
  address : shape.address = wrappingAdd source.address source.lfh.first
  size : shape.size = source.lfh.blocks * source.lfh.blockSize
  blockSize : shape.blockSize = source.lfh.blockSize

structure LfhOrigin (memory : PoolMemory) (layout : PoolLayout) (source : LfhSource)
    (region : PoolRegion) : Prop where
  read : source.Read memory layout
  bitmap : layout.lfhBitmap.normalise source.raw source.lfh.blocks = some region.bitmap
  address : region.address = wrappingAdd source.address source.lfh.first
  size : region.size = source.lfh.blocks * source.lfh.blockSize
  unitSize : region.unitSize = source.lfh.blockSize
  poolHeader : layout.poolHeaderLayout = .ok region.poolHeader
  ordinary : region.heap.special = false

/-- What discovery pushes. -/
structure RegionOrigin (memory : PoolMemory) (layout : PoolLayout) (region : PoolRegion) :
    Prop where
  states : ∃ state, region.states = [state] ∧ state.isChunk = true
  lfh : region.backend = .lfh → ∃ source, LfhOrigin memory layout source region

/-! ## The moves -/

def World.say (w : World Discovery) (message : String) : World Discovery :=
  { w with state := { w.state with diagnostics := w.state.diagnostics ++ [message] } }

def World.pushed (w : World Discovery) (region : PoolRegion) : World Discovery :=
  { w with state := { w.state with regions := w.state.regions ++ [region] } }

def World.tabled (w : World Discovery) (table : Option BigPageTable) : World Discovery :=
  { w with state := { w.state with bigPages := table } }

/-- A property that survives everything discovery does. -/
structure Moves (memory : PoolMemory) (layout : PoolLayout) (I J : World Discovery → Prop) :
    Prop extends Observing I J where
  say : ∀ w message, J w → I (w.say message)
  dropped : ∀ w address size, J w → I (w.note (.dropped address size))
  spoken : ∀ w, J w → w.state.diagnostics ≠ [] → I w
  capped : ∀ w what, what ≠ .segmentList → J w → w.state.diagnostics ≠ [] →
    I (w.note (.capped what))
  segments : ∀ w, I w → I (w.note (.capped .segmentList))
  table : ∀ w table, I w → I (w.tabled table)
  tabled : ∀ w table, J w → J (w.tabled table)
  region : ∀ w region, RegionOrigin memory layout region → I w → I (w.pushed region)

section Moves

variable {memory : PoolMemory} {layout : PoolLayout} {I J : World Discovery → Prop}

/-- The property as a function handed only the diagnostics of `discovery` sees it. -/
def onDiagnostics (discovery : Discovery) (I : World Discovery → Prop) :
    World (List String) → Prop := fun w =>
  I { history := w.history, state := { discovery with diagnostics := w.state } }

section

variable (h : Moves memory layout I J)
include h

theorem Moves.reporting (discovery : Discovery) :
    Reporting (onDiagnostics discovery I) (onDiagnostics discovery J) where
  weaken _ := h.weaken _
  before := ⟨fun _ event hcall => h.before.call _ event hcall⟩
  after := ⟨fun _ event hcall => h.after.call _ event hcall⟩
  fault _ := h.fault _
  report _ message := h.say _ message
  dropped _ := h.dropped _
  capped _ what := h.capped _ what

theorem inDiagnostics_triple {m : Walk (List String) α} {Q : α → Prop}
    (hm : ∀ K L, Reporting K L → Triple K m (fun a w => K w ∧ Q a) (Fails L)) :
    Triple I (inDiagnostics m) (fun a w => I w ∧ Q a) (Fails J) := by
  intro w hw
  have hends := hm _ _ (h.reporting w.state) { history := w.history, state := w.state.diagnostics }
    hw
  unfold inDiagnostics focus
  rw [Run.zoom_apply]
  rcases hr : m { history := w.history, state := w.state.diagnostics } with ⟨r, v⟩
  rw [hr] at hends
  cases r with
  | ok a => exact hends
  | error e => exact ⟨hends.1, hends.2⟩

theorem inDiagnostics_keeps {m : Walk (List String) α}
    (hm : ∀ K L, Reporting K L → Keeps K (Fails L) m) : Keeps I (Fails J) (inDiagnostics m) := by
  have htriple := inDiagnostics_triple h (Q := fun _ => True) fun K L hKL =>
    (hm K L hKL).post fun _ _ hw => ⟨hw, trivial⟩
  exact htriple.post fun _ _ hw => hw.1

theorem complain_restores (message : String) {E : SnapshotError → World Discovery → Prop} :
    Triple J (complain message) (fun _ => I) E := fun w hw => h.say w message hw

theorem complain_keeps (message : String) :
    Keeps I (Fails J) (complain message) := fun w hw => h.say w message (h.weaken w hw)

theorem pushRegion_keeps {region : PoolRegion} (hregion : RegionOrigin memory layout region) :
    Keeps I (Fails J) (pushRegion region) :=
  Keeps.modify fun w hw => h.region w region hregion hw

theorem absorbing_keeps {step : Walk Discovery Unit} (hstep : Keeps I (Fails J) step)
    (say : SnapshotError → String) : Keeps I (Fails J) (absorbing step say) := by
  refine Keeps.attempt_bind hstep (fun _ => Keeps.pure _) fun e => ?_
  refine Triple.ite (fun _ => ?_) fun _ => ?_
  · exact Triple.fail fun _ hw => hw
  · exact (complain_restores h _).pre fun _ hw => hw.1

end

/-! ## The big-page table -/

namespace BigPageTable

theorem openAt_keeps {K L : World (List String) → Prop} (h : Reporting K L) (memory : PoolMemory)
    (pointer size entrySize va tag sizeOffset : ℕ) :
    Keeps K (Fails L) (openAt memory pointer size entrySize va tag sizeOffset) := by
  refine Keeps.bind (poll_keeps h.toObserving memory) fun _ => ?_
  refine Keeps.bind (reported_keeps h (scalar_keeps h.toObserving memory _ _) _)
    fun base => ?_
  split
  · have hwidths : Keeps K (Fails K) (Run.orElse
        (scalarBytes memory size 4 : Walk (List String) ℕ) (scalarBytes memory size 8)) :=
      Keeps.orElse (scalarBytes_keeps h.before memory _ _) fun _ =>
        Triple.pre (scalarBytes_keeps h.before memory _ _) fun _ hw => hw.1
    refine Keeps.bind (reported_keeps h (observed_keeps h.toObserving _ _ hwidths) _)
      fun count => ?_
    split
    · refine Keeps.guard fun _ => ?_
      exact (report_keeps h _).map
    · exact Keeps.pure _
  · exact Keeps.pure _

theorem openTable_keeps {K L : World (List String) → Prop} (h : Reporting K L)
    (memory : PoolMemory) (layout : PoolLayout) :
    Keeps K (Fails L) (openTable memory layout) := by
  unfold openTable
  split
  · exact openAt_keeps h memory _ _ _ _ _ _
  · exact Keeps.pure _

/-- What a lookup may do: call, say what failed, and keep batches. -/
structure Looking (K L : World (BigPageTable × List String) → Prop) : Prop
    extends Observing K L where
  say : ∀ w message, L w → K { w with state := (w.state.1, w.state.2 ++ [message]) }
  kept : ∀ w table, K w → K { w with state := (table, w.state.2) }

section Looking

variable {K L : World (BigPageTable × List String) → Prop}

/-- The property as a function handed only the diagnostics sees it. -/
def onMessagesOf (table : BigPageTable) (K : World (BigPageTable × List String) → Prop) :
    World (List String) → Prop := fun w => K { history := w.history, state := (table, w.state) }

theorem readBatch_keeps (h : Looking K L) (address size : ℕ) (say : SnapshotError → String) :
    Keeps K (Fails L) (onMessages (reported (guardedRead memory address size) say)) := by
  intro w hw
  have hobs : Observing (onMessagesOf w.state.1 K) (onMessagesOf w.state.1 L) :=
    ⟨fun _ => h.weaken _, ⟨fun _ event hcall => h.before.call _ event hcall⟩,
      ⟨fun _ event hcall => h.after.call _ event hcall⟩, fun _ => h.fault _⟩
  have hread := guardedRead_keeps hobs memory address size
    { history := w.history, state := w.state.2 } hw
  unfold onMessages focus reported
  rw [Run.zoom_apply, Run.attempt_bind_apply]
  rcases hr : guardedRead memory address size
      ({ history := w.history, state := w.state.2 } : World (List String)) with ⟨r, v⟩
  rw [hr] at hread
  cases r with
  | ok bytes => exact hread
  | error e => exact h.say { history := v.history, state := (w.state.1, v.state) } (say e) hread.1

theorem batch_keeps (h : Looking K L) (memory : PoolMemory) (index : ℕ) :
    Keeps K (Fails L) (batch memory index) := by
  refine Keeps.bind (Keeps.read _) fun table => ?_
  split
  · exact Keeps.pure _
  · exact Keeps.pure _
  · refine Keeps.bind (poll_keeps h.toObserving memory) fun _ => ?_
    dsimp only
    split
    · refine Keeps.bind (readBatch_keeps h _ _ _) fun read => ?_
      refine Keeps.bind (Keeps.modify fun w hw => h.kept w _ hw) fun _ => ?_
      exact Keeps.pure _
    · exact Keeps.fail fun w hw => fails_own w rfl (h.weaken w hw)

theorem lookupStep_keeps (h : Looking K L) (memory : PoolMemory) (address index : ℕ) :
    Keeps K (Fails L) (lookupStep memory address index) := by
  refine Keeps.bind (Keeps.read _) fun table => ?_
  refine Keeps.bind (batch_keeps h memory _) fun bytes => ?_
  split
  · split
    · refine Keeps.guard fun _ => ?_
      refine Keeps.when fun _ => ?_
      split
      · exact Keeps.pure _
      · refine Keeps.map fun w hw => ?_
        exact h.say w _ (h.weaken w hw)
    · exact Keeps.pure _
  · exact Keeps.pure _

theorem lookup_keeps (h : Looking K L) (memory : PoolMemory) (address : ℕ) :
    Keeps K (Fails L) (lookup memory address) := by
  refine Keeps.bind (Keeps.read _) fun table => ?_
  split
  · exact Keeps.fail fun w hw => fails_own w rfl (h.weaken w hw)
  · exact Keeps.loop (lookupStep_keeps h memory address) _ _

end Looking

end BigPageTable

section

variable {K L : World (List String) → Prop} (h : Moves memory layout I J) (site : HeapSite)
  (evidence : VsEvidence) (contextAddress : ℕ) (context : SegmentContext) (limit : ℕ)
include h

theorem bigPage_keeps (target : PoolMemory) (address : ℕ) :
    Keeps I (Fails J) (bigPage target address) := by
  refine Triple.bind (Q := fun _ => I) (Keeps.read _) fun table => ?_
  split
  · exact Keeps.pure _
  · next table =>
    intro w hw
    have hlook : BigPageTable.Looking
        (fun v => I { history := v.history, state := { w.state with
          bigPages := some v.state.1, diagnostics := v.state.2 } })
        (fun v => J { history := v.history, state := { w.state with
          bigPages := some v.state.1, diagnostics := v.state.2 } }) :=
      { weaken := fun _ => h.weaken _
        before := ⟨fun _ event hcall => h.before.call _ event hcall⟩
        after := ⟨fun _ event hcall => h.after.call _ event hcall⟩
        fault := fun _ => h.fault _
        say := fun _ message => h.say _ message
        kept := fun _ table => h.table _ (some table) }
    have hends := BigPageTable.lookup_keeps hlook target address
      { history := w.history, state := (table, w.state.diagnostics) } (h.table w (some table) hw)
    unfold inTable focus
    rw [Run.zoom_apply]
    rcases hr : BigPageTable.lookup target address
        ({ history := w.history, state := (table, w.state.diagnostics) } :
          World (BigPageTable × List String)) with ⟨r, v⟩
    rw [hr] at hends
    cases r with
    | ok entry => exact hends
    | error e => exact hends

/-! ## One page range -/

omit h in
theorem guardedRead_ok {S : Type} {memory : PoolMemory} {address size : ℕ} {bytes : List UInt8}
    {w w' : World S} (h : guardedRead memory address size w = (.ok bytes, w')) :
    Answered memory address size bytes := by
  unfold guardedRead observed at h
  rcases hr : (guardedBytes memory address size : Walk S (List UInt8)) w with ⟨r, v⟩
  rw [hr] at h
  cases r with
  | error e => cases h
  | ok bytes' =>
    cases h
    unfold guardedBytes at hr
    by_cases hsize : size = 0
    · rw [if_pos hsize] at hr
      cases hr
      exact Or.inl ⟨hsize, rfl⟩
    · rw [if_neg hsize] at hr
      obtain ⟨⟨base, valid⟩, v', -, hr⟩ := Run.bind_ok hr
      dsimp only at hr
      split at hr
      · cases hr
      · unfold callReadExact at hr
        cases hexact : memory.readExact v'.history address size with
        | error e => rw [hexact] at hr; cases hr
        | ok answer => rw [hexact] at hr; cases hr; exact Or.inr ⟨v'.history, hexact⟩

omit h in
theorem reported_some {read : Walk (List String) α} {say : SnapshotError → String} {a : α}
    {w w' : World (List String)} (h : reported read say w = (.ok (some a), w')) :
    ∃ v, read w = (.ok a, v) := by
  unfold reported at h
  rw [Run.attempt_bind_apply] at h
  rcases hr : read w with ⟨r, v⟩
  rw [hr] at h
  cases r with
  | ok b => cases h; exact ⟨v, rfl⟩
  | error e => cases h

omit h in
theorem lift_layout_ok {S β : Type} {r : Except LayoutError β} {a : β} {w w' : World S}
    (h : (Run.lift (r.mapError .layout) : Walk S β) w = (.ok a, w')) : r = .ok a := by
  cases r with
  | ok b => cases h; rfl
  | error e => cases h

omit h in
theorem lfhRange_ok {memory : PoolMemory} {layout : PoolLayout} {lfhKey address size : ℕ}
    {shape : RangeShape} {w w' : World (List String)}
    (h : lfhRange memory layout lfhKey address size w = (.ok (some shape), w')) :
    ∃ source : LfhSource, (source.address = address ∧ source.size = size) ∧
      source.Read memory layout ∧ source.Shapes layout shape := by
  unfold lfhRange at h
  obtain ⟨type, w₁, htype, h⟩ := Run.bind_ok h
  obtain ⟨outer, w₂, houter, h⟩ := Run.bind_ok h
  obtain ⟨inner, w₃, hinner, h⟩ := Run.bind_ok h
  obtain ⟨countOffset, w₄, hcount, h⟩ := Run.bind_ok h
  obtain ⟨bitmapOffset, w₅, hbitmap, h⟩ := Run.bind_ok h
  obtain ⟨header?, w₆, hheader, h⟩ := Run.bind_ok h
  cases header? with
  | none => cases h
  | some header =>
    obtain ⟨_, hheaderRead⟩ := reported_some hheader
    cases haccepted : decodeLfhSubsegment ((readU32 header (outer + inner)).getD 0) address
        (lfhKey % 2 ^ 32) ((readU16 header countOffset).getD 0) size with
    | error rejection => simp only [haccepted] at h; cases h
    | ok lfh =>
      simp only [haccepted] at h
      obtain ⟨raw?, w₇, hraw, h⟩ := Run.bind_ok h
      cases raw? with
      | none => cases h
      | some raw =>
        obtain ⟨_, hrawRead⟩ := reported_some hraw
        cases hbusy : layout.lfhBitmap.normalise raw lfh.blocks with
        | none => simp only [hbusy] at h; cases h
        | some busy =>
          simp only [hbusy] at h
          cases h
          refine ⟨{ address, size, lfhKey, headerSize := type.size, encodedOffset := outer + inner,
                    countOffset, bitmapOffset, header, raw, lfh }, ⟨rfl, rfl⟩, ?_,
            ⟨hbusy, rfl, rfl, rfl⟩⟩
          exact
            { headerSize := ⟨type, lift_layout_ok htype, rfl⟩
              encodedOffset := ⟨outer, inner, lift_layout_ok houter, lift_layout_ok hinner, rfl⟩
              countOffset := lift_layout_ok hcount
              bitmapOffset := lift_layout_ok hbitmap
              header := guardedRead_ok hheaderRead
              accepted := haccepted
              raw := guardedRead_ok hrawRead }

omit h in
theorem lfhRange_keeps (h : Reporting K L) (memory : PoolMemory) (layout : PoolLayout)
    (lfhKey address size : ℕ) : Keeps K (Fails L) (lfhRange memory layout lfhKey address size) := by
  refine Keeps.bind (typeLayoutOf_keeps h.toObserving layout _) fun type => ?_
  refine Keeps.bind (fieldOf_keeps h.toObserving layout _ _) fun outer => ?_
  refine Keeps.bind (fieldOf_keeps h.toObserving layout _ _) fun inner => ?_
  refine Keeps.bind (fieldOf_keeps h.toObserving layout _ _) fun countOffset => ?_
  refine Keeps.bind (fieldOf_keeps h.toObserving layout _ _) fun bitmapOffset => ?_
  refine Keeps.bind (reported_keeps h (guardedRead_keeps h.toObserving memory _ _) _)
    fun header => ?_
  split
  · dsimp only
    split
    · exact (report_keeps h _).map
    · refine Keeps.bind (reported_keeps h (guardedRead_keeps h.toObserving memory _ _) _)
        fun raw => ?_
      split
      · split
        · exact (report_keeps h _).map
        · exact Keeps.pure _
      · exact Keeps.pure _
  · exact Keeps.pure _

omit h in
theorem vsRange_keeps (h : Reporting K L) (memory : PoolMemory) (layout : PoolLayout)
    (address size : ℕ) : Keeps K (Fails L) (vsRange memory layout address size) := by
  refine Keeps.bind (typeLayoutOf_keeps h.toObserving layout _) fun type => ?_
  refine Keeps.bind (reported_keeps h (guardedRead_keeps h.toObserving memory _ _) _)
    fun header => ?_
  split
  · refine Keeps.bind (fieldOf_keeps h.toObserving layout _ _) fun signatureOffset => ?_
    refine Keeps.bind (fieldOf_keeps h.toObserving layout _ _) fun sizeOffset => ?_
    refine Keeps.ite (fun _ => ?_) fun _ => ?_
    · exact (report_keeps h _).map
    · refine Keeps.guard fun _ => ?_
      refine Keeps.when fun _ => ?_
      exact (report_keeps h _).map
  · exact Keeps.pure _

theorem rangeShape_triple (lfhKey : ℕ) (backend : PoolBackend) (address size : ℕ) :
    Triple I (inDiagnostics (rangeShape memory layout lfhKey backend address size))
      (fun shape w => I w ∧ ∀ s, shape = some s → backend = .lfh →
        ∃ source : LfhSource, source.Read memory layout ∧ source.Shapes layout s) (Fails J) := by
  refine inDiagnostics_triple h fun K L hKL => Keeps.and_ok ?_ fun w shape w' hok s hs hb => ?_
  · unfold rangeShape
    split
    · exact lfhRange_keeps hKL memory layout lfhKey address size
    · exact vsRange_keeps hKL memory layout address size
    · exact Keeps.pure _
    · exact Keeps.pure _
  · subst hs hb
    obtain ⟨source, -, hsource⟩ := lfhRange_ok hok
    exact ⟨source, hsource⟩

theorem bigPoolOf_keeps (address size : ℕ) : Keeps I (Fails J) (bigPoolOf memory address size) := by
  refine Keeps.loop (fun s => ?_) _ _
  refine Keeps.guard fun _ => ?_
  refine Keeps.bind (bigPage_keeps h memory _) fun entry => ?_
  split
  · exact Keeps.pure _
  · exact Keeps.pure _

theorem rangeBigPage_keeps (special : Bool) (backend : PoolBackend) (state : PoolState)
    (address : ℕ) : Keeps I (Fails J) (rangeBigPage memory special backend state address) := by
  exact Keeps.ite (fun _ => bigPage_keeps h memory address) fun _ => Keeps.pure _

theorem rangeBigPool_keeps (special : Bool) (backend : PoolBackend) (shape : RangeShape) :
    Keeps I (Fails J) (rangeBigPool memory special backend shape) := by
  exact Keeps.ite (fun _ => bigPoolOf_keeps h _ _) fun _ => Keeps.pure _

omit h in
theorem rangeBigPage_ok {special : Bool} {backend : PoolBackend} {state : PoolState} {address : ℕ}
    {named : Option BigPageEntry} {w w' : World Discovery}
    (h : rangeBigPage memory special backend state address w = (.ok named, w'))
    (hbackend : backend ≠ .segment) : named = none := by
  unfold rangeBigPage at h
  rw [if_neg fun hcond => hbackend hcond.1] at h
  cases h
  rfl

theorem discoverRange_keeps (flags : ℕ) {state : PoolState} (hstate : state.isChunk = true)
    (address size : ℕ) : Keeps I (Fails J)
      (discoverRange memory layout site evidence flags state address size) := by
  refine Triple.bind (rangeShape_triple h site.lfhKey _ address size) fun shape? => ?_
  refine Triple.pull fun hshape => ?_
  cases shape? with
  | none => exact Keeps.pure _
  | some shape =>
    refine Keeps.bind (rangeBigPool_keeps h _ _ _) fun bigPool => ?_
    have hlayout := Keeps.and_ok (Q := fun header _ => layout.poolHeaderLayout = .ok header)
      (poolHeaderLayoutOf_keeps h.toObserving layout) fun _ _ _ hok => lift_layout_ok hok
    refine Triple.bind hlayout fun poolHeader => Triple.pull fun hheader => ?_
    have hnamed := Keeps.and_ok (rangeBigPage_keeps h site.identity.special
        (if site.identity.special then .segment else descriptorBackend flags) state shape.address)
      fun _ named _ hok => rangeBigPage_ok hok
    refine Triple.bind hnamed fun named => Triple.pull fun hnamed => ?_
    refine Keeps.bind (typeLayoutOf_keeps h.toObserving layout _) fun vsHeader => ?_
    refine Keeps.bind (fieldOf_keeps h.toObserving layout _ _) fun vsSizesOffset => ?_
    refine pushRegion_keeps h ⟨⟨state, rfl, hstate⟩, fun hlfh => ?_⟩
    -- an LFH region is not special, and no table entry renames it
    have hordinary : site.identity.special = false := by
      cases hspecial : site.identity.special with
      | false => rfl
      | true => simp [hspecial] at hlfh
    obtain ⟨source, hread, hshapes⟩ := hshape shape rfl hlfh
    have hnone : named = none := hnamed fun hsegment => by cases hlfh.symm.trans hsegment
    subst hnone
    exact ⟨source, hread, hshapes.bitmap, hshapes.address, hshapes.size, hshapes.blockSize,
      hheader, hordinary⟩

/-! ## Segments -/

omit h in
theorem rangeState_isChunk (metadataAddress offset : ℕ) (decoded : Descriptor) :
    (context.rangeState metadataAddress offset decoded).isChunk = true := by
  unfold SegmentContext.rangeState
  split <;> rfl

theorem descriptorStep_keeps (segmentAddress metadataAddress : ℕ) (metadata : List UInt8)
    (index : ℕ) :
    Keeps I (Fails J) (descriptorStep memory layout site evidence context segmentAddress
      metadataAddress metadata index) := by
  refine Keeps.guard fun _ => ?_
  refine Keeps.bind (poll_keeps h.toObserving memory) fun _ => ?_
  dsimp only
  split
  · exact Keeps.pure _
  · refine Keeps.ite (fun _ => ?_) fun _ => ?_
    · exact (complain_keeps h _).map
    · split
      · exact Keeps.pure _
      · refine Keeps.guard fun _ => ?_
        refine Keeps.bind ?_ fun _ => Keeps.pure _
        exact discoverRange_keeps h site evidence _ (rangeState_isChunk context _ _ _) _ _

theorem Moves.spokenObserving :
    Observing (fun w => I w ∧ w.state.diagnostics ≠ []) fun w => J w ∧ w.state.diagnostics ≠ [] :=
  ⟨fun w hw => ⟨h.weaken w hw.1, hw.2⟩,
    ⟨fun w event hcall hw => ⟨h.before.call w event hcall hw.1, hw.2⟩⟩,
    ⟨fun w event hcall hw => ⟨h.after.call w event hcall hw.1, hw.2⟩⟩,
    fun w address size hw => ⟨h.fault w address size hw.1, hw.2⟩⟩

theorem linkPast_triple (entry : ℕ) :
    Triple (fun w => I w ∧ w.state.diagnostics ≠ []) (linkPast memory entry) (fun _ => I)
      (Fails J) := by
  refine Triple.bind (Q := fun _ => I) (Triple.attempt ?_) fun r => ?_
  · exact (scalar_keeps h.spokenObserving memory entry 8).imp (fun _ hw => hw)
      (fun _ _ hw => hw.1) fun _ w hw => h.spoken w hw.1.1 hw.1.2
  · split
    · exact Keeps.pure _
    · exact Keeps.pure _

omit h in
theorem reported_none {read : Walk (List String) α} {say : SnapshotError → String}
    {w w' : World Discovery} (h : inDiagnostics (reported read say) w = (.ok none, w')) :
    w'.state.diagnostics ≠ [] := by
  unfold inDiagnostics focus reported at h
  rw [Run.zoom_apply, Run.attempt_bind_apply] at h
  rcases hr : read { history := w.history, state := w.state.diagnostics } with ⟨r, v⟩
  rw [hr] at h
  cases r with
  | ok a => cases h
  | error e =>
    cases h
    exact List.append_ne_nil_of_right_ne_nil _ (by simp)

theorem discoverSegment_keeps (entry : ℕ) :
    Keeps I (Fails J) (discoverSegment memory layout site evidence context entry) := by
  have hheader : ∀ segmentAddress say, Triple I
      (inDiagnostics (reported (guardedRead memory segmentAddress context.segmentSize) say))
      (fun r w => I w ∧ (r = none → w.state.diagnostics ≠ [])) (Fails J) := fun _ say =>
    Keeps.and_ok
      (inDiagnostics_keeps h fun K L hKL =>
        reported_keeps hKL (guardedRead_keeps hKL.toObserving memory _ _) say)
      fun w r w' hok hr => by subst hr; exact reported_none hok
  refine Triple.bind (hheader _ _) fun header? => ?_
  cases header? with
  | none =>
    exact (linkPast_triple h entry).pre fun _ hw => ⟨hw.1, hw.2 rfl⟩
  | some header =>
    refine Triple.imp (P := I) (Q := fun _ => I) (E := Fails J) ?_ (fun _ hw => hw.1)
      (fun _ _ hw => hw) fun _ _ hw => hw
    refine Keeps.ite (fun _ => ?_) fun _ => ?_
    · exact (complain_keeps h _).map
    · refine Keeps.bind (inDiagnostics_keeps h fun K L hKL =>
        reported_keeps hKL (guardedRead_keeps hKL.toObserving memory _ _) _) fun metadata => ?_
      split
      · refine Keeps.bind ?_ fun _ => Keeps.pure _
        exact Keeps.loop
          (descriptorStep_keeps h site evidence context _ _ _) _ _
      · exact Keeps.pure _

theorem segmentStep_keeps (s : SegmentWalk) :
    Keeps I (Fails J) (segmentStep memory layout site evidence context limit s) := by
  refine Keeps.guard fun _ => ?_
  refine Keeps.ite (fun _ => ?_) fun _ => ?_
  · refine Keeps.guard fun _ => ?_
    refine Keeps.bind (Keeps.modify fun w hw => h.segments w hw) fun _ => ?_
    exact Keeps.pure _
  · refine Keeps.bind (poll_keeps h.toObserving memory) fun _ => ?_
    refine Keeps.ite (fun _ => ?_) fun _ => ?_
    · exact (complain_keeps h _).map
    · refine Keeps.bind (discoverSegment_keeps h site evidence context s.entry)
        fun next => ?_
      split
      · exact Keeps.pure _
      · exact Keeps.pure _

theorem contextScalar_keeps (name : FieldName) (size : ℕ) :
    Keeps I (Fails J) (contextScalar memory layout contextAddress name size) :=
  Keeps.bind (fieldOf_keeps h.toObserving layout _ _) fun _ =>
    scalar_keeps h.toObserving memory _ _

omit h in
theorem segmentContextOf_keeps_of {I : World Discovery → Prop}
    {E : SnapshotError → World Discovery → Prop} {contextAddress limit : ℕ}
    (htype : ∀ name, Keeps I E (typeLayoutOf layout name))
    (hfield : ∀ typeName name, Keeps I E (fieldOf layout typeName name))
    (hscalar : ∀ name size, Keeps I E (contextScalar memory layout contextAddress name size))
    (htree : ∀ tree, Keeps I E
      (inDiagnostics (treeNodes memory layout tree limit "free-page tree")))
    (hoverflow : ∀ w, I w → E (.invalidData "descriptor metadata size overflow") w) :
    Keeps I E (segmentContextOf memory layout contextAddress limit) := by
  refine Keeps.bind (htype _) fun segment => Keeps.bind (htype _) fun descriptor => ?_
  refine Keeps.bind (hscalar _ _) fun shift => ?_
  refine Keeps.guard fun _ => ?_
  refine Keeps.bind (hscalar _ _) fun firstDescriptor => ?_
  refine Keeps.bind (hscalar _ _) fun segmentMask => ?_
  refine Keeps.guard fun _ => ?_
  refine Keeps.bind (hfield _ _) fun freeTree => Keeps.bind (htree _) fun freeNodes => ?_
  refine Keeps.bind (hfield _ _) fun listHead => Keeps.bind (hfield _ _) fun listEntry => ?_
  refine Keeps.bind (hfield _ _) fun descArray => ?_
  refine Keeps.bind (hfield _ _) fun signature => ?_
  refine Keeps.bind (hfield _ _) fun unit => Keeps.bind (hfield _ _) fun flags => ?_
  refine Keeps.bind (hfield _ _) fun treeSignature => ?_
  refine Keeps.bind (hfield _ _) fun treeNode => ?_
  split
  · exact Keeps.fail hoverflow
  · exact Keeps.pure _

theorem segmentContextOf_keeps :
    Keeps I (Fails J) (segmentContextOf memory layout contextAddress limit) :=
  segmentContextOf_keeps_of (fun _ => typeLayoutOf_keeps h.toObserving layout _)
    (fun _ _ => fieldOf_keeps h.toObserving layout _ _)
    (fun _ _ => contextScalar_keeps h contextAddress _ _)
    (fun _ => inDiagnostics_keeps h fun _ _ hKL => treeNodes_keeps hKL memory layout _ limit _)
    fun w hw => fails_own w rfl (h.weaken w hw)

theorem discoverSegmentContext_keeps : Keeps I (Fails J)
      (discoverSegmentContext memory layout site evidence contextAddress limit) := by
  refine Keeps.bind (segmentContextOf_keeps h contextAddress limit) fun context => ?_
  split
  · refine Keeps.bind (scalar_keeps h.toObserving memory _ _) fun entry => ?_
    exact Keeps.loop (segmentStep_keeps h site evidence _ limit) _ _
  · exact Keeps.pure _

/-! ## Large allocations -/

theorem largeTag_keeps (virtualAddress bytes : ℕ) :
    Keeps I (Fails J) (largeTag memory layout virtualAddress bytes) := by
  refine Keeps.guard fun _ => ?_
  refine Keeps.bind (bigPage_keeps h memory _) fun entry => ?_
  split
  · exact Keeps.pure _
  · exact (complain_keeps h _).map

theorem discoverLargeAllocation_keeps (fields : LargeFields) (node : ℕ) :
    Keeps I (Fails J) (discoverLargeAllocation memory layout site fields node) := by
  refine Keeps.bind (poll_keeps h.toObserving memory) fun _ => ?_
  refine Keeps.bind (inDiagnostics_keeps h fun K L hKL =>
    reported_keeps hKL (guardedRead_keeps hKL.toObserving memory _ _) _) fun allocation => ?_
  split
  · split
    · refine Keeps.ite (fun _ => complain_keeps h _) fun _ => ?_
      refine Keeps.bind (largeTag_keeps h _ _) fun tracked => ?_
      dsimp only
      split
      · exact pushRegion_keeps h ⟨⟨_, rfl, rfl⟩, fun hlfh => by cases hlfh⟩
      · exact Keeps.pure _
    · exact Keeps.pure _
  · exact Keeps.pure _

theorem discoverLargeAllocations_keeps (heapAddress limit : ℕ) : Keeps I (Fails J)
      (discoverLargeAllocations memory layout site heapAddress limit) := by
  unfold discoverLargeAllocations
  split
  · refine Keeps.bind (inDiagnostics_keeps h fun K L hKL =>
      treeNodes_keeps hKL memory layout _ limit _) fun nodes => ?_
    exact Keeps.fold (fun _ node => discoverLargeAllocation_keeps h site _ node) _ _
  · exact Keeps.pure _

/-! ## Heaps -/

omit h in
theorem lfhProbesOf_keeps (h : Reporting K L) (memory : PoolMemory) (layout : PoolLayout)
    (heapAddress : ℕ) : Keeps K (Fails L) (lfhProbesOf memory layout heapAddress) := by
  unfold lfhProbesOf
  split
  · exact Keeps.pure _
  · refine Keeps.fold (fun _ probe => ?_) _ _
    unfold lfhProbe
    split
    · exact Keeps.pure _
    · refine Keeps.bind ?_ fun _ => Keeps.pure _
      exact reported_keeps h (guardedRead_keeps h.toObserving memory _ _) _

theorem discoverContext_keeps (heapAddress contextsOffset contextSize limit index : ℕ) :
    Keeps I (Fails J) (discoverContext memory layout site evidence heapAddress contextsOffset
      contextSize limit index) := by
  refine Keeps.bind (poll_keeps h.toObserving memory) fun _ => ?_
  exact absorbing_keeps h (discoverSegmentContext_keeps h site evidence _ limit) _

theorem discoverHeapRegions_keeps (heapAddress : ℕ) (dynamic : Option ℕ) (limit : ℕ) :
    Keeps I (Fails J)
      (discoverHeapRegions memory layout site heapAddress dynamic limit) := by
  refine Keeps.bind (typeLayoutOf_keeps h.toObserving layout _) fun _ => ?_
  refine Keeps.bind (typeLayoutOf_keeps h.toObserving layout _) fun context => ?_
  refine Keeps.bind (fieldOf_keeps h.toObserving layout _ _) fun contextsOffset => ?_
  refine Keeps.bind (inDiagnostics_keeps h fun K L hKL =>
    discoverVsEvidence_keeps hKL memory layout heapAddress dynamic limit) fun chunks => ?_
  refine Keeps.bind (inDiagnostics_keeps h fun K L hKL =>
    vsSkipsPageEnd_keeps hKL memory layout heapAddress) fun skips => ?_
  refine Keeps.bind (inDiagnostics_keeps h fun K L hKL =>
    lfhProbesOf_keeps hKL memory layout heapAddress) fun _ => ?_
  refine Keeps.bind ?_ fun _ => discoverLargeAllocations_keeps h site heapAddress limit
  exact Keeps.fold (fun _ index =>
    discoverContext_keeps h site _ heapAddress contextsOffset context.size limit index) _ _

/-! ## The pool -/

omit h in
theorem nodeHeaps_keeps (h : Reporting K L) (memory : PoolMemory) (layout : PoolLayout)
    (stateAddress nodeOffset nodeSize heapsOffset : ℕ) (heaps : List PoolHeap) (numaNode : ℕ) :
    Keeps K (Fails L)
      (nodeHeaps memory layout stateAddress nodeOffset nodeSize heapsOffset heaps numaNode) := by
  refine Keeps.bind (poll_keeps h.toObserving memory) fun _ => ?_
  split
  · exact (report_keeps h _).map
  · refine Keeps.fold (fun heaps heapIndex => ?_) _ _
    refine Keeps.bind (reported_keeps h (scalar_keeps h.toObserving memory _ _) _)
      fun heap => ?_
    split
    · exact Keeps.guard fun _ => Keeps.pure _
    · exact Keeps.pure _

omit h in
theorem specialHeap_keeps (h : Reporting K L) (memory : PoolMemory) (stateAddress specialOffset : ℕ)
    (heaps : List PoolHeap) (special : PoolKind × ℕ) :
    Keeps K (Fails L) (specialHeap memory stateAddress specialOffset heaps special) := by
  refine Keeps.bind (reported_keeps h (scalar_keeps h.toObserving memory _ _) _)
    fun heap => ?_
  split
  · exact Keeps.guard fun _ => Keeps.pure _
  · exact Keeps.pure _

theorem globalOf_keeps (name : GlobalName) (text : String) :
    Keeps I (Fails J) (globalOf layout name text) := by
  unfold globalOf
  split
  · exact Keeps.pure _
  · exact Keeps.fail fun w hw => fails_own w rfl (h.weaken w hw)

theorem heapGlobal_keeps (globalsAddress : ℕ) (name : FieldName) :
    Keeps I (Fails J) (heapGlobal memory layout globalsAddress name) :=
  Keeps.bind (fieldOf_keeps h.toObserving layout _ _) fun _ =>
    scalar_keeps h.toObserving memory _ _

theorem discoverPoolHeap_keeps (stateAddress heapKey lfhKey limit : ℕ) (heap : PoolHeap) :
    Keeps I (Fails J)
      (discoverPoolHeap memory layout stateAddress heapKey lfhKey limit heap) :=
  absorbing_keeps h (discoverHeapRegions_keeps h _ _ _ limit) _

/-- **Kernel discovery makes only these moves.** -/
theorem discoverPoolRegions_keeps :
    Keeps I (Fails J) (discoverPoolRegions memory layout limit) := by
  have hfield : ∀ typeName name, Keeps I (Fails J) (fieldOf layout typeName name) :=
    fun _ _ => fieldOf_keeps h.toObserving layout _ _
  refine Keeps.bind (globalOf_keeps h _ _) fun stateAddress => ?_
  refine Keeps.bind (typeLayoutOf_keeps h.toObserving layout _) fun _ => ?_
  refine Keeps.bind (typeLayoutOf_keeps h.toObserving layout _) fun node => ?_
  refine Keeps.bind (hfield _ _) fun numberOffset => ?_
  refine Keeps.bind (hfield _ _) fun nodeOffset => ?_
  refine Keeps.bind (hfield _ _) fun specialOffset => ?_
  refine Keeps.bind (hfield _ _) fun heapsOffset => ?_
  refine Keeps.bind (scalar_keeps h.toObserving memory _ _) fun number => ?_
  refine Keeps.ite (fun _ => ?_) fun _ => ?_
  · exact Keeps.fail fun w hw => fails_own w rfl (h.weaken w hw)
  · refine Keeps.bind (inDiagnostics_keeps h fun K L hKL =>
      Keeps.fold (nodeHeaps_keeps hKL memory layout _ _ _ _) _ _) fun nodes => ?_
    refine Keeps.bind (inDiagnostics_keeps h fun K L hKL =>
      Keeps.fold (specialHeap_keeps hKL memory _ _) _ _) fun heaps => ?_
    refine Keeps.bind (globalOf_keeps h _ _) fun globalsAddress => ?_
    refine Keeps.bind (heapGlobal_keeps h _ _) fun heapKey => ?_
    refine Keeps.bind (heapGlobal_keeps h _ _) fun lfhKey => ?_
    refine Keeps.bind (inDiagnostics_keeps h fun K L hKL =>
      BigPageTable.openTable_keeps hKL memory layout) fun table => ?_
    refine Keeps.bind (Keeps.modify fun w hw => h.table w table hw) fun _ => ?_
    exact Keeps.fold (fun _ heap => discoverPoolHeap_keeps h _ _ _ limit heap) _ _

/-- How user discovery ends: a walk that ran out of time kept only what a failure leaves. -/
def UserEnds (I J : World Discovery → Prop) (expired : Bool) (w : World Discovery) : Prop :=
  match expired with
  | true => Fails J .budgetExpired w
  | false => I w

theorem discoverUserHeaps_triple (peb heapKey lfhKey limit : ℕ) (heaps : List ℕ) :
    Triple I (discoverUserHeaps memory layout peb heapKey lfhKey limit heaps) (UserEnds I J)
      (Fails J) := by
  induction heaps with
  | nil => exact Triple.pure fun _ hw => hw
  | cons heap rest ih =>
    have hheap := discoverHeapRegions_keeps h
      { numaNode := 0, poolKind := .nonPagedNx,
        identity := { poolState := peb, heap, special := false }, heapKey, lfhKey } heap none limit
    refine Triple.bind (Q := fun r w => match r with | .ok _ => I w | .error e => Fails J e w)
      (Triple.attempt ?_) fun r => ?_
    · exact Triple.post hheap fun _ _ hw => hw
    · cases r with
      | ok _ => exact ih
      | error e =>
        refine Triple.ite (fun he => ?_) fun _ => ?_
        · subst he
          exact Triple.pure fun _ hw => hw
        · refine Triple.ite (fun _ => Triple.fail fun _ hw => hw) fun _ => ?_
          refine Triple.bind ?_ fun _ => ih
          exact (complain_restores h _).pre fun _ hw => hw.1

/-- **User discovery makes only these moves.** -/
theorem discoverUserRegions_triple (peb : ℕ) (heaps : List ℕ) (limit : ℕ) :
    Triple I (discoverUserRegions memory layout peb heaps limit) (UserEnds I J) (Fails J) := by
  refine Triple.bind (globalOf_keeps h _ _) fun globalsAddress => ?_
  refine Triple.bind (heapGlobal_keeps h _ _) fun heapKey => ?_
  refine Triple.bind (heapGlobal_keeps h _ _) fun lfhKey => ?_
  exact discoverUserHeaps_triple h peb heapKey lfhKey limit heaps

end

end Moves

/-! ## Nothing is taken back -/

/-- What had been found, said and done at `w₀` is still there, in its order. -/
structure Grown (w₀ w : World Discovery) : Prop where
  regions : w₀.state.regions <+: w.state.regions
  diagnostics : w₀.state.diagnostics <+: w.state.diagnostics
  history : w₀.history <+: w.history

theorem Grown.noted {w₀ w : World Discovery} (h : Grown w₀ w) (event : Event) :
    Grown w₀ (w.note event) :=
  ⟨h.regions, h.diagnostics, h.history.trans (List.prefix_append _ _)⟩

theorem grown_moves (memory : PoolMemory) (layout : PoolLayout) (w₀ : World Discovery) :
    Moves memory layout (Grown w₀) (Grown w₀) where
  weaken _ h := h
  before := ⟨fun _ event _ h => h.noted event⟩
  after := ⟨fun _ event _ h => h.noted event⟩
  fault _ _ _ h := h.noted _
  say _ _ h := ⟨h.regions, h.diagnostics.trans (List.prefix_append _ _), h.history⟩
  dropped _ _ _ h := h.noted _
  spoken _ h _ := h
  capped _ _ _ h _ := h.noted _
  segments _ h := h.noted _
  table _ _ h := ⟨h.regions, h.diagnostics, h.history⟩
  tabled _ _ h := ⟨h.regions, h.diagnostics, h.history⟩
  region _ _ _ h := ⟨h.regions.trans (List.prefix_append _ _), h.diagnostics, h.history⟩

/-- **Discovery takes nothing back**, and an interrupt or a deadline loses nothing it has found. -/
theorem discovery_only_adds (memory : PoolMemory) (layout : PoolLayout) (limit peb : ℕ)
    (heaps : List ℕ) (w : World Discovery) :
    Grown w (discoverPoolRegions memory layout limit w).2 ∧
      Grown w (discoverUserRegions memory layout peb heaps limit w).2 := by
  have hmoves := grown_moves memory layout w
  have hself : Grown w w := ⟨List.prefix_rfl, List.prefix_rfl, List.prefix_rfl⟩
  constructor
  · have hends := discoverPoolRegions_keeps hmoves limit w hself
    exact (Run.Ends.imp hends (fun _ _ h => h) fun _ _ h => h.1).anyway
  · have hends := discoverUserRegions_triple hmoves peb heaps limit w hself
    refine (Run.Ends.imp hends (fun expired _ h => ?_) fun _ _ h => h.1).anyway
    cases expired with
    | true => exact h.1
    | false => exact h

end DbgScope.Pool
