import DbgScope.Pool.WalkRegion

/-!
# What a decoder does to a snapshot

A decoder says something, takes completeness away and records spans. What these keep, it keeps, as
long as it is kept by the spans it can record: those that satisfy `S`. `Decoding` is that for the
decoders with a fixed stride, and `VsDecoding` for the chunks of a VS extent, where more is counted
and asked.
-/

namespace DbgScope.Pool

open Run (Keeps Triple)
open PoolSnapshot

/-- What is said, completeness lost and the spans that satisfy `S` keep `I`. -/
structure Decoding (S : PoolSpan → Prop) (I : World PoolSnapshot → Prop)
    (E : SnapshotError → World PoolSnapshot → Prop) : Prop where
  say : ∀ message, Keeps I E (complain message)
  clear : Keeps I E clearComplete
  record : ∀ {span}, S span → Keeps I E (record span)

/-- So do the counts of a VS extent, and the calls made for it. -/
structure VsDecoding (memory : PoolMemory) (S : PoolSpan → Prop) (I : World PoolSnapshot → Prop)
    (E : SnapshotError → World PoolSnapshot → Prop) : Prop extends Decoding S I E where
  run : ∀ address, Keeps I E (callCommittedRun memory address)
  capped : Keeps I E (note (.capped .vsExtent))
  refused : ∀ count, Keeps I E (update fun snapshot =>
    { snapshot with refusedChunks := saturatingAdd snapshot.refusedChunks count })
  unplaced : ∀ count, Keeps I E (update fun snapshot =>
    { snapshot with unplacedBytes := saturatingAdd snapshot.unplacedBytes count })

section Decoding

variable {S : PoolSpan → Prop} {I : World PoolSnapshot → Prop}
  {E : SnapshotError → World PoolSnapshot → Prop} {α : Type} {region : PoolRegion}

theorem limit_keeps {m m' : Walk PoolSnapshot α} (hm : Keeps I E m) (hm' : Keeps I E m') :
    Keeps I E (limitReached >>= fun reached => if reached = true then m else m') :=
  Keeps.bind (Keeps.read _) fun _ => Keeps.ite (fun _ => hm) fun _ => hm'

theorem checkBudget_noted {memory : PoolMemory}
    (hnote : ∀ {w raised}, I w → I (w.note (.poll raised))) :
    Keeps I (fun _ => I) (checkBudget memory) := by
  intro w hw
  unfold checkBudget
  cases pollOutcome memory w.history <;> exact hnote hw

theorem unreadable_keeps {P : World PoolSnapshot → Prop} {memory : PoolMemory} {address size : ℕ}
    (hnote : Triple P (note (.filed address (saturatingAdd address size))) (fun _ => I) E)
    (hrun : ∀ address, Keeps I E (callCommittedRun memory address))
    (hgap : ∀ address size state, state.isChunk = false →
      Keeps I E (gap region address size state)) :
    Triple P (unreadable memory region address size) (fun _ => I) E := by
  refine Triple.bind hnote fun _ => Keeps.guard fun _ => Keeps.loop (fun s => ?_) _ _
  refine Keeps.guard fun _ => Keeps.bind (hrun _) fun run => ?_
  split
  · exact (hgap _ _ _ rfl).map
  · refine (hgap _ _ _ ?_).map
    split <;> rfl

variable (h : Decoding S I E) (base : ℕ) (bytes : List UInt8)
include h

theorem complain_clear_keeps (message : String) {m : Walk PoolSnapshot α} (hm : Keeps I E m) :
    Keeps I E (complain message >>= fun _ => clearComplete >>= fun _ => m) :=
  Keeps.bind (h.say message) fun _ => Keeps.bind h.clear fun _ => hm

theorem gap_keeps {address size : ℕ} {state : PoolState}
    (hspan : S (baseSpan region address address size 0 state)) :
    Keeps I E (gap region address size state) := by
  refine Keeps.guard fun _ => Keeps.ite (fun _ => Keeps.bind h.clear fun _ => ?_) fun _ => ?_
  all_goals exact (h.record hspan).map

/-! ## The decoders with a fixed stride -/

theorem walkSpecialPool_keeps
    (hspan : ∀ page usable size tag, S (baseSpan region page usable size tag .allocated)) :
    Keeps I E (walkSpecialPool region base bytes) := by
  refine Keeps.loop (fun page => ?_) _ _
  unfold specialStep
  split
  · exact Keeps.pure _
  · refine Keeps.guard fun _ => ?_
    split
    · exact complain_clear_keeps h _ (Keeps.pure _)
    · refine Keeps.guard fun _ => Keeps.bind ?_ fun _ => limit_keeps (Keeps.pure _) (Keeps.pure _)
      unfold recordSpecial
      refine Keeps.ite (fun _ => complain_clear_keeps h _ ?_) fun _ => ?_
      all_goals exact h.record (hspan _ _ _ _)

theorem walkLfh_keeps
    (hspan : ∀ slot tag state, lfhBitmapState region.bitmap slot = some state →
      region.poolHeader.size ≤ region.unitSize →
      saturatingAdd (slot * region.unitSize) region.unitSize ≤
        saturatingAdd (base - region.address) bytes.length →
      S (lfhSpan region (wrappingAdd region.address (slot * region.unitSize)) tag state)) :
    Keeps I E (walkLfh region base bytes) := by
  refine Keeps.ite (fun _ => ?_) fun hunit => Keeps.loop (fun slot => ?_) _ _
  · exact Keeps.bind (h.say _) fun _ => h.clear
  · unfold lfhStep
    dsimp only
    split
    · exact Keeps.pure _
    · next slotOffset hmul =>
      obtain rfl : slotOffset = slot * region.unitSize := by
        unfold checkedMul at hmul
        split at hmul
        · exact (Option.some.inj hmul).symm
        · cases hmul
      refine Keeps.guard fun hin => Keeps.guard fun _ => ?_
      split
      · exact complain_clear_keeps h _ (Keeps.pure _)
      · next state hstate =>
        refine Keeps.bind (h.record ?_) fun _ => limit_keeps (Keeps.pure _) (Keeps.pure _)
        exact hspan slot _ state hstate (Nat.le_of_not_lt hunit) (Nat.le_of_not_lt hin)

theorem walkPageRanges_keeps
    (hspan : ∀ slot address usable size tag,
      S (baseSpan region address usable size tag (region.cellState slot))) :
    Keeps I E (walkPageRanges region base bytes) := by
  refine Keeps.loop (fun slot => ?_) _ _
  unfold pageRangeStep
  dsimp only
  split
  · exact Keeps.pure _
  · refine Keeps.guard fun _ => ?_
    exact Keeps.bind (h.record (hspan _ _ _ _ _)) fun _ => limit_keeps (Keeps.pure _) (Keeps.pure _)

theorem walkLarge_keeps
    (hspan : S (baseSpan region region.address region.address region.size
      (region.knownTag.getD 0) region.wholeState)) : Keeps I E (walkLarge region) :=
  Keeps.guard fun _ => h.record hspan

end Decoding

/-! ## The VS decoder -/

/-- The span a chunk is recorded as, whether the table names it or not, satisfies `S`. -/
structure VsSpans (S : PoolSpan → Prop) (region : PoolRegion) (base : ℕ) (bytes : List UInt8)
    (headerAddress : ℕ) (chunk : VsChunk) : Prop where
  unnamed : vsBigPool region headerAddress chunk.size = none →
    S (vsSpan region base bytes headerAddress chunk.size (vsState region headerAddress chunk))
  named : ∀ named, vsBigPool region headerAddress chunk.size = some named →
    S (vsNamedSpan region named chunk.size (vsState region headerAddress chunk))

/-- The chunk at a place of the extent is, if it decodes. -/
def VsPlace (S : PoolSpan → Prop) (region : PoolRegion) (base : ℕ) (bytes : List UInt8)
    (s : VsWalk) : Prop :=
  ∀ encoded chunk, s.fits region bytes → decodeVsChunk encoded (wrappingAdd base s.offset)
    region.heapKey region.headerBytes region.requestedEnd = .ok chunk →
    VsSpans S region base bytes (wrappingAdd base s.offset) chunk

section VsDecoding

variable {memory : PoolMemory} {S : PoolSpan → Prop} {I : World PoolSnapshot → Prop}
  {E : SnapshotError → World PoolSnapshot → Prop} {region : PoolRegion} {base : ℕ}
  {bytes : List UInt8}

theorem vsContinue_keeps (s : VsWalk) : Keeps I E (vsContinue s) :=
  limit_keeps (Keeps.pure _) (Keeps.pure _)

variable (h : VsDecoding memory S I E)
include h

theorem vsRefuse_keeps (headerAddress : ℕ) (rejection : VsRejection) (s : VsWalk) :
    Keeps I E (vsRefuse headerAddress rejection s) := by
  refine Keeps.ite (fun _ => Keeps.bind (h.say _) fun _ => ?_) fun _ => ?_
  all_goals exact h.clear.map

theorem vsCheckChain_keeps (headerAddress : ℕ) (chunk : VsChunk) (s : VsWalk) :
    Keeps I E (vsCheckChain headerAddress chunk s) := by
  refine Keeps.when fun _ => Keeps.ite (fun _ => Keeps.bind (h.say _) fun _ => ?_) fun _ => ?_
  all_goals exact h.clear.map

theorem vsChunkStep_keeps {headerAddress : ℕ} {chunk : VsChunk}
    (hspans : VsSpans S region base bytes headerAddress chunk) (s : VsWalk) :
    Keeps I E (vsChunkStep memory region base bytes headerAddress chunk s) := by
  refine Keeps.bind (vsCheckChain_keeps h _ _ _) fun s => ?_
  split
  · next named hnamed =>
    exact Keeps.bind (h.record (hspans.named named hnamed)) fun _ => vsContinue_keeps _
  · next hunnamed =>
    have hemit : Keeps I E (vsEmit region base bytes headerAddress chunk s) := by
      refine Keeps.ite (fun _ => Keeps.bind (h.say _) fun _ => ?_) fun _ => ?_
      all_goals
        exact Keeps.bind (h.record (hspans.unnamed hunnamed)) fun _ => vsContinue_keeps _
    refine Keeps.ite (fun _ => Keeps.bind (h.run _).map fun _ => ?_) fun _ => hemit
    exact Keeps.ite (fun _ => hemit) fun _ => complain_clear_keeps h.toDecoding _ (Keeps.pure _)

theorem vsStep_keeps (limit : ℕ) (s : VsWalk) (hspans : VsPlace S region base bytes s) :
    Keeps I E (vsStep memory limit region base bytes s) := by
  refine Keeps.guard fun hfits => Keeps.ite (fun _ => h.capped.map) fun _ => ?_
  dsimp only
  split
  · exact Keeps.pure _
  · split
    · exact vsRefuse_keeps h _ _ _
    · next chunk hchunk => exact vsChunkStep_keeps h (hspans _ chunk (not_not.mp hfits) hchunk) s

theorem walkVs_keeps (limit : ℕ) (expected : Option ℕ)
    (hspans : ∀ s, VsPlace S region base bytes s) :
    Keeps I E (walkVs memory limit region base bytes expected) := by
  unfold walkVs
  split
  · refine Keeps.map (Keeps.bind (h.unplaced _) fun _ => ?_)
    exact Keeps.bind (h.say _) fun _ => h.clear
  · refine Keeps.guard fun _ =>
      Keeps.bind (Keeps.loop (fun s => vsStep_keeps h limit s (hspans s)) _ _) fun s => ?_
    refine Keeps.bind ?_ fun _ => Keeps.bind ?_ fun _ => Keeps.map ?_
    · unfold vsReportRefused
      split
      · exact Keeps.pure _
      · exact Keeps.bind (h.refused _) fun _ => h.say _
    · exact Keeps.when fun _ => h.say _
    · refine Keeps.bind (Keeps.read _) fun _ => Keeps.when fun _ => ?_
      exact Keeps.bind h.clear fun _ => h.say _

end VsDecoding

end DbgScope.Pool
