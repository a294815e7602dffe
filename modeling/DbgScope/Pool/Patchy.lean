import DbgScope.Pool.Frozen
import DbgScope.Pool.Extents

/-!
# A target with pages missing

A target that stands still, some of whose pages are not there. A valid-region query finds a run of
pages that are, past pages that are not, and may cut the run short at any page. A region of it is
then walked through in order: `Passes` says what a decoder does over one extent and what a gap does,
and a walk of the region comes to its end with the two put together.
-/

namespace DbgScope.Pool

open Run (Triple)
open PoolSnapshot

/-! ## The target -/

inductive PageAnswer (readable : ℕ → Bool) (address size base length : ℕ) : Prop
  | found (hstart : base < address + size) (hstop : max base address < base + length)
      (hgap : ∀ x, address ≤ x → x < base → readable x = false)
      (hthere : ∀ x, max base address ≤ x → x < base + length → x < address + size →
        readable x = true)
      (hlow : base ≤ address ∨ base % pageSize = 0)
      (hhigh : address + size ≤ base + length ∨ (base + length) % pageSize = 0)
  | nothing (hgap : ∀ x, address ≤ x → x < address + size → readable x = false)
      (hnone : address + size ≤ base ∨ base = 0 ∧ length = 0)

/-- The target holds `content`, of which it lets `readable` be read, and never ends the walk. -/
structure Patchy (memory : PoolMemory) (content : ℕ → UInt8) (readable : ℕ → Bool) : Prop where
  read : ∀ h address size, (∀ x, address ≤ x → x < address + size → readable x = true) →
    memory.readExact h address size = .ok (bytesAt content address size)
  valid : ∀ h address size, 0 < size → ∃ base length,
    memory.validRegion h address size = .ok (base, length) ∧
      PageAnswer readable address size base length
  poll : ∀ h, pollOutcome memory h = .ok ()

theorem Mapped.patchy {memory : PoolMemory} {content : ℕ → UInt8} (h : Mapped memory content) :
    Patchy memory content fun _ => true where
  read history address size _ := h.read history address size
  valid history address size hsize := by
    obtain ⟨validSize, hpos, hvalid, hhigh⟩ := h.valid history address size hsize
    refine ⟨address, validSize, hvalid, .found (by omega) (by omega) (fun x _ _ => by omega)
      (fun _ _ _ _ => rfl) (Or.inl le_rfl) (hhigh.imp_left fun hle => by omega)⟩
  poll := h.poll

section Reads

variable {memory : PoolMemory} {content : ℕ → UInt8} {readable : ℕ → Bool}
  {P : PoolSnapshot → Prop} {E : SnapshotError → World PoolSnapshot → Prop}

theorem checkBudget_patchy (h : Patchy memory content readable) :
    Triple (fun w : World PoolSnapshot => P w.state) (checkBudget memory)
      (fun _ w => P w.state) E := by
  intro w hw
  unfold checkBudget
  rw [h.poll]
  exact hw

theorem joins_bytesAt (content : ℕ → UInt8) :
    Joins fun address n bytes => bytes = bytesAt content address n where
  nil _ := rfl
  append address n m _ _ h h' := by rw [h, h', bytesAt_append]
  length address n _ h := by rw [h, length_bytesAt]

theorem readExtent_patchy (h : Patchy memory content readable) {base size : ℕ}
    (hthere : ∀ x, base ≤ x → x < base + size → readable x = true)
    (hspace : base + size ≤ 2 ^ 64) :
    Triple (fun w : World PoolSnapshot => P w.state) (readExtent memory base size)
      (fun bytes w => bytes = bytesAt content base size ∧ P w.state) E := by
  refine readExtent_good (joins_bytesAt content) (checkBudget_patchy h)
    (fun address n hlow hhigh w hw => ?_) hspace
  unfold callReadExact
  rw [h.read _ _ _ fun x hx hx' => hthere x (by omega) (by omega)]
  exact ⟨rfl, hw⟩

end Reads

/-! ## The extents of a region -/

structure Satisfied (after : PoolSnapshot) : Prop where
  incomplete : after.complete = false
  reached : after.matchLimitReached = true

/-- An offset of a region an extent may start or end at. -/
def PoolRegion.Edge (region : PoolRegion) (offset : ℕ) : Prop :=
  offset = 0 ∨ offset = region.size ∨ (region.address + offset) % pageSize = 0

/-- What the walk says about a gap it could not read. -/
def committedThrough (region : PoolRegion) (gapStart missing : ℕ) : String :=
  let address := region.address
  let size := region.size
  s!"region {hex address}+{hex size} is only committed through {hex gapStart}; " ++
    s!"unreadable space extends {hex missing} bytes"

/-- Decoding the extent from one offset of the region to another takes `P` from the one to the
other, unless the walk is told to stop; so does filing a gap. -/
structure Passes (memory : PoolMemory) (content : ℕ → UInt8) (readable : ℕ → Bool) (limit : ℕ)
    (region : PoolRegion) (P : ℕ → PoolSnapshot → Prop)
    (E : SnapshotError → World PoolSnapshot → Prop) : Prop where
  unreached : ∀ offset snapshot, P offset snapshot → snapshot.matchLimitReached = false
  decode : ∀ offset next s, offset < next → next ≤ region.size → region.Edge offset →
    region.Edge next →
    (∀ x, region.address + offset ≤ x → x < region.address + next → readable x = true) →
    Triple (fun w => P offset w.state)
      (decodeExtent memory limit region (region.address + offset)
        (bytesAt content (region.address + offset) (next - offset)) s)
      (fun decoded w => decoded = some s ∧ (Satisfied w.state ∨ P next w.state)) E
  gap : ∀ offset next, offset < next → next ≤ region.size → region.Edge offset →
    region.Edge next →
    (∀ x, region.address + offset ≤ x → x < region.address + next → readable x = false) →
    Triple (fun w => P offset w.state)
      (unreadable memory region (region.address + offset) (next - offset))
      (fun _ w => P next w.state) E
  say : ∀ offset snapshot gapStart missing, (∃ x, readable x = false) → P offset snapshot →
    P offset { snapshot with
      diagnostics := snapshot.diagnostics.push (committedThrough region gapStart missing) }

section Region

variable {memory : PoolMemory} {content : ℕ → UInt8} {readable : ℕ → Bool} {region : PoolRegion}
  {limit : ℕ} {P : ℕ → PoolSnapshot → Prop} {E : SnapshotError → World PoolSnapshot → Prop}

theorem extentStep_passes (h : Patchy memory content readable)
    (hd : Passes memory content readable limit region P E)
    (hspace : region.address + region.size < 2 ^ 64) {offset next : ℕ} (hoffset : offset < next)
    (hnext : next ≤ region.size) (hedge : region.Edge offset) (hedge' : region.Edge next)
    (hthere : ∀ x, region.address + offset ≤ x → x < region.address + next → readable x = true)
    {s : RegionWalk} (hstalled : s.stalledHere = false) :
    Triple (fun w => P offset w.state)
      (extentStep memory limit region (region.address + offset) (region.address + next) s)
      (fun flow w => match flow with
        | .again s' => s' = { s with consecutiveStalls := 0, cursor := region.address + next } ∧
            P next w.state
        | .stop _ => Satisfied w.state) E := by
  have hread := readExtent_patchy (E := fun _ _ => False) (P := P offset) h
    (fun x hx hx' => hthere x hx (by omega))
    (show region.address + offset + (next - offset) ≤ 2 ^ 64 by omega)
  unfold extentStep
  rw [show region.address + next - (region.address + offset) = next - offset by omega]
  refine Triple.bind (Q := fun r w => r = .ok (bytesAt content (region.address + offset)
    (next - offset)) ∧ P offset w.state) (Triple.attempt ?_) fun r => ?_
  · exact hread.imp (fun _ hw => hw) (fun _ _ hw => ⟨congrArg Except.ok hw.1, hw.2⟩)
      fun _ _ hw => hw.elim
  · rintro w ⟨rfl, hw⟩
    dsimp only
    rw [if_neg (by rw [hstalled]; decide)]
    refine Triple.bind (hd.decode offset next _ hoffset hnext hedge hedge' hthere)
      (fun decoded => ?_) w hw
    rintro v ⟨rfl, hv⟩
    dsimp only
    unfold limitReached
    rw [Run.read_bind_apply]
    rcases hv with hmet | hv
    · rw [hmet.reached]
      exact hmet
    · rw [hd.unreached next _ hv]
      exact ⟨rfl, hv⟩

/-- Where the extent loop is, and what holds there. -/
structure Extended (region : PoolRegion) (P : ℕ → PoolSnapshot → Prop) (rounds : ℕ)
    (s : RegionWalk) (w : World PoolSnapshot) : Prop where
  reached : ∃ offset ≤ region.size, s.cursor = region.address + offset ∧
    region.size < offset + rounds ∧ region.Edge offset ∧ P offset w.state
  stalledHere : s.stalledHere = false
  vsCovered : s.vsCovered = region.address

/-- What lies in front of the next byte that is there is filed, if anything does. -/
theorem fileGap_passes (hd : Passes memory content readable limit region P E) {offset next : ℕ}
    (hle : offset ≤ next) (hnext : next ≤ region.size) (hedge : region.Edge offset)
    (hedge' : region.Edge next)
    (hgap : ∀ x, region.address + offset ≤ x → x < region.address + next → readable x = false)
    {s : RegionWalk} (hcursor : s.cursor = region.address + offset)
    (hcovered : s.vsCovered = region.address) :
    Triple (fun w => P offset w.state) (fileGap memory region (region.address + next) s)
      (fun _ w => P next w.state) E := by
  unfold fileGap
  rw [hcursor, hcovered, show min (max (region.address + offset) region.address)
    (region.address + next) = region.address + offset by omega]
  refine Triple.ite (fun hlt => ?_) fun hge => ?_
  · rw [show region.address + next - (region.address + offset) = next - offset by omega]
    refine Triple.bind (hd.gap offset next (by omega) hnext hedge hedge' hgap) fun missed => ?_
    refine Triple.ite (fun _ => ?_) fun _ => Triple.pure fun _ hw => hw
    refine Triple.modify fun w hw => hd.say next _ _ _ ⟨_, hgap _ le_rfl (by omega)⟩ hw
  · obtain rfl : offset = next := by omega
    exact Triple.pure fun _ hw => hw

/-- An extent, clipped to the part of the region past the cursor: from `first` to `next`. -/
structure Clipped (region : PoolRegion) (offset base length first next : ℕ) : Prop where
  low : region.address + first = max base (region.address + offset)
  high : region.address + next = min (base + length) (region.address + region.size)
  order : offset ≤ first ∧ first < next ∧ next ≤ region.size

theorem exists_clipped {offset base length : ℕ} (hoffset : offset < region.size)
    (hstart : base < region.address + offset + (region.size - offset))
    (hstop : max base (region.address + offset) < base + length) :
    ∃ first next, Clipped region offset base length first next :=
  ⟨max base (region.address + offset) - region.address,
    min (base + length) (region.address + region.size) - region.address,
    by omega, by omega, by omega, by omega, by omega⟩

section Clipped

variable {offset base length first next : ℕ}

variable (h : Clipped region offset base length first next)
include h

theorem Clipped.validBase :
    min (max base (region.address + offset)) (region.address + region.size) =
      region.address + first := by
  obtain ⟨-, hlt, hle⟩ := h.order
  rw [← h.low]
  omega

theorem Clipped.validEnd (hspace : region.address + region.size < 2 ^ 64) :
    min (saturatingAdd base length) (region.address + region.size) = region.address + next := by
  rw [h.high]
  unfold saturatingAdd
  omega

theorem Clipped.edge_first (hedge : region.Edge offset)
    (hlow : base ≤ region.address + offset ∨ base % pageSize = 0) : region.Edge first := by
  have hfirst := h.low
  rcases Nat.lt_or_ge (region.address + offset) base with hlt | hge
  · rw [Nat.max_eq_left hlt.le] at hfirst
    exact Or.inr (Or.inr (hfirst ▸ hlow.resolve_left (Nat.not_le.mpr hlt)))
  · rw [Nat.max_eq_right hge] at hfirst
    exact Nat.add_left_cancel hfirst ▸ hedge

theorem Clipped.edge_next (hoffset : offset < region.size)
    (hhigh : region.address + offset + (region.size - offset) ≤ base + length ∨
      (base + length) % pageSize = 0) : region.Edge next := by
  have hnext := h.high
  rcases Nat.lt_or_ge (base + length) (region.address + region.size) with hlt | hge
  · rw [Nat.min_eq_left hlt.le] at hnext
    exact Or.inr (Or.inr (hnext ▸ hhigh.resolve_left (by omega)))
  · rw [Nat.min_eq_right hge] at hnext
    exact Or.inr (Or.inl (Nat.add_left_cancel hnext))

theorem Clipped.lt_base {x : ℕ} (hx : region.address + offset ≤ x)
    (hx' : x < region.address + first) : x < base := by
  rw [h.low] at hx'
  exact (lt_max_iff.mp hx').resolve_right (Nat.not_lt.mpr hx)

theorem Clipped.within {x : ℕ} (hx : region.address + first ≤ x) (hx' : x < region.address + next) :
    max base (region.address + offset) ≤ x ∧ x < base + length ∧
      x < region.address + region.size := by
  rw [h.low] at hx
  rw [h.high] at hx'
  exact ⟨hx, lt_min_iff.mp hx'⟩

end Clipped

section

variable (h : Patchy memory content readable) (hd : Passes memory content readable limit region P E)
  (hspace : region.address + region.size < 2 ^ 64)
include h hd hspace

/-- One answer: the gap in front of the extent it names and the extent, or the gap up to the end of
the region. -/
theorem answerStep_passes {offset rounds base length : ℕ} {s : RegionWalk}
    (hoffset : offset < region.size) (hrounds : region.size < offset + (rounds + 1))
    (hedge : region.Edge offset) (hcursor : s.cursor = region.address + offset)
    (hcovered : s.vsCovered = region.address) (hstalled : s.stalledHere = false)
    (hanswer : PageAnswer readable (region.address + offset) (region.size - offset) base length) :
    Triple (fun w => P offset w.state) (answerStep memory limit region base length s)
      (fun flow w => match flow with
        | .again s' => Extended region P rounds s' w
        | .stop _ => Satisfied w.state ∨ P region.size w.state) E := by
  have hend : region.requestedEnd = region.address + region.size := saturatingAdd_of_lt hspace
  unfold answerStep
  rw [hend, hcursor]
  dsimp only
  cases hanswer with
  | found hstart hstop hgap hthere hlow hhigh =>
    obtain ⟨first, next, hclip⟩ := exists_clipped hoffset hstart hstop
    have hedgeFirst := hclip.edge_first hedge hlow
    have hedgeNext := hclip.edge_next hoffset hhigh
    obtain ⟨hfirst, hlt, hnext⟩ := hclip.order
    rw [hclip.validBase, hclip.validEnd hspace]
    refine Triple.bind (fileGap_passes hd hfirst (hlt.le.trans hnext) hedge hedgeFirst
      (fun x hx hx' => hgap x hx (hclip.lt_base hx hx')) hcursor hcovered) fun _ => ?_
    rw [if_neg (Nat.not_le.mpr (Nat.add_lt_add_left hlt _))]
    refine (extentStep_passes h hd hspace hlt hnext hedgeFirst hedgeNext (fun x hx hx' => ?_)
      hstalled).post fun flow w hw => ?_
    · obtain ⟨hlow, hhigh, hsize⟩ := hclip.within hx hx'
      exact hthere x hlow hhigh (by rw [Nat.add_assoc, Nat.add_sub_cancel' hoffset.le]; exact hsize)
    cases flow with
    | again s' =>
      obtain ⟨rfl, hw⟩ := hw
      exact ⟨⟨next, hnext, rfl, by clear hthere hgap hlow hhigh hstart hstop hclip; omega,
        hedgeNext, hw⟩, hstalled, hcovered⟩
    | stop _ => exact Or.inl hw
  | nothing hgap hnone =>
    have hedgeEnd : region.Edge region.size := Or.inr (Or.inl rfl)
    have hrest : ∀ x, region.address + offset ≤ x → x < region.address + region.size →
        readable x = false := fun x hx hx' => hgap x hx (by omega)
    rcases hnone with hpast | ⟨rfl, rfl⟩
    · rw [show min (max base (region.address + offset)) (region.address + region.size) =
        region.address + region.size by omega]
      refine Triple.bind (fileGap_passes hd hoffset.le le_rfl hedge hedgeEnd hrest hcursor
        hcovered) fun _ => ?_
      rw [if_pos (Nat.min_le_right _ _), if_pos le_rfl]
      exact Triple.pure fun _ hw => Or.inr hw
    · rw [show min (max 0 (region.address + offset)) (region.address + region.size) =
        region.address + offset by omega]
      refine Triple.bind (fileGap_passes hd le_rfl hoffset.le hedge hedge
        (fun x hx hx' => absurd hx (Nat.not_le.mpr hx')) hcursor hcovered) fun _ => ?_
      have hzero : min (saturatingAdd 0 0) (region.address + region.size) ≤
          region.address + offset := (Nat.min_le_left _ _).trans (Nat.zero_le _)
      rw [if_pos hzero, if_neg (by omega), if_pos ⟨rfl, rfl⟩, hcovered,
        show min (max (region.address + offset) region.address) (region.address + region.size) =
          region.address + offset by omega,
        show region.address + region.size - (region.address + offset) = region.size - offset by
          omega]
      refine Triple.bind (hd.gap offset region.size hoffset le_rfl hedge hedgeEnd hrest)
        fun _ => ?_
      exact Triple.pure fun _ hw => Or.inr hw

theorem regionStep_passes (rounds : ℕ) (s : RegionWalk) :
    Triple (Extended region P (rounds + 1) s) (regionStep memory limit region s)
      (fun flow w => match flow with
        | .again s' => Extended region P rounds s' w
        | .stop _ => Satisfied w.state ∨ P region.size w.state) E := by
  rintro w ⟨⟨offset, hoffset, hcursor, hrounds, hedge, hw⟩, hstalled, hcovered⟩
  have hend : region.requestedEnd = region.address + region.size := saturatingAdd_of_lt hspace
  unfold regionStep
  rw [hend, hcursor]
  by_cases hdone : region.address + region.size ≤ region.address + offset
  · rw [if_pos hdone]
    refine Or.inr ?_
    rwa [show region.size = offset by omega]
  rw [if_neg hdone]
  refine Triple.bind (P := fun w => P offset w.state) (checkBudget_patchy h) (fun _ => ?_) w hw
  intro v hv
  rw [Run.attempt_bind_apply, show region.address + region.size - (region.address + offset) =
    region.size - offset by omega]
  unfold callValidRegion
  obtain ⟨base, length, hvalid, hanswer⟩ :=
    h.valid v.history (region.address + offset) (region.size - offset) (by omega)
  rw [hvalid]
  exact answerStep_passes h hd hspace (by omega) hrounds hedge hcursor hcovered hstalled hanswer
    (v.note _) hv

/-- **A region of a target with pages missing is walked through.** -/
theorem walkExtents_passes : Triple (fun w => P 0 w.state) (walkExtents memory limit region)
      (fun _ w => Satisfied w.state ∨ P region.size w.state) E := by
  refine (Triple.countdown (I := Extended region P)
    (fun rounds s => (regionStep_passes h hd hspace rounds s).post fun flow _ hw => ?_)
    ?_ _ _).pre fun w hw => ?_
  · cases flow with
    | again s' => exact hw
    | stop _ => exact hw
  · rintro s w ⟨⟨offset, hoffset, -, hrounds, -⟩, -⟩
    omega
  · exact ⟨⟨0, by omega, rfl, by omega, Or.inl rfl, hw⟩, rfl, rfl⟩

end

end Region

end DbgScope.Pool
