import DbgScope.Pool.Recording

/-!
# One round of the extent loop

What a round of `walk_region` can do, whatever the target answers. What holds of a region dealt with
up to some address is carried through the round by one rule (`RoundRule`); every round that is
followed by another moves the cursor forward.
-/

namespace DbgScope.Pool

open Run (Keeps Triple Yields)
open PoolSnapshot

/-! ## Pages -/

theorem pageEnd_eq {address : ℕ} (h : address < 2 ^ 64) :
    pageEnd address = saturatingAdd (address / pageSize * pageSize) pageSize := by
  exact congrArg (saturatingAdd · pageSize) (and_complement (k := 12) h (by decide))

theorem lt_pageEnd {address : ℕ} (h : address < 2 ^ 64 - 1) : address < pageEnd address := by
  rw [pageEnd_eq (by omega)]
  unfold saturatingAdd pageSize
  omega

theorem stalled_cursor {region : PoolRegion} {validBase : ℕ}
    (h : validBase < region.requestedEnd) :
    let skip := min (pageEnd validBase) region.requestedEnd - validBase
    0 < skip ∧ validBase + skip ≤ region.requestedEnd ∧
      saturatingAdd validBase skip = validBase + skip := by
  have hend : region.requestedEnd < 2 ^ 64 := saturatingAdd_lt _ _
  have hpage := lt_pageEnd (show validBase < 2 ^ 64 - 1 by omega)
  refine ⟨by omega, by omega, ?_⟩
  exact saturatingAdd_of_lt (by omega)

/-! ## The rule -/

/-- The extent from `validBase` to `validEnd` is what the target answered at the cursor. -/
def ExtentAnswer (memory : PoolMemory) (region : PoolRegion) (cursor validBase validEnd : ℕ) :
    Prop :=
  ∃ h base length, memory.validRegion h cursor (region.requestedEnd - cursor) = .ok (base, length) ∧
    validBase = min (max base cursor) region.requestedEnd ∧
    validEnd = min (saturatingAdd base length) region.requestedEnd

/-- Where a round is left when an extent has been decoded. -/
def Decoded (Q : Flow RegionWalk Unit → World PoolSnapshot → Prop) (validEnd : ℕ)
    (decoded : Option RegionWalk) (w : World PoolSnapshot) : Prop :=
  match decoded with
  | none => Q (.stop ()) w
  | some s => if w.state.matchLimitReached then Q (.stop ()) w
      else Q (.again { s with cursor := validEnd }) w

theorem decoded_some {Q : Flow RegionWalk Unit → World PoolSnapshot → Prop} {validEnd : ℕ}
    {d : RegionWalk} {w : World PoolSnapshot}
    (hstop : w.state.matchLimitReached = true → Q (.stop ()) w)
    (hagain : Q (.again { d with cursor := validEnd }) w) : Decoded Q validEnd (some d) w := by
  by_cases hreached : w.state.matchLimitReached = true
  · exact (if_pos hreached).mpr (hstop hreached)
  · exact (if_neg hreached).mpr hagain

/-- A round from `s` carries `P pos`, that the region is dealt with up to `pos`, to `Q`. The bytes
of an extent that is read satisfy `G`. -/
structure RoundRule (memory : PoolMemory) (limit : ℕ) (region : PoolRegion) (s : RegionWalk)
    (G : ℕ → ℕ → List UInt8 → Prop) (P : ℕ → World PoolSnapshot → Prop)
    (Q : Flow RegionWalk Unit → World PoolSnapshot → Prop)
    (E : SnapshotError → World PoolSnapshot → Prop) : Prop where
  poll : Triple (P s.cursor) (checkBudget memory) (fun _ => P s.cursor) E
  query : ∀ {failed w}, P s.cursor w →
    P s.cursor (w.note (.validRegion s.cursor (region.requestedEnd - s.cursor) failed))
  say : ∀ pos message, Keeps (P pos) E (complain message)
  stalls : ∀ pos (f : WalkStalls → WalkStalls), Keeps (P pos) E (update fun snapshot =>
    { snapshot with stalls := f snapshot.stalls })
  /-- A gap starts where the walk is, or where the spans already filed end. -/
  gap : ∀ {pos address next}, s.cursor ≤ pos → pos ≤ address → address ≤ max pos s.vsCovered →
    address ≤ next → next ≤ region.requestedEnd →
    Triple (P pos) (unreadable memory region address (next - address)) (fun _ => P next) E
  covered : ∀ {pos next w}, s.cursor ≤ pos → pos ≤ next → next ≤ max pos s.vsCovered → P pos w →
    P next w
  read : ∀ {validBase validEnd}, s.cursor ≤ validBase → validBase < validEnd →
    validEnd ≤ region.requestedEnd →
    Triple (P validBase) (readExtent memory validBase (validEnd - validBase))
      (fun bytes w => G validBase validEnd bytes ∧ P validBase w)
      (fun error w => (error.haltsWalk = true → E error w) ∧ P validBase w)
  decode : ∀ {validBase validEnd bytes}, ExtentAnswer memory region s.cursor validBase validEnd →
    s.cursor ≤ validBase → validBase < validEnd → validEnd ≤ region.requestedEnd →
    G validBase validEnd bytes →
    Triple (P validBase)
      (decodeExtent memory limit region validBase bytes { s with consecutiveStalls := 0 })
      (Decoded Q validEnd) E
  again : ∀ {s' w}, s.cursor < s'.cursor → s'.cursor ≤ region.requestedEnd →
    s'.vsChunk = s.vsChunk → s'.vsCovered = s.vsCovered → P s'.cursor w → Q (.again s') w
  stop : ∀ {w}, P region.requestedEnd w → Q (.stop ()) w
  past : ∀ {w}, region.requestedEnd ≤ s.cursor → P s.cursor w → Q (.stop ()) w

namespace RoundRule

variable {memory : PoolMemory} {limit : ℕ} {region : PoolRegion} {s : RegionWalk}
  {G : ℕ → ℕ → List UInt8 → Prop} {P : ℕ → World PoolSnapshot → Prop}
  {Q : Flow RegionWalk Unit → World PoolSnapshot → Prop}
  {E : SnapshotError → World PoolSnapshot → Prop} {validBase : ℕ}

variable (h : RoundRule memory limit region s G P Q E)
include h

theorem fileGap (hbase : s.cursor ≤ validBase) (hend : validBase ≤ region.requestedEnd) :
    Triple (P s.cursor) (fileGap memory region validBase s) (fun _ => P validBase) E := by
  refine Triple.ite (fun hlt => ?_) fun hnot => Triple.pure fun w hw =>
    h.covered le_rfl hbase (by omega) hw
  refine Triple.bind (h.gap le_rfl (by omega) (by omega) hlt.le hend) fun missed => ?_
  exact Triple.ite (fun _ => h.say _ _) fun _ => Triple.pure fun _ hw => hw

theorem stalledStep (reportedBase reportedSize : ℕ) (hbase : s.cursor ≤ validBase)
    (hlt : validBase < region.requestedEnd) :
    Triple (P validBase) (stalledStep memory region validBase reportedBase reportedSize s) Q E := by
  obtain ⟨hskip, hle, hcursor⟩ := stalled_cursor hlt
  unfold Pool.stalledStep
  dsimp only
  rw [hcursor]
  generalize min (pageEnd validBase) region.requestedEnd - validBase = skip at hskip hle
  refine Triple.bind (h.say _ _) fun _ => ?_
  refine Triple.bind (h.gap hbase (by omega) (by omega) (by omega) hle) fun _ => ?_
  refine Triple.bind (h.stalls _ fun stalls => { stalls with
    pages := stalls.pages + 1, skippedBytes := saturatingAdd stalls.skippedBytes skip }) fun _ => ?_
  refine Triple.ite (fun _ => ?_) fun _ => Triple.pure fun _ hw =>
    h.again (show s.cursor < validBase + skip by omega) hle rfl rfl hw
  refine Triple.bind (Q := fun _ => P region.requestedEnd) ?_ fun _ =>
    Triple.pure fun _ hw => h.stop hw
  refine Triple.bind (h.say _ _) fun _ => ?_
  refine Triple.bind (h.gap (by omega) le_rfl (by omega) hle le_rfl) fun _ => ?_
  exact Triple.pure fun _ hw => hw

theorem extentStep {validEnd : ℕ} (hanswer : ExtentAnswer memory region s.cursor validBase validEnd)
    (hbase : s.cursor ≤ validBase) (hlt : validBase < validEnd)
    (hend : validEnd ≤ region.requestedEnd) :
    Triple (P validBase) (extentStep memory limit region validBase validEnd s) Q E := by
  have hread := h.read hbase hlt hend
  refine Triple.bind (Q := fun r w => (P validBase w ∧
    ∀ error, r = .error error → error.haltsWalk = true → E error w) ∧
      ∀ bytes, r = .ok bytes → G validBase validEnd bytes) (Triple.attempt ?_) fun r => ?_
  · refine hread.imp (fun _ hw => hw) (fun bytes _ hw => ?_) fun error _ hw => ?_
    · exact ⟨⟨hw.2, nofun⟩, fun _ hr => Except.ok.inj hr ▸ hw.1⟩
    · exact ⟨⟨hw.2, fun _ hr => Except.error.inj hr ▸ hw.1⟩, nofun⟩
  refine Triple.pull fun hgood => ?_
  cases r with
  | error error =>
    refine Triple.ite (fun hhalts => Triple.fail fun w hw => hw.2 error rfl hhalts) fun _ => ?_
    refine Triple.pre (P := P validBase) ?_ fun _ hw => hw.1
    refine Triple.bind (h.say _ _) fun _ => ?_
    refine Triple.bind (h.gap hbase le_rfl (by omega) hlt.le hend) fun _ => ?_
    exact Triple.pure fun _ hw => h.again (show s.cursor < validEnd by omega) hend rfl rfl hw
  | ok bytes =>
    have hdecode := h.decode hanswer hbase hlt hend (hgood bytes rfl)
    refine Triple.pre (P := P validBase) ?_ fun _ hw => hw.1
    refine Triple.ite (fun _ => Triple.bind (h.stalls _ fun stalls => { stalls with
      recoveredBytes := saturatingAdd stalls.recoveredBytes bytes.length }) fun _ => ?_) fun _ => ?_
    -- The extent is decoded the same way whether it was recovered or not.
    all_goals
      refine Triple.bind hdecode fun decoded => ?_
      cases decoded with
      | none => exact Triple.pure fun _ hw => hw
      | some d =>
        intro v hv
        dsimp only
        unfold limitReached
        rw [Run.read_bind_apply]
        unfold Decoded at hv
        cases hreached : v.state.matchLimitReached <;> rw [hreached] at hv <;> exact hv

/-- **What a round does.** -/
theorem regionStep : Triple (P s.cursor) (regionStep memory limit region s) Q E := by
  refine Triple.ite (fun hdone => Triple.pure fun w hw => h.past hdone hw) fun hmore => ?_
  refine Triple.bind h.poll fun _ => ?_
  refine Triple.bind (Q := fun r w => P s.cursor w ∧ ∀ answer, r = .ok answer →
    ∃ h, memory.validRegion h s.cursor (region.requestedEnd - s.cursor) = .ok answer) ?_ fun r => ?_
  · exact fun w hw => ⟨h.query hw, fun _ hr => ⟨w.history, hr⟩⟩
  refine Triple.pull fun hvalid => ?_
  cases r with
  | error error =>
    refine Triple.bind (h.say _ _) fun _ => ?_
    refine Triple.bind (h.gap le_rfl le_rfl (by omega) (by omega) le_rfl) fun _ => ?_
    exact Triple.pure fun _ hw => h.stop hw
  | ok answer =>
    obtain ⟨history, hvalid⟩ := hvalid answer rfl
    obtain ⟨base, length⟩ := answer
    dsimp only
    unfold answerStep
    dsimp only
    refine Triple.bind (h.fileGap (by omega) (by omega)) fun _ => ?_
    refine Triple.ite (fun hempty => ?_) fun hextent => ?_
    · refine Triple.ite (fun hpast => Triple.pure fun w hw => h.stop ?_) fun hmore => ?_
      · rwa [show min (max base s.cursor) region.requestedEnd = region.requestedEnd by omega] at hw
      refine Triple.ite (fun _ => ?_) fun _ => h.stalledStep _ _ (by omega) (by omega)
      refine Triple.bind (h.gap (by omega) (by omega) (by omega) (by omega) le_rfl) fun _ => ?_
      exact Triple.pure fun _ hw => h.stop hw
    · exact h.extentStep ⟨history, base, length, hvalid, rfl, rfl⟩ (by omega) (by omega) (by omega)

end RoundRule

/-! ## Progress -/

def Advances (region : PoolRegion) (cursor : ℕ) : Flow RegionWalk Unit → Prop
  | .again s' => cursor < s'.cursor ∧ s'.cursor ≤ region.requestedEnd
  | .stop _ => True

/-- **Every round of the extent loop but the last moves the cursor forward**, whatever the target
answers. -/
theorem regionStep_advances (memory : PoolMemory) (limit : ℕ) (region : PoolRegion)
    (s : RegionWalk) :
    Yields (regionStep memory limit region s) (Advances region s.cursor) := by
  refine RoundRule.regionStep (G := fun _ _ _ => True) (P := fun _ _ => True) {
    poll := Triple.always _
    query := fun _ => trivial
    say := fun _ _ => Triple.always _
    stalls := fun _ _ => Triple.always _
    gap := fun _ _ _ _ _ => Triple.always _
    covered := fun _ _ _ _ => trivial
    read := fun _ _ _ => (Triple.always _).imp (fun _ h => h) (fun _ _ _ => ⟨trivial, trivial⟩)
      fun _ _ _ => ⟨fun _ => trivial, trivial⟩
    decode := fun _ hbase hlt hend _ => (Triple.always _).post fun decoded w _ => ?_
    again := fun hlt hle _ _ _ => ⟨hlt, hle⟩
    stop := fun _ => trivial
    past := fun _ _ => trivial }
  cases decoded with
  | none => trivial
  | some d => exact decoded_some (fun _ => trivial) ⟨hbase.trans_lt hlt, hend⟩

end DbgScope.Pool
