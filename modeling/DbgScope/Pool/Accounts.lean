import DbgScope.Pool.Extents
import DbgScope.Pool.Frozen

/-!
# Every byte of a region once

Outside of VS subsegments, what the extent loop hands to a decoder and what it files as a gap are
consecutive ranges from the start of the region to its end, whatever the target answers.
-/

namespace DbgScope.Pool

open Run (Keeps Triple)
open PoolSnapshot

def Event.handed : Event → Option (ℕ × ℕ)
  | .decoded address stop | .filed address stop => some (address, stop)
  | _ => none

/-- No match limit is set, and since `start` the ranges were handed on. -/
structure Handed (start : History) (ranges : List (ℕ × ℕ)) (w : World PoolSnapshot) : Prop where
  unlimited : w.state.matchLimit = none
  unreached : w.state.matchLimitReached = false
  handed : ∃ events, w.history = start ++ events ∧ events.filterMap Event.handed = ranges

section Handed

variable {start : History} {ranges : List (ℕ × ℕ)} {w : World PoolSnapshot} {α β : Type}
  {E : SnapshotError → World PoolSnapshot → Prop}

theorem Handed.note (h : Handed start ranges w) {event : Event} (hevent : event.handed = none) :
    Handed start ranges (w.note event) := by
  obtain ⟨events, hhistory, hranges⟩ := h.handed
  refine ⟨h.unlimited, h.unreached, events ++ [event], ?_, ?_⟩
  · rw [World.note_history, hhistory, List.append_assoc]
  · rw [List.filterMap_append, hranges, List.filterMap_cons_none hevent]
    exact List.append_nil ranges

theorem Handed.hand (h : Handed start ranges w) {event : Event} {range : ℕ × ℕ}
    (hevent : event.handed = some range) : Handed start (ranges ++ [range]) (w.note event) := by
  obtain ⟨events, hhistory, hranges⟩ := h.handed
  refine ⟨h.unlimited, h.unreached, events ++ [event], ?_, ?_⟩
  · rw [World.note_history, hhistory, List.append_assoc]
  · rw [List.filterMap_append, hranges, List.filterMap_cons_some hevent]
    rfl

theorem update_handed {f : PoolSnapshot → PoolSnapshot}
    (hlimit : ∀ snapshot, (f snapshot).matchLimit = snapshot.matchLimit)
    (hreached : ∀ snapshot, (f snapshot).matchLimitReached = snapshot.matchLimitReached) :
    Keeps (Handed start ranges) E (update f) :=
  Keeps.modify fun w hw =>
    ⟨(hlimit w.state).trans hw.unlimited, (hreached w.state).trans hw.unreached, hw.handed⟩

theorem complain_handed (message : String) :
    Keeps (Handed start ranges) E (complain message) :=
  update_handed (fun _ => rfl) fun _ => rfl

theorem record_handed (span : PoolSpan) : Keeps (Handed start ranges) E (record span) := by
  refine Keeps.modify fun w hw => ?_
  dsimp only
  rw [recordSpan_unlimited hw.unlimited]
  exact ⟨hw.unlimited, hw.unreached, hw.handed⟩

theorem handed_decoding : Decoding (fun _ => True) (Handed start ranges) E where
  say := complain_handed
  clear := update_handed (fun _ => rfl) fun _ => rfl
  record _ := record_handed _

theorem unreadable_handed (memory : PoolMemory) (region : PoolRegion) (address size : ℕ) :
    Triple (Handed start ranges) (unreadable memory region address size)
      (fun _ => Handed start (ranges ++ [(address, saturatingAdd address size)])) E :=
  unreadable_keeps (Triple.modify fun _ hw => hw.hand rfl) (fun _ _ hw => hw.note rfl)
    fun _ _ _ _ => gap_keeps handed_decoding trivial

end Handed

/-! ## The region -/

/-- The target answers what it likes, but it never ends the walk, and a read that succeeds is as
long as it was to be. -/
structure Unhalting (memory : PoolMemory) : Prop where
  poll : ∀ h, pollOutcome memory h = .ok ()
  failed : ∀ h address size error, memory.readExact h address size = .error error →
    error.haltsWalk = false
  exact : ∀ h address size bytes, memory.readExact h address size = .ok bytes →
    bytes.length = size

def Through (region : PoolRegion) (start : History) (stop : ℕ) (w : World PoolSnapshot) : Prop :=
  ∃ ranges, Handed start ranges w ∧ Tiles region.address ranges stop

section Region

variable {memory : PoolMemory} {limit : ℕ} {region : PoolRegion} {start : History} {α : Type}
  {E : SnapshotError → World PoolSnapshot → Prop} {stop : ℕ}

theorem Through.keeps {m : Walk PoolSnapshot α}
    (h : ∀ ranges, Keeps (Handed start ranges) E m) :
    Keeps (Through region start stop) E m := by
  rintro w ⟨ranges, hw, htiles⟩
  exact (h ranges w hw).imp (fun _ _ hv => ⟨ranges, hv, htiles⟩) fun _ _ he => he

theorem Through.note {w : World PoolSnapshot} (h : Through region start stop w) {event : Event}
    (hevent : event.handed = none) : Through region start stop (w.note event) := by
  obtain ⟨ranges, hw, htiles⟩ := h
  exact ⟨ranges, hw.note hevent, htiles⟩

theorem Through.unreached {w : World PoolSnapshot} (h : Through region start stop w) :
    w.state.matchLimitReached = false := by
  obtain ⟨ranges, hw, -⟩ := h
  exact hw.unreached

theorem unreadable_through {next : ℕ} (hle : stop ≤ next) (hword : next < 2 ^ 64) :
    Triple (Through region start stop) (unreadable memory region stop (next - stop))
      (fun _ => Through region start next) E := by
  rintro w ⟨ranges, hw, htiles⟩
  refine (unreadable_handed memory region stop (next - stop) w hw).imp (fun _ v hv => ?_)
    fun _ _ he => he
  rw [saturatingAdd_of_lt (by omega), Nat.add_sub_cancel' hle] at hv
  exact ⟨_, hv, htiles.snoc hle⟩

theorem checkBudget_through (hm : Unhalting memory) :
    Keeps (Through region start stop) E (checkBudget memory) := by
  intro w hw
  unfold checkBudget
  rw [hm.poll]
  exact hw.note rfl

def PoolRegion.ByExtent (region : PoolRegion) : Prop :=
  region.heap.special = true ∨ region.backend = .lfh ∨ region.backend = .segment

theorem decodeExtent_through (hr : region.ByExtent) (bytes : List UInt8) (s : RegionWalk) :
    Triple (Through region start stop) (decodeExtent memory limit region stop bytes s)
      (fun decoded w => decoded = some s ∧ Through region start (stop + bytes.length) w) E := by
  have hdecoder : ∀ {m : Walk PoolSnapshot Unit}, (∀ ranges, Keeps (Handed start ranges) E m) →
      Triple (Through region start stop)
        (do note (.decoded stop (stop + bytes.length)); m; pure (some s))
        (fun decoded w => decoded = some s ∧ Through region start (stop + bytes.length) w) E := by
    intro m hm
    refine Triple.bind (Q := fun _ => Through region start (stop + bytes.length))
      (Triple.modify ?_) fun _ => ?_
    · rintro w ⟨ranges, hw, htiles⟩
      exact ⟨_, hw.hand rfl, htiles.snoc (Nat.le_add_right _ _)⟩
    · exact Triple.bind (Through.keeps hm) fun _ => Triple.pure fun _ hw => ⟨rfl, hw⟩
  refine Triple.ite (fun _ => hdecoder fun _ => walkSpecialPool_keeps handed_decoding _ _
    fun _ _ _ _ => trivial)
    fun hordinary => ?_
  rcases hr with hspecial | hlfh | hsegment
  · exact absurd hspecial hordinary
  · rw [hlfh]
    exact hdecoder fun _ => walkLfh_keeps handed_decoding _ _ fun _ _ _ _ _ _ => trivial
  · rw [hsegment]
    exact hdecoder fun _ => walkPageRanges_keeps handed_decoding _ _ fun _ _ _ _ _ => trivial

/-- Where the extent loop goes on from: the region is accounted for up to the cursor. -/
def Resumes (region : PoolRegion) (start : History) (flow : Flow RegionWalk Unit)
    (w : World PoolSnapshot) : Prop :=
  match flow with
  | .again s => Through region start s.cursor w ∧ s.vsCovered = region.address
  | .stop _ => Through region start region.requestedEnd w

theorem requestedEnd_lt (region : PoolRegion) : region.requestedEnd < 2 ^ 64 :=
  saturatingAdd_lt _ _

theorem regionStep_through (limit : ℕ) (hm : Unhalting memory) (hr : region.ByExtent)
    {s : RegionWalk} (hcovered : s.vsCovered = region.address) (hstart : region.address ≤ s.cursor)
    (hcursor : s.cursor ≤ region.requestedEnd) :
    Triple (Through region start s.cursor) (regionStep memory limit region s)
      (Resumes region start) E := by
  have hword := requestedEnd_lt region
  refine RoundRule.regionStep (G := fun base stop bytes => bytes.length = stop - base)
    (P := Through region start) {
    poll := checkBudget_through hm
    query := fun hw => hw.note rfl
    say := fun _ _ => Through.keeps fun _ => complain_handed _
    stalls := fun _ _ => Through.keeps fun _ => update_handed (fun _ => rfl) fun _ => rfl
    gap := fun {pos address next} hpos hlow hhigh hle hend => ?_
    covered := fun {pos next w} hpos hlow hhigh hw => ?_
    read := fun _ _ hend => readExtent_noted joins_length (checkBudget_through hm) hm.exact
      (fun hw => hw.note rfl)
      (fun hr hw => ⟨fun hhalts => absurd hhalts (hm.failed _ _ _ _ hr ▸ nofun), hw⟩) (by omega)
    decode := fun {_ _ bytes} _ _ hlt _ hlength =>
      (decodeExtent_through hr bytes _).post fun decoded w hw => ?_
    again := fun _ _ _ hkept hw => ⟨hw, hkept.trans hcovered⟩
    stop := fun hw => hw
    past := fun {w} hdone hw => ?_ }
  · obtain rfl : address = pos := by omega
    exact unreadable_through hle (by omega)
  · rwa [show next = pos by omega]
  · obtain ⟨rfl, hw⟩ := hw
    rw [hlength, Nat.add_sub_cancel' hlt.le] at hw
    exact decoded_some (fun hreached => absurd hreached (hw.unreached ▸ nofun)) ⟨hw, hcovered⟩
  · show Through region start region.requestedEnd w
    rwa [Nat.le_antisymm hdone hcursor]

theorem walkExtents_through (start : History) (limit : ℕ) (hm : Unhalting memory)
    (hr : region.ByExtent) (hword : region.address < 2 ^ 64) :
    Triple (Through region start region.address) (walkExtents memory limit region)
      (fun _ => Through region start region.requestedEnd) E := by
  have hstart : region.address ≤ region.requestedEnd := le_saturatingAdd hword
  refine (Triple.countdown (I := fun rounds s w => Through region start s.cursor w ∧
      s.vsCovered = region.address ∧ s.cursor ≤ region.requestedEnd ∧
      region.requestedEnd < s.cursor + rounds) (fun rounds s => ?_) ?_ _ _).pre fun w hw => ?_
  · rintro w ⟨hw, hcovered, hcursor, hrounds⟩
    have hle : region.address ≤ s.cursor := by
      obtain ⟨ranges, -, htiles⟩ := hw
      exact htiles.le
    have hadvances := regionStep_advances memory limit region s w trivial
    have hends := regionStep_through (E := E) limit hm hr hcovered hle hcursor w hw
    rcases hstep : regionStep memory limit region s w with ⟨r, v⟩
    rw [hstep] at hadvances hends
    cases r with
    | error error => exact hends
    | ok flow =>
      cases flow with
      | again s' =>
        obtain ⟨hlt, hle'⟩ : s.cursor < s'.cursor ∧ s'.cursor ≤ region.requestedEnd := hadvances
        exact ⟨hends.1, hends.2, hle', by omega⟩
      | stop _ => exact hends
  · rintro s w ⟨-, -, hcursor, hrounds⟩
    omega
  · refine ⟨hw, rfl, hstart, ?_⟩
    have := saturatingAdd_le region.address region.size
    show region.requestedEnd < region.address + (region.size + 1)
    unfold PoolRegion.requestedEnd
    omega

/-- **A region is accounted for exactly once, and its walk ends**, whatever the target answers. -/
theorem region_accounted_once (limit : ℕ) (region : PoolRegion) (hm : Unhalting memory)
    (hr : region.ByExtent) (hread : region.backend = .segment → region.knownTag = none)
    (hword : region.address < 2 ^ 64) {w : World PoolSnapshot}
    (hlimit : w.state.matchLimit = none) (hunreached : w.state.matchLimitReached = false) :
    ∃ after events, walkRegion memory limit region w = (.ok (), after) ∧
      after.history = w.history ++ events ∧
      Tiles region.address (events.filterMap Event.handed) region.requestedEnd ∧
      (events.filterMap Event.handed).Pairwise (fun r s => r.2 ≤ s.1) ∧
      (∀ x, (∃ r ∈ events.filterMap Event.handed, r.1 ≤ x ∧ x < r.2) ↔
        region.address ≤ x ∧ x < saturatingAdd region.address region.size) ∧
      ∀ rounds, region.size < rounds →
        Run.loop (regionStep memory limit region) (fun _ => ()) rounds (RegionWalk.start region) w =
          (.ok (), after) := by
  have hwalk : walkRegion memory limit region = walkExtents memory limit region := by
    unfold walkRegion
    split
    · next hbackend htag =>
      rw [hread hbackend] at htag
      cases htag
    · rfl
  have hends := walkExtents_through (E := fun _ _ => False) w.history limit hm hr hword w
    ⟨[], ⟨hlimit, hunreached, [], (List.append_nil _).symm, rfl⟩, Tiles.nil _⟩
  rcases hrun : walkExtents memory limit region w with ⟨r, after⟩
  rw [hrun] at hends
  cases r with
  | error error => exact hends.elim
  | ok _ =>
    obtain ⟨ranges, hhanded, htiles⟩ := hends
    obtain ⟨events, hhistory, rfl⟩ := hhanded.handed
    refine ⟨after, events, ?_, hhistory, htiles, htiles.pairwise, fun x => htiles.mem_iff,
      fun rounds hrounds => ?_⟩
    · rw [hwalk, hrun]
    · rw [walkExtents_ends memory limit region hrounds, hrun]

end Region

/-! ## Regions that are not read -/

def stallingTarget : PoolMemory where
  readExact _ address size := .error (.read address size "not present")
  validRegion _ _ _ := .ok (0, 1)
  interrupted _ := .ok false
  outOfBudget _ := false
  committedRun _ _ := none

theorem stallingTarget_unhalting : Unhalting stallingTarget where
  poll _ := rfl
  failed _ _ _ _ h := by cases h; rfl
  exact _ _ _ _ h := by cases h

theorem region_accounted_once_stalling :
    ∃ after events, walkRegion stallingTarget 8 (onePage .segment none) emptySnapshot =
        (.ok (), after) ∧
      after.history = events ∧ Tiles 0x1000 (events.filterMap Event.handed) 0x2000 := by
  obtain ⟨after, events, hwalk, hhistory, htiles, -⟩ :=
    region_accounted_once 8 (onePage .segment none) stallingTarget_unhalting (Or.inr (Or.inr rfl))
      (fun _ => rfl) (by decide) (w := emptySnapshot) rfl rfl
  exact ⟨after, events, hwalk, hhistory, htiles⟩

/-- A page range the big-page table names is filed without being handed to anything, and the page
of a large allocation is read but not decoded. -/
theorem named_region_is_not_read :
    (walkRegion stallingTarget 8 (onePage .segment (some 0)) emptySnapshot).2.history.filterMap
      Event.handed = [] ∧
    (walkRegion (frozenTarget fun _ => 0) 8 (onePage .large none)
      emptySnapshot).2.history.filterMap Event.handed = [] ∧
    ¬ Tiles 0x1000 [] 0x2000 := by
  refine ⟨by decide +kernel, by decide +kernel, ?_⟩
  show ¬ 0x1000 = 0x2000
  decide

end DbgScope.Pool
