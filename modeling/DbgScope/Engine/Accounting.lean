import DbgScope.Engine.Deliveries

/-!
# Arrivals in the order of their opens

A stop goes to the open registered first of those that are waiting and want it, an abandoned launch
among them. Where the opens that wait are launches that could read the session, each of as many new
processes therefore ends one of the waits, in the order of the opens.
-/

namespace DbgScope.Engine

/-! ## The register lists the opens as they were made -/

/-- Ids ascend along the register, up to the last one handed out. -/
structure Arrivals.InOrder (register : Arrivals) : Prop where
  ids : (register.pending.map (·.id)).Pairwise (· < ·)
  minted : ∀ id ∈ register.pending.map (·.id), id ≤ register.minted

theorem Arrivals.InOrder.sublist {register after : Arrivals} (h : register.InOrder)
    (hminted : after.minted = register.minted)
    (hids : (after.pending.map (·.id)).Sublist (register.pending.map (·.id))) :
    after.InOrder where
  ids := h.ids.sublist hids
  minted id hid := hminted ▸ h.minted id (hids.subset hid)

theorem Arrivals.InOrder.register {register : Arrivals} (h : register.InOrder) (what : Arrival) :
    Arrivals.InOrder ⟨register.minted + 1,
      register.pending ++ [⟨register.minted + 1, what, .waiting, [], false⟩]⟩ where
  ids := by
    rw [List.map_append, List.pairwise_append]
    refine ⟨h.ids, List.pairwise_singleton _ _, fun id hid next hnext => ?_⟩
    rw [List.mem_singleton.mp hnext]
    exact Nat.lt_succ_of_le (h.minted id hid)
  minted id hid := by
    rw [List.map_append, List.mem_append] at hid
    rcases hid with hid | hid
    · exact Nat.le_succ_of_le (h.minted id hid)
    · exact (List.mem_singleton.mp hid).le

theorem serve_inOrder {checks : Bool} {w : ArrivalSession} {c : ArrivalCall}
    (h : w.arrivals.InOrder)
    (hnext : ∀ next, ((arrivals checks).serve c w).1.registeredId = some next →
      next = w.arrivals.minted + 1) :
    ((arrivals checks).serve c w).2.arrivals.InOrder := by
  cases c with
  | register what =>
    cases hr : w.arrivals.register checks what with
    | none => simpa only [arrivals, hr] using h
    | some registered =>
      obtain ⟨id, hmint, rfl⟩ := Option.map_eq_some_iff.mp hr
      simp only [arrivals, hr, ArrivalAnswer.registeredId, Option.some.injEq, forall_eq'] at hnext
      simp only [arrivals, hr, hnext]
      exact h.register what
  | deliver entry attached =>
    rcases w.arrivals.deliver_cases entry attached with
      ⟨-, hsame, -⟩ | ⟨pre, p, post, hsplit, -, -, -, hafter⟩
    · simpa only [arrivals, hsame] using h
    · refine h.sublist (by simp [arrivals, hafter]) ?_
      simp [arrivals, hafter, hsplit]
  | forget id => exact h.sublist (forget_quiet _ id).minted (forget_quiet _ id).ids
  | discard id => exact h.sublist (discard_quiet _ id).minted (discard_quiet _ id).ids
  | forgetDeparted =>
    refine h.sublist rfl ?_
    simp [arrivals, Arrivals.forgetDeparted, Function.comp_def]
  | forgetAll => exact h.sublist rfl (List.nil_sublist _)
  | joins entry => exact h
  | leaves entry => exact h

theorem arrivals_inOrder {checks : Bool} {calls : List ArrivalCall}
    (hfresh : checks = true ∨ (((arrivals checks).answers calls).filterMap
      ArrivalAnswer.registeredId).length < 2 ^ 64) :
    ((arrivals checks).after calls).arrivals.InOrder := by
  have hnext := handed_next rfl (arrivals_mints checks) hfresh
  clear hfresh
  induction calls with
  | nil => exact ⟨List.Pairwise.nil, by simp [arrivals]⟩
  | cons c past ih => exact serve_inOrder (ih hnext.1) hnext.2

/-! ## Launches served one by one -/

/-- A launch that could read the session and was delivered nothing yet. -/
def Pending.awaitsLaunch (p : Pending) : Bool :=
  match p.claim, p.what with
  | .waiting, .launched (some _) => true
  | _, _ => false

theorem Pending.awaitsLaunch_iff {p : Pending} :
    p.awaitsLaunch = true ↔ p.claim = .waiting ∧ ∃ before, p.what = .launched (some before) := by
  rcases p with ⟨id, (_ | before) | pid, _ | _ | _, inherited, abandoned⟩ <;>
    simp [Pending.awaitsLaunch]

namespace Arrivals

def NoAttach (register : Arrivals) : Prop :=
  ∀ p ∈ register.pending, p.claim = .waiting → ∀ pid, p.what ≠ .attached pid

/-- The process is nobody's, new to every launch that waits and excluded by none of them. -/
structure Unclaimed (register : Arrivals) (entry : Process) (attached : Finset ℕ) : Prop where
  claim : ∀ p ∈ register.pending, p.claim ≠ .arrived entry
  snapshot : ∀ p ∈ register.pending, p.claim = .waiting → ∀ before,
    p.what = .launched (some before) → entry ∉ before
  inherited : ∀ p ∈ register.pending, p.awaitsLaunch = true → entry ∉ p.inherited
  attached : entry.2 ∉ attached

def deliverAll (register : Arrivals) (stops : List (Process × Finset ℕ)) : Arrivals :=
  stops.foldl (fun register stop => register.deliver stop.1 stop.2) register

variable {register : Arrivals} {entry other : Process} {attached seen : Finset ℕ} {p : Pending}
  {stops : List (Process × Finset ℕ)}

theorem Unclaimed.takes_iff (h : register.Unclaimed entry attached) (hattach : register.NoAttach)
    (hp : p ∈ register.pending) : register.Takes entry attached p ↔ p.awaitsLaunch = true := by
  rw [Takes, Pending.wants_iff, Pending.awaitsLaunch_iff]
  constructor
  · rintro ⟨hwaiting, -, -, hwhat⟩
    refine ⟨hwaiting, ?_⟩
    rcases hkind : p.what with (_ | before) | pid
    · rw [hkind] at hwhat
      exact hwhat.elim
    · exact ⟨before, rfl⟩
    · exact absurd hkind (hattach p hp hwaiting pid)
  · rintro ⟨hwaiting, before, hwhat⟩
    refine ⟨hwaiting, h.inherited p hp (Pending.awaitsLaunch_iff.mpr ⟨hwaiting, before, hwhat⟩),
      fun q hq => h.claim q (List.mem_of_mem_filter hq), ?_⟩
    rw [hwhat]
    exact ⟨h.snapshot p hp hwaiting before hwhat, h.attached,
      fun q hq hwaits => hattach q (List.mem_of_mem_filter hq) hwaits _⟩

/-- The launches that wait are given the processes in turn. -/
def handOut : List Process → List Pending → List Pending
  | [], opens => opens
  | _, [] => []
  | entry :: entries, p :: opens =>
    if p.awaitsLaunch then { p with claim := .arrived entry } :: handOut entries opens
    else p :: handOut (entry :: entries) opens

@[simp] theorem handOut_none (opens : List Pending) : handOut [] opens = opens := by
  cases opens <;> simp [handOut]

@[simp] theorem handOut_nil (entries : List Process) : handOut entries [] = [] := by
  cases entries <;> simp [handOut]

theorem handOut_cons_of_not {entries : List Process} {opens : List Pending}
    (h : p.awaitsLaunch = false) : handOut entries (p :: opens) = p :: handOut entries opens := by
  cases entries with
  | nil => simp
  | cons entry entries => simp [handOut, h]

theorem handOut_append {entries : List Process} {passed opens : List Pending}
    (h : ∀ p ∈ passed, p.awaitsLaunch = false) :
    handOut entries (passed ++ opens) = passed ++ handOut entries opens := by
  induction passed with
  | nil => rfl
  | cons p passed ih =>
    rw [List.cons_append, handOut_cons_of_not (h p List.mem_cons_self),
      ih fun q hq => h q (List.mem_cons_of_mem p hq), List.cons_append]

theorem Unclaimed.handOut_deliver (h : register.Unclaimed entry attached)
    (hattach : register.NoAttach) (entries : List Process) :
    handOut entries (register.deliver entry attached).pending =
      handOut (entry :: entries) register.pending := by
  rcases register.deliver_cases entry attached with
    ⟨-, hsame, hnone⟩ | ⟨pre, p, post, hsplit, -, htakes, hpre, hafter⟩
  · have hpassed : ∀ p ∈ register.pending, p.awaitsLaunch = false := fun p hp =>
      Bool.eq_false_iff.mpr fun hawaits => hnone p hp ((h.takes_iff hattach hp).mpr hawaits)
    have hnobody : ∀ entries, handOut entries register.pending = register.pending := by
      intro entries
      simpa using (handOut_append hpassed : handOut entries (register.pending ++ []) = _)
    rw [hsame, hnobody, hnobody]
  · have hp : p ∈ register.pending := by simp [hsplit]
    have hawaits := (h.takes_iff hattach hp).mp htakes
    have hpassed : ∀ q ∈ pre, q.awaitsLaunch = false := fun q hq =>
      Bool.eq_false_iff.mpr fun hq' =>
        hpre q hq ((h.takes_iff hattach (by simp [hsplit, hq])).mpr hq')
    rw [hafter, hsplit, handOut_append hpassed, handOut_append hpassed,
      handOut_cons_of_not (by simp [Pending.awaitsLaunch])]
    simp [handOut, hawaits]

theorem deliver_pending (hp : p ∈ (register.deliver entry attached).pending) :
    p ∈ register.pending ∨ p.claim = .arrived entry := by
  rcases register.deliver_cases entry attached with
    ⟨-, hsame, -⟩ | ⟨pre, q, post, hsplit, -, -, -, hafter⟩
  · exact .inl (hsame ▸ hp)
  · rw [hafter] at hp
    rcases List.mem_append.mp hp with hp | hp
    · exact .inl (by simp [hsplit, hp])
    · rcases List.mem_cons.mp hp with rfl | hp
      · exact .inr rfl
      · exact .inl (by simp [hsplit, hp])

theorem NoAttach.deliver (h : register.NoAttach) :
    (register.deliver entry attached).NoAttach := by
  intro p hp hwaiting
  rcases deliver_pending hp with hp | harrived
  · exact h p hp hwaiting
  · simp [harrived] at hwaiting

theorem Unclaimed.deliver (h : register.Unclaimed other seen) (hne : other ≠ entry) :
    (register.deliver entry attached).Unclaimed other seen where
  claim p hp := by
    rcases deliver_pending hp with hp | harrived
    · exact h.claim p hp
    · rw [harrived]
      exact fun heq => hne (Claim.arrived.inj heq).symm
  snapshot p hp hwaiting := by
    rcases deliver_pending hp with hp | harrived
    · exact h.snapshot p hp hwaiting
    · simp [harrived] at hwaiting
  inherited p hp hawaits := by
    rcases deliver_pending hp with hp | harrived
    · exact h.inherited p hp hawaits
    · simp [(Pending.awaitsLaunch_iff.mp hawaits).1] at harrived
  attached := h.attached

/-- **Stops of processes that are nobody's are handed out in the order of the opens.** -/
theorem deliverAll_pending (hattach : register.NoAttach)
    (hdistinct : (stops.map Prod.fst).Nodup)
    (hstops : ∀ stop ∈ stops, register.Unclaimed stop.1 stop.2) :
    (register.deliverAll stops).pending = handOut (stops.map Prod.fst) register.pending := by
  induction stops generalizing register with
  | nil => simp [deliverAll]
  | cons stop stops ih =>
    rw [List.map_cons, List.nodup_cons] at hdistinct
    have hfirst := hstops stop List.mem_cons_self
    have hrest : ∀ later ∈ stops,
        (register.deliver stop.1 stop.2).Unclaimed later.1 later.2 := fun later hlater =>
      (hstops later (List.mem_cons_of_mem stop hlater)).deliver fun heq =>
        hdistinct.1 (heq ▸ List.mem_map_of_mem hlater)
    calc (register.deliverAll (stop :: stops)).pending
        = ((register.deliver stop.1 stop.2).deliverAll stops).pending := rfl
      _ = handOut (stops.map Prod.fst) (register.deliver stop.1 stop.2).pending :=
          ih hattach.deliver hdistinct.2 hrest
      _ = handOut ((stop :: stops).map Prod.fst) register.pending :=
          hfirst.handOut_deliver hattach _

theorem handOut_getElem? {entries : List Process} {opens : List Pending} {i : ℕ}
    (hp : opens[i]? = some p) :
    (p.awaitsLaunch = false → (handOut entries opens)[i]? = some p) ∧
    (p.awaitsLaunch = true → ∀ entry,
      entries[(opens.take i).countP Pending.awaitsLaunch]? = some entry →
        (handOut entries opens)[i]? = some { p with claim := .arrived entry }) := by
  induction opens generalizing entries i with
  | nil => simp at hp
  | cons q opens ih =>
    cases entries with
    | nil => exact ⟨fun _ => by simpa using hp, fun _ entry hentry => by simp at hentry⟩
    | cons entry entries =>
      cases i with
      | zero =>
        obtain rfl : q = p := by simpa using hp
        exact ⟨fun h => by simp [handOut, h], fun h other hother => by
          simpa [handOut, h] using hother⟩
      | succ i =>
        have hp : opens[i]? = some p := by simpa using hp
        by_cases hq : q.awaitsLaunch = true
        · simpa [handOut, hq] using ih hp
        · simpa [handOut, hq] using ih hp

theorem handOut_length (entries : List Process) (opens : List Pending) :
    (handOut entries opens).length = opens.length := by
  induction opens generalizing entries with
  | nil => simp
  | cons p opens ih =>
    cases entries with
    | nil => simp
    | cons entry entries =>
      by_cases hp : p.awaitsLaunch = true <;> simp [handOut, hp, ih]

theorem countP_take_lt {opens : List Pending} {i : ℕ} (hp : opens[i]? = some p)
    (hawaits : p.awaitsLaunch = true) :
    (opens.take i).countP Pending.awaitsLaunch < opens.countP Pending.awaitsLaunch := by
  obtain ⟨hi, rfl⟩ := List.getElem?_eq_some_iff.mp hp
  conv_rhs => rw [← List.take_append_drop i opens, List.countP_append]
  refine Nat.lt_add_of_pos_right (List.countP_pos_iff.mpr ⟨opens[i], ?_, hawaits⟩)
  rw [List.drop_eq_getElem_cons hi]
  exact List.mem_cons_self

/-! ## Presence -/

theorem InOrder.presence_iff (h : register.InOrder) (hp : p ∈ register.pending)
    (hwaiting : p.claim = .waiting) (held : List Process) :
    register.presence p.id held attached = .listed ↔
      ∃ entry ∈ held, register.Takes entry attached p := by
  have hfind : register.pending.find? (·.id = p.id) = some p := by
    obtain ⟨q, hq⟩ : ∃ q, register.pending.find? (·.id = p.id) = some q :=
      Option.isSome_iff_exists.mp (List.find?_isSome.mpr ⟨p, hp, by simp⟩)
    have hid : q.id = p.id := by simpa using List.find?_some hq
    rw [hq, List.inj_on_of_nodup_map (h.ids.imp Nat.ne_of_lt) (List.mem_of_find?_eq_some hq) hp hid]
  simp only [presence, hfind, hwaiting]
  split_ifs with hunread hwants
  · -- a launch that could not read the session wants nothing
    simp only [false_iff, not_exists, not_and]
    intro entry _ htakes
    have hwhat := (Pending.wants_iff.mp htakes.2).2.2
    rw [hunread] at hwhat
    exact hwhat
  · obtain ⟨entry, hentry, hwants⟩ := List.any_eq_true.mp hwants
    exact iff_of_true rfl ⟨entry, hentry, hwaiting, hwants⟩
  · refine iff_of_false (by simp) ?_
    rintro ⟨entry, hentry, htakes⟩
    exact hwants (List.any_eq_true.mpr ⟨entry, hentry, htakes.2⟩)

end Arrivals

/-! ## The register's account -/

/-- **Arrivals are accounted for in registration order.** In every state the register can reach, a
stop goes to the first open that is waiting and wants it; as many new processes as there are
launches waiting end the waits one each, in order; and an open that waits is listed when the session
holds a process it would take. -/
theorem arrivals_accounted (checks : Bool) (calls : List ArrivalCall)
    (hfresh : checks = true ∨ (((arrivals checks).answers calls).filterMap
      ArrivalAnswer.registeredId).length < 2 ^ 64)
    (register : Arrivals) (hregister : register = ((arrivals checks).after calls).arrivals) :
    -- the register lists the opens in the order they were made
    (register.pending.map (·.id)).Pairwise (· < ·) ∧
    -- one stop
    (∀ entry attached,
      (register.deliver entry attached = register ∧
        ∀ p ∈ register.pending, ¬ register.Takes entry attached p) ∨
      ∃ pre p post, register.pending = pre ++ p :: post ∧ register.Takes entry attached p ∧
        (∀ q ∈ pre, ¬ register.Takes entry attached q) ∧
        register.deliver entry attached =
          { register with pending := pre ++ { p with claim := .arrived entry } :: post }) ∧
    -- as many stops as launches waiting
    (∀ stops : List (Process × Finset ℕ), register.NoAttach →
      stops.length = register.pending.countP Pending.awaitsLaunch →
      (stops.map Prod.fst).Nodup →
      (∀ stop ∈ stops, register.Unclaimed stop.1 stop.2) →
      (register.deliverAll stops).pending.length = register.pending.length ∧
      ∀ i p, register.pending[i]? = some p →
        (p.awaitsLaunch = true → ∃ stop,
          stops[(register.pending.take i).countP Pending.awaitsLaunch]? = some stop ∧
          (register.deliverAll stops).pending[i]? = some { p with claim := .arrived stop.1 }) ∧
        (p.awaitsLaunch = false → (register.deliverAll stops).pending[i]? = some p)) ∧
    -- presence
    (∀ held attached, ∀ p ∈ register.pending, p.claim = .waiting →
      (register.presence p.id held attached = .listed ↔
        ∃ entry ∈ held, register.Takes entry attached p)) := by
  subst hregister
  have horder := arrivals_inOrder hfresh
  refine ⟨horder.ids, fun entry attached => ?_, fun stops hattach hlength hdistinct hstops => ?_,
    fun held attached p hp hwaiting => horder.presence_iff hp hwaiting held⟩
  · rcases Arrivals.deliver_cases _ entry attached with
      ⟨-, hsame, hnone⟩ | ⟨pre, p, post, hsplit, -, htakes, hpre, hafter⟩
    · exact .inl ⟨hsame, hnone⟩
    · exact .inr ⟨pre, p, post, hsplit, htakes, hpre, hafter⟩
  · rw [Arrivals.deliverAll_pending hattach hdistinct hstops]
    refine ⟨Arrivals.handOut_length _ _, fun i p hp => ⟨fun hawaits => ?_, ?_⟩⟩
    · have hlt := Arrivals.countP_take_lt hp hawaits
      rw [← hlength] at hlt
      refine ⟨_, List.getElem?_eq_getElem hlt, ?_⟩
      refine (Arrivals.handOut_getElem? hp).2 hawaits _ ?_
      rw [List.getElem?_map, List.getElem?_eq_getElem hlt, Option.map_some]
    · exact (Arrivals.handOut_getElem? hp).1

/-- Two launches wait and the first one's guard is dropped: its entry stays. Newest call first. -/
def abandonedLaunch : List ArrivalCall :=
  [.forget 1, .register (.launched (some [(0, 100)])), .register (.launched (some []))]

theorem abandonedLaunch_pending : ((arrivals true).after abandonedLaunch).arrivals.pending =
    [⟨1, .launched (some []), .waiting, [], true⟩,
      ⟨2, .launched (some [(0, 100)]), .waiting, [], false⟩] := by
  decide

theorem arrivals_accounted_abandoned :
    (((arrivals true).after abandonedLaunch).arrivals.pending.map (·.abandoned) = [true, false]) ∧
    ∃ stop : Process × Finset ℕ, [((1, 200), ∅), ((2, 300), ∅)][1]? = some stop ∧
      (((arrivals true).after abandonedLaunch).arrivals.deliverAll
        [((1, 200), ∅), ((2, 300), ∅)]).pending[1]? =
          some ⟨2, .launched (some [(0, 100)]), .arrived stop.1, [], false⟩ := by
  have hattach : ((arrivals true).after abandonedLaunch).arrivals.NoAttach := by
    unfold Arrivals.NoAttach
    simp [abandonedLaunch_pending]
  have hfree : ∀ stop ∈ ([((1, 200), ∅), ((2, 300), ∅)] : List (Process × Finset ℕ)),
      ((arrivals true).after abandonedLaunch).arrivals.Unclaimed stop.1 stop.2 := by
    intro stop hstop
    rcases List.mem_pair.mp hstop with rfl | rfl <;>
      constructor <;> simp [abandonedLaunch_pending]
  have haccount := ((arrivals_accounted true abandonedLaunch (.inl rfl) _ rfl).2.2.1 _ hattach
    (by decide) (by decide) hfree).2 1 _ (by rw [abandonedLaunch_pending]; rfl)
  exact ⟨by decide, haccount.1 rfl⟩

end DbgScope.Engine
