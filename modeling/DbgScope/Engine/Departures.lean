import DbgScope.Engine.Deliveries

/-!
# Processes that have left

Engine ids are handed back at once and pids are reused, so a new process may come with both numbers
of one that left. `forgetDeparted` is what keeps the one that left from excluding the new one.
`unmentioned` is the register as if nothing had ever mentioned a process; `forgetDeparted` drops
claims and inheritances and keeps snapshots (`answer_eq_unmentioned_iff`).
-/

namespace DbgScope.Engine

/-! ## The register without a process -/

/-- A snapshot that never listed the process. -/
def Arrival.unmentioned (entry : Process) : Arrival → Arrival
  | .launched (some before) => .launched (some (before.filter (· ≠ entry)))
  | .launched none => .launched none
  | .attached pid => .attached pid

/-- An open whose claim, inheritance and snapshot never mentioned the process. An open that was
given it is finished all the same. -/
def Pending.unmentioned (entry : Process) (pending : Pending) : Pending :=
  { pending with
    what := pending.what.unmentioned entry
    claim := if pending.claim = .arrived entry then .departed else pending.claim
    inherited := pending.inherited.filter (· ≠ entry) }

def Arrivals.unmentioned (arrivals : Arrivals) (entry : Process) : Arrivals :=
  { arrivals with pending := arrivals.pending.map (Pending.unmentioned entry) }

def Arrivals.answer (arrivals : Arrivals) (pending : Pending) (entry : Process)
    (attached : Finset ℕ) : Bool :=
  pending.wants entry (arrivals.pending.filter (·.id ≠ pending.id)) attached

/-- Every waiting open answers for a process the session does not hold as if nothing had ever
mentioned it. -/
def Arrivals.Unprejudiced (arrivals : Arrivals) (held : List Process) : Prop :=
  ∀ p ∈ arrivals.pending, p.claim = .waiting → ∀ entry ∉ held, ∀ attached,
    arrivals.answer p entry attached =
      (arrivals.unmentioned entry).answer (p.unmentioned entry) entry attached

def Arrival.snapshot : Arrival → List Process
  | .launched (some before) => before
  | .launched none | .attached _ => []

/-- No waiting launch's snapshot lists a process that has left, unless a waiting attach names its
pid. -/
def Arrivals.Fresh (arrivals : Arrivals) (held : List Process) : Prop :=
  ∀ p ∈ arrivals.pending, p.claim = .waiting → ∀ entry ∈ p.what.snapshot, entry ∉ held →
    ∃ q ∈ arrivals.pending, q.id ≠ p.id ∧ q.claim = .waiting ∧ q.what = .attached entry.2

instance (arrivals : Arrivals) (held : List Process) : Decidable (arrivals.Fresh held) :=
  inferInstanceAs (Decidable (∀ p ∈ arrivals.pending, _ → ∀ entry ∈ p.what.snapshot, _))

@[simp] theorem unmentioned_id (entry : Process) (p : Pending) :
    (p.unmentioned entry).id = p.id := rfl

theorem unmentioned_claim_waiting {entry : Process} {p : Pending} :
    (p.unmentioned entry).claim = .waiting ↔ p.claim = .waiting := by
  unfold Pending.unmentioned
  dsimp only
  split <;> simp_all

theorem unmentioned_claim_ne (entry : Process) (p : Pending) :
    (p.unmentioned entry).claim ≠ .arrived entry := by
  unfold Pending.unmentioned
  dsimp only
  split <;> simp_all

theorem unmentioned_what_attached {entry : Process} {what : Arrival} {pid : ℕ} :
    what.unmentioned entry = .attached pid ↔ what = .attached pid := by
  rcases what with (_ | before) | _ <;> simp [Arrival.unmentioned]

/-! ## What is left after the prune -/

section Pruned

variable {register : Arrivals} {held : List Process} {entry : Process}

/-- What the prune leaves of an open: its claim and its inheritances are of processes held. -/
theorem forgetDeparted_mentions {p : Pending} (hp : p ∈ (register.forgetDeparted held).pending)
    (hentry : entry ∉ held) : p.claim ≠ .arrived entry ∧ entry ∉ p.inherited := by
  obtain ⟨q, -, rfl⟩ := List.mem_map.mp hp
  constructor
  · dsimp only
    split
    · simp
    · next hheld =>
      intro hclaim
      simp [hclaim, Claim.held, hentry] at hheld
  · simp [hentry]

theorem forgetDeparted_waiting {id : ArrivalId} {what : Arrival} :
    (∃ p ∈ (register.forgetDeparted held).pending, p.id = id ∧ p.claim = .waiting ∧ p.what = what) ↔
      ∃ p ∈ register.pending, p.id = id ∧ p.claim = .waiting ∧ p.what = what := by
  have hclaim : ∀ p : Pending, (if p.claim.held.any (!held.contains ·) then Claim.departed
      else p.claim) = .waiting ↔ p.claim = .waiting := by
    intro p
    cases hclaim : p.claim with
    | waiting => simp [Claim.held]
    | departed => simp [Claim.held]
    | arrived other =>
      simp only [reduceCtorEq, iff_false]
      split <;> simp
  simp only [Arrivals.forgetDeparted, List.mem_map, exists_exists_and_eq_and, hclaim]

/-- What an open answers after the prune turns on what it waits for alone. -/
theorem answer_pruned {p : Pending} (hp : p ∈ (register.forgetDeparted held).pending)
    (hentry : entry ∉ held) (attached : Finset ℕ) :
    (register.forgetDeparted held).answer p entry attached = true ↔
      match p.what with
      | .attached pid => entry.2 = pid
      | .launched none => False
      | .launched (some before) => entry ∉ before ∧ entry.2 ∉ attached ∧
          ∀ q ∈ (register.forgetDeparted held).pending, q.id ≠ p.id → q.claim = .waiting →
            q.what ≠ .attached entry.2 := by
  have hothers : ∀ q ∈ (register.forgetDeparted held).pending.filter (·.id ≠ p.id),
      q.claim ≠ .arrived entry := fun q hq =>
    (forgetDeparted_mentions (List.mem_of_mem_filter hq) hentry).1
  rw [Arrivals.answer, Pending.wants_iff, and_iff_right (forgetDeparted_mentions hp hentry).2,
    and_iff_right hothers]
  rcases p.what with (_ | before) | pid
  · rfl
  · simp only [List.mem_filter, decide_eq_true_eq, ne_eq, and_imp]
  · rfl

theorem answer_unmentioned (register : Arrivals) (p : Pending) (entry : Process)
    (attached : Finset ℕ) :
    (register.unmentioned entry).answer (p.unmentioned entry) entry attached = true ↔
      match p.what with
      | .attached pid => entry.2 = pid
      | .launched none => False
      | .launched (some _) => entry.2 ∉ attached ∧
          ∀ q ∈ register.pending, q.id ≠ p.id → q.claim = .waiting →
            q.what ≠ .attached entry.2 := by
  have hothers : ∀ q ∈ (register.unmentioned entry).pending.filter
      (·.id ≠ (p.unmentioned entry).id), q.claim ≠ .arrived entry := by
    intro q hq
    obtain ⟨other, -, rfl⟩ := List.mem_map.mp (List.mem_of_mem_filter hq)
    exact unmentioned_claim_ne entry other
  have hinherited : entry ∉ (p.unmentioned entry).inherited := by simp [Pending.unmentioned]
  rw [Arrivals.answer, Pending.wants_iff, and_iff_right hinherited, and_iff_right hothers]
  have hwhat : (p.unmentioned entry).what = p.what.unmentioned entry := rfl
  rw [hwhat]
  rcases p.what with (_ | before) | pid
  · rfl
  · have hsnapshot : entry ∉ before.filter (· ≠ entry) := by simp
    simp only [Arrival.unmentioned, hsnapshot, not_false_eq_true, true_and, List.mem_filter,
      decide_eq_true_eq, and_imp]
    simp only [Arrivals.unmentioned, List.mem_map, forall_exists_index, and_imp,
      forall_apply_eq_imp_iff₂, unmentioned_id, unmentioned_claim_waiting]
    simp only [Pending.unmentioned, ne_eq, unmentioned_what_attached]
  · rfl

/-- **A process that has left excludes an open exactly by the open's own snapshot.** -/
theorem answer_eq_unmentioned_iff {p : Pending}
    (hp : p ∈ (register.forgetDeparted held).pending) (hentry : entry ∉ held)
    (attached : Finset ℕ) :
    (register.forgetDeparted held).answer p entry attached =
      ((register.forgetDeparted held).unmentioned entry).answer (p.unmentioned entry) entry
        attached ↔
    (entry ∈ p.what.snapshot → entry.2 ∉ attached →
      ∃ q ∈ (register.forgetDeparted held).pending, q.id ≠ p.id ∧ q.claim = .waiting ∧
        q.what = .attached entry.2) := by
  rw [Bool.eq_iff_iff, answer_pruned hp hentry, answer_unmentioned]
  rcases hwhat : p.what with (_ | before) | pid
  · simp [Arrival.snapshot]
  · by_cases hbefore : entry ∈ before
    · simp only [Arrival.snapshot, hbefore, not_true_eq_false, false_and, false_iff, not_and,
        forall_const]
      push Not
      rfl
    · simp [Arrival.snapshot, hbefore]
  · simp [Arrival.snapshot]

end Pruned

/-! ## What a departed process excludes -/

theorem fresh_forgetDeparted_iff {register : Arrivals} {held : List Process} :
    (register.forgetDeparted held).Fresh held ↔ register.Fresh held := by
  have hwaiting := @forgetDeparted_waiting register held
  constructor
  · intro h p hp hclaim entry hmem hentry
    obtain ⟨p', hp', hid, hclaim', hwhat'⟩ :=
      hwaiting.mpr ⟨p, hp, rfl, hclaim, rfl⟩
    obtain ⟨q', hq', hne, hqclaim, hqwhat⟩ :=
      h p' hp' hclaim' entry (hwhat' ▸ hmem) hentry
    obtain ⟨q, hq, hqid, hqclaim, hqwhat⟩ := hwaiting.mp ⟨q', hq', rfl, hqclaim, hqwhat⟩
    exact ⟨q, hq, by rwa [hqid, ← hid], hqclaim, hqwhat⟩
  · intro h p' hp' hclaim' entry hmem hentry
    obtain ⟨p, hp, hid, hclaim, hwhat⟩ := hwaiting.mp ⟨p', hp', rfl, hclaim', rfl⟩
    obtain ⟨q, hq, hne, hqclaim, hqwhat⟩ := h p hp hclaim entry (hwhat ▸ hmem) hentry
    obtain ⟨q', hq', hqid, hqclaim', hqwhat'⟩ := hwaiting.mpr ⟨q, hq, rfl, hqclaim, hqwhat⟩
    exact ⟨q', hq', by rwa [hqid, ← hid], hqclaim', hqwhat'⟩

theorem findIdx?_eq_of_forall {α : Type} {p q : α → Bool} {l : List α}
    (h : ∀ x ∈ l, p x = q x) : l.findIdx? p = l.findIdx? q := by
  induction l with
  | nil => rfl
  | cons x l ih =>
    obtain ⟨hx, hl⟩ := List.forall_mem_cons.mp h
    rw [List.findIdx?_cons, List.findIdx?_cons, hx, ih hl]

/-- Where the waiting opens answer as if nothing had mentioned a process, it goes to the same
one. -/
theorem recipient_unmentioned {register : Arrivals} {held : List Process}
    (h : register.Unprejudiced held) {entry : Process} (hentry : entry ∉ held)
    (attached : Finset ℕ) :
    register.recipient entry attached = (register.unmentioned entry).recipient entry attached := by
  unfold Arrivals.recipient
  rw [show (register.unmentioned entry).pending =
    register.pending.map (Pending.unmentioned entry) from rfl, List.findIdx?_map]
  refine findIdx?_eq_of_forall fun p hp => ?_
  dsimp only [Function.comp]
  by_cases hclaim : p.claim = .waiting
  · rw [decide_eq_true hclaim, decide_eq_true (unmentioned_claim_waiting.mpr hclaim)]
    exact congrArg _ (h p hp hclaim entry hentry attached)
  · rw [decide_eq_false hclaim, decide_eq_false (unmentioned_claim_waiting.not.mpr hclaim),
      Bool.false_and, Bool.false_and]

/-- **Whom a departed process excludes.** After `forgetDeparted` the waiting opens answer for every
process that is not held as if nothing had ever mentioned it, exactly where no waiting launch's
snapshot lists a process that has left and that no waiting attach names. A new process with the
numbers of one that left is then delivered to the open that should have it. -/
theorem departed_excludes_nobody_iff (register : Arrivals) (held : List Process) :
    ((register.forgetDeparted held).Unprejudiced held ↔ register.Fresh held) ∧
    (register.Fresh held → ∀ entry ∉ held, ∀ attached,
      (register.forgetDeparted held).recipient entry attached =
        ((register.forgetDeparted held).unmentioned entry).recipient entry attached) := by
  have hiff : (register.forgetDeparted held).Unprejudiced held ↔ register.Fresh held := by
    rw [← fresh_forgetDeparted_iff]
    constructor
    · intro h p hp hclaim entry hmem hentry
      exact (answer_eq_unmentioned_iff hp hentry ∅).mp (h p hp hclaim entry hentry ∅) hmem
        (Finset.notMem_empty _)
    · intro h p hp hclaim entry hentry attached
      exact (answer_eq_unmentioned_iff hp hentry attached).mpr fun hmem _ =>
        h p hp hclaim entry hmem hentry
  exact ⟨hiff, fun hfresh entry hentry attached =>
    recipient_unmentioned (hiff.mpr hfresh) hentry attached⟩

def launchAfterDeparture : List ArrivalCall :=
  [.register (.launched (some [])), .leaves (0, 100), .deliver (0, 100) ∅, .joins (0, 100),
    .register (.attached 100)]

theorem departed_excludes_nobody_iff_launch :
    ((arrivals true).after launchAfterDeparture).arrivals.Fresh [] ∧
    (((arrivals true).after launchAfterDeparture).arrivals.forgetDeparted []).recipient (0, 100) ∅ =
      some 1 ∧
    ((((arrivals true).after launchAfterDeparture).arrivals.forgetDeparted []).unmentioned
      (0, 100)).recipient (0, 100) ∅ = some 1 := by
  have hfresh : ((arrivals true).after launchAfterDeparture).arrivals.Fresh [] := by decide
  have hgoes : (((arrivals true).after launchAfterDeparture).arrivals.forgetDeparted []).recipient
      (0, 100) ∅ = some 1 := by decide
  refine ⟨hfresh, hgoes, ?_⟩
  rw [← (departed_excludes_nobody_iff _ []).2 hfresh (0, 100) (by decide) ∅]
  exact hgoes

/-- A launch is made while the session holds process 100, which leaves; the register is pruned,
and a new process comes with both its numbers. Newest call first. -/
def snapshotOutlivesProcess : List ArrivalCall :=
  [.deliver (0, 100) ∅, .joins (0, 100), .forgetDeparted, .leaves (0, 100),
    .register (.launched (some [(0, 100)])), .joins (0, 100)]

/-- **A launch's snapshot excludes a process long gone.** The prune leaves the pair in the snapshot
of the launch that waits, so that the launch refuses the new process, and nobody is given it. -/
theorem snapshot_excludes_after_prune :
    (arrivals true).Throughout Allowed snapshotOutlivesProcess ∧
    ((arrivals true).answers snapshotOutlivesProcess).head? = some (.delivered (0, 100) none) ∧
    ∃ p ∈ ((arrivals true).after (snapshotOutlivesProcess.drop 2)).arrivals.pending,
      p.claim = .waiting ∧
      ((arrivals true).after (snapshotOutlivesProcess.drop 2)).arrivals.answer p (0, 100) ∅ =
        false ∧
      (((arrivals true).after (snapshotOutlivesProcess.drop 2)).arrivals.unmentioned
        (0, 100)).answer (p.unmentioned (0, 100)) (0, 100) ∅ = true := by
  decide

end DbgScope.Engine
