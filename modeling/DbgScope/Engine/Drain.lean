import DbgScope.Engine.ChunkedRead

/-!
# Spending the break-ins a target owes

Before a kernel session is quit, the target is resumed until the stops it still owes are spent.
`Drain` counts the resumes and decides from what each of them settled whether another is worth
spending; `spendPendingBreakIns` is the loop around it. The loop stops at the first number of
resumes whose drain will not resume again (`spendFrom_eq`).
-/

namespace DbgScope.Engine

/-- What a command run tells of how it ended. -/
structure CommandRun where
  cutShort : Option Interruption
  targetGone : Bool

/-- What one resume settled about the break-ins a target owes. -/
inductive Resumed
  | onABreak
  | freely
  | onRequest
  | gone
  deriving DecidableEq, Repr

def Resumed.of (run : CommandRun) : Resumed :=
  match run.targetGone, run.cutShort with
  | true, _ => .gone
  | false, some (.deadline _) => .freely
  | false, some .onRequest => .onRequest
  | false, none => .onABreak

def drainAttempts : ℕ := 5

def drainFreeRuns : ℕ := 2

def drainBudget : ℕ := 4000

/-- How much of a drain has been spent, and what it has learned. -/
structure Drain where
  attempts : ℕ
  spent : ℕ
  delivered : ℕ
  freeRuns : ℕ
  gone : Bool
  deriving DecidableEq, Repr

namespace Drain

def default : Drain := ⟨drainAttempts, 0, 0, 0, false⟩

def forProcessors (processors : UInt32) : Drain :=
  { default with
    attempts := max (saturatingAdd processors.toNat drainFreeRuns) drainAttempts }

def resumeAgain (drain : Drain) : Bool :=
  !drain.gone && drain.spent < drain.attempts && drain.freeRuns < drainFreeRuns

def saw (drain : Drain) (resumed : Resumed) : Drain :=
  let drain := { drain with spent := drain.spent + 1 }
  match resumed with
  | .onABreak => { drain with delivered := drain.delivered + 1, freeRuns := 0 }
  | .freely => { drain with freeRuns := drain.freeRuns + 1 }
  | .onRequest => drain
  | .gone => { drain with gone := true }

@[simp] theorem saw_spent (drain : Drain) (resumed : Resumed) :
    (drain.saw resumed).spent = drain.spent + 1 := by
  cases resumed <;> rfl

@[simp] theorem saw_attempts (drain : Drain) (resumed : Resumed) :
    (drain.saw resumed).attempts = drain.attempts := by
  cases resumed <;> rfl

theorem resumeAgain_iff {drain : Drain} : drain.resumeAgain = true ↔
    drain.gone = false ∧ drain.spent < drain.attempts ∧ drain.freeRuns < drainFreeRuns := by
  simp [resumeAgain, and_assoc]

end Drain

/-- What the drain is told: the processors of the target, where they can be counted, the time it
has taken at each look at the clock, and how each resume ended, where it was not refused. -/
structure DrainHost where
  processors : Option UInt32
  elapsed : ℕ → ℕ
  resume : ℕ → Option CommandRun

def DrainHost.drain (host : DrainHost) : Drain :=
  match host.processors with
  | some processors => .forProcessors processors
  | none => .default

def spendFrom (host : DrainHost) (drain : Drain) : Drain :=
  if drain.resumeAgain = true ∧ host.elapsed drain.spent < drainBudget then
    match host.resume drain.spent with
    | some run => spendFrom host (drain.saw (.of run))
    | none => drain
  else drain
termination_by drain.attempts - drain.spent
decreasing_by
  have := (Drain.resumeAgain_iff.mp (by assumption : _ ∧ _).1).2.1
  simp only [Drain.saw_attempts, Drain.saw_spent]
  omega

def spendPendingBreakIns (host : DrainHost) : Drain := spendFrom host host.drain

/-! ## A drain over a sequence of outcomes -/

/-- The drain after the first `count` outcomes. -/
def Drain.seen (drain : Drain) (outcomes : ℕ → Resumed) : ℕ → Drain
  | 0 => drain
  | count + 1 => (drain.seen outcomes count).saw (outcomes count)

section Seen

variable {drain : Drain} {outcomes : ℕ → Resumed}

@[simp] theorem seen_spent (count : ℕ) :
    (drain.seen outcomes count).spent = drain.spent + count := by
  induction count with
  | zero => rfl
  | succ count ih => rw [Drain.seen, Drain.saw_spent, ih, Nat.add_assoc]

@[simp] theorem seen_attempts (count : ℕ) :
    (drain.seen outcomes count).attempts = drain.attempts := by
  induction count with
  | zero => rfl
  | succ count ih => rw [Drain.seen, Drain.saw_attempts, ih]

theorem seen_gone_succ (count : ℕ) : (drain.seen outcomes (count + 1)).gone =
    ((drain.seen outcomes count).gone || decide (outcomes count = .gone)) := by
  rw [Drain.seen]
  cases h : outcomes count <;> simp [Drain.saw]

theorem seen_one_free (hfree : drain.freeRuns = 0) {count : ℕ}
    (hgone : (drain.seen outcomes count).gone = false)
    (h : (drain.seen outcomes count).freeRuns = 1) :
    ∃ first < count, outcomes first = .freely ∧
      ∀ between, first < between → between < count → outcomes between = .onRequest := by
  induction count with
  | zero =>
    rw [Drain.seen, hfree] at h
    cases h
  | succ count ih =>
    rw [seen_gone_succ, Bool.or_eq_false_iff, decide_eq_false_iff_not] at hgone
    rw [Drain.seen] at h
    cases hlast : outcomes count with
    | onABreak => simp [Drain.saw, hlast] at h
    | freely => exact ⟨count, Nat.lt_succ_self _, hlast, fun between hlow hhigh => by omega⟩
    | onRequest =>
      rw [hlast] at h
      obtain ⟨first, hfirst, houtcome, hbetween⟩ := ih hgone.1 h
      refine ⟨first, Nat.lt_succ_of_lt hfirst, houtcome, fun between hlow hhigh => ?_⟩
      rcases Nat.lt_succ_iff_lt_or_eq.mp hhigh with hlt | rfl
      · exact hbetween between hlow hlt
      · exact hlast
    | gone => exact absurd hlast hgone.2

def TwoFree (outcomes : ℕ → Resumed) (count : ℕ) : Prop :=
  ∃ first last, first < last ∧ last + 1 = count ∧ outcomes first = .freely ∧
    outcomes last = .freely ∧
    ∀ between, first < between → between < last → outcomes between = .onRequest

/-- **What ends a drain**: the resumes are spent, the target is gone, or two runs went free. -/
theorem seen_ends (hstart : drain.resumeAgain = true) (hspent : drain.spent = 0)
    (hfree : drain.freeRuns = 0) {count : ℕ}
    (hbefore : ∀ earlier < count, (drain.seen outcomes earlier).resumeAgain = true)
    (hends : (drain.seen outcomes count).resumeAgain = false) :
    count = drain.attempts ∨ (∃ last, last + 1 = count ∧ outcomes last = .gone) ∨
      TwoFree outcomes count := by
  cases count with
  | zero =>
    rw [Drain.seen, hstart] at hends
    cases hends
  | succ count =>
    obtain ⟨hgone, hroom, hfew⟩ := Drain.resumeAgain_iff.mp (hbefore count (Nat.lt_succ_self _))
    rw [← Bool.not_eq_true, Drain.resumeAgain_iff, seen_gone_succ, hgone, seen_spent,
      seen_attempts] at hends
    rw [seen_spent, seen_attempts] at hroom
    by_cases hlast : outcomes count = .gone
    · exact .inr (.inl ⟨count, rfl, hlast⟩)
    by_cases hall : count + 1 = drain.attempts
    · exact .inl hall
    right; right
    have hmany : ¬ (drain.seen outcomes (count + 1)).freeRuns < drainFreeRuns := by
      intro hlt
      exact hends ⟨by simp [hlast], by omega, hlt⟩
    -- only a free run raises the count of them
    rw [Drain.seen] at hmany
    cases hout : outcomes count with
    | onABreak => simp [Drain.saw, hout, drainFreeRuns] at hmany
    | onRequest => exact absurd hfew (by simpa [Drain.saw, hout] using hmany)
    | gone => exact absurd hout hlast
    | freely =>
      have hone : (drain.seen outcomes count).freeRuns = 1 := by
        simp only [Drain.saw, hout, drainFreeRuns] at hmany hfew
        omega
      obtain ⟨first, hfirst, houtcome, hbetween⟩ := seen_one_free hfree hgone hone
      exact ⟨first, count, hfirst, rfl, houtcome, hout, hbetween⟩

theorem seen_owed {owed : ℕ} (hfree : drain.freeRuns = 0) (hgone : drain.gone = false)
    (hbreaks : ∀ index < owed, outcomes index = .onABreak)
    (hruns : ∀ index, owed ≤ index → outcomes index = .freely) (count : ℕ) :
    (drain.seen outcomes count).gone = false ∧
      (drain.seen outcomes count).delivered = drain.delivered + min count owed ∧
      (drain.seen outcomes count).freeRuns = count - owed := by
  induction count with
  | zero => simp [Drain.seen, hfree, hgone]
  | succ count ih =>
    obtain ⟨hhere, hdelivered, hcount⟩ := ih
    rw [Drain.seen]
    rcases Nat.lt_or_ge count owed with hlt | hge
    · rw [hbreaks count hlt]
      simp only [Drain.saw, hhere, hdelivered, true_and]
      omega
    · rw [hruns count hge]
      simp only [Drain.saw, hhere, hdelivered, hcount, true_and]
      omega

end Seen

/-! ## The loop -/

section Loop

variable {host : DrainHost}

theorem spendFrom_spent_le (drain : Drain) (h : drain.spent ≤ drain.attempts) :
    (spendFrom host drain).spent ≤ drain.attempts := by
  fun_induction spendFrom host drain with
  | case1 drain hagain run hrun ih =>
    have hroom := (Drain.resumeAgain_iff.mp hagain.1).2.1
    rw [Drain.saw_attempts, Drain.saw_spent] at ih
    exact ih hroom
  | case2 => exact h
  | case3 => exact h

theorem spendFrom_eq {runs : ℕ → CommandRun}
    (hresume : ∀ index, host.resume index = some (runs index))
    (htime : ∀ index, host.elapsed index < drainBudget)
    {drain : Drain} (hspent : drain.spent = 0) {count : ℕ}
    (hlast : (drain.seen (fun index => .of (runs index)) count).resumeAgain = false)
    (hbefore : ∀ earlier < count,
      (drain.seen (fun index => .of (runs index)) earlier).resumeAgain = true) {start : ℕ}
    (hstart : start ≤ count) :
    spendFrom host (drain.seen (fun index => .of (runs index)) start) =
      drain.seen (fun index => .of (runs index)) count := by
  induction hstart using Nat.decreasingInduction with
  | self =>
    rw [spendFrom, hlast]
    simp
  | of_succ start hlt ih =>
    rw [spendFrom, if_pos ⟨hbefore start hlt, htime _⟩, hresume]
    rw [seen_spent, hspent, Nat.zero_add]
    exact ih

end Loop

theorem drain_fresh (host : DrainHost) : host.drain.spent = 0 ∧ host.drain.delivered = 0 ∧
    host.drain.freeRuns = 0 ∧ host.drain.gone = false ∧
    host.drain.attempts = max ((host.processors.getD 0).toNat + 2) 5 := by
  unfold DrainHost.drain
  cases host.processors with
  | none => exact ⟨rfl, rfl, rfl, rfl, rfl⟩
  | some processors =>
    have hlt := processors.toNat_lt
    refine ⟨rfl, rfl, rfl, rfl, ?_⟩
    simp only [Drain.forProcessors, drainFreeRuns, drainAttempts, Option.getD_some]
    rw [saturatingAdd_of_lt (by omega)]

theorem exists_last (host : DrainHost) (outcomes : ℕ → Resumed) :
    ∃ count, (host.drain.seen outcomes count).resumeAgain = false ∧
      ∀ earlier < count, (host.drain.seen outcomes earlier).resumeAgain = true := by
  have hexists : ∃ count, (host.drain.seen outcomes count).resumeAgain = false := by
    refine ⟨host.drain.attempts, ?_⟩
    rw [← Bool.not_eq_true, Drain.resumeAgain_iff, seen_spent, seen_attempts]
    omega
  refine ⟨Nat.find hexists, Nat.find_spec hexists, fun earlier hlt => ?_⟩
  rw [← Bool.not_eq_false]
  exact Nat.find_min hexists hlt

/-- **The drain spends what is owed and stops.** It resumes at most `max (processors + 2) 5` times,
ends earlier only when the target is gone or after two free runs with nothing but requests between
them, and spends `owed` stops that come one per resume. -/
theorem drain_spends_what_is_owed (host : DrainHost) :
    (spendPendingBreakIns host).spent ≤ max ((host.processors.getD 0).toNat + 2) 5 ∧
    ∀ runs : ℕ → CommandRun, (∀ index, host.resume index = some (runs index)) →
      (∀ index, host.elapsed index < drainBudget) →
      ((spendPendingBreakIns host).spent < max ((host.processors.getD 0).toNat + 2) 5 →
        (∃ last, last + 1 = (spendPendingBreakIns host).spent ∧ Resumed.of (runs last) = .gone) ∨
          TwoFree (fun index => .of (runs index)) (spendPendingBreakIns host).spent) ∧
      ∀ owed ≤ (host.processors.getD 0).toNat,
        (∀ index < owed, Resumed.of (runs index) = .onABreak) →
        (∀ index, owed ≤ index → Resumed.of (runs index) = .freely) →
        (spendPendingBreakIns host).spent = owed + 2 ∧
          (spendPendingBreakIns host).delivered = owed ∧
          (spendPendingBreakIns host).freeRuns = 2 := by
  obtain ⟨hspent, hdelivered, hfree, hgone, hattempts⟩ := drain_fresh host
  rw [← hattempts]
  refine ⟨spendFrom_spent_le host.drain (by omega), fun runs hresume htime => ?_⟩
  obtain ⟨count, hlast, hbefore⟩ := exists_last host fun index => .of (runs index)
  have hloop : spendPendingBreakIns host = host.drain.seen (fun index => .of (runs index)) count :=
    spendFrom_eq hresume htime hspent hlast hbefore (Nat.zero_le _)
  have hcount : (spendPendingBreakIns host).spent = count := by
    rw [hloop, seen_spent, hspent, Nat.zero_add]
  rw [hcount]
  refine ⟨fun hearly => ?_, fun owed howed hbreaks hruns => ?_⟩
  · have hstart : host.drain.resumeAgain = true :=
      Drain.resumeAgain_iff.mpr ⟨hgone, by omega, by simp [hfree, drainFreeRuns]⟩
    exact (seen_ends hstart hspent hfree hbefore hlast).resolve_left (by omega)
  · have hseen := seen_owed hfree hgone hbreaks hruns
    -- the drain resumes again up to the second free run, and not after it
    have hagain : ∀ earlier, (host.drain.seen (fun index => .of (runs index)) earlier).resumeAgain =
        true ↔ earlier < owed + 2 := by
      intro earlier
      rw [Drain.resumeAgain_iff, seen_spent, seen_attempts, (hseen earlier).1, (hseen earlier).2.2,
        drainFreeRuns, eq_self, true_and]
      omega
    have hend : count = owed + 2 := by
      have hstop := hagain count
      rw [hlast] at hstop
      have hge : ¬ count < owed + 2 := fun hlt => by simpa using hstop.mpr hlt
      by_contra hne
      have hmore := (hagain (owed + 2)).mp (hbefore (owed + 2) (by omega))
      omega
    obtain ⟨-, hdel, hruns⟩ := hseen count
    rw [hloop]
    exact ⟨hend, by omega, by omega⟩

def owesThree : DrainHost where
  processors := some 4
  elapsed _ := 0
  resume index := some ⟨if index < 3 then none else some (.deadline 500), false⟩

theorem drain_spends_what_is_owed_three :
    (spendPendingBreakIns owesThree).spent = 5 ∧
      (spendPendingBreakIns owesThree).delivered = 3 := by
  have hspends := ((drain_spends_what_is_owed owesThree).2 _ (fun _ => rfl)
    fun _ => show 0 < drainBudget by decide).2 3 (by decide)
    (fun index hindex => by simp [Resumed.of, hindex])
    (fun index hindex => by simp [Resumed.of, Nat.not_lt.mpr hindex])
  exact ⟨hspends.1, hspends.2.1⟩

end DbgScope.Engine
