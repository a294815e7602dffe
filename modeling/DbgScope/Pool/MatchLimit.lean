import DbgScope.InStep
import DbgScope.Pool.Gaps

/-!
# Walks that stop after a number of matches

A walk that was asked for the first so many allocations of a tag tests after each span it records
whether that was the last of them. Here such a walk is run beside the one with no limit: up to the
span that satisfies the limit the two snapshots differ in nothing but the count (`Abreast`); from
there on the limited walk records nothing any more (`Behind`).
-/

namespace DbgScope.Pool

open PoolSnapshot Run

/-! ## The two snapshots -/

def PoolSnapshot.limitedTo (snapshot : PoolSnapshot) (limit : PoolMatchLimit) (matched : ℕ) :
    PoolSnapshot :=
  { snapshot with matchLimit := some limit, matchedAllocations := matched }

/-- How many spans the limit accepts. -/
def PoolMatchLimit.matched (limit : PoolMatchLimit) (spans : List PoolSpan) : ℕ :=
  spans.countP limit.accepts

/-- The limited walk and the other one are at the same point. -/
structure Abreast (limit : PoolMatchLimit) (l u : World PoolSnapshot) : Prop where
  history : l.history = u.history
  state : l.state = u.state.limitedTo limit (limit.matched u.state.spans)
  unlimited : u.state.matchLimit = none
  going : u.state.stoppedAfterMatches = none
  wanting : limit.matched u.state.spans < limit.threshold

structure Satisfies (limit : PoolMatchLimit) (snapshot : PoolSnapshot) : Prop where
  stopped : snapshot.stoppedAfterMatches = some limit.threshold
  incomplete : snapshot.complete = false
  matched : limit.matched snapshot.spans = limit.threshold
  last : ∃ before last, snapshot.spans = before ++ [last] ∧ limit.accepts last = true

/-- The limited walk has stopped, at a point the other one has passed. -/
structure Behind (limit : PoolMatchLimit) (l u : World PoolSnapshot) : Prop where
  satisfied : Satisfies limit l.state
  earlier : l.state.spans <+: u.state.spans

/-- The target raises nothing that ends a walk: there is no interrupt and no deadline of its own. -/
structure Undisturbed (memory : PoolMemory) : Prop where
  poll : ∀ h, pollOutcome memory h = .ok ()
  read : ∀ h address size error, memory.readExact h address size = .error error →
    error.haltsWalk = false

abbrev Limits {α : Type} (limit : PoolMatchLimit) (P : α → Prop) (m : Walk PoolSnapshot α) : Prop :=
  InStep (Abreast limit) (Behind limit) (fun _ => False) P m

/-- Nothing in it is told to stop. -/
abbrev Steady {α : Type} (limit : PoolMatchLimit) (m : Walk PoolSnapshot α) : Prop :=
  Quiet (Abreast limit) (Behind limit) (fun _ => False) m

section Writes

variable {limit : PoolMatchLimit} {α : Type} {P : α → Prop}

/-- A write that the limit has no part in. -/
structure Unrelated (f : PoolSnapshot → PoolSnapshot) : Prop where
  limitedTo : ∀ s limit matched, f (s.limitedTo limit matched) = (f s).limitedTo limit matched
  spans : ∀ s, (f s).spans = s.spans
  matchLimit : ∀ s, (f s).matchLimit = s.matchLimit
  stopped : ∀ s, (f s).stoppedAfterMatches = s.stoppedAfterMatches
  complete : ∀ s, s.complete = false → (f s).complete = false

variable (message : String) {m m' : Walk PoolSnapshot α} {f : PoolSnapshot → PoolSnapshot}

theorem Unrelated.abreast (hf : Unrelated f) {l u : World PoolSnapshot} (h : Abreast limit l u) :
    Abreast limit { l with state := f l.state } { u with state := f u.state } where
  history := h.history
  state := by
    show f l.state = (f u.state).limitedTo limit (limit.matched (f u.state).spans)
    rw [h.state, hf.limitedTo, hf.spans]
  unlimited := (hf.matchLimit _).trans h.unlimited
  going := (hf.stopped _).trans h.going
  wanting := by
    show limit.matched (f u.state).spans < _
    rw [hf.spans]
    exact h.wanting

theorem Unrelated.satisfies (hf : Unrelated f) {snapshot : PoolSnapshot}
    (h : Satisfies limit snapshot) : Satisfies limit (f snapshot) where
  stopped := (hf.stopped _).trans h.stopped
  incomplete := hf.complete _ h.incomplete
  matched := by rw [hf.spans]; exact h.matched
  last := by rw [hf.spans]; exact h.last

theorem update_limits (hf : Unrelated f) {P : Unit → Prop} : Limits limit P (update f) := by
  refine InStep.modify (fun l u h => hf.abreast h) fun l u h => ⟨h.satisfied, ?_⟩
  show l.state.spans <+: (f u.state).spans
  rw [hf.spans]
  exact h.earlier

theorem update_settles (hf : Unrelated f) : Settles (Behind limit) (fun _ => True) (update f) := by
  refine Settles.modify fun l u h => ⟨hf.satisfies h.satisfied, ?_⟩
  show (f l.state).spans <+: u.state.spans
  rw [hf.spans]
  exact h.earlier

theorem unrelated_complain :
    Unrelated fun s => { s with diagnostics := s.diagnostics.push message } :=
  ⟨fun _ _ _ => rfl, fun _ => rfl, fun _ => rfl, fun _ => rfl, fun _ h => h⟩

theorem unrelated_clear : Unrelated fun s => { s with complete := false } :=
  ⟨fun _ _ _ => rfl, fun _ => rfl, fun _ => rfl, fun _ => rfl, fun _ _ => rfl⟩

theorem complain_limits {P : Unit → Prop} : Limits limit P (complain message) :=
  update_limits (unrelated_complain message)

theorem clearComplete_limits {P : Unit → Prop} : Limits limit P clearComplete :=
  update_limits unrelated_clear

theorem complain_settles : Settles (Behind limit) (fun _ => True) (complain message) :=
  update_settles (unrelated_complain message)

theorem complain_clear_limits (hm : Limits limit P m) :
    Limits limit P (complain message >>= fun _ => clearComplete >>= fun _ => m) :=
  InStep.bind_quiet (complain_limits message) fun _ =>
    InStep.bind_quiet clearComplete_limits fun _ => hm

theorem note_limits (event : Event) {P : Unit → Prop} : Limits limit P (note event) := by
  refine InStep.modify (fun l u h => ?_) fun l u h => ⟨h.satisfied, h.earlier⟩
  exact ⟨congrArg (· ++ [event]) h.history, h.state, h.unlimited, h.going, h.wanting⟩

theorem ask_quiet {E : SnapshotError → Prop} (answer : History → Except SnapshotError α)
    (event : History → Event) (hanswer : ∀ h e, answer h = .error e → E e) :
    Quiet (Abreast limit) (Behind limit) E
      (fun w => (answer w.history, w.note (event w.history))) where
  step l u h := by
    refine Or.inl ⟨answer u.history, l.note (event u.history), u.note (event u.history), ?_, rfl,
      ⟨congrArg (· ++ [event u.history]) h.history, h.state, h.unlimited, h.going, h.wanting⟩,
      hanswer u.history⟩
    rw [h.history]
  goes l u h := by
    show Ends _ _ (answer u.history, u.note (event u.history))
    cases hr : answer u.history with
    | ok a => exact ⟨h.satisfied, h.earlier⟩
    | error e => exact ⟨hanswer _ e hr, h.satisfied, h.earlier⟩

theorem checkBudget_steady {memory : PoolMemory} (hm : Undisturbed memory) :
    Steady limit (checkBudget memory) :=
  ask_quiet (pollOutcome memory) (fun h => .poll (failureOf (pollOutcome memory h)))
    fun h e he => by
      rw [hm.poll] at he
      cases he

theorem callCommittedRun_steady (memory : PoolMemory) (address : ℕ) :
    Steady limit (callCommittedRun memory address) :=
  ask_quiet (fun h => .ok (memory.committedRun h address)) (fun _ => .committedRun address)
    fun _ _ he => by cases he

/-! ## Recording -/

theorem recordSpan_limitedTo (snapshot : PoolSnapshot) {matched : ℕ}
    (hmatched : matched < limit.threshold) (span : PoolSpan) :
    (snapshot.limitedTo limit matched).recordSpan span =
      let recorded := { snapshot with spans := snapshot.spans ++ [span] }
      if limit.accepts span then
        if limit.threshold ≤ matched + 1 then
          { recorded.limitedTo limit (matched + 1) with
            complete := false, stoppedAfterMatches := some limit.threshold }
        else recorded.limitedTo limit (matched + 1)
      else recorded.limitedTo limit matched := by
  have hcount : saturatingAdd matched 1 = matched + 1 :=
    saturatingAdd_of_lt (by have := limit.threshold_lt; omega)
  unfold recordSpan limitedTo
  rw [hcount]

variable (limit) in
theorem matched_append (spans : List PoolSpan) (span : PoolSpan) :
    limit.matched (spans ++ [span]) =
      limit.matched spans + if limit.accepts span then 1 else 0 := by
  unfold PoolMatchLimit.matched
  rw [List.countP_append, List.countP_singleton]

theorem record_limits (span : PoolSpan) : Limits limit (fun _ => True) (record span) where
  step l u h := by
    have hl := recordSpan_limitedTo u.state h.wanting span
    have hu := recordSpan_unlimited h.unlimited span
    have hcount := matched_append limit u.state.spans span
    rw [← h.state] at hl
    dsimp only at hl
    by_cases haccepts : limit.accepts span = true
    · rw [if_pos haccepts] at hl hcount
      by_cases hlast : limit.threshold ≤ limit.matched u.state.spans + 1
      · rw [if_pos hlast] at hl
        refine Or.inr ⟨(), _, rfl, trivial, ?_⟩
        show Behind limit { l with state := l.state.recordSpan span }
          { u with state := u.state.recordSpan span }
        rw [hl, hu]
        have hwanting := h.wanting
        exact ⟨⟨rfl, rfl, hcount.trans (by omega), u.state.spans, span, rfl, haccepts⟩,
          List.prefix_refl _⟩
      · rw [if_neg hlast] at hl
        refine Or.inl ⟨.ok (), _, _, rfl, rfl, ?_, nofun⟩
        show Abreast limit { l with state := l.state.recordSpan span }
          { u with state := u.state.recordSpan span }
        rw [hl, hu]
        exact ⟨h.history, by rw [hcount], h.unlimited, h.going, by
          rw [hcount]; exact Nat.lt_of_not_le hlast⟩
    · rw [if_neg haccepts] at hl hcount
      refine Or.inl ⟨.ok (), _, _, rfl, rfl, ?_, nofun⟩
      show Abreast limit { l with state := l.state.recordSpan span }
        { u with state := u.state.recordSpan span }
      rw [hl, hu]
      exact ⟨h.history, by rw [hcount]; rfl, h.unlimited, h.going, by rw [hcount]; exact h.wanting⟩
  goes l := Keeps.modify fun u h => ⟨h.satisfied, by
    show l.state.spans <+: (u.state.recordSpan span).spans
    rw [recordSpan_spans]
    exact h.earlier.trans (List.prefix_append _ _)⟩

theorem record_steady {span : PoolSpan} (hspan : span.state ≠ .allocated) :
    Steady limit (record span) := by
  refine InStep.modify (fun l u h => ?_) fun l u h => ⟨h.satisfied, ?_⟩
  · have hrefused : limit.accepts span = false := by
      unfold PoolMatchLimit.accepts
      rw [decide_eq_false hspan, Bool.false_and, Bool.false_and]
    have hcount := matched_append limit u.state.spans span
    rw [hrefused] at hcount
    show Abreast limit { l with state := l.state.recordSpan span }
      { u with state := u.state.recordSpan span }
    rw [recordSpan_of_gap _ hspan, recordSpan_of_gap _ hspan, h.state]
    exact ⟨h.history, by rw [hcount]; rfl, h.unlimited, h.going, by rw [hcount]; exact h.wanting⟩
  · show l.state.spans <+: (u.state.recordSpan span).spans
    rw [recordSpan_spans]
    exact h.earlier.trans (List.prefix_append _ _)

theorem limitReached_steady : Steady limit limitReached := by
  refine InStep.read fun l u h => ?_
  rw [h.state]
  rfl

theorem limitReached_settles : Settles (Behind limit) (fun reached => reached = true)
    limitReached :=
  Settles.read fun l u h => by
    unfold matchLimitReached
    rw [h.satisfied.stopped]
    rfl

theorem limit_limits (hm : Limits limit P m) (hm' : Limits limit P m') :
    Limits limit P (limitReached >>= fun reached => if reached = true then m else m') :=
  InStep.bind_quiet limitReached_steady fun _ => InStep.ite (fun _ => hm) fun _ => hm'

theorem limit_settles (hm : Settles (Behind limit) P m) : Settles (Behind limit) P
      (limitReached >>= fun reached => if reached = true then m else m') :=
  limitReached_settles.bind fun _ hreached => Settles.ite (fun _ => hm) fun hnot =>
    absurd hreached hnot

theorem then_limit {m : Walk PoolSnapshot Unit} (hm : Limits limit (fun _ => True) m) {a : α}
    (ha : P a) {m' : Walk PoolSnapshot α} (hm' : Limits limit P m') :
    Limits limit P
      (m >>= fun _ => limitReached >>= fun reached => if reached = true then pure a else m') :=
  hm.bind (fun _ => limit_limits (InStep.pure a) hm') fun _ _ => limit_settles (Settles.pure ha)


end Writes

section Walks

variable {limit : PoolMatchLimit} {memory : PoolMemory} {α β σ : Type}

/-- A round of a loop: told to stop, it leaves the loop. -/
abbrev Rounds (limit : PoolMatchLimit) (m : Walk PoolSnapshot (Flow σ β)) : Prop :=
  Limits limit (Flow.Holds (fun _ => False) fun _ => True) m

/-! ## The decoders with a fixed stride -/

variable (hm : Undisturbed memory) (traversalLimit : ℕ) (region : PoolRegion) (base : ℕ)
  (bytes : List UInt8) (s : VsWalk) (headerAddress : ℕ) (chunk : VsChunk)

theorem recordSpecial_limits (page : ℕ) (header : SpecialPoolHeader) (pageBytes : List UInt8) :
    Limits limit (fun _ => True) (recordSpecial region page header pageBytes) := by
  exact InStep.ite (fun _ => complain_clear_limits _ (record_limits _)) fun _ => record_limits _

theorem specialStep_rounds (page : ℕ) : Rounds limit (specialStep region base bytes page) := by
  unfold specialStep
  split
  · exact InStep.pure _
  · refine InStep.ite (fun _ => InStep.pure _) fun _ => ?_
    split
    · exact complain_clear_limits _ (InStep.pure _)
    · refine InStep.ite (fun _ => InStep.pure _) fun _ => ?_
      exact then_limit (recordSpecial_limits region _ _ _) trivial (InStep.pure _)

theorem lfhStep_rounds (slot : ℕ) : Rounds limit (lfhStep region base bytes slot) := by
  unfold lfhStep
  dsimp only
  split
  · exact InStep.pure _
  · refine InStep.ite (fun _ => InStep.pure _) fun _ => ?_
    refine InStep.ite (fun _ => InStep.pure _) fun _ => ?_
    split
    · exact complain_clear_limits _ (InStep.pure _)
    · exact then_limit (record_limits _) trivial (InStep.pure _)

theorem walkLfh_limits : Limits limit (fun _ => True) (walkLfh region base bytes) := by
  refine InStep.ite (fun _ => ?_) fun _ =>
    InStep.loop (fun slot => lfhStep_rounds region base bytes slot) _ _
  exact InStep.bind_quiet (complain_limits _) fun _ => clearComplete_limits

theorem pageRangeStep_rounds (slot : ℕ) : Rounds limit (pageRangeStep region base bytes slot) := by
  unfold pageRangeStep
  dsimp only
  split
  · exact InStep.pure _
  · refine InStep.ite (fun _ => InStep.pure _) fun _ => ?_
    exact then_limit (record_limits _) trivial (InStep.pure _)

theorem walkLarge_limits : Limits limit (fun _ => True) (walkLarge region) :=
  InStep.ite (fun _ => InStep.pure _) fun _ => record_limits _

/-! ## The VS decoder -/

theorem vsRefuse_rounds (rejection : VsRejection) (s : VsWalk) :
    Rounds limit (vsRefuse headerAddress rejection s) := by
  refine InStep.ite (fun _ => InStep.bind_quiet (complain_limits _) fun _ => ?_) fun _ => ?_
  all_goals exact InStep.bind_quiet clearComplete_limits fun _ => InStep.pure _

theorem vsCheckChain_steady (s : VsWalk) : Steady limit (vsCheckChain headerAddress chunk s) := by
  refine InStep.ite (fun _ => ?_) fun _ => InStep.pure _
  refine InStep.ite (fun _ => InStep.bind_quiet (complain_limits _) fun _ => ?_) fun _ => ?_
  all_goals exact InStep.bind_quiet clearComplete_limits fun _ => InStep.pure _

theorem record_vsContinue (span : PoolSpan) (s : VsWalk) :
    Rounds limit (record span >>= fun _ => vsContinue s) :=
  then_limit (record_limits span) trivial (InStep.pure _)

theorem vsEmit_rounds (s : VsWalk) :
    Rounds limit (vsEmit region base bytes headerAddress chunk s) := by
  refine InStep.ite (fun _ => InStep.bind_quiet (complain_limits _) fun _ => ?_) fun _ => ?_
  all_goals exact record_vsContinue _ _

theorem vsChunkStep_rounds (s : VsWalk) :
    Rounds limit (vsChunkStep memory region base bytes headerAddress chunk s) := by
  refine InStep.bind_quiet (vsCheckChain_steady _ _ _) fun s => ?_
  split
  · exact record_vsContinue _ _
  · refine InStep.ite (fun _ => ?_) fun _ => vsEmit_rounds _ _ _ _ _ _
    refine InStep.bind_quiet (InStep.bind_quiet (callCommittedRun_steady memory _) fun _ =>
      InStep.pure _) fun uncommitted => ?_
    refine InStep.ite (fun _ => vsEmit_rounds _ _ _ _ _ _) fun _ => ?_
    exact complain_clear_limits _ (InStep.pure _)

theorem vsStep_rounds : Rounds limit (vsStep memory traversalLimit region base bytes s) := by
  refine InStep.ite (fun _ => InStep.pure _) fun _ => ?_
  refine InStep.ite (fun _ => InStep.bind_quiet (note_limits _) fun _ => InStep.pure _) fun _ => ?_
  dsimp only
  split
  · exact InStep.pure _
  · split
    · exact vsRefuse_rounds _ _ _
    · exact vsChunkStep_rounds _ _ _ _ _ _

theorem vsReportRefused_limits : Steady limit (vsReportRefused s) ∧
    Settles (Behind limit) (fun _ => True) (vsReportRefused s) := by
  unfold vsReportRefused
  split
  · exact ⟨InStep.pure _, Settles.pure trivial⟩
  · have hf : Unrelated fun snapshot : PoolSnapshot =>
        { snapshot with refusedChunks := saturatingAdd snapshot.refusedChunks s.refused } :=
      ⟨fun _ _ _ => rfl, fun _ => rfl, fun _ => rfl, fun _ => rfl, fun _ h => h⟩
    exact ⟨InStep.bind_quiet (update_limits hf) fun _ => complain_limits _,
      (update_settles hf).bind fun _ _ => complain_settles _⟩

theorem vsReportBreaks_limits : Steady limit (vsReportBreaks base s) ∧
    Settles (Behind limit) (fun _ => True) (vsReportBreaks base s) :=
  ⟨InStep.ite (fun _ => complain_limits _) fun _ => InStep.pure _,
    Settles.ite (fun _ => complain_settles _) fun _ => Settles.pure trivial⟩

theorem vsLimit_limits : Steady limit (vsLimit traversalLimit base s) ∧
      Settles (Behind limit) (fun _ => True) (vsLimit traversalLimit base s) := by
  constructor
  · refine InStep.bind_quiet limitReached_steady fun _ => InStep.ite (fun _ => ?_) fun _ =>
      InStep.pure _
    exact InStep.bind_quiet clearComplete_limits fun _ => complain_limits _
  · refine limitReached_settles.bind fun reached hreached => Settles.ite (fun h => ?_) fun _ =>
      Settles.pure trivial
    rw [hreached] at h
    cases h.1

theorem walkVsChunks_limits (next : ℕ) : Limits limit (fun _ => True)
      (walkVsChunks memory traversalLimit region base bytes next) := by
  refine InStep.bind (InStep.loop (fun s => vsStep_rounds traversalLimit region base bytes s) _ _)
    (fun s => ?_) fun s _ => ?_
  · refine InStep.bind_quiet (vsReportRefused_limits s).1 fun _ => ?_
    refine InStep.bind_quiet (vsReportBreaks_limits base s).1 fun _ => ?_
    exact InStep.bind_quiet (vsLimit_limits traversalLimit base s).1 fun _ => InStep.pure _
  · refine (vsReportRefused_limits s).2.bind fun _ _ => ?_
    refine (vsReportBreaks_limits base s).2.bind fun _ _ => ?_
    exact (vsLimit_limits traversalLimit base s).2.bind fun _ _ => Settles.pure trivial

theorem walkVs_limits (expected : Option ℕ) :
    Limits limit (fun _ => True) (walkVs memory traversalLimit region base bytes expected) := by
  unfold walkVs
  split
  · refine InStep.bind_quiet ?_ fun _ => InStep.pure _
    refine InStep.bind_quiet (update_limits ?_) fun _ =>
      InStep.bind_quiet (complain_limits _) fun _ => clearComplete_limits
    exact ⟨fun _ _ _ => rfl, fun _ => rfl, fun _ => rfl, fun _ => rfl, fun _ h => h⟩
  · exact InStep.ite (fun _ => InStep.pure _) fun _ => walkVsChunks_limits _ _ _ _ _

/-! ## Gaps -/

theorem gap_steady (address size : ℕ) {state : PoolState} (hstate : state ≠ .allocated) :
    Steady limit (gap region address size state) := by
  have hrecord : Steady limit (record (baseSpan region address address size 0 state)) :=
    record_steady hstate
  refine InStep.ite (fun _ => InStep.pure _) fun _ => ?_
  refine InStep.ite (fun _ => InStep.bind_quiet clearComplete_limits fun _ => ?_) fun _ => ?_
  all_goals exact InStep.bind_quiet hrecord fun _ => InStep.pure _

theorem unreadable_steady (memory : PoolMemory) (region : PoolRegion) (address size : ℕ) :
    Steady limit (unreadable memory region address size) := by
  refine InStep.bind_quiet (note_limits _) fun _ => InStep.ite (fun _ => InStep.pure _) fun _ => ?_
  refine InStep.loop (fun s => InStep.imp ?_ fun _ h => absurd h not_false) _ _
  refine InStep.ite (fun _ => InStep.pure _) fun _ => ?_
  refine InStep.bind_quiet (callCommittedRun_steady memory _) fun run => ?_
  split
  · exact InStep.bind_quiet (gap_steady _ _ _ (by decide)) fun _ => InStep.pure _
  · refine InStep.bind_quiet (gap_steady _ _ _ ?_) fun _ => InStep.pure _
    split <;> decide

/-! ## Regions -/

include hm

theorem readExtent_quiet (size : ℕ) :
    Quiet (Abreast limit) (Behind limit) (fun error => error.haltsWalk = false)
      (readExtent memory base size) := by
  have hread (address size : ℕ) : Quiet (Abreast limit) (Behind limit)
      (fun error => error.haltsWalk = false) (callReadExact memory address size) :=
    ask_quiet (fun h => memory.readExact h address size)
      (fun h => .readExact address size (failureOf (memory.readExact h address size)))
      fun h e he => hm.read h address size e he
  refine InStep.ite (fun _ => hread base size) fun _ => ?_
  refine InStep.loop (fun bytes => InStep.imp ?_ fun _ h => absurd h not_false) _ _
  refine InStep.ite (fun _ => InStep.pure _) fun _ => ?_
  refine InStep.bind_quiet ((checkBudget_steady hm).relax fun _ h => absurd h not_false) fun _ => ?_
  refine InStep.bind_quiet (hread _ _) fun chunk => ?_
  exact InStep.ite (fun _ => InStep.fail rfl) fun _ => InStep.pure _

omit hm in
theorem decodeExtent_limits (s : RegionWalk) :
    Limits limit (fun _ => True) (decodeExtent memory traversalLimit region base bytes s) := by
  have hdecoded {α : Type} {m : Walk PoolSnapshot α} (hm : Limits limit (fun _ => True) m)
      (f : α → Option RegionWalk) :
      Limits limit (fun _ => True) (note (.decoded base (base + bytes.length)) >>= fun _ =>
        m >>= fun a => pure (f a)) :=
    InStep.bind_quiet (note_limits _) fun _ =>
      hm.bind (fun _ => InStep.pure _) fun _ _ => Settles.pure trivial
  refine InStep.ite (fun _ => ?_) fun _ => ?_
  · exact hdecoded (InStep.loop (fun page => specialStep_rounds region base bytes page) _ _) _
  · split
    · exact hdecoded (walkLfh_limits region base bytes) _
    · exact hdecoded (walkVs_limits traversalLimit region base bytes _) _
    · exact hdecoded (InStep.loop (fun slot => pageRangeStep_rounds region base bytes slot) _ _) _
    · exact InStep.pure _

theorem extentStep_rounds (validBase validEnd : ℕ) (s : RegionWalk) :
    Rounds limit (extentStep memory traversalLimit region validBase validEnd s) := by
  unfold extentStep
  refine InStep.attempt_bind (readExtent_quiet hm _ _) (fun bytes => ?_) (fun error herror => ?_)
    fun _ h => absurd h not_false
  · refine InStep.ite (fun _ => InStep.bind_quiet (update_limits ?_) fun _ => ?_) fun _ => ?_
    · exact ⟨fun _ _ _ => rfl, fun _ => rfl, fun _ => rfl, fun _ => rfl, fun _ h => h⟩
    all_goals
      -- either way the extent is decoded, and the limit is looked at
      refine (decodeExtent_limits _ _ _ _ _).bind (fun decoded => ?_) fun decoded _ => ?_
      · cases decoded with
        | none => exact InStep.pure _
        | some decoded => exact limit_limits (InStep.pure _) (InStep.pure _)
      · cases decoded with
        | none => exact Settles.pure trivial
        | some decoded => exact limit_settles (Settles.pure trivial)
  · dsimp only
    rw [herror]
    refine InStep.ite (fun h => by cases h) fun _ => ?_
    refine InStep.bind_quiet (complain_limits _) fun _ => ?_
    exact InStep.bind_quiet (unreadable_steady memory region _ _) fun _ => InStep.pure _

omit hm in
theorem stalledStep_rounds (validBase reportedBase reportedSize : ℕ) (s : RegionWalk) :
    Rounds limit (stalledStep memory region validBase reportedBase reportedSize s) := by
  refine InStep.bind_quiet (complain_limits _) fun _ => ?_
  refine InStep.bind_quiet (unreadable_steady memory region _ _) fun _ => ?_
  refine InStep.bind_quiet (update_limits ?_) fun _ => ?_
  · exact ⟨fun _ _ _ => rfl, fun _ => rfl, fun _ => rfl, fun _ => rfl, fun _ h => h⟩
  refine InStep.ite (fun _ => ?_) fun _ => InStep.pure _
  refine InStep.bind_quiet ?_ fun _ => InStep.pure _
  exact InStep.bind_quiet (complain_limits _) fun _ =>
    InStep.bind_quiet (unreadable_steady memory region _ _) fun _ => InStep.pure _

theorem answerStep_rounds (reportedBase reportedSize : ℕ) (s : RegionWalk) :
    Rounds limit (answerStep memory traversalLimit region reportedBase reportedSize s) := by
  refine InStep.bind_quiet ?_ fun _ => ?_
  · refine InStep.ite (fun _ => ?_) fun _ => InStep.pure _
    refine InStep.bind_quiet (unreadable_steady memory region _ _) fun _ => ?_
    exact InStep.ite (fun _ => complain_limits _) fun _ => InStep.pure _
  · refine InStep.ite (fun _ => ?_) fun _ => extentStep_rounds hm _ _ _ _ _
    refine InStep.ite (fun _ => InStep.pure _) fun _ => InStep.ite (fun _ => ?_) fun _ =>
      stalledStep_rounds _ _ _ _ _
    exact InStep.bind_quiet (unreadable_steady memory region _ _) fun _ => InStep.pure _

theorem regionStep_rounds (s : RegionWalk) :
    Rounds limit (regionStep memory traversalLimit region s) := by
  refine InStep.ite (fun _ => InStep.pure _) fun _ => ?_
  refine InStep.bind_quiet (checkBudget_steady hm) fun _ => ?_
  have hvalid : Quiet (Abreast limit) (Behind limit) (fun _ => True)
      (callValidRegion memory s.cursor (region.requestedEnd - s.cursor)) :=
    ask_quiet (fun h => memory.validRegion h s.cursor (region.requestedEnd - s.cursor))
      (fun h => .validRegion s.cursor (region.requestedEnd - s.cursor)
        (failureOf (memory.validRegion h s.cursor (region.requestedEnd - s.cursor))))
      fun _ _ _ => trivial
  refine InStep.attempt_bind hvalid (fun answer => answerStep_rounds hm _ _ _ _ _)
    (fun error _ => ?_) fun _ h => absurd h not_false
  refine InStep.bind_quiet (complain_limits _) fun _ => ?_
  exact InStep.bind_quiet (unreadable_steady memory region _ _) fun _ => InStep.pure _

/-- **A region, walked with a limit and without.** -/
theorem walkOne_limits : Limits limit (fun _ => True) (walkOne memory traversalLimit region) := by
  refine InStep.ite (fun _ => walkLarge_limits region) fun _ => ?_
  unfold walkRegion
  split
  · exact record_limits _
  · exact InStep.loop (fun s => regionStep_rounds hm traversalLimit region s) _ _

theorem walkRegions_limits (regions : List PoolRegion) (walked : ℕ) :
    Limits limit (fun outcome => outcome.2 = false)
      (walkRegions memory traversalLimit regions walked) := by
  induction regions generalizing walked with
  | nil => exact InStep.pure _
  | cons region rest ih =>
    refine InStep.attempt_bind (walkOne_limits hm traversalLimit region) (fun _ => ?_)
      (fun _ h => absurd h not_false) fun _ _ => ?_
    · exact limit_limits (InStep.pure _) (ih (walked + 1))
    · exact limit_settles (Settles.pure rfl)

omit hm in
theorem unrelated_expired : Unrelated fun s => { s with budgetExpired := true } :=
  ⟨fun _ _ _ => rfl, fun _ => rfl, fun _ => rfl, fun _ => rfl, fun _ h => h⟩

omit hm in
theorem reportExpiry_limits (budget : Option ℕ) (walked discovered : ℕ) :
    Limits limit (fun _ => True) (reportExpiry budget walked discovered) ∧
      Settles (Behind limit) (fun _ => True) (reportExpiry budget walked discovered) := by
  constructor
  · exact InStep.bind_quiet clearComplete_limits fun _ =>
      InStep.bind_quiet (update_limits unrelated_expired) fun _ => complain_limits _
  · exact (update_settles unrelated_clear).bind fun _ _ =>
      (update_settles unrelated_expired).bind fun _ _ => complain_settles _

theorem recordDiscoveredRegions_limits (regions : List PoolRegion) (budget : Option ℕ)
    (expired : Bool) : Limits limit (fun _ => True)
      (recordDiscoveredRegions memory traversalLimit regions budget expired) := by
  refine (walkRegions_limits hm traversalLimit regions 0).bind (fun outcome => ?_)
    fun outcome _ => ?_
  · exact InStep.ite (fun _ => (reportExpiry_limits _ _ _).1) fun _ => InStep.pure _
  · exact Settles.ite (fun _ => (reportExpiry_limits _ _ _).2) fun _ => Settles.pure trivial

end Walks

/-! ## Whole walks -/

/-- What a walk with no budget has recorded when it comes to sort the spans. -/
def recordUntil (now : History → ℕ) (memory : PoolMemory) (layout : PoolLayout)
    (traversalLimit : ℕ) (matchLimit : Option PoolMatchLimit) :
    Run SnapshotError History PoolSnapshot := do
  let (outcome, discovery) ← building Discovery.empty
    (discoverPoolRegions (budgeted now memory none) layout traversalLimit)
  let expired ← discoveryExpired outcome
  let (walked, snapshot) ← building (kernelStart discovery matchLimit)
    (recordDiscoveredRegions (budgeted now memory none) traversalLimit discovery.regions none
      expired)
  let () ← Run.lift walked
  pure snapshot

/-- The limited walk was not stopped: it is the other one. -/
structure Unstopped (limit : PoolMatchLimit) (limited full : PoolSnapshot) : Prop where
  stopped : limited.stoppedAfterMatches = none
  spans : limited.spans = full.spans
  complete : limited.complete = full.complete
  stalls : limited.stalls = full.stalls
  refusedChunks : limited.refusedChunks = full.refusedChunks
  unplacedBytes : limited.unplacedBytes = full.unplacedBytes
  diagnostics : limited.diagnostics = full.diagnostics
  few : limit.matched full.spans < limit.threshold

section Whole

variable {now : History → ℕ} {memory : PoolMemory} {layout : PoolLayout} {traversalLimit : ℕ}
  {limit : PoolMatchLimit}

theorem Abreast.unstopped {l u : World PoolSnapshot} (h : Abreast limit l u) :
    Unstopped limit l.state u.state := by
  rw [h.state]
  exact ⟨h.going, rfl, rfl, rfl, rfl, rfl, rfl, h.wanting⟩

theorem abreast_kernelStart (h : History) (discovery : Discovery) :
    Abreast limit ⟨h, kernelStart discovery (some limit)⟩ ⟨h, kernelStart discovery none⟩ :=
  ⟨rfl, rfl, rfl, rfl, limit.threshold_pos⟩

theorem Undisturbed.budgeted (hm : Undisturbed memory) (now : History → ℕ) :
    Undisturbed (budgeted now memory none) := ⟨hm.poll, hm.read⟩

section Discovered

variable {matchLimit : Option PoolMatchLimit} {h h' : History}
  {outcome : Except SnapshotError Unit} {found : World Discovery} {expired : Bool}
  {w : World PoolSnapshot}
  (hd : discoverPoolRegions (budgeted now memory none) layout traversalLimit
    ⟨h, Discovery.empty⟩ = (outcome, found))

include hd

theorem building_discovered : building Discovery.empty
    (discoverPoolRegions (budgeted now memory none) layout traversalLimit) h =
      (.ok (outcome, found.state), found.history) := by
  unfold building
  rw [hd]

theorem walkUntil_of_failed {error : SnapshotError}
    (hx : discoveryExpired outcome found.history = (.error error, h')) :
    walkUntil now memory layout traversalLimit none matchLimit h = (.error error, h') := by
  unfold walkUntil
  rw [Run.read_bind_apply]
  exact (Run.bind_of_ok (building_discovered hd)).trans (Run.bind_of_error hx)

theorem walkUntil_of_recorded (hx : discoveryExpired outcome found.history = (.ok expired, h'))
    (hrun : recordDiscoveredRegions (budgeted now memory none) traversalLimit found.state.regions
      none expired ⟨h', kernelStart found.state matchLimit⟩ = (.ok (), w)) :
    recordUntil now memory layout traversalLimit matchLimit h = (.ok w.state, w.history) ∧
      walkUntil now memory layout traversalLimit none matchLimit h =
        (.ok w.state.sortSpans, w.history) := by
  constructor
  · have hrecorded : building (kernelStart found.state matchLimit)
        (recordDiscoveredRegions (budgeted now memory none) traversalLimit found.state.regions none
          expired) h' = (.ok (.ok (), w.state), w.history) := by
      unfold building
      rw [hrun]
    exact (Run.bind_of_ok (building_discovered hd)).trans
      ((Run.bind_of_ok hx).trans (Run.bind_of_ok hrecorded))
  · have hsorted : walkDiscoveredRegions (budgeted now memory none) traversalLimit
        found.state.regions none expired ⟨h', kernelStart found.state matchLimit⟩ =
          (.ok (), ⟨w.history, w.state.sortSpans⟩) := Run.bind_of_ok hrun
    have hwalked : building (kernelStart found.state matchLimit)
        (walkDiscoveredRegions (budgeted now memory none) traversalLimit found.state.regions none
          expired) h' = (.ok (.ok (), w.state.sortSpans), w.history) := by
      unfold building
      rw [hsorted]
    unfold walkUntil
    rw [Run.read_bind_apply]
    exact (Run.bind_of_ok (building_discovered hd)).trans
      ((Run.bind_of_ok hx).trans (Run.bind_of_ok hwalked))

end Discovered

end Whole

def firstFile : PoolMatchLimit :=
  { rawTag := 0x656c6946, paged := some false, threshold := 1, threshold_pos := by decide,
    threshold_lt := by decide }

theorem smallTarget_undisturbed (words : ℕ → ℕ) (unreadable : Option ℕ) :
    Undisturbed (smallTarget words unreadable) := ⟨fun _ => rfl, fun _ _ _ _ h => by cases h⟩

end DbgScope.Pool
