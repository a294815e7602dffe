import DbgScope.Serial

/-!
# The watchdog

A thread that calls `on_deadline` once a deadline has passed and again after each repeat, until it
is told to stop through a flag, a lock and a condition variable. The model interleaves the thread
with the thread that armed it, one memory access or call at a time, with time passing in between
and a wait that may end for no reason.

1. The lock is held over the thread's check of the flag and the beginning of its wait, and over the
   setting of the flag and the notification (`Sound.lockThread`, `Sound.lockCaller`), so a set flag
   finds no thread asleep except between those two (`Sound.told`).
2. `stop` returns when the thread has finished, so nothing is called afterwards (`Sound.joined`).
3. A call is on record before `fired` is stored, and the thread finishes only after storing it
   (`Sound.called`).
4. With the flag set, every step of the thread lowers a rank (`rank_serve`).
-/

namespace DbgScope.Engine

def watchdogRepeat : ℕ := 200000000

inductive Holder
  | nobody
  | watchdog
  | caller
  deriving DecidableEq, Repr

inductive ThreadAt
  /-- Spawned, the clock not yet read. -/
  | starting
  /-- At the head of the loop, about to work out how long to sleep. -/
  | napping
  | locking (nap : ℕ)
  | checking (nap : ℕ)
  /-- The flag was not set; the wait has not begun. -/
  | settling (nap : ℕ)
  | waiting (until' : ℕ) (notified : Bool)
  /-- Woken up and in want of the lock. -/
  | relocking
  | rechecking
  /-- Out of the lock, about to compare the clock with the deadline. -/
  | looking
  | due
  | calling
  /-- `on_deadline` has returned. -/
  | storing
  | finished
  deriving DecidableEq, Repr

def ThreadAt.notified : ThreadAt → ThreadAt
  | .waiting until' _ => .waiting until' true
  | thread => thread

/-- What follows a `stop`: nothing, or the rest of a `disarm`. -/
inductive Then
  | back
  | load
  | answer
  deriving DecidableEq, Repr

inductive CallerAt
  | idle
  | locking (after : Then)
  | raising (after : Then)
  | notifying (after : Then)
  | unlocking (after : Then)
  | joining (after : Then)
  /-- `disarm`, its `stop` done. -/
  | loading
  /-- `disarm`, the watchdog dropped. -/
  | answering
  deriving DecidableEq, Repr

/-- Where the arming thread is when a `stop` has returned. -/
def Then.next : Then → CallerAt
  | .back => .idle
  | .load => .loading
  | .answer => .answering

inductive WatchEvent
  | called (time : ℕ)
  | stopped
  | disarmed (answer : Bool)
  deriving DecidableEq, Repr

/-- Everything the two threads share, and where they are. The log is newest first. -/
structure WatchWorld where
  clock : ℕ
  start : ℕ
  holder : Holder
  disarmed : Bool
  fired : Bool
  /-- Whether the thread is still to be joined. -/
  handle : Bool
  thread : ThreadAt
  caller : CallerAt
  loaded : Bool
  log : List WatchEvent
  deriving DecidableEq, Repr

namespace WatchWorld

def threadStep (deadline : ℕ) (w : WatchWorld) : Option WatchWorld :=
  match w.thread with
  | .starting => some { w with start := w.clock, thread := .napping }
  | .napping =>
    let nap := if w.fired then watchdogRepeat else deadline - (w.clock - w.start)
    some { w with thread := .locking nap }
  | .locking nap =>
    if w.holder = .nobody then some { w with holder := .watchdog, thread := .checking nap }
    else none
  | .checking nap =>
    if w.disarmed then some { w with holder := .nobody, thread := .finished }
    else some { w with thread := .settling nap }
  -- the wait gives the lock back and begins in one
  | .settling nap => some { w with holder := .nobody, thread := .waiting (w.clock + nap) false }
  | .waiting until' notified =>
    if notified ∨ until' ≤ w.clock then some { w with thread := .relocking } else none
  | .relocking =>
    if w.holder = .nobody then some { w with holder := .watchdog, thread := .rechecking }
    else none
  | .rechecking =>
    some { w with holder := .nobody, thread := if w.disarmed then .finished else .looking }
  | .looking =>
    some { w with thread := if deadline ≤ w.clock - w.start then .due else .napping }
  | .due => some { w with thread := .calling, log := .called w.clock :: w.log }
  | .calling => some { w with thread := .storing }
  | .storing => some { w with fired := true, thread := .napping }
  | .finished => none

/-- One step of the arming thread; `none` where it is blocked or has nothing to do. -/
def callerStep (w : WatchWorld) : Option WatchWorld :=
  match w.caller with
  | .idle => none
  | .locking after =>
    if w.holder = .nobody then some { w with holder := .caller, caller := .raising after }
    else none
  | .raising after => some { w with disarmed := true, caller := .notifying after }
  | .notifying after =>
    some { w with thread := w.thread.notified, caller := .unlocking after }
  | .unlocking after => some { w with holder := .nobody, caller := .joining after }
  | .joining after =>
    -- a thread already taken is not joined again
    if w.handle = false ∨ w.thread = .finished then
      some { w with handle := false, caller := after.next, log := .stopped :: w.log }
    else none
  | .loading => some { w with loaded := w.fired, caller := .locking .answer }
  | .answering => some { w with caller := .idle, log := .disarmed w.loaded :: w.log }

end WatchWorld

/-- A step of either thread, or of the world around them. -/
inductive WatchMove
  | time (passed : ℕ)
  | thread
  /-- A wait ends for no reason. -/
  | spurious
  | stop
  | disarm
  | caller
  deriving DecidableEq, Repr

def WatchWorld.move (deadline : ℕ) (w : WatchWorld) : WatchMove → Option WatchWorld
  | .time passed => some { w with clock := w.clock + passed }
  | .thread => w.threadStep deadline
  | .spurious =>
    match w.thread with
    | .waiting _ _ => some { w with thread := .relocking }
    | _ => none
  | .stop => if w.caller = .idle then some { w with caller := .locking .back } else none
  | .disarm => if w.caller = .idle then some { w with caller := .locking .load } else none
  | .caller => w.callerStep

/-- The two threads after `arm`, at a time. A move that is not possible changes nothing. -/
def watchdog (deadline armedAt : ℕ) : Serial WatchWorld WatchMove Bool where
  start :=
    { clock := armedAt, start := 0, holder := .nobody, disarmed := false, fired := false,
      handle := true, thread := .starting, caller := .idle, loaded := false, log := [] }
  serve move w :=
    match w.move deadline move with
    | some w' => (true, w')
    | none => (false, w)

/-! ## What holds throughout -/

@[simp] def ThreadAt.holds : ThreadAt → Bool
  | .checking _ | .settling _ | .rechecking => true
  | _ => false

/-- The thread waits and has not been notified. -/
@[simp] def ThreadAt.sleeps : ThreadAt → Bool
  | .waiting _ false => true
  | _ => false

@[simp] def ThreadAt.inside : ThreadAt → Bool
  | .calling | .storing => true
  | _ => false

/-- The arming thread holds the lock. -/
@[simp] def CallerAt.holds : CallerAt → Bool
  | .raising _ | .notifying _ | .unlocking _ => true
  | _ => false

@[simp] def CallerAt.raised : CallerAt → Bool
  | .notifying _ | .unlocking _ | .joining _ => true
  | _ => false

/-- The flag is set and the notification is still to come. -/
@[simp] def CallerAt.tells : CallerAt → Bool
  | .notifying _ => true
  | _ => false

@[simp] def CallerAt.hasLoaded : CallerAt → Bool
  | .locking .answer | .raising .answer | .notifying .answer | .unlocking .answer
  | .joining .answer | .answering => true
  | _ => false

/-- The arming thread is in a `disarm` whose first `stop` has returned. -/
@[simp] def CallerAt.closing (caller : CallerAt) : Bool :=
  caller.hasLoaded || decide (caller = .loading)

theorem CallerAt.closing_of_hasLoaded {caller : CallerAt} (h : caller.hasLoaded = true) :
    caller.closing = true := by
  rw [closing, h, Bool.true_or]

@[simp] theorem CallerAt.hasLoaded_stop (after : Then) :
    (locking after).hasLoaded = decide (after = .answer) ∧
      (raising after).hasLoaded = decide (after = .answer) ∧
      (notifying after).hasLoaded = decide (after = .answer) ∧
      (unlocking after).hasLoaded = decide (after = .answer) ∧
      (joining after).hasLoaded = decide (after = .answer) := by
  cases after <;> decide

def Called (log : List WatchEvent) : Prop := ∃ time, .called time ∈ log

/-- Nothing is called after a `stop` returned, a `disarm` returns after one, and it returns whether
something was called. -/
def Ordered : List WatchEvent → Prop
  | [] => True
  | .called _ :: past => .stopped ∉ past ∧ Ordered past
  | .stopped :: past => Ordered past
  | .disarmed answer :: past => .stopped ∈ past ∧ (answer = true ↔ Called past) ∧ Ordered past

theorem called_cons (event : WatchEvent) (past : List WatchEvent) :
    Called (event :: past) ↔ (∃ time, event = .called time) ∨ Called past := by
  simp [Called, exists_or, eq_comm]

/-- What holds of the two threads however they are interleaved. -/
structure Sound (deadline armedAt : ℕ) (w : WatchWorld) : Prop where
  lockThread : w.holder = .watchdog ↔ w.thread.holds = true
  lockCaller : w.holder = .caller ↔ w.caller.holds = true
  told : w.disarmed = true → w.thread.sleeps = true → w.caller.tells = true
  settling : ∀ nap, w.thread = .settling nap → w.disarmed = false
  raised : w.caller.raised = true → w.disarmed = true
  joined : w.handle = false → w.thread = .finished ∧ w.disarmed = true
  stopped : .stopped ∈ w.log ↔ w.handle = false
  closing : w.caller.closing = true → w.handle = false
  loaded : w.caller.hasLoaded = true → (w.loaded = true ↔ Called w.log)
  called : Called w.log ↔ w.fired = true ∨ w.thread.inside = true
  began : armedAt ≤ w.clock ∧ (w.thread ≠ .starting → armedAt ≤ w.start ∧ w.start ≤ w.clock)
  due : w.thread = .due → w.start + deadline ≤ w.clock
  onTime : ∀ time, .called time ∈ w.log → armedAt + deadline ≤ time
  ordered : Ordered w.log

section Steps

variable {deadline armedAt : ℕ} {w w' : WatchWorld}

variable (h : Sound deadline armedAt w) {after : Then}
include h

theorem Sound.handle_of_ne (hthread : w.thread ≠ .finished) : w.handle ≠ false :=
  fun hhandle => hthread (h.joined hhandle).1

theorem Sound.moved (holder : Holder) (thread : ThreadAt)
    (hthread : w.thread ≠ .finished := by simp_all)
    (hstarting : w.thread ≠ .starting := by simp_all)
    (hlock : holder = .watchdog ↔ thread.holds = true := by simp_all)
    (hcaller : holder = .caller ↔ w.holder = .caller := by simp_all)
    (hsleeps : thread.sleeps = true → w.disarmed = false := by simp_all)
    (hsettling : ∀ nap, thread = .settling nap → w.disarmed = false := by simp_all)
    (hinside : thread.inside = w.thread.inside := by simp_all)
    (hdue : thread = .due → w.start + deadline ≤ w.clock := by simp_all) :
    Sound deadline armedAt { w with holder := holder, thread := thread } :=
  { h with
    lockThread := hlock
    lockCaller := hcaller.trans h.lockCaller
    told hdisarmed hsleep := by
      have hdisarmed : w.disarmed = true := hdisarmed
      rw [hsleeps hsleep] at hdisarmed
      cases hdisarmed
    settling := hsettling
    joined hhandle := absurd hhandle (h.handle_of_ne hthread)
    called := by
      show Called w.log ↔ w.fired = true ∨ thread.inside = true
      rw [hinside]
      exact h.called
    began := ⟨h.began.1, fun _ => h.began.2 hstarting⟩
    due := hdue }

theorem Sound.threadStep (hstep : w.threadStep deadline = some w') : Sound deadline armedAt w' := by
  have hlock := h.lockThread
  unfold WatchWorld.threadStep at hstep
  cases hthread : w.thread <;> simp only [hthread] at hstep hlock
  case starting =>
    cases hstep
    exact { h with
      lockThread := hlock
      told := fun _ hsleep => by cases hsleep
      settling := fun _ heq => by cases heq
      joined := fun hhandle => absurd hhandle (h.handle_of_ne (by simp [hthread]))
      called := by simpa [hthread] using h.called
      began := ⟨h.began.1, fun _ => ⟨h.began.1, le_refl _⟩⟩
      due := fun heq => by cases heq }
  case napping =>
    cases hstep
    exact h.moved w.holder _
  case locking nap =>
    split at hstep
    · next hnobody =>
      cases hstep
      exact h.moved .watchdog _
    · cases hstep
  case checking nap =>
    have hholder := hlock.mpr rfl
    split at hstep
    · cases hstep
      exact h.moved .nobody _
    · next hdisarmed =>
      cases hstep
      exact h.moved w.holder _
  case settling nap =>
    cases hstep
    have hholder := hlock.mpr rfl
    have hdisarmed := h.settling nap hthread
    exact h.moved .nobody _
  case waiting until' notified =>
    split at hstep
    · cases hstep
      exact h.moved w.holder _
    · cases hstep
  case relocking =>
    split at hstep
    · next hnobody =>
      cases hstep
      exact h.moved .watchdog _
    · cases hstep
  case rechecking =>
    cases hstep
    have hholder := hlock.mpr rfl
    split
    all_goals
      exact h.moved .nobody _
  case looking =>
    cases hstep
    have hbegan := h.began.2 (by simp [hthread])
    split
    · have hdue : w.start + deadline ≤ w.clock := by omega
      exact h.moved w.holder _
    · exact h.moved w.holder _
  case due =>
    cases hstep
    have hdue := h.due hthread
    have hbegan := h.began.2 (by simp [hthread])
    have hhandle := h.handle_of_ne (by simp [hthread])
    exact { h with
      lockThread := by simpa using hlock
      told := fun _ hsleep => by cases hsleep
      settling := fun _ heq => by cases heq
      joined := fun hjoined => absurd hjoined hhandle
      stopped := by simpa using h.stopped
      loaded := fun hloaded => absurd (h.closing (CallerAt.closing_of_hasLoaded hloaded)) hhandle
      called := by simp [called_cons]
      began := ⟨h.began.1, fun _ => hbegan⟩
      due := fun heq => by cases heq
      onTime := fun time hmem => by
        rcases List.mem_cons.mp hmem with heq | hmem
        · cases heq
          omega
        · exact h.onTime time hmem
      ordered := ⟨fun hmem => hhandle (h.stopped.mp hmem), h.ordered⟩ }
  case calling =>
    cases hstep
    exact h.moved w.holder _
  case storing =>
    cases hstep
    exact { h with
      lockThread := by simpa using hlock
      told := fun _ hsleep => by cases hsleep
      settling := fun _ heq => by cases heq
      joined := fun hjoined => absurd hjoined (h.handle_of_ne (by simp [hthread]))
      called := by simpa [hthread] using h.called
      began := ⟨h.began.1, fun _ => h.began.2 (by simp [hthread])⟩
      due := fun heq => by cases heq }
  case finished => cases hstep

theorem Sound.callerMoved (holder : Holder) (caller : CallerAt)
    (hlock : holder = .watchdog ↔ w.holder = .watchdog)
    (hcaller : holder = .caller ↔ caller.holds = true)
    (htells : w.caller.tells = true → caller.tells = true)
    (hraised : caller.raised = true → w.disarmed = true)
    (hclosing : caller.closing = true → w.handle = false)
    (hloaded : caller.hasLoaded = true → (w.loaded = true ↔ Called w.log)) :
    Sound deadline armedAt { w with holder := holder, caller := caller } :=
  { h with
    lockThread := hlock.trans h.lockThread
    lockCaller := hcaller
    told hdisarmed hsleep := htells (h.told hdisarmed hsleep)
    raised := hraised
    closing := hclosing
    loaded := hloaded }

theorem Sound.raise (hcaller : w.caller = .raising after) :
    Sound deadline armedAt { w with disarmed := true, caller := .notifying after } :=
  { h with
    lockCaller := by simpa [hcaller] using h.lockCaller
    told _ _ := rfl
    settling nap hthread := by
      -- the arming thread has the lock, so the thread is not about to wait
      have hholder := h.lockThread.mpr (by simpa using congrArg ThreadAt.holds hthread)
      have hholder' := h.lockCaller.mpr (by simp [hcaller])
      simp [hholder] at hholder'
    raised _ := rfl
    joined hhandle := ⟨(h.joined hhandle).1, rfl⟩
    closing := by simpa [hcaller, -CallerAt.hasLoaded] using h.closing
    loaded := by simpa [hcaller, -CallerAt.hasLoaded] using h.loaded }

omit h in
theorem ThreadAt.notified_cases (thread : ThreadAt) :
    thread.notified.sleeps = false ∧
      (thread.notified = thread ∨
        ∃ until', thread = .waiting until' false ∧ thread.notified = .waiting until' true) := by
  cases thread with
  | waiting until' woken => cases woken <;> simp [notified]
  | _ => simp [notified]

theorem Sound.notify (hcaller : w.caller = .notifying after) : Sound deadline armedAt
      { w with thread := w.thread.notified, caller := .unlocking after } := by
  obtain ⟨hawake, hplace⟩ := w.thread.notified_cases
  have hthread : ∀ {α : Type} (f : ThreadAt → α),
      (∀ until', f (.waiting until' true) = f (.waiting until' false)) →
        f w.thread.notified = f w.thread := by
    intro α f hf
    rcases hplace with hsame | ⟨until', hwaiting, hnotified⟩
    · rw [hsame]
    · rw [hnotified, hwaiting, hf]
  exact
    { h with
      lockThread := by
        rw [hthread ThreadAt.holds fun _ => rfl]
        exact h.lockThread
      lockCaller := by simpa [hcaller] using h.lockCaller
      told := fun _ hsleep => absurd hsleep (by rw [hawake]; simp)
      settling := fun nap heq => h.settling nap (by
        rwa [← hthread (· = .settling nap) fun _ => by simp])
      raised := fun _ => h.raised (by simp [hcaller])
      joined := fun hhandle => by
        rw [hthread (· = .finished) fun _ => by simp]
        exact h.joined hhandle
      closing := by simpa [hcaller, -CallerAt.hasLoaded] using h.closing
      loaded := by simpa [hcaller, -CallerAt.hasLoaded] using h.loaded
      called := by
        rw [hthread ThreadAt.inside fun _ => rfl]
        exact h.called
      began := by
        rw [hthread (· ≠ .starting) fun _ => by simp]
        exact h.began
      due := by
        rw [hthread (· = .due) fun _ => by simp]
        exact h.due }

theorem Sound.join (hcaller : w.caller = .joining after)
    (hjoin : w.handle = false ∨ w.thread = .finished) : Sound deadline armedAt
      { w with handle := false, caller := after.next, log := .stopped :: w.log } := by
  have hthread : w.thread = .finished := hjoin.elim (fun hhandle => (h.joined hhandle).1) id
  have hcalled : Called (.stopped :: w.log) ↔ Called w.log := by simp [called_cons]
  exact {
    lockThread := h.lockThread
    lockCaller := by
      have hlock := h.lockCaller
      cases after <;> simpa [hcaller, Then.next] using hlock
    told := fun _ hsleep => by simp [hthread] at hsleep
    settling := h.settling
    raised := fun hraised => by cases after <;> simp [Then.next] at hraised
    joined := fun _ => ⟨hthread, h.raised (by simp [hcaller])⟩
    stopped := by simp
    closing := fun _ => rfl
    loaded := by
      have hloaded := h.loaded
      cases after <;> simp_all [Then.next]
    called := hcalled.trans h.called
    began := h.began
    due := h.due
    onTime := fun time hmem => h.onTime time (by simpa using hmem)
    ordered := h.ordered }

theorem Sound.load (hcaller : w.caller = .loading) :
    Sound deadline armedAt { w with loaded := w.fired, caller := .locking .answer } := by
  have hhandle := h.closing (by simp [hcaller])
  have hinside : w.thread.inside = false := by simp [(h.joined hhandle).1]
  exact { h with
    lockCaller := by simpa [hcaller] using h.lockCaller
    told := fun hdisarmed hsleep => by simpa [hcaller] using h.told hdisarmed hsleep
    raised := by simp
    closing := fun _ => hhandle
    loaded := fun _ => by
      have hcalled := h.called
      rw [hinside] at hcalled
      simpa using hcalled.symm }

theorem Sound.answer (hcaller : w.caller = .answering) :
    Sound deadline armedAt { w with caller := .idle, log := .disarmed w.loaded :: w.log } := by
  have hhandle := h.closing (by simp [hcaller])
  have hcalled : Called (.disarmed w.loaded :: w.log) ↔ Called w.log := by simp [called_cons]
  exact { h with
    lockCaller := by simpa [hcaller] using h.lockCaller
    told := fun hdisarmed hsleep => by simpa [hcaller] using h.told hdisarmed hsleep
    raised := by simp
    stopped := by simpa using h.stopped
    closing := by simp
    loaded := by simp
    called := hcalled.trans h.called
    onTime := fun time hmem => h.onTime time (by simpa using hmem)
    ordered := ⟨h.stopped.mpr hhandle, h.loaded (by simp [hcaller]), h.ordered⟩ }

theorem Sound.callerStep (hstep : w.callerStep = some w') : Sound deadline armedAt w' := by
  unfold WatchWorld.callerStep at hstep
  cases hcaller : w.caller <;> simp only [hcaller] at hstep
  case idle => cases hstep
  case locking after =>
    split at hstep
    · next hnobody =>
      cases hstep
      exact h.callerMoved .caller _ (by simp [hnobody]) (by simp) (by simp [hcaller]) (by simp)
        (by simpa [hcaller, -CallerAt.hasLoaded] using h.closing)
        (by simpa [hcaller, -CallerAt.hasLoaded] using h.loaded)
    · cases hstep
  case raising after =>
    cases hstep
    exact h.raise hcaller
  case notifying after =>
    cases hstep
    exact h.notify hcaller
  case unlocking after =>
    cases hstep
    have hholder := h.lockCaller.mpr (by simp [hcaller])
    exact h.callerMoved .nobody _ (by simp [hholder]) (by simp) (by simp [hcaller])
      (fun _ => h.raised (by simp [hcaller]))
      (by simpa [hcaller, -CallerAt.hasLoaded] using h.closing)
      (by simpa [hcaller, -CallerAt.hasLoaded] using h.loaded)
  case joining after =>
    split at hstep
    · next hjoin =>
      cases hstep
      exact h.join hcaller hjoin
    · cases hstep
  case loading =>
    cases hstep
    exact h.load hcaller
  case answering =>
    cases hstep
    exact h.answer hcaller

theorem Sound.move {move : WatchMove} (hmove : w.move deadline move = some w') :
    Sound deadline armedAt w' := by
  cases move with
  | time passed =>
    cases hmove
    exact { h with
      began := ⟨h.began.1.trans (Nat.le_add_right _ _), fun hthread =>
        ⟨(h.began.2 hthread).1, (h.began.2 hthread).2.trans (Nat.le_add_right _ _)⟩⟩
      due := fun hthread => (h.due hthread).trans (Nat.le_add_right _ _) }
  | thread => exact h.threadStep hmove
  | spurious =>
    have hlock := h.lockThread
    unfold WatchWorld.move at hmove
    cases hthread : w.thread <;> simp only [hthread] at hmove hlock
    case waiting until' notified =>
      cases hmove
      exact h.moved w.holder _
    all_goals cases hmove
  | stop =>
    simp only [WatchWorld.move] at hmove
    split at hmove
    · next hidle =>
      cases hmove
      exact h.callerMoved w.holder _ Iff.rfl (by simpa [hidle] using h.lockCaller)
        (by simp [hidle]) (by simp) (by simp) (by simp)
    · cases hmove
  | disarm =>
    simp only [WatchWorld.move] at hmove
    split at hmove
    · next hidle =>
      cases hmove
      exact h.callerMoved w.holder _ Iff.rfl (by simpa [hidle] using h.lockCaller)
        (by simp [hidle]) (by simp) (by simp) (by simp)
    · cases hmove
  | caller => exact h.callerStep hmove

end Steps

section Runs

variable {deadline armedAt : ℕ} {w w' : WatchWorld}

theorem serve_of_some {move : WatchMove} (h : w.move deadline move = some w') :
    (watchdog deadline armedAt).serve move w = (true, w') := by
  simp [watchdog, h]

theorem serve_cases (deadline armedAt : ℕ) (move : WatchMove) (w : WatchWorld) :
    (watchdog deadline armedAt).serve move w = (false, w) ∨
      ∃ w', w.move deadline move = some w' ∧
        (watchdog deadline armedAt).serve move w = (true, w') := by
  cases h : w.move deadline move with
  | none => exact .inl (by simp [watchdog, h])
  | some w' => exact .inr ⟨w', rfl, serve_of_some h⟩

theorem after_cons_of_move (moves : List WatchMove) {move : WatchMove}
    (h : ((watchdog deadline armedAt).after moves).move deadline move = some w') :
    (watchdog deadline armedAt).after (move :: moves) = w' := by
  rw [Serial.after_cons, serve_of_some h]

/-- **Every interleaving keeps the two threads sound.** -/
theorem watchdog_sound (deadline armedAt : ℕ) (moves : List WatchMove) :
    Sound deadline armedAt ((watchdog deadline armedAt).after moves) := by
  refine (Serial.always_of_step (I := Sound deadline armedAt) ?_ ?_
    (Serial.throughout_true moves)).now
  · constructor <;> simp [watchdog, Called, Ordered]
  · intro w move h _
    rcases serve_cases deadline armedAt move w with hsame | ⟨w', hmove, hnext⟩
    · rw [hsame]
      exact h
    · rw [hnext]
      exact h.move hmove

/-! ## A stop is observed -/

/-- How many steps the thread has at most until it finishes, the flag being set. -/
@[simp] def ThreadAt.rank : ThreadAt → ℕ
  | .finished => 0
  | .checking _ | .settling _ | .rechecking => 1
  | .locking _ | .relocking => 2
  | .waiting _ _ | .napping => 3
  | .starting | .storing => 4
  | .calling => 5
  | .due => 6
  | .looking => 7

theorem ThreadAt.rank_le (thread : ThreadAt) : thread.rank ≤ 7 := by
  cases thread <;> simp

theorem threadStep_lowers (h : Sound deadline armedAt w) (hdisarmed : w.disarmed = true)
    (hstep : w.threadStep deadline = some w') :
    w'.thread.rank < w.thread.rank ∧ w'.disarmed = true ∧ w'.caller = w.caller ∧
      w'.clock = w.clock ∧ (w.holder ≠ .caller → w'.holder ≠ .caller) := by
  unfold WatchWorld.threadStep at hstep
  have hsettling := h.settling
  cases hthread : w.thread <;> simp only [hthread] at hstep hsettling
  case settling nap => simp [hdisarmed] at hsettling
  case looking =>
    cases hstep
    refine ⟨?_, hdisarmed, rfl, rfl, id⟩
    split <;> simp
  case finished => cases hstep
  all_goals
    first
    | cases hstep; simp [hdisarmed]
    | split at hstep <;> cases hstep <;> simp_all

theorem threadStep_enabled (h : Sound deadline armedAt w) (hdisarmed : w.disarmed = true)
    (hholder : w.holder ≠ .caller) (hthread : w.thread ≠ .finished) :
    ∃ w', w.threadStep deadline = some w' := by
  have hlock := h.lockThread
  have hnobody : w.thread.holds = false → w.holder = .nobody := by
    intro hfree
    cases hw : w.holder <;> simp_all
  unfold WatchWorld.threadStep
  cases hplace : w.thread <;> simp only [hplace] at hthread hnobody
  case locking nap => exact ⟨_, if_pos (hnobody rfl)⟩
  case relocking => exact ⟨_, if_pos (hnobody rfl)⟩
  case waiting until' notified =>
    cases notified with
    | true => exact ⟨_, if_pos (.inl rfl)⟩
    | false =>
      have htells := h.told hdisarmed (by simp [hplace])
      exact absurd (h.lockCaller.mpr (by cases hc : w.caller <;> simp_all)) hholder
  case finished => exact absurd rfl hthread
  case checking nap => exact ⟨_, if_pos hdisarmed⟩
  all_goals exact ⟨_, rfl⟩

theorem rank_serve (h : Sound deadline armedAt w) (hdisarmed : w.disarmed = true)
    (move : WatchMove) :
    ((watchdog deadline armedAt).serve move w).2.disarmed = true ∧
      ((watchdog deadline armedAt).serve move w).2.thread.rank +
        (if move = .thread ∧ ((watchdog deadline armedAt).serve move w).1 = true then 1 else 0) ≤
          w.thread.rank := by
  rcases serve_cases deadline armedAt move w with hsame | ⟨w', hmove, hnext⟩
  · simp [hsame, hdisarmed]
  rw [hnext]
  cases move with
  | time passed =>
    cases hmove
    simp [hdisarmed]
  | thread =>
    obtain ⟨hlower, hdisarmed', -⟩ := threadStep_lowers h hdisarmed hmove
    exact ⟨hdisarmed', by simpa using hlower⟩
  | spurious =>
    unfold WatchWorld.move at hmove
    cases hthread : w.thread <;> simp only [hthread] at hmove <;> cases hmove
    simp [hdisarmed]
  | stop =>
    simp only [WatchWorld.move] at hmove
    split at hmove <;> cases hmove
    simp [hdisarmed]
  | disarm =>
    simp only [WatchWorld.move] at hmove
    split at hmove <;> cases hmove
    simp [hdisarmed]
  | caller =>
    simp only [WatchWorld.move, WatchWorld.callerStep] at hmove
    cases hcaller : w.caller <;> simp only [hcaller] at hmove
    case idle => cases hmove
    case notifying after =>
      cases hmove
      refine ⟨hdisarmed, ?_⟩
      rcases w.thread.notified_cases.2 with hsame | ⟨until', hwaiting, -⟩
      · simp [hsame]
      · simp [hwaiting, ThreadAt.notified]
    all_goals
      first
      | cases hmove; simp [hdisarmed]
      | split at hmove <;> cases hmove; simp [hdisarmed]

def threadSteps (deadline armedAt : ℕ) (past : List WatchMove) : List WatchMove → ℕ
  | [] => 0
  | move :: later =>
    threadSteps deadline armedAt past later +
      if move = .thread ∧ ((watchdog deadline armedAt).serve move
        ((watchdog deadline armedAt).after (later ++ past))).1 = true then 1 else 0

/-- **Once the flag is set the thread takes no more than seven steps**, whatever else happens. -/
theorem threadSteps_le {past : List WatchMove}
    (h : ((watchdog deadline armedAt).after past).disarmed = true) (later : List WatchMove) :
    threadSteps deadline armedAt past later ≤ 7 := by
  suffices hrank : ((watchdog deadline armedAt).after (later ++ past)).disarmed = true ∧
      threadSteps deadline armedAt past later +
        ((watchdog deadline armedAt).after (later ++ past)).thread.rank ≤
          ((watchdog deadline armedAt).after past).thread.rank by
    have := ((watchdog deadline armedAt).after past).thread.rank_le
    omega
  induction later with
  | nil => exact ⟨h, by simp [threadSteps]⟩
  | cons move later ih =>
    obtain ⟨hdisarmed, hrank⟩ := ih
    obtain ⟨hdisarmed', hrank'⟩ :=
      rank_serve (watchdog_sound deadline armedAt (later ++ past)) hdisarmed move
    refine ⟨hdisarmed', ?_⟩
    simp only [threadSteps, List.cons_append, Serial.after_cons]
    omega

/-- With the flag set and the lock free, the thread finishes by its own steps, in no time. -/
theorem thread_finishes {n : ℕ} (moves : List WatchMove)
    (hdisarmed : ((watchdog deadline armedAt).after moves).disarmed = true)
    (hholder : ((watchdog deadline armedAt).after moves).holder ≠ .caller)
    (hrank : ((watchdog deadline armedAt).after moves).thread.rank ≤ n) :
    ∃ k ≤ n,
      ((watchdog deadline armedAt).after (List.replicate k .thread ++ moves)).thread = .finished ∧
      ((watchdog deadline armedAt).after (List.replicate k .thread ++ moves)).caller =
        ((watchdog deadline armedAt).after moves).caller ∧
      ((watchdog deadline armedAt).after (List.replicate k .thread ++ moves)).clock =
        ((watchdog deadline armedAt).after moves).clock := by
  induction n generalizing moves with
  | zero =>
    refine ⟨0, le_refl _, ?_, rfl, rfl⟩
    show ((watchdog deadline armedAt).after moves).thread = .finished
    cases hthread : ((watchdog deadline armedAt).after moves).thread <;> simp_all
  | succ n ih =>
    by_cases hthread : ((watchdog deadline armedAt).after moves).thread = .finished
    · exact ⟨0, Nat.zero_le _, hthread, rfl, rfl⟩
    have hsound := watchdog_sound deadline armedAt moves
    obtain ⟨w', hstep⟩ := threadStep_enabled hsound hdisarmed hholder hthread
    obtain ⟨hlower, hdisarmed', hcaller, hclock, hholder'⟩ :=
      threadStep_lowers hsound hdisarmed hstep
    have hnext : (watchdog deadline armedAt).after (.thread :: moves) = w' :=
      after_cons_of_move moves hstep
    obtain ⟨k, hk, hfinished, hcaller', hclock'⟩ := ih (.thread :: moves) (by rwa [hnext])
      (by rw [hnext]; exact hholder' hholder) (by rw [hnext]; omega)
    have hreplicate : List.replicate k WatchMove.thread ++ .thread :: moves =
        List.replicate (k + 1) .thread ++ moves := by
      rw [List.replicate_succ', List.append_assoc]
      rfl
    rw [hreplicate] at hfinished hcaller' hclock'
    refine ⟨k + 1, Nat.succ_le_succ hk, hfinished, ?_, ?_⟩
    · rw [hcaller', hnext, hcaller]
    · rw [hclock', hnext, hclock]

/-- A thread that has the lock gives it back by its own steps, in no time. -/
theorem thread_releases (moves : List WatchMove)
    (hholder : ((watchdog deadline armedAt).after moves).holder ≠ .caller) :
    ∃ k ≤ 2,
      ((watchdog deadline armedAt).after (List.replicate k .thread ++ moves)).holder = .nobody ∧
      ((watchdog deadline armedAt).after (List.replicate k .thread ++ moves)).caller =
        ((watchdog deadline armedAt).after moves).caller ∧
      ((watchdog deadline armedAt).after (List.replicate k .thread ++ moves)).clock =
        ((watchdog deadline armedAt).after moves).clock := by
  have hlock := (watchdog_sound deadline armedAt moves).lockThread
  set w := (watchdog deadline armedAt).after moves with hw
  have hfree : w.thread.holds = false → w.holder = .nobody := by
    intro hfree
    cases hholder' : w.holder <;> simp_all
  -- one step is enough where the thread is past its check of the flag
  have hone : ∀ thread, w.move deadline .thread = some { w with holder := .nobody, thread } →
      (watchdog deadline armedAt).after (List.replicate 1 .thread ++ moves) =
        { w with holder := .nobody, thread } := fun thread hmove =>
    after_cons_of_move moves hmove
  cases hthread : w.thread <;> simp only [hthread] at hfree
  case checking nap =>
    cases hdisarmed : w.disarmed with
    | true =>
      refine ⟨1, by omega, ?_⟩
      rw [hone .finished (by simp [WatchWorld.move, WatchWorld.threadStep, hthread, hdisarmed])]
      exact ⟨rfl, rfl, rfl⟩
    | false =>
      have hfirst : (watchdog deadline armedAt).after (.thread :: moves) =
          { w with thread := .settling nap } := after_cons_of_move moves (by
        simp [← hw, WatchWorld.move, WatchWorld.threadStep, hthread, hdisarmed])
      have hsecond : (watchdog deadline armedAt).after (.thread :: .thread :: moves) =
          { w with holder := .nobody, thread := .waiting (w.clock + nap) false } := by
        rw [Serial.after_cons, hfirst]
        rfl
      have hrun : List.replicate 2 WatchMove.thread ++ moves = .thread :: .thread :: moves := rfl
      refine ⟨2, le_refl _, ?_⟩
      rw [hrun, hsecond]
      exact ⟨rfl, rfl, rfl⟩
  case settling nap =>
    refine ⟨1, by omega, ?_⟩
    rw [hone (.waiting (w.clock + nap) false)
      (by simp [WatchWorld.move, WatchWorld.threadStep, hthread])]
    exact ⟨rfl, rfl, rfl⟩
  case rechecking =>
    refine ⟨1, by omega, ?_⟩
    rw [hone (if w.disarmed then .finished else .looking)
      (by simp only [WatchWorld.move, WatchWorld.threadStep, hthread])]
    exact ⟨rfl, rfl, rfl⟩
  all_goals exact ⟨0, Nat.zero_le _, hfree rfl, rfl, rfl⟩

/-- A `stop` that gets the lock sets the flag, notifies and gives the lock back, in no time. -/
theorem stop_raises (moves : List WatchMove) {after : Then}
    (hcaller : ((watchdog deadline armedAt).after moves).caller = .locking after)
    (hholder : ((watchdog deadline armedAt).after moves).holder = .nobody) :
    (watchdog deadline armedAt).after (List.replicate 4 .caller ++ moves) =
      { (watchdog deadline armedAt).after moves with
        holder := .nobody, disarmed := true, caller := .joining after,
        thread := ((watchdog deadline armedAt).after moves).thread.notified } := by
  set w := (watchdog deadline armedAt).after moves with hw
  have hlocked : (watchdog deadline armedAt).after (.caller :: moves) =
      { w with holder := .caller, caller := .raising after } := after_cons_of_move moves (by
    simp [← hw, WatchWorld.move, WatchWorld.callerStep, hcaller, hholder])
  have hraised : (watchdog deadline armedAt).after (.caller :: .caller :: moves) =
      { w with holder := .caller, disarmed := true, caller := .notifying after } := by
    rw [Serial.after_cons, hlocked]
    rfl
  have hnotified : (watchdog deadline armedAt).after (.caller :: .caller :: .caller :: moves) =
      { w with
        holder := .caller, disarmed := true, caller := .unlocking after,
        thread := w.thread.notified } := by
    rw [Serial.after_cons, hraised]
    rfl
  have hrun : List.replicate 4 WatchMove.caller ++ moves =
      .caller :: .caller :: .caller :: .caller :: moves := rfl
  rw [hrun]
  rw [Serial.after_cons, hnotified]
  rfl

theorem stop_joins (moves : List WatchMove)
    (hcaller : ((watchdog deadline armedAt).after moves).caller = .joining .back)
    (hthread : ((watchdog deadline armedAt).after moves).thread = .finished) :
    (watchdog deadline armedAt).after (.caller :: moves) =
      { (watchdog deadline armedAt).after moves with
        handle := false, caller := .idle,
        log := .stopped :: ((watchdog deadline armedAt).after moves).log } := by
  refine after_cons_of_move _ ?_
  simp only [WatchWorld.move, WatchWorld.callerStep, hcaller]
  exact if_pos (.inr hthread)

/-- **A `stop` called at any point can return in no time**: by steps of the two threads alone. -/
theorem stop_returns_at_once (moves : List WatchMove)
    (hidle : ((watchdog deadline armedAt).after moves).caller = .idle) :
    ∃ run : List WatchMove, run.length ≤ 14 ∧ (∀ move ∈ run, move = .thread ∨ move = .caller) ∧
      ((watchdog deadline armedAt).after (run ++ .stop :: moves)).log.head? = some .stopped ∧
      ((watchdog deadline armedAt).after (run ++ .stop :: moves)).clock =
        ((watchdog deadline armedAt).after moves).clock := by
  have hcalled : (watchdog deadline armedAt).after (.stop :: moves) =
      { (watchdog deadline armedAt).after moves with caller := .locking .back } :=
    after_cons_of_move moves (if_pos hidle)
  have hholder : ((watchdog deadline armedAt).after (.stop :: moves)).holder ≠ .caller := by
    intro hcaller
    have := (watchdog_sound deadline armedAt (.stop :: moves)).lockCaller.mp hcaller
    simp [hcalled] at this
  obtain ⟨k, hk, hfree, hcaller, hclock⟩ := thread_releases (.stop :: moves) hholder
  have hraised := stop_raises _ (hcaller.trans (by rw [hcalled])) hfree
  obtain ⟨n, hn, hfinished, hjoining, hclock'⟩ :=
    thread_finishes _ (by rw [hraised]) (by rw [hraised]; simp) (ThreadAt.rank_le _)
  rw [hraised] at hjoining hclock'
  rw [hcalled] at hclock
  have hrun : WatchMove.caller :: (List.replicate n WatchMove.thread ++
      (List.replicate 4 WatchMove.caller ++ List.replicate k WatchMove.thread)) ++
        WatchMove.stop :: moves =
      WatchMove.caller :: (List.replicate n WatchMove.thread ++
        (List.replicate 4 WatchMove.caller ++
          (List.replicate k WatchMove.thread ++ WatchMove.stop :: moves))) := by
    simp only [List.cons_append, List.append_assoc]
  use .caller :: (List.replicate n .thread ++ (List.replicate 4 .caller ++
    List.replicate k .thread))
  rw [hrun, stop_joins _ hjoining hfinished]
  refine ⟨?_, fun move hmove => ?_, rfl, by rw [hclock', hclock]⟩
  · simp only [List.length_cons, List.length_append, List.length_replicate]
    omega
  · simp only [List.mem_cons, List.mem_append, List.mem_replicate] at hmove
    tauto

theorem stop_again (moves : List WatchMove)
    (hstopped : .stopped ∈ ((watchdog deadline armedAt).after moves).log)
    (hidle : ((watchdog deadline armedAt).after moves).caller = .idle) :
    (watchdog deadline armedAt).after (List.replicate 5 .caller ++ .stop :: moves) =
      { (watchdog deadline armedAt).after moves with
        log := .stopped :: ((watchdog deadline armedAt).after moves).log } := by
  have hsound := watchdog_sound deadline armedAt moves
  set w := (watchdog deadline armedAt).after moves with hw
  have hhandle := hsound.stopped.mp hstopped
  obtain ⟨hthread, hdisarmed⟩ := hsound.joined hhandle
  have hholder : w.holder = .nobody := by
    have hlock := hsound.lockThread
    have hlock' := hsound.lockCaller
    cases hholder : w.holder <;> simp_all
  have hcalled : (watchdog deadline armedAt).after (.stop :: moves) =
      { w with caller := .locking .back } := after_cons_of_move moves (if_pos hidle)
  have hraised := stop_raises (.stop :: moves) (by rw [hcalled]) (by rw [hcalled]; exact hholder)
  rw [hcalled] at hraised
  have hjoined := stop_joins (List.replicate 4 .caller ++ .stop :: moves) (by rw [hraised])
    (by rw [hraised]; simp [hthread, ThreadAt.notified])
  have hrun : List.replicate 5 WatchMove.caller ++ .stop :: moves =
      .caller :: (List.replicate 4 .caller ++ .stop :: moves) := rfl
  rw [hrun, hjoined, hraised]
  simp [hthread, ThreadAt.notified, hdisarmed, hholder, hidle, hhandle]

/-! ## The window -/

/-- What an ordered log says about what came after a `stop` or a `disarm`. -/
theorem Ordered.split {later past : List WatchEvent} {event : WatchEvent}
    (h : Ordered (later ++ event :: past)) :
    Ordered (event :: past) ∧ (.stopped ∈ event :: past → ¬ Called later) := by
  induction later with
  | nil => exact ⟨h, fun _ => by simp [Called]⟩
  | cons first later ih =>
    cases first with
    | called time =>
      refine ⟨(ih h.2).1, fun hmem => absurd ?_ h.1⟩
      exact List.mem_append_right _ hmem
    | stopped =>
      refine ⟨(ih h).1, fun hmem => ?_⟩
      simpa [called_cons] using (ih h).2 hmem
    | disarmed answer =>
      refine ⟨(ih h.2.2).1, fun hmem => ?_⟩
      simpa [called_cons] using (ih h.2.2).2 hmem

end Runs

/-- **The watchdog fires in its window**, for every deadline and every interleaving of the two
threads: not before the deadline and not after a `stop` or a `disarm` has returned; `disarm` tells
whether it fired; a second `stop` changes nothing; and a `stop` called at any point can return with
no time passing, the thread taking seven steps at most once its flag is set. -/
theorem watchdog_fires_in_its_window (deadline armedAt : ℕ) (moves : List WatchMove) :
    (∀ time, .called time ∈ ((watchdog deadline armedAt).after moves).log →
      armedAt + deadline ≤ time) ∧
    (∀ later past, ((watchdog deadline armedAt).after moves).log = later ++ .stopped :: past →
      ¬ Called later) ∧
    (∀ later answer past,
      ((watchdog deadline armedAt).after moves).log = later ++ .disarmed answer :: past →
        ¬ Called later ∧ (answer = true ↔ Called past)) ∧
    (.stopped ∈ ((watchdog deadline armedAt).after moves).log →
      ((watchdog deadline armedAt).after moves).caller = .idle →
      (watchdog deadline armedAt).after (List.replicate 5 .caller ++ .stop :: moves) =
        { (watchdog deadline armedAt).after moves with
          log := .stopped :: ((watchdog deadline armedAt).after moves).log }) ∧
    (((watchdog deadline armedAt).after moves).caller = .idle →
      ∃ run : List WatchMove, run.length ≤ 14 ∧ (∀ move ∈ run, move = .thread ∨ move = .caller) ∧
        ((watchdog deadline armedAt).after (run ++ .stop :: moves)).log.head? = some .stopped ∧
        ((watchdog deadline armedAt).after (run ++ .stop :: moves)).clock =
          ((watchdog deadline armedAt).after moves).clock) ∧
    (((watchdog deadline armedAt).after moves).disarmed = true →
      (((watchdog deadline armedAt).after moves).holder ≠ .caller →
        ((watchdog deadline armedAt).after moves).thread ≠ .finished →
        ((watchdog deadline armedAt).serve .thread ((watchdog deadline armedAt).after moves)).1 =
          true) ∧
      ∀ later, threadSteps deadline armedAt moves later ≤ 7) := by
  have hsound := watchdog_sound deadline armedAt moves
  refine ⟨hsound.onTime, fun later past hlog => ?_, fun later answer past hlog => ?_,
    stop_again moves, stop_returns_at_once moves, fun hdisarmed => ⟨fun hholder hthread => ?_,
      threadSteps_le hdisarmed⟩⟩
  · have hordered := hsound.ordered
    rw [hlog] at hordered
    exact hordered.split.2 List.mem_cons_self
  · have hordered := hsound.ordered
    rw [hlog] at hordered
    obtain ⟨⟨hstopped, hanswer, -⟩, hlater⟩ := hordered.split
    exact ⟨hlater (List.mem_cons_of_mem _ hstopped), hanswer⟩
  · obtain ⟨w', hstep⟩ := threadStep_enabled hsound hdisarmed hholder hthread
    have hmove : ((watchdog deadline armedAt).after moves).move deadline .thread = some w' := hstep
    rw [serve_of_some hmove]

end DbgScope.Engine
