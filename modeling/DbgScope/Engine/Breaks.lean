import Mathlib.Data.Finset.Basic
import DbgScope.Serial
import DbgScope.Engine.Basic

/-!
# Break requests and the operations they are for

`BreakScope` is the record kept under one lock: the operations the engine is inside, and those of
them a host has asked to break. `Breaks` puts the engine's own pending break beside it, one flag
that `SetInterrupt` sets and `GetInterrupt` clears. Every function runs under the lock, except that
an `Operation` dropped on an unread request lets go of it before it drains the flag: `dropOperation`
and `finishDrop` are the two halves. The flag is shared by all operations, so a drain may take it
from under another one's request (`drains_spare_requests`).
-/

namespace DbgScope.Engine

/-! ## The scope -/

abbrev OperationId := ℕ

/-- Which operations the engine is running, outermost first, and which of them a host has asked
to break. -/
structure BreakScope where
  minted : ℕ
  running : List OperationId
  asked : Finset OperationId
  deriving DecidableEq

namespace BreakScope

/-- Opens an operation. `none` is a panic, which leaves the scope as it was. -/
def beginOperation (checks : Bool) (scope : BreakScope) : Option (OperationId × BreakScope) :=
  (mint checks scope.minted).map fun id =>
    (id, { scope with minted := id, running := scope.running ++ [id] })

def innermost (scope : BreakScope) : Option OperationId := scope.running.getLast?

def record (scope : BreakScope) (operation : OperationId) : BreakScope :=
  { scope with asked := insert operation scope.asked }

def take (scope : BreakScope) (operation : OperationId) : Bool × BreakScope :=
  (decide (operation ∈ scope.asked), { scope with asked := scope.asked.erase operation })

/-- Closes `operation`, and answers whether it left a request unread. -/
def endOperation (scope : BreakScope) (operation : OperationId) : Bool × BreakScope :=
  (decide (operation ∈ scope.asked),
    { scope with
      running := scope.running.filter (· ≠ operation)
      asked := scope.asked.erase operation })

end BreakScope

inductive BreakRequest
  | raised (operation : OperationId)
  | nothingRunning
  deriving DecidableEq, Repr

/-! ## The scope beside the engine's flag -/

/-- The scope, the engine's pending break, and how many dropped operations have yet to drain it. -/
structure Breaks where
  scope : BreakScope
  pending : Bool
  draining : ℕ
  deriving DecidableEq

namespace Breaks

def interrupt (delivery : Except HResult Unit) (w : Breaks) :
    Except DbgEngError BreakRequest × Breaks :=
  let against := w.scope.innermost
  match delivery with
  | .error source => (.error (.context "requesting a debugger interrupt" source), w)
  | .ok () =>
    match against with
    | some operation =>
      (.ok (.raised operation), { w with scope := w.scope.record operation, pending := true })
    | none => (.ok .nothingRunning, { w with pending := true })

/-- `DebugEngine::interrupted`. `poll` is whether `GetInterrupt` could be asked; asking it clears
the flag. -/
def interrupted (poll : Except HResult Unit) (w : Breaks) : Except DbgEngError Bool × Breaks :=
  match poll with
  | .error source => (.error (.context "polling debugger interrupt" source), w)
  | .ok () => (.ok w.pending, { w with pending := false })

def dropOperation (operation : OperationId) (w : Breaks) : Bool × Breaks :=
  let (unread, scope) := w.scope.endOperation operation
  (unread, { w with scope, draining := if unread then w.draining + 1 else w.draining })

/-- `Drop for Operation` after the lock: the drain of an operation that closed on a request
nobody read. -/
def finishDrop (poll : Except HResult Unit) (w : Breaks) : Breaks :=
  match w.draining with
  | 0 => w
  | n + 1 => { (w.interrupted poll).2 with draining := n }

def drainAnUnownedBreak (ours : Option OperationId) (poll : Except HResult Unit) (w : Breaks) :
    Breaks :=
  if w.scope.running.any (some · ≠ ours) then w else (w.interrupted poll).2

end Breaks

/-! ## Interleavings -/

/-- What a thread asks of the breaks, with the engine's answer where it is asked one. -/
inductive BreakCall
  | beginOperation
  | interrupt (delivery : Except HResult Unit)
  | tookBreakRequest (operation : OperationId)
  | dropOperation (operation : OperationId)
  | finishDrop (poll : Except HResult Unit)
  | drainAnUnownedBreak (ours : Option OperationId) (poll : Except HResult Unit)

inductive BreakAnswer
  | opened (operation : OperationId)
  | panicked
  | requested (result : Except DbgEngError BreakRequest)
  | took (operation : OperationId) (found : Bool)
  | closed (operation : OperationId) (unread : Bool)
  | drained

abbrev BreakAnswer.filed (operation : OperationId) : BreakAnswer :=
  .requested (.ok (.raised operation))

def breaks (checks : Bool) : Serial Breaks BreakCall BreakAnswer where
  start := ⟨⟨0, [], ∅⟩, false, 0⟩
  serve
    | .beginOperation, w =>
      match w.scope.beginOperation checks with
      | some (operation, scope) => (.opened operation, { w with scope })
      | none => (.panicked, w)
    | .interrupt delivery, w => ((w.interrupt delivery).map .requested id)
    | .tookBreakRequest operation, w =>
      ((w.scope.take operation).map (.took operation) fun scope => { w with scope })
    | .dropOperation operation, w => ((w.dropOperation operation).map (.closed operation) id)
    | .finishDrop poll, w => (.drained, w.finishDrop poll)
    | .drainAnUnownedBreak ours poll, w => (.drained, w.drainAnUnownedBreak ours poll)

/-! ## What a history says -/

namespace BreakAnswer

/-- The operation's request was looked at here: taken, or found at its close. -/
def reads (operation : OperationId) : BreakAnswer → Bool
  | .took o _ => o == operation
  | .closed o _ => o == operation
  | _ => false

def finds (operation : OperationId) : BreakAnswer → Bool
  | .took o found => o == operation && found
  | .closed o unread => o == operation && unread
  | _ => false

end BreakAnswer

def openOperations : List BreakAnswer → List OperationId
  | [] => []
  | .opened operation :: past => openOperations past ++ [operation]
  | .closed operation _ :: past => (openOperations past).filter (· ≠ operation)
  | _ :: past => openOperations past

/-- A request was filed against the operation and not looked at since. -/
def outstanding (operation : OperationId) : List BreakAnswer → Bool
  | [] => false
  | .requested (.ok (.raised o)) :: past => o == operation || outstanding operation past
  | answer :: past => !answer.reads operation && outstanding operation past

def BreakAnswer.openedId : BreakAnswer → Option OperationId
  | .opened operation => some operation
  | _ => none

variable (poll : Except HResult Unit) {o : OperationId} {a : BreakAnswer} {checks : Bool}
  {w : Breaks} {history : List BreakAnswer} {c : BreakCall}

theorem outstanding_cons {past : List BreakAnswer} : outstanding o (a :: past) = true ↔
      a = .filed o ∨ a.reads o = false ∧ outstanding o past = true := by
  cases a with
  | requested result =>
    cases result with
    | error e => simp [outstanding, BreakAnswer.reads]
    | ok request =>
      cases request with
      | nothingRunning => simp [outstanding, BreakAnswer.reads]
      | raised p => simp [outstanding, BreakAnswer.reads]
  | opened p => simp [outstanding, BreakAnswer.reads]
  | panicked => simp [outstanding, BreakAnswer.reads]
  | took p found => simp [outstanding, BreakAnswer.reads]
  | closed p unread => simp [outstanding, BreakAnswer.reads]
  | drained => simp [outstanding, BreakAnswer.reads]

theorem outstanding_iff :
    outstanding o history = true ↔ ∃ since past, history = since ++ .filed o :: past ∧
      ∀ a ∈ since, a.reads o = false := by
  induction history with
  | nil => simp [outstanding]
  | cons a history ih =>
    rw [outstanding_cons, ih]
    constructor
    · rintro (rfl | ⟨ha, since, past, rfl, hsince⟩)
      · exact ⟨[], history, rfl, by simp⟩
      · exact ⟨a :: since, past, rfl, by simpa [ha] using hsince⟩
    · rintro ⟨since, past, h, hsince⟩
      cases since with
      | nil =>
        left
        exact (List.cons.inj h).1
      | cons b since =>
        obtain ⟨rfl, rfl⟩ := List.cons.inj h
        right
        exact ⟨hsince a (by simp), since, past, rfl, fun b hb => hsince b (by simp [hb])⟩

/-! ## The scope follows the history -/

/-- The scope holds what the history says: the operations still open, and the requests still
outstanding, which are requests of open operations. -/
structure Follows (scope : BreakScope) (history : List BreakAnswer) : Prop where
  running : scope.running = openOperations history
  asked : ∀ o, o ∈ scope.asked ↔ outstanding o history = true
  within : ∀ o ∈ scope.asked, o ∈ scope.running

@[simp] theorem Breaks.interrupted_scope (w : Breaks) : (w.interrupted poll).2.scope = w.scope := by
  cases poll <;> rfl

@[simp] theorem Breaks.finishDrop_scope (w : Breaks) : (w.finishDrop poll).scope = w.scope := by
  unfold Breaks.finishDrop
  split
  · rfl
  · exact w.interrupted_scope poll

@[simp] theorem Breaks.drainAnUnownedBreak_scope (ours : Option OperationId)
    (poll : Except HResult Unit) (w : Breaks) :
    (w.drainAnUnownedBreak ours poll).scope = w.scope := by
  unfold Breaks.drainAnUnownedBreak
  split
  · rfl
  · exact w.interrupted_scope poll

theorem Breaks.drainAnUnownedBreak_of_ours {ours : Option OperationId}
    {poll : Except HResult Unit} {w : Breaks} (h : ∀ o ∈ w.scope.running, some o = ours) :
    w.drainAnUnownedBreak ours poll = (w.interrupted poll).2 := by
  rw [Breaks.drainAnUnownedBreak, if_neg]
  simpa using h

theorem Breaks.drainAnUnownedBreak_of_other {ours : Option OperationId}
    {poll : Except HResult Unit} {w : Breaks} (h : ¬ ∀ o ∈ w.scope.running, some o = ours) :
    w.drainAnUnownedBreak ours poll = w := by
  rw [Breaks.drainAnUnownedBreak, if_pos]
  simpa using h

theorem Follows.skip {scope : BreakScope} {history : List BreakAnswer} {a : BreakAnswer}
    (h : Follows scope history) (hopen : openOperations (a :: history) = openOperations history)
    (hfiled : ∀ o, a ≠ .filed o) (hreads : ∀ o, a.reads o = false) :
    Follows scope (a :: history) where
  running := by rw [hopen, h.running]
  asked o := by
    rw [outstanding_cons, h.asked o]
    simp [hfiled, hreads]
  within := h.within

theorem serve_follows (h : Follows w.scope history) (c : BreakCall) :
    Follows ((breaks checks).serve c w).2.scope (((breaks checks).serve c w).1 :: history) := by
  cases c with
  | beginOperation =>
    cases hbegin : w.scope.beginOperation checks with
    | none =>
      simp only [breaks, hbegin]
      exact h.skip rfl (by simp) (by simp [BreakAnswer.reads])
    | some opened =>
      obtain ⟨id, minted, -, rfl⟩ := Option.map_eq_some_iff.mp hbegin
      simp only [breaks, hbegin]
      constructor
      · simp [openOperations, h.running]
      · intro o
        rw [outstanding_cons, ← h.asked o]
        simp [BreakAnswer.reads]
      · intro o ho
        exact List.mem_append_left _ (h.within o ho)
  | interrupt delivery =>
    cases delivery with
    | error source => exact h.skip rfl (by simp [breaks, Breaks.interrupt]) (fun _ => rfl)
    | ok u =>
      cases hin : w.scope.innermost with
      | none =>
        simp only [breaks, Breaks.interrupt, hin, Prod.map]
        exact h.skip rfl (by simp) (fun _ => rfl)
      | some operation =>
        simp only [breaks, Breaks.interrupt, hin, Prod.map]
        constructor
        · exact h.running
        · intro o
          rw [outstanding_cons, ← h.asked o]
          simp [BreakScope.record, BreakAnswer.reads, eq_comm]
        · intro o ho
          rcases Finset.mem_insert.mp ho with rfl | ho
          · exact List.mem_of_getLast? hin
          · exact h.within o ho
  | tookBreakRequest operation =>
    constructor
    · exact h.running
    · intro o
      rw [outstanding_cons, ← h.asked o]
      simp [breaks, BreakScope.take, BreakAnswer.reads, @eq_comm _ o operation]
    · intro o ho
      exact h.within o (Finset.mem_of_mem_erase ho)
  | dropOperation operation =>
    constructor
    · simp [breaks, Breaks.dropOperation, BreakScope.endOperation, openOperations, h.running]
    · intro o
      rw [outstanding_cons, ← h.asked o]
      simp [breaks, Breaks.dropOperation, BreakScope.endOperation, BreakAnswer.reads,
        @eq_comm _ o operation]
    · intro o ho
      have ho' := Finset.mem_erase.mp ho
      exact List.mem_filter.mpr ⟨h.within o ho'.2, by simpa using ho'.1⟩
  | finishDrop poll =>
    simp only [breaks, Breaks.finishDrop_scope]
    exact h.skip rfl (by simp) (fun _ => rfl)
  | drainAnUnownedBreak ours poll =>
    simp only [breaks, Breaks.drainAnUnownedBreak_scope]
    exact h.skip rfl (by simp) (fun _ => rfl)

theorem breaks_follows (checks : Bool) (calls : List BreakCall) :
    Follows ((breaks checks).after calls).scope ((breaks checks).answers calls) := by
  induction calls with
  | nil => exact ⟨rfl, by simp [breaks, outstanding], by simp [breaks]⟩
  | cons c past ih => exact serve_follows ih c

theorem serve_finds {o : OperationId} (h : ((breaks checks).serve c w).1.reads o = true) :
    ((breaks checks).serve c w).1.finds o = decide (o ∈ w.scope.asked) := by
  cases c with
  | beginOperation =>
    cases hbegin : w.scope.beginOperation checks <;> simp [breaks, hbegin, BreakAnswer.reads] at h
  | interrupt delivery => simp [breaks, BreakAnswer.reads] at h
  | tookBreakRequest operation =>
    obtain rfl : operation = o := by simpa [breaks, BreakAnswer.reads] using h
    simp [breaks, BreakScope.take, BreakAnswer.finds]
  | dropOperation operation =>
    obtain rfl : operation = o := by simpa [breaks, BreakAnswer.reads] using h
    simp [breaks, Breaks.dropOperation, BreakScope.endOperation, BreakAnswer.finds]
  | finishDrop poll => simp [breaks, BreakAnswer.reads] at h
  | drainAnUnownedBreak ours poll => simp [breaks, BreakAnswer.reads] at h

/-! ## Requests are attributed -/

theorem serve_mints (checks : Bool) (c : BreakCall) (w : Breaks) :
    Mints checks (·.scope.minted) BreakAnswer.openedId (breaks checks) c w := by
  cases c with
  | beginOperation =>
    cases hbegin : w.scope.beginOperation checks with
    | none => exact .inr (by simp [breaks, hbegin, BreakAnswer.openedId])
    | some opened =>
      obtain ⟨id, hmint, rfl⟩ := Option.map_eq_some_iff.mp hbegin
      exact .inl ⟨id, by simp [breaks, hbegin, hmint, BreakAnswer.openedId]⟩
  | interrupt delivery =>
    cases delivery with
    | error source => exact .inr ⟨rfl, rfl⟩
    | ok u =>
      right
      cases hin : w.scope.innermost <;>
        simp [breaks, Breaks.interrupt, hin, BreakScope.record, BreakAnswer.openedId]
  | tookBreakRequest operation => exact .inr ⟨rfl, rfl⟩
  | dropOperation operation => exact .inr ⟨rfl, rfl⟩
  | finishDrop poll => exact .inr ⟨rfl, by simp [breaks]⟩
  | drainAnUnownedBreak ours poll => exact .inr ⟨rfl, by simp [breaks]⟩

/-- What it means for the requests of a run to be attributed. -/
structure Attributed (checks : Bool) (calls : List BreakCall) : Prop where
  /-- Only running operations have a request on record. -/
  within : ∀ o ∈ ((breaks checks).after calls).scope.asked,
    o ∈ ((breaks checks).after calls).scope.running
  /-- What is running is what was opened and not closed since. -/
  running : ((breaks checks).after calls).scope.running =
    openOperations ((breaks checks).answers calls)
  /-- A request is filed against the innermost operation of that moment. -/
  innermost : ∀ later past o, (breaks checks).answers calls = later ++ .filed o :: past →
    (openOperations past).getLast? = some o
  /-- An operation finds a request only where one was filed against it that nothing has looked at
  since: nobody else's, and none twice. -/
  found : ∀ later a past o, (breaks checks).answers calls = later ++ a :: past →
    a.finds o = true → ∃ since earlier, past = since ++ .filed o :: earlier ∧
      ∀ b ∈ since, b.reads o = false
  /-- A request that was filed is found by the first look at it, be it a take or the operation's
  close, and until then it is on record against an operation that is still running. -/
  accounted : ∀ later past o, (breaks checks).answers calls = later ++ .filed o :: past →
    (∃ rest a since, later = rest ++ a :: since ∧ a.finds o = true ∧
      ∀ b ∈ since, b.reads o = false) ∨
    (∀ b ∈ later, b.reads o = false) ∧
      o ∈ ((breaks checks).after calls).scope.asked ∧
      o ∈ ((breaks checks).after calls).scope.running
  /-- A delivered break is told that nothing is running exactly when nothing is. -/
  idle : ∀ later past, calls = later ++ .interrupt (.ok ()) :: past →
    (((breaks checks).serve (.interrupt (.ok ())) ((breaks checks).after past)).1 =
      .requested (.ok .nothingRunning) ↔ openOperations ((breaks checks).answers past) = [])
  /-- No id is handed out twice, before the counter wraps in a build that lets it. -/
  fresh : checks = true ∨
      (((breaks checks).answers calls).filterMap BreakAnswer.openedId).length < 2 ^ 64 →
    (((breaks checks).answers calls).filterMap BreakAnswer.openedId).Nodup

theorem serve_filed {o : OperationId} (h : ((breaks checks).serve c w).1 = .filed o) :
    w.scope.running.getLast? = some o := by
  cases c with
  | beginOperation => cases hbegin : w.scope.beginOperation checks <;> simp [breaks, hbegin] at h
  | interrupt delivery =>
    cases delivery with
    | error source => simp [breaks, Breaks.interrupt] at h
    | ok u =>
      cases hin : w.scope.innermost with
      | none => simp [breaks, Breaks.interrupt, hin] at h
      | some operation =>
        obtain rfl : operation = o := by simpa [breaks, Breaks.interrupt, hin] using h
        exact hin
  | tookBreakRequest operation => simp [breaks] at h
  | dropOperation operation => simp [breaks] at h
  | finishDrop poll => simp [breaks] at h
  | drainAnUnownedBreak ours poll => simp [breaks] at h

theorem serve_nothingRunning (checks : Bool) (w : Breaks) :
    ((breaks checks).serve (.interrupt (.ok ())) w).1 = .requested (.ok .nothingRunning) ↔
      w.scope.running = [] := by
  rw [← List.getLast?_eq_none_iff, ← BreakScope.innermost]
  cases hin : w.scope.innermost <;> simp [breaks, Breaks.interrupt, hin]

theorem finds_iff_outstanding {calls : List BreakCall} {o : OperationId}
    {later past : List BreakAnswer} {a : BreakAnswer}
    (h : (breaks checks).answers calls = later ++ a :: past) (ha : a.reads o = true) :
    a.finds o = true ↔ outstanding o past = true := by
  obtain ⟨laterCalls, c, pastCalls, rfl, rfl, rfl⟩ := Serial.answers_split h
  rw [serve_finds ha, decide_eq_true_iff, (breaks_follows checks pastCalls).asked o]

theorem BreakAnswer.reads_of_finds (h : a.finds o = true) : a.reads o = true := by
  cases a <;> simp_all [BreakAnswer.finds, BreakAnswer.reads]

/-- **Every break request of every interleaving is attributed to one operation**, found by that
operation alone, once, and never lost. -/
theorem break_request_attributed (checks : Bool) (calls : List BreakCall) :
    Attributed checks calls := by
  have hfollows := breaks_follows checks calls
  constructor
  case within => exact hfollows.within
  case running => exact hfollows.running
  case innermost =>
    intro later past o h
    obtain ⟨laterCalls, c, pastCalls, rfl, rfl, hfiled⟩ := Serial.answers_split h
    rw [← (breaks_follows checks pastCalls).running]
    exact serve_filed hfiled
  case found =>
    intro later a past o h hfinds
    have hout := (finds_iff_outstanding h (BreakAnswer.reads_of_finds hfinds)).mp hfinds
    exact outstanding_iff.mp hout
  case accounted =>
    intro later past o h
    by_cases hread : ∀ b ∈ later, b.reads o = false
    · right
      have hasked : o ∈ ((breaks checks).after calls).scope.asked := by
        rw [hfollows.asked o, h, outstanding_iff]
        exact ⟨later, past, rfl, hread⟩
      exact ⟨hread, hasked, hfollows.within o hasked⟩
    · left
      -- the look nearest to the filing is the last of `later` that reads the request
      obtain ⟨rest, a, since, rfl, ha, hsince⟩ :
          ∃ rest a since, later = rest ++ a :: since ∧ a.reads o = true ∧
            ∀ b ∈ since, b.reads o = false := by
        clear h
        induction later with
        | nil => simp at hread
        | cons b later ih =>
          by_cases hlater : ∀ b ∈ later, b.reads o = false
          · refine ⟨[], b, later, rfl, ?_, hlater⟩
            rw [List.forall_mem_cons, not_and_or] at hread
            simpa using hread.resolve_right (not_not_intro hlater)
          · obtain ⟨rest, a, since, rfl, ha, hsince⟩ := ih hlater
            exact ⟨b :: rest, a, since, rfl, ha, hsince⟩
      refine ⟨rest, a, since, rfl, ?_, hsince⟩
      rw [List.append_assoc, List.cons_append] at h
      rw [finds_iff_outstanding h ha, outstanding_iff]
      exact ⟨since, past, rfl, hsince⟩
  case idle =>
    intro later past _
    rw [← (breaks_follows checks past).running]
    exact serve_nothingRunning checks _
  case fresh =>
    intro h
    rw [handed_eq rfl (serve_mints checks) h, List.nodup_reverse]
    exact List.nodup_range'

/-! ## The flag behind the requests -/

/-- The engine's break is still pending for every running operation whose request is
outstanding. -/
def Deliverable (w : Breaks) : Prop :=
  ∀ o ∈ w.scope.running, o ∈ w.scope.asked → w.pending = true

instance (w : Breaks) : Decidable (Deliverable w) :=
  inferInstanceAs (Decidable (∀ o ∈ w.scope.running, o ∈ w.scope.asked → w.pending = true))

/-- A call that does not drain the flag from under a request: the drain of a dropped operation
runs when no request is outstanding, and the drain before a reload when the reload's own operation
has none. -/
def Spares (w : Breaks) : BreakCall → Prop
  | .finishDrop (.ok ()) => 0 < w.draining → w.scope.asked = ∅
  | .drainAnUnownedBreak ours (.ok ()) =>
    (∀ o ∈ w.scope.running, some o = ours) → ∀ o ∈ ours, o ∉ w.scope.asked
  | _ => True

/-- Once the flag is clear, requests are deliverable exactly when there are none. -/
theorem deliverable_clear (hwithin : ∀ o ∈ w.scope.asked, o ∈ w.scope.running)
    (hclear : w.pending = false) : Deliverable w ↔ w.scope.asked = ∅ := by
  rw [Deliverable, hclear, Finset.eq_empty_iff_forall_notMem]
  constructor
  · intro h o ho
    simpa using h o (hwithin o ho) ho
  · intro h o _ ho
    exact absurd ho (h o)

/-- A call that leaves the flag as it was and no request that was not there keeps requests
deliverable. -/
theorem Deliverable.mono {w' : Breaks} (h : Deliverable w)
    (hwithin : ∀ o ∈ w.scope.asked, o ∈ w.scope.running) (hasked : w'.scope.asked ⊆ w.scope.asked)
    (hpending : w'.pending = w.pending) : Deliverable w' := by
  intro o _ ho
  rw [hpending]
  exact h o (hwithin o (hasked ho)) (hasked ho)

theorem serve_deliverable (hwithin : ∀ o ∈ w.scope.asked, o ∈ w.scope.running) (h : Deliverable w) :
    Deliverable ((breaks checks).serve c w).2 ↔ Spares w c := by
  cases c with
  | beginOperation =>
    refine iff_of_true (h.mono hwithin ?_ ?_) trivial <;>
      cases hbegin : w.scope.beginOperation checks with
      | none => simp [breaks, hbegin]
      | some opened =>
        obtain ⟨id, -, rfl⟩ := Option.map_eq_some_iff.mp hbegin
        simp [breaks, hbegin]
  | interrupt delivery =>
    refine iff_of_true ?_ trivial
    cases delivery with
    | error source => exact h
    | ok u =>
      intro o _ _
      cases hin : w.scope.innermost <;> simp [breaks, Breaks.interrupt, hin]
  | tookBreakRequest operation =>
    exact iff_of_true (h.mono hwithin (Finset.erase_subset _ _) rfl) trivial
  | dropOperation operation =>
    exact iff_of_true (h.mono hwithin (Finset.erase_subset _ _) rfl) trivial
  | finishDrop poll =>
    cases hdraining : w.draining with
    | zero =>
      refine iff_of_true ?_ ?_
      · simpa [breaks, Breaks.finishDrop, hdraining] using h
      · cases poll <;> simp [Spares, hdraining]
    | succ n =>
      cases poll with
      | error source =>
        refine iff_of_true (h.mono hwithin ?_ ?_) trivial <;>
          simp [breaks, Breaks.finishDrop, Breaks.interrupted, hdraining]
      | ok u =>
        rw [deliverable_clear]
        · simp [breaks, Spares, hdraining]
        · simpa [breaks] using hwithin
        · simp [breaks, Breaks.finishDrop, Breaks.interrupted, hdraining]
  | drainAnUnownedBreak ours poll =>
    by_cases hours : ∀ o ∈ w.scope.running, some o = ours
    · show Deliverable (w.drainAnUnownedBreak ours poll) ↔ _
      rw [Breaks.drainAnUnownedBreak_of_ours hours]
      cases poll with
      | error source => exact iff_of_true h trivial
      | ok u =>
        rw [deliverable_clear (by simpa using hwithin) rfl, Breaks.interrupted_scope, Spares,
          Finset.eq_empty_iff_forall_notMem]
        constructor
        · intro hnone _ o _
          exact hnone o
        · intro hnone o ho
          exact hnone hours o (hours o (hwithin o ho)).symm ho
    · show Deliverable (w.drainAnUnownedBreak ours poll) ↔ _
      rw [Breaks.drainAnUnownedBreak_of_other hours]
      refine iff_of_true h ?_
      cases poll <;> simp [Spares, hours]

/-- **A break stays pending for every outstanding request of a run exactly when every drain of
the run spares them.** -/
theorem drains_spare_requests (checks : Bool) (calls : List BreakCall) :
    (breaks checks).Always Deliverable calls ↔ (breaks checks).Throughout Spares calls := by
  refine Serial.always_iff_throughout (J := fun w => ∀ o ∈ w.scope.asked, o ∈ w.scope.running)
    ?_ (Serial.throughout_true calls) ?_ ?_
  · simp [breaks, Deliverable]
  · induction calls with
    | nil => exact (breaks_follows checks []).within
    | cons c past ih => exact ⟨ih, (breaks_follows checks (c :: past)).within⟩
  · intro w c hwithin _ h
    exact serve_deliverable hwithin h

/-- Two nested operations are each asked to break. The inner one closes without reading its
request and drains the flag, which is the outer one's too. -/
theorem inner_drop_drains_outer_break :
    ∃ w, w = (breaks true).after [.finishDrop (.ok ()), .dropOperation 2, .interrupt (.ok ()),
        .beginOperation, .interrupt (.ok ()), .beginOperation] ∧
      w.scope.running = [1] ∧ w.scope.asked = {1} ∧ w.pending = false ∧ ¬ Deliverable w :=
  ⟨_, rfl, by decide, by decide, by decide, by decide⟩

/-- A request filed between a reload's opening and its drain is drained with what was stale. -/
example : ¬ Deliverable ((breaks true).after
    [.drainAnUnownedBreak (some 1) (.ok ()), .interrupt (.ok ()), .beginOperation]) := by
  decide

end DbgScope.Engine
