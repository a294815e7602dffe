import DbgScope.Engine.Arrivals

/-!
# Opening live targets

The state one client's wrappers share, and what the openers, the waits and the teardown do to it.
The engine's answers are arguments. `opens` serves every interleaving of these, with processes
joining and leaving in between; a wait is served in halves, one look or one pump at a time.
-/

namespace DbgScope.Engine

/-! ## The client's state -/

/-- How far an attachment has got: not yet seen in the session, or seen at least once. -/
inductive Attachment
  | deferred
  | joined
  deriving DecidableEq, Repr

/-- What the wrappers of one client share: the register, and the attached processes by pid. -/
structure ClientState where
  arrivals : Arrivals
  attachedProcesses : List (ℕ × Attachment)

structure Probe where
  hasTarget : Except DbgEngError Bool
  listed : Except DbgEngError (List Process)

def Probe.sessionProcesses (probe : Probe) : Except DbgEngError (List Process) :=
  match probe.hasTarget with
  | .error e => .error e
  | .ok false => .ok []
  | .ok true => probe.listed

def Probe.holdsNothingAtAll (probe : Probe) : Bool :=
  match probe.hasTarget with
  | .ok false => true
  | _ => false

/-- What an opener answers: the open it registered, or why it did not. -/
inductive Opened
  | begun (id : ArrivalId)
  | refused (error : DbgEngError)
  | panicked
  deriving DecidableEq, Repr

namespace ClientState

def attachedPids (state : ClientState) : Finset ℕ :=
  (state.attachedProcesses.map (·.1)).toFinset

def claimAttached (pid : ℕ) (state : ClientState) : ClientState :=
  { state with
    attachedProcesses := (pid, .deferred) :: state.attachedProcesses.filter (·.1 ≠ pid) }

def noteAttachmentsPresent (held : List Process) (state : ClientState) : ClientState :=
  { state with
    attachedProcesses := state.attachedProcesses.map fun (pid, attachment) =>
      (pid, if held.any (·.2 = pid) then .joined else attachment) }

/-- Forgets recorded attachments and claims of processes the session no longer holds. -/
def pruneProcessesThatLeft (probe : Probe) (state : ClientState) : ClientState :=
  match probe.sessionProcesses with
  | .error _ => state
  | .ok held =>
    let state := state.noteAttachmentsPresent held
    { arrivals := state.arrivals.forgetDeparted held
      attachedProcesses := state.attachedProcesses.filter fun (pid, attachment) =>
        attachment = .deferred || held.any (·.2 = pid) }

def live (checks : Bool) (what : Arrival) (state : ClientState) : Opened × ClientState :=
  match state.arrivals.register checks what with
  | some (id, arrivals) => (.begun id, { state with arrivals })
  | none => (.panicked, state)

def launchProcessBegin (checks : Bool) (prune snapshot : Probe)
    (initialBreak : Except DbgEngError Unit) (create : Except HResult Unit)
    (state : ClientState) : Opened × ClientState :=
  let state := state.pruneProcessesThatLeft prune
  match initialBreak with
  | .error e => (.refused e, state)
  | .ok () =>
    let before := snapshot.sessionProcesses.toOption
    match create with
    | .error source => (.refused (.operationFailed source), state)
    | .ok () => state.live checks (.launched before)

def attachProcessBegin (checks : Bool) (pid : ℕ) (initialBreak : Except DbgEngError Unit)
    (attach : Except HResult Unit) (prune : Probe) (state : ClientState) : Opened × ClientState :=
  match initialBreak with
  | .error e => (.refused e, state)
  | .ok () =>
    match attach with
    | .error source => (.refused (.operationFailed source), state)
    | .ok () =>
      let state := state.pruneProcessesThatLeft prune
      (state.claimAttached pid).live checks (.attached pid)

def recordWhereItStopped (lastEvent : Except DbgEngError ℕ) (probe : Probe)
    (state : ClientState) : Option Process × ClientState :=
  match lastEvent, probe.sessionProcesses with
  | .ok id, .ok held =>
    let state := state.noteAttachmentsPresent held
    match held.find? (·.1 = id) with
    | none => (none, state)
    | some entry =>
      (some entry,
        { state with arrivals := state.arrivals.deliver entry state.attachedPids })
  | _, _ => (none, state)

def retireDeferredAttachment (id : ArrivalId) (state : ClientState) : ClientState :=
  match state.arrivals.attachedPid id with
  | none => state
  | some pid =>
    if state.attachedProcesses.lookup pid = some .deferred then
      { state with attachedProcesses := state.attachedProcesses.filter (·.1 ≠ pid) }
    else state

def presenceOf (probe : Probe) (id : ArrivalId) (state : ClientState) : Presence :=
  match probe.hasTarget with
  | .ok false => .absent
  | .error _ => .unknown
  | .ok true =>
    match probe.sessionProcesses with
    | .error _ => .unknown
    | .ok held => state.arrivals.presence id held state.attachedPids

/-- The look at the head of `wait_for_live_target`'s loop: `some` is what the wait answers, and
`none` goes on to pump. `left` is what is left of the bound. -/
def look (probe : Probe) (left : ℕ) (waited askedToStop : Bool) (id : ArrivalId)
    (state : ClientState) : Option (Except DbgEngError Unit) × ClientState :=
  let presence := state.presenceOf probe id
  if presence = .arrived ∨ presence = .unknown ∧ waited then (some (.ok ()), state)
  else if left = 0 ∨ askedToStop then
    match presence with
    | .absent =>
      if askedToStop then (some (.error .liveTargetInterrupted), state)
      else if waited then
        let state := state.retireDeferredAttachment id
        (some (.error .liveTargetTimeout), { state with arrivals := state.arrivals.discard id })
      else (some (.error .liveTargetTimeout), state)
    | _ => (some (.ok ()), state)
  else (none, state)

def detachAttachedProcesses (probe : Probe) (state : ClientState) :
    Except DbgEngError (List Process) × ClientState :=
  let attached := state.attachedProcesses
  let state := { state with attachedProcesses := [] }
  if attached.isEmpty then (.ok [], state)
  else match probe.sessionProcesses with
    | .error e => (.error e, state)
    | .ok held => (.ok (held.filter fun entry => attached.any (·.1 = entry.2)), state)

end ClientState

/-! ## Interleavings -/

inductive PumpEnd
  | failed (source : HResult)
  | expired
  | brokeIn
  | stopped (lastEvent : Except DbgEngError ℕ)

/-- Where an open's wait is: about to look, or inside a pump. -/
inductive Stage
  | looking
  | pumping
  deriving DecidableEq, Repr

structure LiveWait where
  waited : Bool
  askedToStop : Bool
  stage : Stage
  deriving DecidableEq, Repr

/-- Whether the session has a process because the engine attached to it or because it launched
it. -/
inductive Origin
  | attached
  | launched
  deriving DecidableEq, Repr

structure Held where
  process : Process
  origin : Origin
  deriving DecidableEq, Repr

/-- The client's state and the session it is about: the waits in progress, the processes the
session holds, the pids whose attach was accepted and is still to join, and every pid there has
been. -/
structure LiveSession where
  state : ClientState
  waits : ArrivalId → Option LiveWait
  held : List Held
  coming : List ℕ
  seen : List ℕ

def LiveSession.processes (w : LiveSession) : List Process := w.held.map (·.process)

/-- What the wrappers do, and what happens to the session by itself. -/
inductive OpenCall
  | launchProcessBegin (prune snapshot : Probe) (initialBreak : Except DbgEngError Unit)
      (create : Except HResult Unit)
  | attachProcessBegin (pid : ℕ) (initialBreak : Except DbgEngError Unit)
      (attach : Except HResult Unit) (prune : Probe)
  | prune (probe : Probe)
  | wait (id : ArrivalId)
  | look (id : ArrivalId) (probe : Probe) (left : ℕ)
  | pumped (id : ArrivalId) (probe : Probe) (how : PumpEnd)
  | dropGuard (id : ArrivalId)
  | stop (lastEvent : Except DbgEngError ℕ) (probe : Probe)
  | joins (process : Process) (origin : Origin)
  | leaves (process : Process)
  | givenUp (pid : ℕ)

inductive OpenAnswer
  | opened (result : Opened)
  | waited (result : Except DbgEngError Unit)
  | stopped (process : Option Process)
  | done

namespace LiveSession

def finish (id : ArrivalId) (state : ClientState) (w : LiveSession) : LiveSession :=
  { w with
    state := { state with arrivals := state.arrivals.forget id }
    waits := Function.update w.waits id none }

def resume (id : ArrivalId) (wait : LiveWait) (state : ClientState) (w : LiveSession) :
    LiveSession :=
  { w with state, waits := Function.update w.waits id (some wait) }

def look (id : ArrivalId) (probe : Probe) (left : ℕ) (w : LiveSession) :
    OpenAnswer × LiveSession :=
  match w.waits id with
  | some ⟨waited, askedToStop, .looking⟩ =>
    match w.state.look probe left waited askedToStop id with
    | (some result, state) => (.waited result, w.finish id state)
    | (none, state) => (.done, w.resume id ⟨waited, askedToStop, .pumping⟩ state)
  | _ => (.done, w)

def pumped (id : ArrivalId) (probe : Probe) (how : PumpEnd) (w : LiveSession) :
    OpenAnswer × LiveSession :=
  match w.waits id with
  | some ⟨_, _, .pumping⟩ =>
    match how with
    | .failed source =>
      let state := if probe.holdsNothingAtAll then w.state.retireDeferredAttachment id else w.state
      (.waited (.error (.commandFailed source)), w.finish id state)
    | .expired => (.done, w.resume id ⟨true, false, .looking⟩ w.state)
    | .brokeIn => (.done, w.resume id ⟨true, true, .looking⟩ w.state)
    | .stopped lastEvent =>
      let (process, state) := w.state.recordWhereItStopped lastEvent probe
      (.stopped process, w.resume id ⟨true, false, .looking⟩ state)
  | _ => (.done, w)

/-- An `AttachProcess` the engine accepted. A process the session already holds is attached to
where it is; any other joins later. -/
def accepted (pid : ℕ) (w : LiveSession) : LiveSession :=
  { w with
    held := w.held.map fun h => if h.process.2 = pid then { h with origin := .attached } else h
    coming := if w.held.any (·.process.2 = pid) then w.coming else pid :: w.coming
    seen := pid :: w.seen }

end LiveSession

def opens (checks : Bool) : Serial LiveSession OpenCall OpenAnswer where
  start := ⟨⟨⟨0, []⟩, []⟩, fun _ => none, [], [], []⟩
  serve
    | .launchProcessBegin prune snapshot initialBreak create, w =>
      let (opened, state) := w.state.launchProcessBegin checks prune snapshot initialBreak create
      (.opened opened, { w with state })
    | .attachProcessBegin pid initialBreak attach prune, w =>
      let (opened, state) := w.state.attachProcessBegin checks pid initialBreak attach prune
      match initialBreak, attach with
      | .ok (), .ok () => (.opened opened, { w.accepted pid with state })
      | _, _ => (.opened opened, { w with state })
    | .prune probe, w => (.done, { w with state := w.state.pruneProcessesThatLeft probe })
    | .wait id, w => (.done, w.resume id ⟨false, false, .looking⟩ w.state)
    | .look id probe left, w => w.look id probe left
    | .pumped id probe how, w => w.pumped id probe how
    | .dropGuard id, w => (.done, w.finish id w.state)
    | .stop lastEvent probe, w =>
      let (process, state) := w.state.recordWhereItStopped lastEvent probe
      (.stopped process, { w with state })
    | .joins process origin, w =>
      (.done,
        { w with
          held := ⟨process, origin⟩ :: w.held
          coming := w.coming.filter (· ≠ process.2)
          seen := process.2 :: w.seen })
    | .leaves process, w => (.done, { w with held := w.held.filter (·.process ≠ process) })
    | .givenUp pid, w => (.done, { w with coming := w.coming.filter (· ≠ pid) })

end DbgScope.Engine
