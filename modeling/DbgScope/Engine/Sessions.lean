import Mathlib.Data.List.TakeWhile
import DbgScope.Engine.Opens

/-!
# Whole sessions of live opens

Two results about every run of a client. A launch is delivered the stop of its process exactly when
no other launch ahead of it in the register would take it (`stop_reaches_launch`). And ending the
session detaches exactly the attached processes in every run in which no open lets go of the record
of a process that is in the session or still on its way (`teardown_detaches_attached`).
-/

namespace DbgScope.Engine

/-! ## The stop of a new launch -/

/-- The open `id` is a launch waiting for its process, and `process` is one the session holds that
is new to the launch, not attached, and nobody's so far. -/
structure NextStop (state : ClientState) (probe : Probe) (id : ArrivalId) (process : Process) :
    Prop where
  launch : ∃ p before, state.arrivals.pending.find? (·.id = id) = some p ∧ p.claim = .waiting ∧
    p.what = .launched (some before) ∧ process ∉ before
  held : ∃ held, probe.hasTarget = .ok true ∧ probe.listed = .ok held ∧
    held.find? (·.1 = process.1) = some process
  unattached : process.2 ∉ state.attachedPids ∧
    ∀ p ∈ state.arrivals.pending, p.claim = .waiting → p.what ≠ .attached process.2
  unclaimed : ∀ p ∈ state.arrivals.pending, p.claim ≠ .arrived process ∧ process ∉ p.inherited

def NoneAhead (state : ClientState) (id : ArrivalId) (process : Process) : Prop :=
  ∀ p ∈ state.arrivals.pending.takeWhile (·.id ≠ id), p.claim = .waiting →
    ∀ before, p.what = .launched (some before) → process ∈ before

theorem noteAttachmentsPresent_attachedPids (held : List Process) (state : ClientState) :
    (state.noteAttachmentsPresent held).attachedPids = state.attachedPids := by
  simp [ClientState.noteAttachmentsPresent, ClientState.attachedPids, Function.comp_def]

variable {w w' : LiveSession} {state : ClientState} {pid : ℕ} {probe : Probe} {id : ArrivalId}

theorem recordWhereItStopped_arrivals {held : List Process} {process : Process}
    (hsession : probe.sessionProcesses = .ok held)
    (hfind : held.find? (·.1 = process.1) = some process) :
    (state.recordWhereItStopped (.ok process.1) probe).2.arrivals =
      state.arrivals.deliver process state.attachedPids := by
  simp only [ClientState.recordWhereItStopped, hsession, hfind,
    noteAttachmentsPresent_attachedPids]
  rfl

theorem NextStop.takes_iff {process : Process} (h : NextStop state probe id process) {p : Pending}
    (hp : p ∈ state.arrivals.pending) : state.arrivals.Takes process state.attachedPids p ↔
      p.claim = .waiting ∧ ∃ before, p.what = .launched (some before) ∧ process ∉ before := by
  rw [Arrivals.Takes, Pending.wants_iff]
  constructor
  · rintro ⟨hwaiting, -, -, hwhat⟩
    refine ⟨hwaiting, ?_⟩
    rcases hp' : p.what with (_ | before) | pid
    · simp [hp'] at hwhat
    · simp only [hp'] at hwhat
      exact ⟨before, rfl, hwhat.1⟩
    · simp only [hp'] at hwhat
      exact absurd (by rw [hp', hwhat]) (h.unattached.2 p hp hwaiting)
  · rintro ⟨hwaiting, before, hwhat, hnew⟩
    refine ⟨hwaiting, (h.unclaimed p hp).2, ?_, ?_⟩
    · intro q hq
      exact (h.unclaimed q (List.mem_of_mem_filter hq)).1
    · simp only [hwhat]
      refine ⟨hnew, h.unattached.1, fun q hq hq' => ?_⟩
      exact h.unattached.2 q (List.mem_of_mem_filter hq) hq'

theorem find?_id_split {pending : List Pending} {id : ArrivalId} {p : Pending}
    (h : pending.find? (·.id = id) = some p) :
    p.id = id ∧ ∃ post, pending = pending.takeWhile (·.id ≠ id) ++ p :: post := by
  induction pending with
  | nil => simp at h
  | cons a pending ih =>
    by_cases ha : a.id = id
    · obtain rfl : a = p := by simpa [ha] using h
      exact ⟨ha, pending, by simp [ha]⟩
    · obtain ⟨hid, post, hsplit⟩ := ih (by simpa [ha] using h)
      exact ⟨hid, post, by simpa [ha] using hsplit⟩

theorem find?_id_append {pre post : List Pending} {id : ArrivalId} {p : Pending}
    (hpre : ∀ q ∈ pre, q.id ≠ id) (hid : p.id = id) :
    (pre ++ p :: post).find? (·.id = id) = some p := by
  rw [List.find?_append, List.find?_eq_none.mpr (by simpa using hpre)]
  simp [hid]

theorem Arrivals.presence_of_arrived {register : Arrivals} {id : ArrivalId} {held : List Process}
    {attached : Finset ℕ} {p : Pending} {entry : Process}
    (h : register.pending.find? (·.id = id) = some p) (hclaim : p.claim = .arrived entry)
    (hheld : entry ∈ held) : register.presence id held attached = .arrived := by
  simp [Arrivals.presence, h, hclaim, hheld]

theorem Arrivals.presence_of_waiting {register : Arrivals} {id : ArrivalId} {held : List Process}
    {attached : Finset ℕ} {p : Pending}
    (h : register.pending.find? (·.id = id) = some p) (hclaim : p.claim = .waiting) :
    register.presence id held attached ≠ .arrived := by
  simp only [Arrivals.presence, h, hclaim]
  split
  · simp
  · split <;> simp

def listing (held : List Process) : Probe := ⟨.ok (!held.isEmpty), .ok held⟩

def launching (held : List Process) : OpenCall :=
  .launchProcessBegin (listing held) (listing held) (.ok ()) (.ok ())

def failedThenLaunched : List OpenCall :=
  [.joins (0, 200) .launched, launching [], .pumped 1 (listing []) (.failed 0x80070002),
    .look 1 (listing []) 30000, .wait 1, launching []]

/-- The engine's answers about the session are the truth. -/
def Truthful (w : LiveSession) (probe : Probe) : Prop :=
  probe.hasTarget = .ok (!w.held.isEmpty) ∧ probe.listed = .ok w.processes

/-- The look that gives an open up: its bound is over and its target is not there. -/
def TimesOut (w : LiveSession) (id : ArrivalId) (probe : Probe) (left : ℕ) : Prop :=
  w.waits id = some ⟨true, false, .looking⟩ ∧ left = 0 ∧ w.state.presenceOf probe id = .absent

def Lawful (w : LiveSession) : OpenCall → Prop
  | .launchProcessBegin prune snapshot _ _ => Truthful w prune ∧ Truthful w snapshot
  | .attachProcessBegin _ _ _ prune => Truthful w prune
  | .prune probe => Truthful w probe
  | .look id probe left => Truthful w probe ∧ (TimesOut w id probe left →
      ∀ pid, w.state.arrivals.attachedPid id = some pid → pid ∉ w.coming)
  | .pumped _ probe _ => Truthful w probe
  | .stop _ probe => Truthful w probe
  | .joins process .attached => process.2 ∈ w.coming
  | .joins process .launched => process.2 ∉ w.seen
  | .wait _ | .dropGuard _ | .leaves _ | .givenUp _ => True

def RetiresNobody (w : LiveSession) (id : ArrivalId) : Prop :=
  ∀ pid, w.state.arrivals.attachedPid id = some pid →
    w.state.attachedProcesses.lookup pid = some .deferred →
      (∀ h ∈ w.held, h.process.2 ≠ pid) ∧ pid ∉ w.coming

def Spared (w : LiveSession) : OpenCall → Prop
  | .look id probe left => TimesOut w id probe left → RetiresNobody w id
  | .pumped id probe (.failed _) =>
    (∃ waited asked, w.waits id = some ⟨waited, asked, .pumping⟩) →
      probe.holdsNothingAtAll = true → RetiresNobody w id
  | _ => True

structure Recorded (w : LiveSession) : Prop where
  attached : ∀ h ∈ w.held, h.origin = .attached → h.process.2 ∈ w.state.attachedPids
  launched : ∀ h ∈ w.held, h.origin = .launched → h.process.2 ∉ w.state.attachedPids
  coming : ∀ pid ∈ w.coming, (pid, .deferred) ∈ w.state.attachedProcesses

/-- What holds in every lawful run, whatever is retired. -/
structure Tidy (w : LiveSession) : Prop where
  recorded : ∀ pid ∈ w.state.attachedPids, pid ∈ w.seen
  seen : ∀ pid ∈ w.coming, pid ∈ w.seen
  apart : ∀ pid ∈ w.coming, ∀ h ∈ w.held, h.process.2 ≠ pid

theorem Truthful.sessionProcesses (h : Truthful w probe) :
    probe.sessionProcesses = .ok w.processes := by
  rw [Probe.sessionProcesses, h.1]
  cases hheld : w.held with
  | nil => simp [LiveSession.processes, hheld]
  | cons a held => simpa using h.2

theorem mem_attachedPids :
    pid ∈ state.attachedPids ↔ ∃ attachment, (pid, attachment) ∈ state.attachedProcesses := by
  simp [ClientState.attachedPids]

/-- What an operation that retires nothing may do to the record: no key is new, a process of the
session keeps its key, and a process not in the session stays as it was while it is deferred. -/
structure Preserves (w : LiveSession) (state : ClientState) : Prop where
  keys : ∀ pid ∈ state.attachedPids, pid ∈ w.state.attachedPids
  held : ∀ h ∈ w.held, h.process.2 ∈ w.state.attachedPids → h.process.2 ∈ state.attachedPids
  deferred : ∀ pid, (∀ h ∈ w.held, h.process.2 ≠ pid) →
    (pid, .deferred) ∈ w.state.attachedProcesses → (pid, .deferred) ∈ state.attachedProcesses

theorem Preserves.of_eq (h : state.attachedProcesses = w.state.attachedProcesses) :
    Preserves w state := by
  refine ⟨fun pid hp => ?_, fun a _ hp => ?_, fun pid _ hp => ?_⟩ <;>
    simpa [mem_attachedPids, h] using hp

theorem listed_iff : w.processes.any (·.2 = pid) = true ↔ ∃ h ∈ w.held, h.process.2 = pid := by
  simp [LiveSession.processes]

theorem note_preserves (w : LiveSession) :
    Preserves w (w.state.noteAttachmentsPresent w.processes) := by
  refine ⟨fun pid hp => ?_, fun h _ hp => ?_, fun pid hpid hmem => ?_⟩
  · rwa [noteAttachmentsPresent_attachedPids] at hp
  · rwa [noteAttachmentsPresent_attachedPids]
  · have hany : w.processes.any (·.2 = pid) = false := by
      rw [Bool.eq_false_iff, ne_eq, listed_iff]
      rintro ⟨h, hh, heq⟩
      exact hpid h hh heq
    refine List.mem_map.mpr ⟨(pid, .deferred), hmem, ?_⟩
    simp [hany]

theorem prune_preserves (h : Truthful w probe) :
    Preserves w (w.state.pruneProcessesThatLeft probe) := by
  have hnote := note_preserves w
  simp only [ClientState.pruneProcessesThatLeft, h.sessionProcesses]
  refine ⟨fun pid hp => ?_, fun a ha hp => ?_, fun pid hpid hmem => ?_⟩
  · obtain ⟨attachment, hmem⟩ := mem_attachedPids.mp hp
    exact hnote.keys pid (mem_attachedPids.mpr ⟨attachment, (List.mem_filter.mp hmem).1⟩)
  · obtain ⟨attachment, hmem⟩ := mem_attachedPids.mp (hnote.held a ha hp)
    refine mem_attachedPids.mpr ⟨attachment, List.mem_filter.mpr ⟨hmem, ?_⟩⟩
    simp only [listed_iff.mpr ⟨a, ha, rfl⟩, Bool.or_true]
  · exact List.mem_filter.mpr ⟨hnote.deferred pid hpid hmem, by simp⟩

theorem Preserves.congr {state' : ClientState} (h : Preserves w state)
    (heq : state'.attachedProcesses = state.attachedProcesses) : Preserves w state' := by
  refine ⟨fun pid hp => h.keys pid ?_, fun a ha hp => ?_, fun pid hpid hmem => ?_⟩
  · simpa [mem_attachedPids, heq] using hp
  · simpa [mem_attachedPids, heq] using h.held a ha hp
  · rw [heq]
    exact h.deferred pid hpid hmem

@[simp] theorem live_attached (checks : Bool) (what : Arrival) (state : ClientState) :
    (state.live checks what).2.attachedProcesses = state.attachedProcesses := by
  unfold ClientState.live
  split <;> rfl

theorem launch_attached (checks : Bool) (prune snapshot : Probe)
    (initialBreak : Except DbgEngError Unit) (create : Except HResult Unit)
    (state : ClientState) :
    (state.launchProcessBegin checks prune snapshot initialBreak create).2.attachedProcesses =
      (state.pruneProcessesThatLeft prune).attachedProcesses := by
  cases initialBreak <;> cases create <;> simp [ClientState.launchProcessBegin]

theorem stop_preserves (h : Truthful w probe) (lastEvent : Except DbgEngError ℕ) :
    Preserves w (w.state.recordWhereItStopped lastEvent probe).2 := by
  unfold ClientState.recordWhereItStopped
  rw [h.sessionProcesses]
  cases lastEvent with
  | error e => exact .of_eq rfl
  | ok id =>
    dsimp only
    split
    · exact note_preserves w
    · exact (note_preserves w).congr rfl

theorem Preserves.tidy (h : Preserves w w'.state) (htidy : Tidy w) (hheld : w'.held = w.held)
    (hcoming : w'.coming = w.coming) (hseen : w'.seen = w.seen) : Tidy w' := by
  refine ⟨fun pid hp => ?_, ?_, ?_⟩
  · rw [hseen]
    exact htidy.recorded pid (h.keys pid hp)
  · rw [hcoming, hseen]
    exact htidy.seen
  · rw [hcoming, hheld]
    exact htidy.apart

theorem Preserves.recorded (h : Preserves w w'.state) (htidy : Tidy w) (hrecorded : Recorded w)
    (hheld : w'.held = w.held) (hcoming : w'.coming = w.coming) : Recorded w' := by
  refine ⟨?_, ?_, ?_⟩
  · rw [hheld]
    exact fun a ha horigin => h.held a ha (hrecorded.attached a ha horigin)
  · rw [hheld]
    exact fun a ha horigin hkey => hrecorded.launched a ha horigin (h.keys _ hkey)
  · rw [hcoming]
    exact fun pid hpid => h.deferred pid (htidy.apart pid hpid) (hrecorded.coming pid hpid)

theorem retire_cases (id : ArrivalId) (state : ClientState) :
    (state.retireDeferredAttachment id = state ∧ ∀ pid, state.arrivals.attachedPid id = some pid →
      state.attachedProcesses.lookup pid ≠ some .deferred) ∨
    ∃ pid, state.arrivals.attachedPid id = some pid ∧
      state.attachedProcesses.lookup pid = some .deferred ∧
      (state.retireDeferredAttachment id).attachedProcesses =
        state.attachedProcesses.filter (·.1 ≠ pid) := by
  unfold ClientState.retireDeferredAttachment
  cases hpid : state.arrivals.attachedPid id with
  | none => exact .inl (by simp)
  | some pid =>
    by_cases hd : state.attachedProcesses.lookup pid = some .deferred
    · exact .inr ⟨pid, rfl, hd, by simp [hd]⟩
    · exact .inl (by simp [hd])

theorem mem_retired {state' : ClientState} {pid other : ℕ}
    (h : state'.attachedProcesses = state.attachedProcesses.filter (·.1 ≠ pid)) :
    other ∈ state'.attachedPids ↔ other ≠ pid ∧ other ∈ state.attachedPids := by
  simp only [mem_attachedPids, h, List.mem_filter, decide_eq_true_eq]
  exact ⟨fun ⟨a, ha, hne⟩ => ⟨hne, a, ha⟩, fun ⟨hne, a, ha⟩ => ⟨a, ha, hne⟩⟩

theorem retire_tidy (htidy : Tidy w)
    (hstate : w'.state.attachedProcesses = (w.state.retireDeferredAttachment id).attachedProcesses)
    (hheld : w'.held = w.held) (hcoming : w'.coming = w.coming) (hseen : w'.seen = w.seen) :
    Tidy w' := by
  refine ⟨fun pid hp => ?_, ?_, ?_⟩
  · rw [hseen]
    apply htidy.recorded pid
    rcases retire_cases id w.state with ⟨hsame, -⟩ | ⟨gone, -, -, hgone⟩
    · rw [hsame] at hstate
      simpa [mem_attachedPids, hstate] using hp
    · rw [hgone] at hstate
      exact ((mem_retired hstate).mp hp).2
  · rw [hcoming, hseen]
    exact htidy.seen
  · rw [hcoming, hheld]
    exact htidy.apart

theorem retire_recorded (htidy : Tidy w) (hrecorded : Recorded w)
    (hstate : w'.state.attachedProcesses = (w.state.retireDeferredAttachment id).attachedProcesses)
    (hheld : w'.held = w.held) (hcoming : w'.coming = w.coming) :
    Recorded w' ↔ RetiresNobody w id := by
  rcases retire_cases id w.state with ⟨hsame, hnone⟩ | ⟨pid, hpid, hdeferred, hgone⟩
  · rw [hsame] at hstate
    refine iff_of_true ((Preserves.of_eq hstate).recorded htidy hrecorded hheld hcoming) ?_
    intro pid hpid hd
    exact absurd hd (hnone pid hpid)
  · rw [hgone] at hstate
    have hkey : pid ∈ w.state.attachedPids := by
      obtain ⟨pre, post, hsplit, -⟩ := List.lookup_eq_some_iff.mp hdeferred
      exact mem_attachedPids.mpr ⟨.deferred, by simp [hsplit]⟩
    constructor
    · intro h' other hother _
      obtain rfl : pid = other := by simpa [hpid] using hother
      constructor
      · rintro a ha rfl
        cases horigin : a.origin with
        | attached =>
          have := h'.attached a (hheld ▸ ha) horigin
          exact ((mem_retired hstate).mp this).1 rfl
        | launched => exact hrecorded.launched a ha horigin hkey
      · intro hcom
        have := h'.coming pid (hcoming ▸ hcom)
        rw [hstate] at this
        simp at this
    · intro hnobody
      obtain ⟨hnotheld, hnotcoming⟩ := hnobody pid hpid hdeferred
      refine ⟨?_, ?_, ?_⟩
      · rw [hheld]
        intro a ha horigin
        exact (mem_retired hstate).mpr ⟨hnotheld a ha, hrecorded.attached a ha horigin⟩
      · rw [hheld]
        intro a ha horigin hk
        exact hrecorded.launched a ha horigin ((mem_retired hstate).mp hk).2
      · rw [hcoming]
        intro other hother
        rw [hstate]
        refine List.mem_filter.mpr ⟨hrecorded.coming other hother, ?_⟩
        simp only [decide_eq_true_eq]
        rintro rfl
        exact hnotcoming hother

theorem look_attached (w : LiveSession) (id : ArrivalId) (probe : Probe) (left : ℕ) :
    (TimesOut w id probe left → (w.look id probe left).2.state.attachedProcesses =
      (w.state.retireDeferredAttachment id).attachedProcesses) ∧
    (¬ TimesOut w id probe left →
      (w.look id probe left).2.state.attachedProcesses = w.state.attachedProcesses) ∧
    (w.look id probe left).2.held = w.held ∧ (w.look id probe left).2.coming = w.coming ∧
    (w.look id probe left).2.seen = w.seen := by
  unfold LiveSession.look
  split
  · next waited asked hwait =>
    simp only [ClientState.look, TimesOut, hwait]
    by_cases harrived : w.state.presenceOf probe id = .arrived ∨
        w.state.presenceOf probe id = .unknown ∧ waited = true
    · rw [if_pos harrived]
      refine ⟨fun h => ?_, fun _ => rfl, rfl, rfl, rfl⟩
      simp [h.2.2] at harrived
    · rw [if_neg harrived]
      by_cases hover : left = 0 ∨ asked = true
      · rw [if_pos hover]
        cases hpresence : w.state.presenceOf probe id with
        | absent =>
          cases asked with
          | true => simp [LiveSession.finish]
          | false =>
            have hleft : left = 0 := by simpa using hover
            cases waited <;> simp [LiveSession.finish, hleft]
        | arrived => simp [hpresence] at harrived
        | listed => simp [LiveSession.finish]
        | unknown => simp [LiveSession.finish]
      · rw [if_neg hover]
        refine ⟨fun h => ?_, fun _ => rfl, rfl, rfl, rfl⟩
        simp [h.2.1] at hover
  · next hwait =>
    refine ⟨fun h => ?_, fun _ => rfl, rfl, rfl, rfl⟩
    exact absurd h.1 (hwait _ _)

theorem pumped_attached (w : LiveSession) (id : ArrivalId) (probe : Probe) (source : HResult) :
    let retires := (∃ waited asked, w.waits id = some ⟨waited, asked, .pumping⟩) ∧
      probe.holdsNothingAtAll = true
    let after := (w.pumped id probe (.failed source)).2
    (retires → after.state.attachedProcesses =
      (w.state.retireDeferredAttachment id).attachedProcesses) ∧
    (¬ retires → after.state.attachedProcesses = w.state.attachedProcesses) ∧
    after.held = w.held ∧ after.coming = w.coming ∧ after.seen = w.seen := by
  unfold LiveSession.pumped
  split
  · next waited asked hwait =>
    cases hnothing : probe.holdsNothingAtAll <;> simp [LiveSession.finish, hwait]
  · next hwait =>
    refine ⟨fun ⟨⟨waited, asked, h⟩, _⟩ => absurd h (hwait _ _), fun _ => rfl, rfl, rfl, rfl⟩

theorem accepted_recorded (pid : ℕ) (hp : Preserves w state) (htidy : Tidy w) {w' : LiveSession}
    (hstate : w'.state.attachedProcesses = (state.claimAttached pid).attachedProcesses)
    (hheld : w'.held = (w.accepted pid).held) (hcoming : w'.coming = (w.accepted pid).coming)
    (hseen : w'.seen = (w.accepted pid).seen) : Tidy w' ∧ (Recorded w → Recorded w') := by
  have hkeys : ∀ other, other ∈ w'.state.attachedPids ↔
      other = pid ∨ other ∈ state.attachedPids := by
    intro other
    rw [mem_attachedPids, hstate]
    simp only [ClientState.claimAttached, List.mem_cons, Prod.mk.injEq, List.mem_filter,
      decide_eq_true_eq, mem_attachedPids]
    constructor
    · rintro ⟨a, ⟨rfl, -⟩ | ⟨ha, -⟩⟩
      · exact .inl rfl
      · exact .inr ⟨a, ha⟩
    · rintro (rfl | ⟨a, ha⟩)
      · exact ⟨.deferred, .inl ⟨rfl, rfl⟩⟩
      · by_cases hne : other = pid
        · exact ⟨.deferred, .inl ⟨hne, rfl⟩⟩
        · exact ⟨a, .inr ⟨ha, hne⟩⟩
  have hdeferred : ∀ other, (other = pid ∨ (other, .deferred) ∈ state.attachedProcesses) →
      (other, .deferred) ∈ w'.state.attachedProcesses := by
    intro other hother
    rw [hstate]
    simp only [ClientState.claimAttached, List.mem_cons, Prod.mk.injEq, List.mem_filter,
      decide_eq_true_eq]
    by_cases hne : other = pid
    · exact .inl ⟨hne, trivial⟩
    · exact .inr ⟨hother.resolve_left hne, hne⟩
  -- the pids of the session are the same, and a process of that pid is an attached one now
  have hmem : ∀ a ∈ w'.held, ∃ b ∈ w.held, a.process = b.process ∧
      (a.process.2 ≠ pid → a.origin = b.origin) ∧ (a.process.2 = pid → a.origin = .attached) := by
    intro a ha
    rw [hheld] at ha
    obtain ⟨b, hb, rfl⟩ := List.mem_map.mp ha
    refine ⟨b, hb, ?_⟩
    split <;> simp_all
  have hcom : ∀ c ∈ w'.coming, (c = pid ∧ ∀ b ∈ w.held, b.process.2 ≠ pid) ∨ c ∈ w.coming := by
    intro c hc
    rw [hcoming, LiveSession.accepted] at hc
    dsimp only at hc
    split at hc
    · exact .inr hc
    · next hany =>
      rcases List.mem_cons.mp hc with rfl | hc
      · exact .inl ⟨rfl, by simpa using hany⟩
      · exact .inr hc
  constructor
  · refine ⟨fun other ho => ?_, fun c hc => ?_, fun c hc a ha => ?_⟩
    · rw [hseen, LiveSession.accepted]
      rcases (hkeys other).mp ho with rfl | ho
      · simp
      · simp [htidy.recorded other (hp.keys other ho)]
    · rw [hseen, LiveSession.accepted]
      rcases hcom c hc with ⟨rfl, -⟩ | hc
      · simp
      · simp [htidy.seen c hc]
    · obtain ⟨b, hb, hab, -⟩ := hmem a ha
      rw [hab]
      rcases hcom c hc with ⟨rfl, hno⟩ | hc
      · exact hno b hb
      · exact htidy.apart c hc b hb
  · intro hr
    refine ⟨fun a ha horigin => ?_, fun a ha horigin hkey => ?_, fun c hc => ?_⟩
    · obtain ⟨b, hb, hab, hother, -⟩ := hmem a ha
      rw [hkeys]
      by_cases hpid : a.process.2 = pid
      · exact .inl hpid
      · right
        rw [hab]
        exact hp.held b hb (hr.attached b hb (hother hpid ▸ horigin))
    · obtain ⟨b, hb, hab, hother, hsame⟩ := hmem a ha
      by_cases hpid : a.process.2 = pid
      · rw [hsame hpid] at horigin
        cases horigin
      · refine hr.launched b hb (hother hpid ▸ horigin) (hp.keys _ ?_)
        rw [← hab]
        exact ((hkeys _).mp hkey).resolve_left hpid
    · rcases hcom c hc with ⟨rfl, -⟩ | hc
      · exact hdeferred c (.inl rfl)
      · exact hdeferred c (.inr (hp.deferred c (htidy.apart c hc) (hr.coming c hc)))

theorem serve_recorded {checks : Bool} {w : LiveSession} {c : OpenCall} (htidy : Tidy w)
    (hlawful : Lawful w c) :
    Tidy ((opens checks).serve c w).2 ∧
      (Recorded w → (Recorded ((opens checks).serve c w).2 ↔ Spared w c)) := by
  -- the calls that only touch the record through a listing
  have hkeep : ∀ w' : LiveSession, Preserves w w'.state → w'.held = w.held →
      w'.coming = w.coming → w'.seen = w.seen → Spared w c →
      Tidy w' ∧ (Recorded w → (Recorded w' ↔ Spared w c)) := by
    intro w' hp hheld hcoming hseen hspared
    exact ⟨hp.tidy htidy hheld hcoming hseen,
      fun hr => iff_of_true (hp.recorded htidy hr hheld hcoming) hspared⟩
  cases c with
  | launchProcessBegin prune snapshot initialBreak create =>
    exact hkeep _ ((prune_preserves hlawful.1).congr (launch_attached ..)) rfl rfl rfl trivial
  | attachProcessBegin pid initialBreak attach prune =>
    cases initialBreak with
    | error e => exact hkeep _ (.of_eq rfl) rfl rfl rfl trivial
    | ok u =>
      cases attach with
      | error source => exact hkeep _ (.of_eq rfl) rfl rfl rfl trivial
      | ok u =>
        have h : Tidy ((opens checks).serve (.attachProcessBegin pid (.ok ()) (.ok ()) prune) w).2 ∧
            (Recorded w → Recorded
              ((opens checks).serve (.attachProcessBegin pid (.ok ()) (.ok ()) prune) w).2) :=
          accepted_recorded pid (prune_preserves hlawful) htidy (live_attached checks _ _)
            rfl rfl rfl
        exact ⟨h.1, fun hr => iff_of_true (h.2 hr) trivial⟩
  | prune probe => exact hkeep _ (prune_preserves hlawful) rfl rfl rfl trivial
  | wait id => exact hkeep _ (.of_eq rfl) rfl rfl rfl trivial
  | look id probe left =>
    obtain ⟨hretires, hkeeps, hheld, hcoming, hseen⟩ := look_attached w id probe left
    by_cases htimes : TimesOut w id probe left
    · refine ⟨retire_tidy htidy (hretires htimes) hheld hcoming hseen, fun hr => ?_⟩
      exact (retire_recorded htidy hr (hretires htimes) hheld hcoming).trans
        ⟨fun h _ => h, fun h => h htimes⟩
    · exact hkeep _ (.of_eq (hkeeps htimes)) hheld hcoming hseen fun h => absurd h htimes
  | pumped id probe how =>
    cases how with
    | failed source =>
      obtain ⟨hretires, hkeeps, hheld, hcoming, hseen⟩ :=
        pumped_attached w id probe source
      by_cases hfails : (∃ waited asked, w.waits id = some ⟨waited, asked, .pumping⟩) ∧
          probe.holdsNothingAtAll = true
      · refine ⟨retire_tidy htidy (hretires hfails) hheld hcoming hseen, fun hr => ?_⟩
        exact (retire_recorded htidy hr (hretires hfails) hheld hcoming).trans
          ⟨fun h _ _ => h, fun h => h hfails.1 hfails.2⟩
      · exact hkeep _ (.of_eq (hkeeps hfails)) hheld hcoming hseen
          fun h hnothing => absurd ⟨h, hnothing⟩ hfails
    | expired =>
      refine hkeep _ (.of_eq ?_) ?_ ?_ ?_ trivial <;>
        (simp only [opens, LiveSession.pumped]; split <;> rfl)
    | brokeIn =>
      refine hkeep _ (.of_eq ?_) ?_ ?_ ?_ trivial <;>
        (simp only [opens, LiveSession.pumped]; split <;> rfl)
    | stopped lastEvent =>
      refine hkeep _ ?_ ?_ ?_ ?_ trivial
      · simp only [opens, LiveSession.pumped]
        split
        · exact stop_preserves hlawful lastEvent
        · exact .of_eq rfl
      all_goals
        simp only [opens, LiveSession.pumped]
        split <;> rfl
  | dropGuard id => exact hkeep _ (.of_eq rfl) rfl rfl rfl trivial
  | stop lastEvent probe =>
    exact hkeep _ (stop_preserves hlawful lastEvent) rfl rfl rfl trivial
  | joins process origin =>
    have htidy' : ∀ pid ∈ w.coming.filter (· ≠ process.2), pid ∈ w.coming ∧ pid ≠ process.2 := by
      intro pid hpid
      simpa using hpid
    refine ⟨⟨fun pid hp => ?_, fun pid hp => ?_, fun pid hp a ha => ?_⟩, fun hr => ?_⟩
    · exact List.mem_cons_of_mem _ (htidy.recorded pid hp)
    · exact List.mem_cons_of_mem _ (htidy.seen pid (htidy' pid hp).1)
    · rcases List.mem_cons.mp ha with rfl | ha
      · exact (htidy' pid hp).2.symm
      · exact htidy.apart pid (htidy' pid hp).1 a ha
    · refine iff_of_true ⟨fun a ha horigin => ?_, fun a ha horigin => ?_, fun pid hp => ?_⟩ trivial
      · rcases List.mem_cons.mp ha with rfl | ha
        · cases origin with
          | attached => exact mem_attachedPids.mpr ⟨.deferred, hr.coming _ hlawful⟩
          | launched => cases horigin
        · exact hr.attached a ha horigin
      · rcases List.mem_cons.mp ha with rfl | ha
        · cases origin with
          | attached => cases horigin
          | launched => exact fun hkey => hlawful (htidy.recorded _ hkey)
        · exact hr.launched a ha horigin
      · exact hr.coming pid (htidy' pid hp).1
  | leaves process =>
    refine ⟨⟨htidy.recorded, htidy.seen, fun pid hpid a ha => ?_⟩, fun hr => ?_⟩
    · exact htidy.apart pid hpid a (List.mem_of_mem_filter ha)
    · refine iff_of_true ⟨fun a ha => ?_, fun a ha => ?_, hr.coming⟩ trivial
      · exact hr.attached a (List.mem_of_mem_filter ha)
      · exact hr.launched a (List.mem_of_mem_filter ha)
  | givenUp pid =>
    refine ⟨⟨htidy.recorded, fun p hp => ?_, fun p hp => ?_⟩, fun hr => ?_⟩
    · exact htidy.seen p (List.mem_of_mem_filter hp)
    · exact htidy.apart p (List.mem_of_mem_filter hp)
    · exact iff_of_true
        ⟨hr.attached, hr.launched, fun p hp => hr.coming p (List.mem_of_mem_filter hp)⟩ trivial

theorem Recorded.detaches (h : Recorded w) {probe : Probe} (hprobe : Truthful w probe) :
    (w.state.detachAttachedProcesses probe).1 =
      .ok ((w.held.filter (·.origin = .attached)).map (·.process)) := by
  have hiff : ∀ a ∈ w.held,
      w.state.attachedProcesses.any (·.1 = a.process.2) = decide (a.origin = .attached) := by
    intro a ha
    rw [Bool.eq_iff_iff, decide_eq_true_iff]
    have hkey : w.state.attachedProcesses.any (·.1 = a.process.2) = true ↔
        a.process.2 ∈ w.state.attachedPids := by
      rw [mem_attachedPids]
      simp
    rw [hkey]
    constructor
    · intro hk
      cases horigin : a.origin with
      | attached => rfl
      | launched => exact absurd hk (h.launched a ha horigin)
    · exact h.attached a ha
  have hlist : w.processes.filter (fun entry => w.state.attachedProcesses.any (·.1 = entry.2)) =
      (w.held.filter (·.origin = .attached)).map (·.process) := by
    rw [LiveSession.processes, List.filter_map]
    exact congrArg _ (List.filter_congr hiff)
  rw [← hlist, ClientState.detachAttachedProcesses, hprobe.sessionProcesses]
  cases hrecord : w.state.attachedProcesses with
  | nil => simp
  | cons a record => simp

/-- **Ending a session detaches exactly the attached processes it holds, in every run in which no
open is given up on a process that is there or on its way.** -/
theorem teardown_detaches_attached (checks : Bool) (calls : List OpenCall)
    (hlawful : (opens checks).Throughout Lawful calls) :
    ((opens checks).Always Recorded calls ↔ (opens checks).Throughout Spared calls) ∧
    ((opens checks).Throughout Spared calls → ∀ probe,
      Truthful ((opens checks).after calls) probe →
      (((opens checks).after calls).state.detachAttachedProcesses probe).1 =
        .ok ((((opens checks).after calls).held.filter (·.origin = .attached)).map
          (·.process))) := by
  have htidy : (opens checks).Always Tidy calls :=
    Serial.always_of_step ⟨by simp [opens, ClientState.attachedPids], by simp [opens],
      by simp [opens]⟩ (fun w c h hl => (serve_recorded h hl).1) hlawful
  have hiff : (opens checks).Always Recorded calls ↔ (opens checks).Throughout Spared calls :=
    Serial.always_iff_throughout ⟨by simp [opens], by simp [opens], by simp [opens]⟩ hlawful htidy
      fun w c ht hl hr => (serve_recorded ht hl).2 hr
  exact ⟨hiff, fun hspared probe hprobe => (hiff.mpr hspared).now.detaches hprobe⟩

def attaching (pid : ℕ) (held : List Process) : OpenCall :=
  .attachProcessBegin pid (.ok ()) (.ok ()) (listing held)

/-- An attached process and a launched one. Newest call first. -/
def attachedAndLaunched : List OpenCall :=
  [.joins (1, 200) .launched, launching [(0, 100)], .stop (.ok 0) (listing [(0, 100)]),
    .joins (0, 100) .attached, attaching 100 []]

theorem teardown_detaches_attached_mixed :
    (((opens true).after attachedAndLaunched).state.detachAttachedProcesses
      (listing [(1, 200), (0, 100)])).1 = .ok [(0, 100)] := by
  refine (teardown_detaches_attached true attachedAndLaunched ?_).2 ?_ _ ⟨rfl, rfl⟩
  · refine ⟨⟨⟨⟨⟨trivial, ?_⟩, ?_⟩, ?_⟩, ?_⟩, ?_⟩
    · exact ⟨rfl, rfl⟩
    · simp [Lawful, attaching, opens, LiveSession.accepted]
    · exact ⟨rfl, rfl⟩
    · exact ⟨⟨rfl, rfl⟩, ⟨rfl, rfl⟩⟩
    · simp [Lawful, attaching, launching, opens, LiveSession.accepted]
  · exact ⟨⟨⟨⟨⟨trivial, trivial⟩, trivial⟩, trivial⟩, trivial⟩, trivial⟩

/-- Process 100 is attached to, stops, leaves, and is attached to again. The first open's guard is
then waited on, and the process joins without stopping before its bound is over. Newest call
first. -/
def attachedTwice : List OpenCall :=
  [.look 1 (listing [(0, 100)]) 0, .pumped 1 (listing [(0, 100)]) .expired,
    .joins (0, 100) .attached, .look 1 (listing []) 30000, .wait 1, attaching 100 [],
    .leaves (0, 100), .stop (.ok 0) (listing [(0, 100)]), .joins (0, 100) .attached,
    attaching 100 []]

/-- The first open times out on a target that left, and retires the record of the second attach:
its process is in the session and is not detached from. -/
theorem timed_out_open_retires_second_attach :
    (opens true).Throughout Lawful attachedTwice ∧
    ((opens true).after attachedTwice).held = [⟨(0, 100), .attached⟩] ∧
    ((opens true).after attachedTwice).state.attachedProcesses = [] ∧
    (((opens true).after attachedTwice).state.detachAttachedProcesses
      (listing [(0, 100)])).1 = .ok [] := by
  refine ⟨⟨⟨⟨⟨⟨⟨⟨⟨⟨⟨trivial, ?_⟩, ?_⟩, ?_⟩, ?_⟩, ?_⟩, ?_⟩, ?_⟩, ?_⟩, ?_⟩, ?_⟩, ?_, ?_, ?_⟩
  · exact ⟨rfl, rfl⟩
  · show 100 ∈ ((opens true).after (attachedTwice.drop 9)).coming
    decide
  · exact ⟨rfl, rfl⟩
  · trivial
  · exact ⟨rfl, rfl⟩
  · trivial
  · refine ⟨⟨rfl, rfl⟩, fun h => ?_⟩
    simp [TimesOut] at h
  · show 100 ∈ ((opens true).after (attachedTwice.drop 3)).coming
    decide
  · exact ⟨rfl, rfl⟩
  · refine ⟨⟨rfl, rfl⟩, fun _ pid _ => ?_⟩
    have hcoming : ((opens true).after attachedTwice.tail).coming = [] := by decide
    exact hcoming ▸ List.not_mem_nil
  · decide
  · decide
  · rfl

end DbgScope.Engine
