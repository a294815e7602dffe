import Mathlib.Data.List.AList
import DbgScope.Heap.Neighbourhood
import DbgScope.Heap.Roots

/-!
# Snapshots kept between queries

A pool query and a heap query each keep their last snapshot and serve it again under the same key:
the identity of the target, the generation of the session, and what the query is about. Identities
are handed out per debug client, and anew when a client lets go of its target; the generation moves
when the debugger reports a session transition. The queries of several threads interleave with that:
each reads its key, looks it up, and stores its snapshot after the walk.

In whatever order, a snapshot served again was walked for the same client, which kept its target and
its session between the two readings of the key, and nothing has emptied the cache since the
snapshot was stored (`served_current`).
-/

namespace DbgScope.Engine.Caches

/-! ## Identities of targets -/

def maxRememberedClients : ℕ := 64

/-- The identity in force for each debug client, and the next one to hand out. -/
structure Registry where
  next : ℕ := 1
  identities : AList fun _ : ℕ => ℕ := ∅

namespace Registry

variable (r : Registry) (key : ℕ)

/-- Only a client never seen before makes the registry forget the others. -/
def identityFor : ℕ × Registry :=
  let identities :=
    if r.identities.lookup key = none ∧ maxRememberedClients ≤ r.identities.keys.length then ∅
    else r.identities
  match identities.lookup key with
  | some identity => (identity, { r with identities })
  | none =>
    (r.next, { next := wrappingAdd r.next 1, identities := identities.insert key r.next })

def reissueFor : ℕ × Registry :=
  (r.next, { next := wrappingAdd r.next 1, identities := r.identities.insert key r.next })

/-- The next identity goes to `key`; other clients keep theirs or are forgotten. -/
structure Issues (r' : Registry) : Prop where
  next : r'.next = r.next + 1
  own : r'.identities.lookup key = some r.next
  others : ∀ client ≠ key, ∀ n, r'.identities.lookup client = some n →
    r.identities.lookup client = some n

variable {r key} {n : ℕ} {r' : Registry}

theorem issues_insert {identities : AList fun _ : ℕ => ℕ} (hroom : r.next + 1 < 2 ^ 64)
    (h : ∀ client n, identities.lookup client = some n → r.identities.lookup client = some n) :
    r.Issues key
      { next := wrappingAdd r.next 1, identities := identities.insert key r.next } where
  next := wrappingAdd_of_lt hroom
  own := AList.lookup_insert _
  others := by
    intro client hne n hn
    rw [AList.lookup_insert_ne hne] at hn
    exact h client n hn

theorem reissueFor_issues (hroom : r.next + 1 < 2 ^ 64) : r.Issues key (r.reissueFor key).2 :=
  issues_insert hroom fun _ _ => id

theorem identityFor_cases (key : ℕ) (hroom : r.next + 1 < 2 ^ 64) :
    (r.identities.lookup key = some (r.identityFor key).1 ∧ (r.identityFor key).2 = r) ∨
      (r.identityFor key).1 = r.next ∧ r.Issues key (r.identityFor key).2 := by
  unfold identityFor
  cases hseen : r.identities.lookup key with
  | some identity => simp [hseen]
  | none =>
    right
    split
    · exact ⟨rfl, issues_insert hroom fun _ _ hn => by cases hn⟩
    · simp only [hseen, true_and]
      exact issues_insert hroom fun _ _ => id

/-- The identity `n` has been handed out, and only clients in `P` have it. -/
structure Holders (r : Registry) (n : ℕ) (P : ℕ → Prop) : Prop where
  issued : n < r.next
  only : ∀ client, r.identities.lookup client = some n → P client

/-- No two clients have the same identity, and none has one that is still to come. -/
def Sound (r : Registry) : Prop :=
  ∀ client n, r.identities.lookup client = some n → r.Holders n (· = client)

variable {P : ℕ → Prop}

theorem Holders.issues (h : r.Holders n P) (hi : r.Issues key r') : r'.Holders n P where
  issued := by
    rw [hi.next]
    exact h.issued.trans (Nat.lt_succ_self _)
  only := by
    intro client hn
    by_cases hc : client = key
    · -- What the client has was handed out just now, and `n` was before.
      rw [hc, hi.own, Option.some.injEq] at hn
      exact absurd h.issued hn.not_gt
    · exact h.only client (hi.others client hc n hn)

/-- Reissuing takes an identity from the one client that had it. -/
theorem Holders.reissued (h : r.Holders n (· = key)) (hi : r.Issues key r') :
    r'.Holders n fun _ => False where
  issued := (h.issues hi).issued
  only := by
    intro client hn
    obtain rfl := (h.issues hi).only client hn
    rw [hi.own, Option.some.injEq] at hn
    exact absurd h.issued hn.not_gt

theorem Holders.of_identityFor (h : r.Holders n P) (hroom : r.next + 1 < 2 ^ 64)
    (heq : (r.identityFor key).1 = n) : P key := by
  obtain ⟨hseen, -⟩ | ⟨hfresh, -⟩ := identityFor_cases key hroom
  · exact h.only key (heq ▸ hseen)
  · exact absurd h.issued (by omega)

theorem Sound.issued (h : r.Sound) (hi : r.Issues key r') : r'.Holders r.next (· = key) where
  issued := by
    rw [hi.next]
    exact Nat.lt_succ_self _
  only := by
    intro client hn
    by_contra hc
    exact absurd (h client r.next (hi.others client hc _ hn)).issued (lt_irrefl _)

theorem Sound.issues (h : r.Sound) (hi : r.Issues key r') : r'.Sound := by
  intro client n hn
  by_cases hc : client = key
  · rw [hc, hi.own, Option.some.injEq] at hn
    exact hn ▸ hc ▸ h.issued hi
  · exact (h client n (hi.others client hc n hn)).issues hi

theorem Sound.holders_identityFor (h : r.Sound) (hroom : r.next + 1 < 2 ^ 64) :
    (r.identityFor key).2.Holders (r.identityFor key).1 (· = key) := by
  obtain ⟨hseen, heq⟩ | ⟨hfresh, hi⟩ := identityFor_cases key hroom
  · rw [heq]
    exact h key _ hseen
  · rw [hfresh]
    exact h.issued hi

end Registry

/-! ## Queries and their cache -/

structure Key (κ : Type) where
  target : ℕ
  generation : ℕ
  about : κ
  deriving DecidableEq

/-- What a cache does with the snapshot of a walk. -/
structure Policy (σ ν : Type) where
  keeps : σ → Bool
  view : σ → ν
  /-- A walk that is not kept empties the cache. -/
  clears : Bool

inductive Stage (κ : Type)
  | asked (key : Key κ)
  | walking (key : Key κ)

def Stage.key {κ : Type} : Stage κ → Key κ
  | asked key | walking key => key

structure World (κ ν : Type) where
  registry : Registry := {}
  generation : ℕ := 1
  entry : Option (Key κ × ν) := none
  /-- The query each thread has under way. -/
  queries : ℕ → Option (Stage κ) := fun _ => none

inductive Event (κ σ : Type)
  /-- A thread reads the key of its query. -/
  | ask (thread client : ℕ) (about : κ)
  /-- It looks the key up, after emptying the cache if a refresh was asked for. -/
  | lookup (thread : ℕ) (refresh : Bool)
  /-- Its walk ends, with a snapshot unless it failed. -/
  | finish (thread : ℕ) (built : Option σ)
  /-- A client is created, ends its session or opens another. -/
  | reissue (client : ℕ)
  | transition
  | invalidate

def Event.empties {κ σ : Type} : Event κ σ → Bool
  | lookup _ refresh => refresh
  | transition | invalidate => true
  | _ => false

section Cache

variable {κ σ ν : Type} [DecidableEq κ] (policy : Policy σ ν)

namespace World

variable (w : World κ ν) (thread : ℕ)

def key (client : ℕ) (about : κ) : Key κ :=
  ⟨(w.registry.identityFor client).1, w.generation, about⟩

/-- `get_or_refresh` up to the build: what the cache has for a query, which may empty it first. -/
def found (refresh : Bool) : Option ν :=
  match w.queries thread with
  | some (.asked key) =>
    ((if refresh then none else w.entry).filter (·.1 = key)).map Prod.snd
  | _ => none

def looked (refresh : Bool) : Option (Stage κ) :=
  match w.queries thread with
  | some (.asked key) => if (w.found thread refresh).isSome then none else some (.walking key)
  | stage => stage

/-- `get_or_refresh` after the build. -/
def stored (built : Option σ) : Option (Key κ × ν) :=
  match w.queries thread, built with
  | some (.walking key), some snapshot =>
    if policy.keeps snapshot then some (key, policy.view snapshot)
    else if policy.clears then none
    else w.entry
  | _, _ => w.entry

def finished : Option (Stage κ) :=
  match w.queries thread with
  | some (.walking _) => none
  | stage => stage

end World

def step (w : World κ ν) : Event κ σ → World κ ν
  | .ask thread client about =>
    { w with
      registry := (w.registry.identityFor client).2
      queries := Function.update w.queries thread (some (.asked (w.key client about))) }
  | .lookup thread refresh =>
    { w with
      entry := if refresh then none else w.entry
      queries := Function.update w.queries thread (w.looked thread refresh) }
  | .finish thread built =>
    { w with
      entry := w.stored policy thread built
      queries := Function.update w.queries thread (w.finished thread) }
  | .reissue client => { w with registry := (w.registry.reissueFor client).2 }
  | .transition => { w with generation := wrappingAdd w.generation 1, entry := none }
  | .invalidate => { w with entry := none }

def runFrom (w : World κ ν) (events : List (Event κ σ)) : World κ ν :=
  events.foldl (step policy) w

def run (events : List (Event κ σ)) : World κ ν := runFrom policy {} events

/-! ## What one step does -/

variable {w : World κ ν} {event : Event κ σ}

theorem step_registry (event : Event κ σ) (hroom : w.registry.next + 1 < 2 ^ 64) :
    (step policy w event).registry = w.registry ∨
      ∃ client, w.registry.Issues client (step policy w event).registry := by
  cases event with
  | ask _ client _ =>
    obtain ⟨-, h⟩ | ⟨-, h⟩ := Registry.identityFor_cases client hroom
    · exact .inl h
    · exact .inr ⟨client, h⟩
  | reissue client => exact .inr ⟨client, Registry.reissueFor_issues hroom⟩
  | _ => exact .inl rfl

theorem generation_le_step (hroom : w.generation + 1 < 2 ^ 64) :
    w.generation ≤ (step policy w event).generation := by
  cases event with
  | transition => exact (Nat.le_succ _).trans_eq (wrappingAdd_of_lt hroom).symm
  | _ => exact le_rfl

/-- What the cache holds after a step it held before, or a walk has stored it in this step. -/
theorem step_entry {key : Key κ} {view : ν} (h : (step policy w event).entry = some (key, view)) :
    (w.entry = some (key, view) ∧ event.empties = false) ∨
      ∃ thread snapshot, event = .finish thread (some snapshot) ∧
        w.queries thread = some (.walking key) ∧ policy.keeps snapshot = true ∧
        view = policy.view snapshot := by
  cases event with
  | lookup thread refresh =>
    cases refresh with
    | false => exact .inl ⟨h, rfl⟩
    | true => cases h
  | finish thread built =>
    simp only [step, World.stored] at h
    split at h
    next key' snapshot hquery =>
      split at h
      next hkeeps =>
        cases h
        exact .inr ⟨thread, snapshot, rfl, hquery, hkeeps, rfl⟩
      next =>
        split at h
        · cases h
        · exact .inl ⟨h, rfl⟩
    next => exact .inl ⟨h, rfl⟩
  | transition => cases h
  | invalidate => cases h
  | _ => exact .inl ⟨h, rfl⟩

/-- The key of a query is the one it had, or is read in this step. -/
theorem step_queries {thread : ℕ} {stage : Stage κ}
    (h : (step policy w event).queries thread = some stage) :
    (∃ stage', w.queries thread = some stage' ∧ stage'.key = stage.key) ∨
      ∃ client, event = .ask thread client stage.key.about ∧
        stage.key = w.key client stage.key.about := by
  cases event with
  | ask thread' client about =>
    by_cases hthread : thread = thread'
    · simp only [step, hthread, Function.update_self, Option.some.injEq] at h
      exact .inr ⟨client, by rw [hthread, ← h]; rfl, by rw [← h]; rfl⟩
    · exact .inl ⟨stage, by simpa [step, hthread] using h, rfl⟩
  | lookup thread' refresh =>
    by_cases hthread : thread = thread'
    · simp only [step, hthread, Function.update_self, World.looked] at h ⊢
      split at h
      next key hquery =>
        split at h
        · cases h
        · exact .inl ⟨_, hquery, by cases h; rfl⟩
      next => exact .inl ⟨stage, h, rfl⟩
    · exact .inl ⟨stage, by simpa [step, hthread] using h, rfl⟩
  | finish thread' built =>
    by_cases hthread : thread = thread'
    · simp only [step, hthread, Function.update_self, World.finished] at h ⊢
      split at h
      · cases h
      · exact .inl ⟨stage, h, rfl⟩
    · exact .inl ⟨stage, by simpa [step, hthread] using h, rfl⟩
  | _ => exact .inl ⟨stage, h, rfl⟩

theorem lookup_found {thread : ℕ} {refresh : Bool} {view : ν}
    (h : w.found thread refresh = some view) :
    ∃ key, w.queries thread = some (.asked key) ∧ w.entry = some (key, view) := by
  unfold World.found at h
  split at h
  next key hquery =>
    obtain ⟨⟨key', view'⟩, hfilter, rfl⟩ := Option.map_eq_some_iff.mp h
    obtain ⟨hentry, hkey⟩ := Option.filter_eq_some_iff.mp hfilter
    obtain rfl : key' = key := of_decide_eq_true hkey
    cases refresh with
    | false => exact ⟨key', hquery, hentry⟩
    | true => cases hentry
  next => cases h

/-! ## Whole runs -/

/-- Neither of the two 64-bit counters wraps in so many steps. -/
def World.Room (w : World κ ν) (steps : ℕ) : Prop :=
  w.registry.next + steps < 2 ^ 64 ∧ w.generation + steps < 2 ^ 64

theorem room_step {steps : ℕ} (h : w.Room (steps + 1)) (event : Event κ σ) :
    (step policy w event).Room steps := by
  obtain ⟨hnext, hgeneration⟩ := h
  constructor
  · obtain heq | ⟨client, hi⟩ := step_registry policy (w := w) event (by omega)
    · rw [heq]
      omega
    · rw [hi.next]
      omega
  · cases event with
    | transition =>
      have hbump : (step policy w .transition).generation = w.generation + 1 :=
        wrappingAdd_of_lt (by omega)
      rw [hbump]
      omega
    | _ => exact (Nat.le_succ _).trans_lt hgeneration

theorem run_keeps {I : World κ ν → Prop}
    (hI : ∀ w (event : Event κ σ), w.Room 1 → I w → I (step policy w event))
    (events : List (Event κ σ)) {steps : ℕ} {w : World κ ν} (hroom : w.Room (events.length + steps))
    (h : I w) : I (runFrom policy w events) ∧ (runFrom policy w events).Room steps := by
  induction events generalizing w with
  | nil => exact ⟨h, by rwa [List.length_nil, Nat.zero_add] at hroom⟩
  | cons event events ih =>
    rw [List.length_cons, Nat.add_right_comm] at hroom
    have hone : w.Room 1 := ⟨by have := hroom.1; omega, by have := hroom.2; omega⟩
    exact ih (room_step policy hroom event) (hI w event hone h)

/-- What handing out the next identity keeps, a run keeps. -/
theorem registry_run {I : Registry → Prop}
    (hI : ∀ {r r' : Registry} {key : ℕ}, I r → r.Issues key r' → I r')
    (events : List (Event κ σ)) {steps : ℕ} (hroom : w.Room (events.length + steps))
    (h : I w.registry) :
    I (runFrom policy w events).registry ∧ (runFrom policy w events).Room steps := by
  refine run_keeps (I := fun w => I w.registry) policy (fun w event hone hw => ?_) events hroom h
  obtain heq | ⟨client, hi⟩ := step_registry policy event hone.1
  · rwa [heq]
  · exact hI hw hi

/-- Two readings of one key are of one client, whose target and session are still those of the first
reading. -/
theorem same_target {thread client client' : ℕ} {about about' : κ} {events : List (Event κ σ)}
    (hsound : w.registry.Sound) (hroom : w.Room (events.length + 2))
    (h : w.key client about =
      (runFrom policy (step policy w (.ask thread client about)) events).key client' about') :
    client' = client ∧ ∀ event ∈ events, event ≠ .transition ∧ event ≠ .reissue client := by
  have hasked : (step policy w (.ask thread client about)).Room (events.length + 1) :=
    room_step policy hroom _
  have hheld : (step policy w (.ask thread client about)).registry.Holders
      (w.key client about).target (· = client) :=
    hsound.holders_identityFor (by have := hroom.1; omega)
  have htarget := (congrArg Key.target h).symm
  have hgeneration : w.generation = (runFrom policy _ events).generation :=
    congrArg Key.generation h
  obtain ⟨hend, hlast⟩ := registry_run policy Registry.Holders.issues events hasked hheld
  refine ⟨hend.of_identityFor hlast.1 htarget, fun event hevent => ?_⟩
  obtain ⟨before, after, rfl⟩ := List.append_of_mem hevent
  have hsplit : ∀ w : World κ ν, runFrom policy w (before ++ event :: after) =
      runFrom policy (step policy (runFrom policy w before) event) after := fun _ => by
    simp [runFrom]
  rw [hsplit] at htarget hgeneration hlast
  rw [List.length_append, List.length_cons, Nat.add_assoc, Nat.add_right_comm] at hasked
  have hle : ∀ g w (event : Event κ σ), w.Room 1 → g ≤ w.generation →
      g ≤ (step policy (ν := ν) w event).generation := fun g w event hone h =>
    h.trans (generation_le_step policy hone.2)
  obtain ⟨hbefore, hthere⟩ := registry_run policy Registry.Holders.issues before hasked hheld
  have hthen := room_step policy hthere event
  constructor
  · rintro rfl
    have hup := (run_keeps policy (hle w.generation) before hasked le_rfl).1
    have hbump : (step policy (runFrom policy (step policy w (.ask thread client about)) before)
        .transition).generation = _ := wrappingAdd_of_lt (by have := hthere.2; omega)
    have hafter := (run_keeps policy (hle _) after hthen hbump.ge).1
    omega
  · rintro rfl
    have hgone := hbefore.reissued (Registry.reissueFor_issues (by have := hthere.1; omega))
    exact (registry_run policy Registry.Holders.issues after hthen hgone).1.of_identityFor hlast.1
      htarget

/-! ## Where an answer comes from -/

theorem run_snoc (events : List (Event κ σ)) (event : Event κ σ) :
    run policy (events ++ [event]) = step policy (run policy events) event := by
  simp [run, runFrom]

/-- The key `thread` read for `client` in the event numbered `i`. -/
structure Asked (events : List (Event κ σ)) (thread client : ℕ) (key : Key κ) (i : ℕ) : Prop where
  event : events[i]? = some (.ask thread client key.about)
  key : key = (run policy (events.take i)).key client key.about

variable {events : List (Event κ σ)} {thread client i : ℕ} {key : Key κ}

omit [DecidableEq κ] in
theorem lt_length_of_getElem? {event : Event κ σ} (h : events[i]? = some event) :
    i < events.length :=
  (List.getElem?_eq_some_iff.mp h).1

theorem Asked.snoc (h : Asked policy events thread client key i) (event : Event κ σ) :
    Asked policy (events ++ [event]) thread client key i where
  event := by rw [List.getElem?_append_left (lt_length_of_getElem? h.event), h.event]
  key := by
    rw [List.take_append_of_le_length (lt_length_of_getElem? h.event).le]
    exact h.key

theorem queries_asked (events : List (Event κ σ)) {thread : ℕ} {stage : Stage κ}
    (h : (run policy events).queries thread = some stage) :
    ∃ client i, Asked policy events thread client stage.key i := by
  induction events using List.reverseRecOn generalizing stage with
  | nil => cases h
  | append_singleton events event ih =>
    rw [run_snoc] at h
    obtain ⟨stage', hstage', hkey⟩ | ⟨client, rfl, hkey⟩ := step_queries policy h
    · obtain ⟨client, i, hasked⟩ := ih hstage'
      exact ⟨client, i, (hkey ▸ hasked).snoc policy event⟩
    · exact ⟨client, events.length, by simp, by simpa using hkey⟩

/-- What the cache holds: `builder` asked for it at `i` and its walk, which the cache keeps, ended
at `m`; nothing has emptied the cache since. -/
structure Stored (events : List (Event κ σ)) (key : Key κ) (view : ν) (builder client i m : ℕ)
    (snapshot : σ) : Prop where
  asked : Asked policy events builder client key i
  lt : i < m
  finish : events[m]? = some (.finish builder (some snapshot))
  keeps : policy.keeps snapshot = true
  view : view = policy.view snapshot
  since : ∀ event ∈ events.drop (m + 1), event.empties = false

theorem entry_stored (events : List (Event κ σ)) {key : Key κ} {view : ν}
    (h : (run policy events).entry = some (key, view)) :
    ∃ builder client i m snapshot, Stored policy events key view builder client i m snapshot := by
  induction events using List.reverseRecOn with
  | nil => cases h
  | append_singleton events event ih =>
    rw [run_snoc] at h
    obtain ⟨hentry, hempties⟩ | ⟨thread, snapshot, rfl, hquery, hkeeps, hview⟩ :=
      step_entry policy h
    · obtain ⟨builder, client, i, m, snapshot, hstored⟩ := ih hentry
      have hm := lt_length_of_getElem? hstored.finish
      refine ⟨builder, client, i, m, snapshot, hstored.asked.snoc policy event, hstored.lt, ?_,
        hstored.keeps, hstored.view, ?_⟩
      · rw [List.getElem?_append_left hm, hstored.finish]
      · rw [List.drop_append_of_le_length hm]
        simpa [or_imp, forall_and, hempties] using hstored.since
    · obtain ⟨client, i, hasked⟩ := queries_asked policy events hquery
      exact ⟨thread, client, i, events.length, snapshot, hasked.snoc policy _,
        lt_length_of_getElem? hasked.event, by simp, hkeeps, hview, by simp⟩

theorem Asked.same_target {thread' client' j : ℕ} (hroom : events.length + 2 < 2 ^ 64)
    (hi : Asked policy events thread client key i)
    (hj : Asked policy events thread' client' key j) (hij : i < j) :
    client' = client ∧
      ∀ event ∈ (events.take j).drop i, event ≠ .transition ∧ event ≠ .reissue client := by
  have hjlt := lt_length_of_getElem? hj.event
  have hmid : (events.take j).drop i =
      .ask thread client key.about :: (events.take j).drop (i + 1) := by
    rw [List.drop_eq_getElem_cons (by rw [List.length_take]; omega), List.getElem_take]
    exact congrArg (· :: _) (List.getElem?_eq_some_iff.mp hi.event).2
  have htake : run policy (events.take j) =
      runFrom policy (run policy (events.take i)) ((events.take j).drop i) := by
    conv_lhs => rw [← List.take_append_drop i (events.take j), List.take_take, min_eq_left hij.le]
    exact List.foldl_append
  have hkey := hi.key.symm.trans hj.key
  rw [htake, hmid] at hkey
  have hstart : ({} : World κ ν).Room
      ((events.take i).length + (((events.take j).drop (i + 1)).length + 2)) := by
    simp only [World.Room, List.length_take, List.length_drop]
    omega
  obtain ⟨hsound, hroom'⟩ := registry_run policy Registry.Sound.issues (events.take i) hstart
    fun _ _ hn => by cases hn
  obtain ⟨hclient, hevents⟩ := Caches.same_target policy hsound hroom' hkey
  refine ⟨hclient, fun event hevent => ?_⟩
  rw [hmid, List.mem_cons] at hevent
  obtain rfl | hevent := hevent
  · simp
  · exact hevents event hevent

/-- `thread` is served what a walk stored for the same client, which kept its target and its session
between the two readings of the key. -/
structure Current (events : List (Event κ σ)) (thread : ℕ) (view : ν) (builder client i j m : ℕ)
    (snapshot : σ) (key : Key κ) : Prop where
  stored : Stored policy events key view builder client i m snapshot
  asked : Asked policy events thread client key j
  target : ∀ event ∈ (events.take (max i j)).drop (min i j),
    event ≠ .transition ∧ event ≠ .reissue client

theorem served_current {refresh : Bool} {view : ν} (hroom : events.length + 2 < 2 ^ 64)
    (h : (run policy events).found thread refresh = some view) :
    ∃ builder client i j m snapshot key,
      Current policy events thread view builder client i j m snapshot key := by
  obtain ⟨key, hquery, hentry⟩ := lookup_found h
  obtain ⟨client', j, hj⟩ := queries_asked policy events hquery
  obtain ⟨builder, client, i, m, snapshot, hs⟩ := entry_stored policy events hentry
  obtain ⟨rfl, htarget⟩ : client' = client ∧ ∀ event ∈ (events.take (max i j)).drop (min i j),
      event ≠ .transition ∧ event ≠ .reissue client := by
    obtain hij | rfl | hji := lt_trichotomy i j
    · rw [max_eq_right hij.le, min_eq_left hij.le]
      exact hs.asked.same_target policy hroom hj hij
    · have hevent := hs.asked.event.symm.trans hj.event
      simp only [Option.some.injEq, Event.ask.injEq] at hevent
      exact ⟨hevent.2.1.symm, by simp⟩
    · rw [max_eq_left hji.le, min_eq_right hji.le]
      obtain ⟨rfl, hevents⟩ := hj.same_target policy hroom hs.asked hji
      exact ⟨rfl, hevents⟩
  exact ⟨builder, client', i, j, m, snapshot, key, hs, hj, htarget⟩

end Cache

/-! ## The two caches -/

structure KernelImage where
  base : ℕ
  size : ℕ
  timestamp : ℕ
  checksum : ℕ
  deriving DecidableEq

/-- A walk that its budget or its match limit cut short is not kept. -/
def poolPolicy : Policy Pool.PoolSnapshot Pool.PoolIndex where
  keeps snapshot := !snapshot.budgetExpired && snapshot.stoppedAfterMatches.isNone
  view := Pool.PoolIndex.build
  clears := true

structure HeapQuery where
  processSystemId : ℕ
  peb : ℕ
  image : KernelImage
  heap : Option ℕ
  deriving DecidableEq

structure HeapSnapshot where
  roots : List Heap.HeapRoot
  allocations : List Heap.HeapAllocation
  walk : Heap.HeapWalkReport
  diagnostics : Heap.HeapDiagnosticReport

def heapPolicy : Policy HeapSnapshot HeapSnapshot where
  keeps snapshot := snapshot.walk.coverage = .complete
  view := id
  clears := false

variable {thread : ℕ} {refresh : Bool}

def smallImage : KernelImage := ⟨0x1000, 0x1000, 1, 2⟩

/-- One thread walks, and a second one asks for the same client. -/
def walkedOnce : List (Event KernelImage Pool.PoolSnapshot) :=
  [.ask 0 7 smallImage, .lookup 0 false, .finish 0 (some (.start .empty true none)),
    .ask 1 7 smallImage]

def heapWalkedOnce : List (Event HeapQuery HeapSnapshot) :=
  let query : HeapQuery := ⟨4, 0x2000, smallImage, none⟩
  let walked := Heap.fromPoolSnapshot (.start .empty true none)
  [.ask 0 7 query, .lookup 0 true, .finish 0 (some ⟨[], walked.1, walked.2.1, walked.2.2⟩),
    .ask 0 7 query]

end DbgScope.Engine.Caches
