import DbgScope.Engine.Basic

/-!
# The register of opens waiting for their target

An open is registered when it is made and is delivered the process the engine stops on, if it is the
process the open waits for: an attach waits for a pid, a launch for a process that its snapshot of
the session did not hold. `Arrivals` holds the opens in the order they were made.
-/

namespace DbgScope.Engine

abbrev Process := ℕ × ℕ

/-- One open waiting for its target. -/
abbrev ArrivalId := ℕ

/-- The process an open waits for. A launch tells it by elimination from what the session held
before, where that could be read; an attach knows its pid. -/
inductive Arrival
  | launched (before : Option (List Process))
  | attached (pid : ℕ)
  deriving DecidableEq, Repr

inductive Claim
  | waiting
  | arrived (entry : Process)
  | departed
  deriving DecidableEq, Repr

def Claim.held : Claim → Option Process
  | .arrived entry => some entry
  | .waiting | .departed => none

/-- A registered open. `inherited` are processes other opens were given before they finished, and
`abandoned` is a launch whose guard is gone before it was delivered anything. -/
structure Pending where
  id : ArrivalId
  what : Arrival
  claim : Claim
  inherited : List Process
  abandoned : Bool
  deriving DecidableEq, Repr

def Pending.wants (pending : Pending) (entry : Process) (others : List Pending)
    (attached : Finset ℕ) : Bool :=
  if pending.inherited.contains entry || others.any (·.claim.held = some entry) then false
  else match pending.what with
    | .attached pid => entry.2 = pid
    | .launched none => false
    | .launched (some before) =>
      !before.contains entry && decide (entry.2 ∉ attached) &&
        !others.any fun other => other.claim = .waiting && other.what = .attached entry.2

inductive Presence
  | arrived
  | listed
  | absent
  | unknown
  deriving DecidableEq, Repr

/-- The opens waiting for a target, in the order they were made. -/
structure Arrivals where
  minted : ℕ
  pending : List Pending
  deriving DecidableEq, Repr

namespace Arrivals

/-- Registers an open. `none` is a panic, which leaves the register as it was. -/
def register (checks : Bool) (what : Arrival) (arrivals : Arrivals) :
    Option (ArrivalId × Arrivals) :=
  (mint checks arrivals.minted).map fun id =>
    (id, ⟨id, arrivals.pending ++ [⟨id, what, .waiting, [], false⟩]⟩)

def attachedPid (arrivals : Arrivals) (id : ArrivalId) : Option ℕ :=
  (arrivals.pending.find? (·.id = id)).bind fun pending =>
    match pending.what with
    | .attached pid => some pid
    | .launched _ => none

/-- Hands the process a removed open was given to an open that remains. -/
def inherit (claimed : Option Process) (pending : Pending) : Pending :=
  match claimed with
  | some entry => { pending with inherited := pending.inherited ++ [entry] }
  | none => pending

/-- Forgets an open outright, handing its claim to the opens that remain. -/
def discard (arrivals : Arrivals) (id : ArrivalId) : Arrivals :=
  match arrivals.pending.findIdx? (·.id = id) with
  | none => arrivals
  | some index =>
    let claimed := (arrivals.pending[index]?.map (·.claim.held)).join
    { arrivals with pending := (arrivals.pending.eraseIdx index).map (inherit claimed) }

/-- Forgets an open whose guard is dropped. A launch that was delivered nothing keeps its place. -/
def forget (arrivals : Arrivals) (id : ArrivalId) : Arrivals :=
  match arrivals.pending.findIdx? (·.id = id) with
  | none => arrivals
  | some index =>
    match arrivals.pending[index]? with
    | some ⟨_, .launched (some _), .waiting, _, _⟩ =>
      { arrivals with
        pending := arrivals.pending.modify index fun pending => { pending with abandoned := true } }
    | _ => arrivals.discard id

/-- Drops every claim and inherited exclusion naming a process the session no longer holds. -/
def forgetDeparted (arrivals : Arrivals) (held : List Process) : Arrivals :=
  { arrivals with
    pending := arrivals.pending.map fun pending =>
      { pending with
        claim := if pending.claim.held.any (!held.contains ·) then .departed else pending.claim
        inherited := pending.inherited.filter held.contains } }

def forgetAll (arrivals : Arrivals) : Arrivals := { arrivals with pending := [] }

/-- The open a stop is for: the first registered that is waiting and wants it. -/
def recipient (arrivals : Arrivals) (entry : Process) (attached : Finset ℕ) : Option ℕ :=
  arrivals.pending.findIdx? fun pending =>
    pending.claim = .waiting &&
      pending.wants entry (arrivals.pending.filter (·.id ≠ pending.id)) attached

/-- Routes a stop to the open that wants it, if any. -/
def deliver (arrivals : Arrivals) (entry : Process) (attached : Finset ℕ) : Arrivals :=
  match arrivals.recipient entry attached with
  | none => arrivals
  | some index =>
    { arrivals with
      pending := arrivals.pending.modify index fun pending =>
        { pending with claim := .arrived entry } }

/-- Where the target of the open `id` has got to, given what the session holds. -/
def presence (arrivals : Arrivals) (id : ArrivalId) (held : List Process)
    (attached : Finset ℕ) : Presence :=
  match arrivals.pending.find? (·.id = id) with
  | none => .absent
  | some pending =>
    match pending.claim with
    | .arrived entry => if held.contains entry then .arrived else .absent
    | .departed => .absent
    | .waiting =>
      if pending.what = .launched none then .unknown
      else if held.any fun entry =>
          pending.wants entry (arrivals.pending.filter (·.id ≠ pending.id)) attached then .listed
      else .absent

end Arrivals

/-! ## What each function can do -/

theorem findIdx?_split {α : Type} {p : α → Bool} {l : List α} {i : ℕ}
    (h : l.findIdx? p = some i) : ∃ pre x post, l = pre ++ x :: post ∧ pre.length = i ∧
      p x = true ∧ ∀ y ∈ pre, p y = false := by
  induction l generalizing i with
  | nil => simp at h
  | cons a l ih =>
    rw [List.findIdx?_cons] at h
    split at h
    · next ha =>
      obtain rfl := Option.some.inj h
      exact ⟨[], a, l, rfl, rfl, ha, by simp⟩
    · next ha =>
      obtain ⟨j, hj, rfl⟩ := Option.map_eq_some_iff.mp h
      obtain ⟨pre, x, post, rfl, rfl, hx, hpre⟩ := ih hj
      refine ⟨a :: pre, x, post, rfl, rfl, hx, ?_⟩
      simpa [ha] using hpre

theorem modify_split {α : Type} (f : α → α) (pre : List α) (x : α) (post : List α) :
    (pre ++ x :: post).modify pre.length f = pre ++ f x :: post := by
  induction pre with
  | nil => rfl
  | cons a pre ih => simpa using ih

theorem Claim.held_eq_some {claim : Claim} {entry : Process} :
    claim.held = some entry ↔ claim = .arrived entry := by
  cases claim <;> simp [Claim.held]

theorem Pending.wants_iff {p : Pending} {entry : Process} {others : List Pending}
    {attached : Finset ℕ} : p.wants entry others attached = true ↔
      entry ∉ p.inherited ∧ (∀ q ∈ others, q.claim ≠ .arrived entry) ∧
        match p.what with
        | .attached pid => entry.2 = pid
        | .launched none => False
        | .launched (some before) => entry ∉ before ∧ entry.2 ∉ attached ∧
            ∀ q ∈ others, q.claim = .waiting → q.what ≠ .attached entry.2 := by
  unfold Pending.wants
  rcases hwhat : p.what with ((_ | before) | pid) <;>
    simp [Claim.held_eq_some, and_assoc]

namespace Arrivals

def Takes (arrivals : Arrivals) (entry : Process) (attached : Finset ℕ) (p : Pending) : Prop :=
  p.claim = .waiting ∧ p.wants entry (arrivals.pending.filter (·.id ≠ p.id)) attached = true

/-- A stop goes to nobody, or to the first registered open that is waiting and wants it. -/
theorem deliver_cases (arrivals : Arrivals) (entry : Process) (attached : Finset ℕ) :
    (arrivals.recipient entry attached = none ∧ arrivals.deliver entry attached = arrivals ∧
      ∀ p ∈ arrivals.pending, ¬ arrivals.Takes entry attached p) ∨
    ∃ pre p post, arrivals.pending = pre ++ p :: post ∧
      arrivals.recipient entry attached = some pre.length ∧ arrivals.Takes entry attached p ∧
      (∀ q ∈ pre, ¬ arrivals.Takes entry attached q) ∧
      arrivals.deliver entry attached =
        { arrivals with pending := pre ++ { p with claim := .arrived entry } :: post } := by
  have htakes : ∀ p : Pending, (p.claim = .waiting &&
      p.wants entry (arrivals.pending.filter (·.id ≠ p.id)) attached) = true ↔
        arrivals.Takes entry attached p := by
    intro p
    rw [Bool.and_eq_true, decide_eq_true_iff, Takes]
  cases hr : arrivals.recipient entry attached with
  | none =>
    refine .inl ⟨rfl, by simp [deliver, hr], fun p hp => ?_⟩
    rw [← htakes, Bool.not_eq_true]
    exact List.findIdx?_eq_none_iff.mp hr p hp
  | some index =>
    obtain ⟨pre, p, post, hsplit, rfl, hp, hpre⟩ := findIdx?_split hr
    refine .inr ⟨pre, p, post, hsplit, rfl, (htakes p).mp hp, fun q hq => ?_, ?_⟩
    · rw [← htakes, Bool.not_eq_true]
      exact hpre q hq
    · simp only [deliver, hr]
      rw [hsplit, modify_split]

theorem discard_cases (arrivals : Arrivals) (id : ArrivalId) :
    arrivals.discard id = arrivals ∨
    ∃ pre p post, arrivals.pending = pre ++ p :: post ∧ p.id = id ∧
      arrivals.discard id =
        { arrivals with pending := (pre ++ post).map (inherit p.claim.held) } := by
  cases hi : arrivals.pending.findIdx? (·.id = id) with
  | none => exact .inl (by simp [discard, hi])
  | some index =>
    obtain ⟨pre, p, post, hsplit, rfl, hp, -⟩ := findIdx?_split hi
    refine .inr ⟨pre, p, post, hsplit, by simpa using hp, ?_⟩
    simp only [discard, hi]
    rw [hsplit]
    simp [List.eraseIdx_append]

theorem forget_cases (arrivals : Arrivals) (id : ArrivalId) :
    arrivals.forget id = arrivals.discard id ∨
    ∃ pre p post, arrivals.pending = pre ++ p :: post ∧ p.claim = .waiting ∧ p.id = id ∧
      arrivals.forget id =
        { arrivals with pending := pre ++ { p with abandoned := true } :: post } := by
  cases hi : arrivals.pending.findIdx? (·.id = id) with
  | none => exact .inl (by simp [forget, discard, hi])
  | some index =>
    obtain ⟨pre, p, post, hsplit, rfl, hp, -⟩ := findIdx?_split hi
    simp only [forget, hi]
    have hget : arrivals.pending[pre.length]? = some p := by
      rw [hsplit]
      simp
    rw [hget]
    split
    · next heq =>
      obtain rfl := Option.some.inj heq
      refine .inr ⟨pre, _, post, hsplit, rfl, by simpa using hp, ?_⟩
      rw [hsplit, modify_split]
    · exact .inl rfl

end Arrivals

end DbgScope.Engine
