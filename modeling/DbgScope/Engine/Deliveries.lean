import DbgScope.Engine.Arrivals

/-!
# Deliveries over whole sessions

The register beside the processes the session holds, which join and leave on their own. `arrivals`
serves every interleaving of the register's operations, and `Allowed` are those in which a launch's
snapshot lists the session and an attach is not made on a process the session holds.
-/

namespace DbgScope.Engine

/-! ## Interleavings -/

structure ArrivalSession where
  arrivals : Arrivals
  held : List Process

/-- An operation of the register, or a process joining or leaving the session. -/
inductive ArrivalCall
  | register (what : Arrival)
  | deliver (entry : Process) (attached : Finset ℕ)
  | forget (id : ArrivalId)
  | discard (id : ArrivalId)
  | forgetDeparted
  | forgetAll
  | joins (entry : Process)
  | leaves (entry : Process)

inductive ArrivalAnswer
  | registered (id : ArrivalId)
  | panicked
  | delivered (entry : Process) (open? : Option ArrivalId)
  | left (entry : Process)
  | done
  deriving DecidableEq

def arrivals (checks : Bool) : Serial ArrivalSession ArrivalCall ArrivalAnswer where
  start := ⟨⟨0, []⟩, []⟩
  serve
    | .register what, w =>
      match w.arrivals.register checks what with
      | some (id, arrivals) => (.registered id, { w with arrivals })
      | none => (.panicked, w)
    | .deliver entry attached, w =>
      (.delivered entry ((w.arrivals.recipient entry attached).bind fun index =>
        w.arrivals.pending[index]?.map (·.id)),
        { w with arrivals := w.arrivals.deliver entry attached })
    | .forget id, w => (.done, { w with arrivals := w.arrivals.forget id })
    | .discard id, w => (.done, { w with arrivals := w.arrivals.discard id })
    | .forgetDeparted, w => (.done, { w with arrivals := w.arrivals.forgetDeparted w.held })
    | .forgetAll, w => (.done, { w with arrivals := w.arrivals.forgetAll })
    | .joins entry, w => (.done, { w with held := entry :: w.held })
    | .leaves entry, w => (.left entry, { w with held := w.held.filter (· ≠ entry) })

/-- How the engine uses the register: a launch's snapshot lists what the session holds, an attach
is for a process it does not hold, and a stop is one of its processes'. -/
def Allowed (w : ArrivalSession) : ArrivalCall → Prop
  | .register (.launched (some before)) => ∀ entry ∈ w.held, entry ∈ before
  | .register (.attached pid) => ∀ entry ∈ w.held, entry.2 ≠ pid
  | .deliver entry _ => entry ∈ w.held
  | _ => True

instance (w : ArrivalSession) : (c : ArrivalCall) → Decidable (Allowed w c)
  | .register (.launched (some before)) =>
    inferInstanceAs (Decidable (∀ entry ∈ w.held, entry ∈ before))
  | .register (.attached pid) => inferInstanceAs (Decidable (∀ entry ∈ w.held, entry.2 ≠ pid))
  | .deliver entry _ => inferInstanceAs (Decidable (entry ∈ w.held))
  | .register (.launched none) | .forget _ | .discard _ | .forgetDeparted | .forgetAll
  | .joins _ | .leaves _ => .isTrue trivial

def ArrivalAnswer.registeredId : ArrivalAnswer → Option ArrivalId
  | .registered id => some id
  | _ => none

theorem arrivals_mints (checks : Bool) (c : ArrivalCall) (w : ArrivalSession) :
    Mints checks (·.arrivals.minted) ArrivalAnswer.registeredId (arrivals checks) c w := by
  cases c with
  | register what =>
    cases hr : w.arrivals.register checks what with
    | none => exact .inr (by simp [arrivals, hr, ArrivalAnswer.registeredId])
    | some registered =>
      obtain ⟨id, hmint, rfl⟩ := Option.map_eq_some_iff.mp hr
      exact .inl ⟨id, by simp [arrivals, hr, hmint, ArrivalAnswer.registeredId]⟩
  | deliver entry attached =>
    refine .inr ⟨rfl, ?_⟩
    rcases w.arrivals.deliver_cases entry attached with ⟨-, h, -⟩ | ⟨_, _, _, -, -, -, -, h⟩ <;>
      simp [arrivals, h]
  | forget id =>
    refine .inr ⟨rfl, ?_⟩
    rcases w.arrivals.forget_cases id with h | ⟨_, _, _, -, -, -, h⟩
    · rcases w.arrivals.discard_cases id with h' | ⟨_, _, _, -, -, h'⟩ <;> simp [arrivals, h, h']
    · simp [arrivals, h]
  | discard id =>
    refine .inr ⟨rfl, ?_⟩
    rcases w.arrivals.discard_cases id with h | ⟨_, _, _, -, -, h⟩ <;> simp [arrivals, h]
  | forgetDeparted => exact .inr ⟨rfl, rfl⟩
  | forgetAll => exact .inr ⟨rfl, rfl⟩
  | joins entry => exact .inr ⟨rfl, rfl⟩
  | leaves entry => exact .inr ⟨rfl, rfl⟩

/-! ## A process already spoken for -/

def spent (entry : Process) : List ArrivalAnswer → Bool
  | [] => false
  | .delivered e (some _) :: past => e == entry || spent entry past
  | .left e :: past => e != entry && spent entry past
  | _ :: past => spent entry past

/-- The open would not take this process whatever the others hold. -/
def Pending.Excludes (p : Pending) (entry : Process) : Prop :=
  entry ∈ p.inherited ∨
    match p.what with
    | .attached pid => entry.2 ≠ pid
    | .launched none => True
    | .launched (some before) => entry ∈ before

variable (claimed : Option Process) {p : Pending} {entry : Process} {checks : Bool}
  {w : ArrivalSession} {history : List ArrivalAnswer}

theorem Pending.Excludes.not_wants {others : List Pending} {attached : Finset ℕ}
    (h : p.Excludes entry) : ¬ p.wants entry others attached = true := by
  rw [Pending.wants_iff]
  rintro ⟨hinherited, -, hwhat⟩
  have h := h.resolve_left hinherited
  split at hwhat <;> simp_all

/-- Some open holds the process, or every open still waiting excludes it. -/
def Arrivals.Settled (register : Arrivals) (entry : Process) : Prop :=
  (∃ p ∈ register.pending, p.claim = .arrived entry) ∨
    ∀ p ∈ register.pending, p.claim = .waiting → p.Excludes entry

theorem Arrivals.Settled.recipient_eq_none {register : Arrivals} {entry : Process}
    {attached : Finset ℕ} (hids : (register.pending.map (·.id)).Nodup)
    (h : register.Settled entry) : register.recipient entry attached = none := by
  rcases register.deliver_cases entry attached with
    ⟨hnone, -⟩ | ⟨pre, p, post, hsplit, -, ⟨hwaiting, hwants⟩, -⟩
  · exact hnone
  · exfalso
    have hp : p ∈ register.pending := by simp [hsplit]
    rcases h with ⟨q, hq, hclaim⟩ | hexcludes
    · -- the open that holds it is another one, and `wants` asks all the others
      have hne : q.id ≠ p.id := by
        intro heq
        have hqp : q = p := List.inj_on_of_nodup_map hids hq hp heq
        simp [hqp, hwaiting] at hclaim
      exact (Pending.wants_iff.mp hwants).2.1 q (by simp [hq, hne]) hclaim
    · exact (hexcludes p hp hwaiting).not_wants hwants

theorem spent_iff : spent entry history = true ↔ ∃ since id past,
      history = since ++ .delivered entry (some id) :: past ∧ .left entry ∉ since := by
  induction history with
  | nil => simp [spent]
  | cons a history ih =>
    have hcons : spent entry (a :: history) = true ↔
        (∃ id, a = .delivered entry (some id)) ∨
          a ≠ .left entry ∧ spent entry history = true := by
      rcases a with _ | _ | ⟨e, _ | id⟩ | e | _ <;> simp [spent]
    rw [hcons, ih]
    constructor
    · rintro (⟨id, rfl⟩ | ⟨ha, since, id, past, rfl, hsince⟩)
      · exact ⟨[], id, history, rfl, by simp⟩
      · exact ⟨a :: since, id, past, rfl, by simp [hsince, Ne.symm ha]⟩
    · rintro ⟨since, id, past, h, hsince⟩
      cases since with
      | nil => exact .inl ⟨id, (List.cons.inj h).1⟩
      | cons b since =>
        obtain ⟨rfl, rfl⟩ := List.cons.inj h
        rw [List.mem_cons, not_or] at hsince
        exact .inr ⟨Ne.symm hsince.1, since, id, past, rfl, hsince.2⟩

/-! ## What every run keeps -/

/-- What the register keeps: no process delivered and still held is on offer, and no open that was
delivered one is waiting. -/
structure Kept (w : ArrivalSession) (history : List ArrivalAnswer) : Prop where
  held : ∀ entry, spent entry history = true → entry ∈ w.held
  settled : ∀ entry, spent entry history = true → w.arrivals.Settled entry
  ids : (w.arrivals.pending.map (·.id)).Nodup
  minted : ∀ p ∈ w.arrivals.pending, p.id ≤ w.arrivals.minted
  given : ∀ id entry, .delivered entry (some id) ∈ history → id ≤ w.arrivals.minted ∧
    ∀ p ∈ w.arrivals.pending, p.id = id → p.claim ≠ .waiting

/-- What an operation that delivers and registers nothing may do to the register. -/
structure Quiet (before after : Arrivals) : Prop where
  minted : after.minted = before.minted
  ids : (after.pending.map (·.id)).Sublist (before.pending.map (·.id))
  from? : ∀ q ∈ after.pending, ∃ p ∈ before.pending, q.id = p.id ∧
    (q.claim = .waiting → p.claim = .waiting)
  settled : ∀ entry, before.Settled entry → after.Settled entry

theorem Kept.quiet {w' : ArrivalSession} {history : List ArrivalAnswer} (h : Kept w history)
    (hquiet : Quiet w.arrivals w'.arrivals) (hheld : w'.held = w.held) :
    Kept w' (.done :: history) where
  held entry hspent := by
    rw [hheld]
    exact h.held entry hspent
  settled entry hspent := hquiet.settled entry (h.settled entry hspent)
  ids := h.ids.sublist hquiet.ids
  minted q hq := by
    obtain ⟨p, hp, hid, -⟩ := hquiet.from? q hq
    rw [hquiet.minted, hid]
    exact h.minted p hp
  given id entry hmem := by
    obtain ⟨hle, hgiven⟩ := h.given id entry (by simpa using hmem)
    refine ⟨hquiet.minted ▸ hle, fun q hq hid hwaiting => ?_⟩
    obtain ⟨p, hp, hqp, hclaim⟩ := hquiet.from? q hq
    exact hgiven p hp (hqp ▸ hid) (hclaim hwaiting)

theorem Quiet.refl (register : Arrivals) : Quiet register register :=
  ⟨rfl, List.Sublist.refl _, fun q hq => ⟨q, hq, rfl, id⟩, fun _ h => h⟩

theorem Pending.Excludes.inherit (h : p.Excludes entry) (claimed : Option Process) :
    (Arrivals.inherit claimed p).Excludes entry := by
  cases claimed with
  | none => exact h
  | some e => exact h.imp_left fun hmem => List.mem_append_left _ hmem

@[simp] theorem inherit_id (p : Pending) : (Arrivals.inherit claimed p).id = p.id := by
  cases claimed <;> rfl

@[simp] theorem inherit_claim (p : Pending) : (Arrivals.inherit claimed p).claim = p.claim := by
  cases claimed <;> rfl

theorem discard_quiet (register : Arrivals) (id : ArrivalId) :
    Quiet register (register.discard id) := by
  rcases register.discard_cases id with h | ⟨pre, p, post, hsplit, -, h⟩
  · rw [h]
    exact .refl register
  · have hmem : ∀ q, q ∈ pre ++ post → q ∈ register.pending := by
      intro q hq
      simp only [hsplit, List.mem_append, List.mem_cons] at hq ⊢
      tauto
    rw [h]
    refine ⟨rfl, ?_, ?_, ?_⟩
    · rw [hsplit, List.map_map]
      have hids : (fun p : Pending => p.id) ∘ Arrivals.inherit p.claim.held = (·.id) := by
        funext q
        simp
      rw [hids]
      exact List.Sublist.map _ (List.Sublist.append_left (List.sublist_cons_self _ _) _)
    · intro q' hq'
      obtain ⟨q, hq, rfl⟩ := List.mem_map.mp hq'
      exact ⟨q, hmem q hq, by simp, by simp⟩
    · rintro entry (⟨q, hq, hclaim⟩ | hexcludes)
      · by_cases hp : p.claim = .arrived entry
        · right
          intro q' hq' _
          obtain ⟨q, -, rfl⟩ := List.mem_map.mp hq'
          left
          simp [hp, Claim.held, Arrivals.inherit]
        · left
          have hq' : q ∈ pre ++ post := by
            simp only [hsplit, List.mem_append, List.mem_cons] at hq ⊢
            rcases hq with hq | rfl | hq
            · exact .inl hq
            · exact absurd hclaim hp
            · exact .inr hq
          exact ⟨_, List.mem_map_of_mem hq', by simpa using hclaim⟩
      · right
        intro q' hq' hwaiting
        obtain ⟨q, hq, rfl⟩ := List.mem_map.mp hq'
        exact (hexcludes q (hmem q hq) (by simpa using hwaiting)).inherit _

theorem forget_quiet (register : Arrivals) (id : ArrivalId) :
    Quiet register (register.forget id) := by
  rcases register.forget_cases id with h | ⟨pre, p, post, hsplit, hwaiting, -, h⟩
  · rw [h]
    exact discard_quiet register id
  · rw [h]
    -- every open is as it was, up to the mark
    have hfrom : ∀ q ∈ pre ++ { p with abandoned := true } :: post,
        ∃ p ∈ register.pending, q.id = p.id ∧ q.claim = p.claim ∧
          ∀ entry, p.Excludes entry → q.Excludes entry := by
      intro q hq
      simp only [List.mem_append, List.mem_cons] at hq
      rcases hq with hq | rfl | hq
      · exact ⟨q, by simp [hsplit, hq], rfl, rfl, fun _ he => he⟩
      · exact ⟨p, by simp [hsplit], rfl, rfl, fun _ he => he⟩
      · exact ⟨q, by simp [hsplit, hq], rfl, rfl, fun _ he => he⟩
    refine ⟨rfl, ?_, ?_, ?_⟩
    · simp [hsplit]
    · intro q hq
      obtain ⟨p, hp, hid, hclaim, -⟩ := hfrom q hq
      exact ⟨p, hp, hid, fun h => hclaim ▸ h⟩
    · rintro entry (⟨q, hq, hclaim⟩ | hexcludes)
      · left
        simp only [hsplit, List.mem_append, List.mem_cons] at hq
        rcases hq with hq | rfl | hq
        · exact ⟨q, by simp [hq], hclaim⟩
        · simp [hwaiting] at hclaim
        · exact ⟨q, by simp [hq], hclaim⟩
      · right
        intro q hq hq'
        obtain ⟨p, hp, -, hclaim, hmono⟩ := hfrom q hq
        exact hmono entry (hexcludes p hp (hclaim ▸ hq'))

/-- The opens that no longer hold their process, with a process the session does hold. -/
theorem forgetDeparted_settled {register : Arrivals} {held : List Process} {entry : Process}
    (hentry : entry ∈ held) (h : register.Settled entry) :
    (register.forgetDeparted held).Settled entry := by
  rcases h with ⟨q, hq, hclaim⟩ | hexcludes
  · left
    refine ⟨_, List.mem_map_of_mem hq, ?_⟩
    simp [hclaim, Claim.held, hentry]
  · right
    intro q' hq' hwaiting
    obtain ⟨q, hq, rfl⟩ := List.mem_map.mp hq'
    have hq'' : q.claim = .waiting := by
      by_contra hne
      dsimp only at hwaiting
      split at hwaiting
      · simp at hwaiting
      · exact hne hwaiting
    refine (hexcludes q hq hq'').imp_left fun hmem => ?_
    simp [hmem, hentry]

theorem settled_of_claim {register : Arrivals} {pre post : List Pending} {p : Pending}
    {entry other : Process} (hsplit : register.pending = pre ++ p :: post)
    (hwaiting : p.claim = .waiting) (h : register.Settled other) :
    Arrivals.Settled { register with pending := pre ++ { p with claim := .arrived entry } :: post }
      other := by
  rcases h with ⟨q, hq, hclaim⟩ | hexcludes
  · left
    simp only [hsplit, List.mem_append, List.mem_cons] at hq
    rcases hq with hq | rfl | hq
    · exact ⟨q, by simp [hq], hclaim⟩
    · simp [hwaiting] at hclaim
    · exact ⟨q, by simp [hq], hclaim⟩
  · right
    intro q hq hq'
    simp only [List.mem_append, List.mem_cons] at hq
    rcases hq with hq | rfl | hq
    · exact hexcludes q (by simp [hsplit, hq]) hq'
    · simp at hq'
    · exact hexcludes q (by simp [hsplit, hq]) hq'

theorem excludes_of_allowed {what : Arrival} {id : ArrivalId} (h : Allowed w (.register what))
    {entry : Process} (hentry : entry ∈ w.held) :
    Pending.Excludes ⟨id, what, .waiting, [], false⟩ entry := by
  right
  rcases what with (_ | before) | pid
  · trivial
  · exact h entry hentry
  · exact h entry hentry

theorem Kept.register {what : Arrival} (h : Kept w history) (hallowed : Allowed w (.register what)) :
    Kept { w with arrivals := ⟨w.arrivals.minted + 1,
        w.arrivals.pending ++ [⟨w.arrivals.minted + 1, what, .waiting, [], false⟩]⟩ }
      (.registered (w.arrivals.minted + 1) :: history) where
  held := h.held
  settled entry hspent := by
    rcases h.settled entry hspent with ⟨q, hq, hclaim⟩ | hexcludes
    · exact .inl ⟨q, by simp [hq], hclaim⟩
    · right
      intro q hq hwaiting
      rcases List.mem_append.mp hq with hq | hq
      · exact hexcludes q hq hwaiting
      · obtain rfl := List.mem_singleton.mp hq
        exact excludes_of_allowed hallowed (h.held entry hspent)
  ids := by
    rw [List.map_append, List.nodup_append]
    refine ⟨h.ids, by simp, ?_⟩
    intro a ha b hb
    obtain ⟨q, hq, rfl⟩ := List.mem_map.mp ha
    have hle := h.minted q hq
    obtain rfl : b = w.arrivals.minted + 1 := by simpa using hb
    exact Nat.ne_of_lt (Nat.lt_succ_of_le hle)
  minted q hq := by
    rcases List.mem_append.mp hq with hq | hq
    · exact Nat.le_succ_of_le (h.minted q hq)
    · obtain rfl := List.mem_singleton.mp hq
      exact le_refl _
  given id entry hmem := by
    obtain ⟨hle, hgiven⟩ := h.given id entry (by simpa using hmem)
    refine ⟨Nat.le_succ_of_le hle, fun q hq hid => ?_⟩
    rcases List.mem_append.mp hq with hq | hq
    · exact hgiven q hq hid
    · obtain rfl := List.mem_singleton.mp hq
      have hid : w.arrivals.minted + 1 = id := hid
      omega

theorem Kept.deliver {entry : Process} {pre post : List Pending} {p : Pending} (h : Kept w history)
    (hentry : entry ∈ w.held) (hsplit : w.arrivals.pending = pre ++ p :: post)
    (hwaiting : p.claim = .waiting) : Kept { w with arrivals :=
        { w.arrivals with pending := pre ++ { p with claim := .arrived entry } :: post } }
      (.delivered entry (some p.id) :: history) := by
  have hids := h.ids
  rw [hsplit, List.map_append, List.map_cons, List.nodup_middle, List.nodup_cons] at hids
  have hspent : ∀ other, spent other (.delivered entry (some p.id) :: history) = true →
      entry = other ∨ spent other history = true := by
    intro other ho
    simpa [spent] using ho
  constructor
  case held =>
    intro other ho
    rcases hspent other ho with rfl | ho
    · exact hentry
    · exact h.held other ho
  case settled =>
    intro other ho
    rcases hspent other ho with rfl | ho
    · exact .inl ⟨{ p with claim := .arrived entry }, by simp, rfl⟩
    · exact settled_of_claim hsplit hwaiting (h.settled other ho)
  case ids =>
    have := h.ids
    rw [hsplit] at this
    simpa using this
  case minted =>
    intro q hq
    simp only [List.mem_append, List.mem_cons] at hq
    rcases hq with hq | rfl | hq
    · exact h.minted q (by simp [hsplit, hq])
    · exact h.minted p (by simp [hsplit])
    · exact h.minted q (by simp [hsplit, hq])
  case given =>
    intro id other hmem
    have hother : ∀ q, q ∈ pre ∨ q ∈ post → q.id ≠ p.id := by
      intro q hq heq
      apply hids.1
      rw [← List.map_append, ← heq]
      exact List.mem_map_of_mem (List.mem_append.mpr hq)
    rcases List.mem_cons.mp hmem with heq | hmem
    · obtain ⟨-, hid⟩ := ArrivalAnswer.delivered.inj heq
      obtain rfl := Option.some.inj hid
      refine ⟨h.minted p (by simp [hsplit]), fun q hq hqid => ?_⟩
      simp only [List.mem_append, List.mem_cons] at hq
      rcases hq with hq | rfl | hq
      · exact absurd hqid (hother q (.inl hq))
      · simp
      · exact absurd hqid (hother q (.inr hq))
    · obtain ⟨hle, hgiven⟩ := h.given id other hmem
      refine ⟨hle, fun q hq hqid => ?_⟩
      simp only [List.mem_append, List.mem_cons] at hq
      rcases hq with hq | rfl | hq
      · exact hgiven q (by simp [hsplit, hq]) hqid
      · simp
      · exact hgiven q (by simp [hsplit, hq]) hqid

theorem serve_kept {c : ArrivalCall} (h : Kept w history) (hallowed : Allowed w c)
    (hnext : ∀ next, ((arrivals checks).serve c w).1.registeredId = some next →
      next = w.arrivals.minted + 1) :
    Kept ((arrivals checks).serve c w).2 (((arrivals checks).serve c w).1 :: history) := by
  cases c with
  | register what =>
    cases hr : w.arrivals.register checks what with
    | none =>
      simp only [arrivals, hr]
      exact ⟨h.held, h.settled, h.ids, h.minted, fun id e hm => h.given id e (by simpa using hm)⟩
    | some registered =>
      obtain ⟨id, hmint, rfl⟩ := Option.map_eq_some_iff.mp hr
      simp only [arrivals, hr, ArrivalAnswer.registeredId, Option.some.injEq, forall_eq'] at hnext
      simp only [arrivals, hr, hnext]
      exact h.register hallowed
  | deliver entry attached =>
    rcases w.arrivals.deliver_cases entry attached with
      ⟨hnone, hsame, -⟩ | ⟨pre, p, post, hsplit, hrecipient, ⟨hwaiting, -⟩, -, hafter⟩
    · simp only [arrivals, hnone, hsame, Option.bind_none]
      exact ⟨h.held, h.settled, h.ids, h.minted, fun id e hm => h.given id e (by simpa using hm)⟩
    · have hid : w.arrivals.pending[pre.length]? = some p := by
        rw [hsplit]
        simp
      simp only [arrivals, hrecipient, hafter, Option.bind_some, hid, Option.map_some]
      exact h.deliver hallowed hsplit hwaiting
  | forget id => exact h.quiet (forget_quiet _ id) rfl
  | discard id => exact h.quiet (discard_quiet _ id) rfl
  | forgetDeparted =>
    refine ⟨h.held, fun e he => ?_, ?_, ?_, ?_⟩
    · exact forgetDeparted_settled (h.held e he) (h.settled e he)
    · simpa [arrivals, Arrivals.forgetDeparted, Function.comp_def] using h.ids
    · simpa [arrivals, Arrivals.forgetDeparted] using h.minted
    · intro id e hmem
      obtain ⟨hle, hgiven⟩ := h.given id e (by simpa [arrivals] using hmem)
      refine ⟨hle, fun q' hq' hid hwaiting => ?_⟩
      obtain ⟨q, hq, rfl⟩ := List.mem_map.mp hq'
      refine hgiven q hq hid ?_
      dsimp only at hwaiting
      split at hwaiting
      · simp at hwaiting
      · exact hwaiting
  | forgetAll =>
    refine h.quiet ⟨rfl, ?_, ?_, ?_⟩ rfl
    · exact List.nil_sublist _
    · intro q hq
      simp [Arrivals.forgetAll, arrivals] at hq
    · intro e _
      right
      intro q hq
      simp [Arrivals.forgetAll, arrivals] at hq
  | joins entry =>
    refine ⟨fun e he => List.mem_cons_of_mem _ (h.held e he), h.settled, h.ids, h.minted, ?_⟩
    intro id e hm
    exact h.given id e (by simpa [arrivals] using hm)
  | leaves entry =>
    have hspent : ∀ e, spent e (.left entry :: history) = true →
        entry ≠ e ∧ spent e history = true := by
      intro e he
      simpa [spent] using he
    refine ⟨fun e he => ?_, fun e he => h.settled e (hspent e he).2, h.ids, h.minted, ?_⟩
    · have := hspent e he
      simpa [arrivals, this.1.symm] using h.held e this.2
    · intro id e hm
      exact h.given id e (by simpa [arrivals] using hm)

theorem arrivals_kept {calls : List ArrivalCall}
    (hfresh : checks = true ∨ (((arrivals checks).answers calls).filterMap
      ArrivalAnswer.registeredId).length < 2 ^ 64)
    (hallowed : (arrivals checks).Throughout Allowed calls) :
    Kept ((arrivals checks).after calls) ((arrivals checks).answers calls) := by
  have hnext := handed_next rfl (arrivals_mints checks) hfresh
  clear hfresh
  induction calls with
  | nil =>
    refine ⟨?_, ?_, ?_, ?_, ?_⟩ <;> simp [arrivals, spent]
  | cons c past ih => exact serve_kept (ih hallowed.1 hnext.1) hallowed.2 hnext.2

/-! ## One process, one open -/

theorem serve_delivered {c : ArrivalCall} {entry : Process} {id : ArrivalId}
    (h : ((arrivals checks).serve c w).1 = .delivered entry (some id)) :
    ∃ attached, c = .deliver entry attached ∧ ∃ p ∈ w.arrivals.pending, p.id = id ∧
      p.claim = .waiting ∧
      p.wants entry (w.arrivals.pending.filter (·.id ≠ p.id)) attached = true ∧
      w.arrivals.recipient entry attached ≠ none := by
  cases c with
  | register what =>
    cases hr : w.arrivals.register checks what <;> simp [arrivals, hr] at h
  | deliver e attached =>
    obtain rfl : e = entry := (ArrivalAnswer.delivered.inj h).1
    refine ⟨attached, rfl, ?_⟩
    rcases w.arrivals.deliver_cases e attached with
      ⟨hnone, -⟩ | ⟨pre, p, post, hsplit, hrecipient, ⟨hwaiting, hwants⟩, -⟩
    · simp [arrivals, hnone] at h
    · refine ⟨p, by simp [hsplit], ?_, hwaiting, hwants, by simp [hrecipient]⟩
      simpa [arrivals, hrecipient, hsplit] using h
  | forget id => simp [arrivals] at h
  | discard id => simp [arrivals] at h
  | forgetDeparted => simp [arrivals] at h
  | forgetAll => simp [arrivals] at h
  | joins e => simp [arrivals] at h
  | leaves e => simp [arrivals] at h

/-- **One process is delivered to at most one open.** A process that was delivered is not delivered
again before it leaves; an open is not delivered to twice; and a launch is delivered no process of
its snapshot, no attached one and none a waiting attach names. -/
theorem arrival_delivered_once (checks : Bool) (calls : List ArrivalCall)
    (hfresh : checks = true ∨ (((arrivals checks).answers calls).filterMap
      ArrivalAnswer.registeredId).length < 2 ^ 64)
    (hallowed : (arrivals checks).Throughout Allowed calls) :
    (∀ later since past entry first second,
      (arrivals checks).answers calls =
        later ++ .delivered entry (some second) :: (since ++ .delivered entry (some first) :: past) →
      .left entry ∈ since) ∧
    (∀ later since past id first second,
      (arrivals checks).answers calls ≠
        later ++ .delivered second (some id) :: (since ++ .delivered first (some id) :: past)) ∧
    (∀ later past entry attached id,
      calls = later ++ .deliver entry attached :: past →
      ((arrivals checks).serve (.deliver entry attached) ((arrivals checks).after past)).1 =
        .delivered entry (some id) →
      ∃ p ∈ ((arrivals checks).after past).arrivals.pending, p.id = id ∧
        ∀ snapshot, p.what = .launched snapshot → ∃ before, snapshot = some before ∧
          entry ∉ before ∧ entry.2 ∉ attached ∧
          ∀ q ∈ ((arrivals checks).after past).arrivals.pending, q.claim = .waiting →
            q.what ≠ .attached entry.2) := by
  -- what the calls before an answer left kept
  have hkept : ∀ later past, calls = later ++ past →
      Kept ((arrivals checks).after past) ((arrivals checks).answers past) := by
    rintro later past rfl
    refine arrivals_kept (hfresh.imp_right (lt_of_le_of_lt ?_)) hallowed.append
    clear hfresh hallowed
    induction later with
    | nil => exact le_refl _
    | cons c later ih =>
      rw [List.cons_append, Serial.answers_cons, List.filterMap_cons]
      split
      · exact ih
      · exact le_trans ih (Nat.le_succ _)
  refine ⟨?_, ?_, ?_⟩
  · intro later since past entry first second h
    obtain ⟨laterCalls, c, pastCalls, hcalls, hpast, hc⟩ := Serial.answers_split h
    have hk := hkept (laterCalls ++ [c]) pastCalls (by simp [hcalls])
    obtain ⟨attached, rfl, p, -, -, -, -, hrecipient⟩ := serve_delivered hc
    by_contra hleft
    apply hrecipient
    refine (hk.settled entry ?_).recipient_eq_none hk.ids
    rw [hpast, spent_iff]
    exact ⟨since, first, past, rfl, hleft⟩
  · intro later since past id first second h
    obtain ⟨laterCalls, c, pastCalls, hcalls, hpast, hc⟩ := Serial.answers_split h
    have hk := hkept (laterCalls ++ [c]) pastCalls (by simp [hcalls])
    obtain ⟨attached, rfl, p, hp, hid, hwaiting, -, -⟩ := serve_delivered hc
    exact (hk.given id first (by simp [hpast])).2 p hp hid hwaiting
  · intro later past entry attached id hcalls hc
    obtain ⟨attached', heq, p, hp, hid, hwaiting, hwants, -⟩ := serve_delivered hc
    obtain rfl : attached = attached' := (ArrivalCall.deliver.inj heq).2
    refine ⟨p, hp, hid, fun snapshot hwhat => ?_⟩
    obtain ⟨-, -, hmatch⟩ := Pending.wants_iff.mp hwants
    rw [hwhat] at hmatch
    cases snapshot with
    | none => exact hmatch.elim
    | some before =>
      refine ⟨before, rfl, hmatch.1, hmatch.2.1, fun q hq hqw hqwhat => ?_⟩
      by_cases hqid : q.id = p.id
      · have hk := hkept (later ++ [.deliver entry attached]) past (by simp [hcalls])
        obtain rfl : q = p := List.inj_on_of_nodup_map hk.ids hq hp hqid
        simp [hwhat] at hqwhat
      · exact hmatch.2.2 q (by simp [hq, hqid]) hqw hqwhat

def overlappingLaunches : List ArrivalCall :=
  [.deliver (1, 200) ∅, .joins (1, 200), .deliver (0, 100) ∅, .forget 1, .deliver (0, 100) ∅,
    .joins (0, 100), .register (.launched (some [])), .register (.launched (some []))]

theorem arrival_delivered_once_overlapping :
    (arrivals true).answers overlappingLaunches =
      [.delivered (1, 200) (some 2), .done, .delivered (0, 100) none, .done,
        .delivered (0, 100) (some 1), .done, .registered 2, .registered 1] ∧
    ∀ later since past entry first second,
      (arrivals true).answers overlappingLaunches =
        later ++ .delivered entry (some second) :: (since ++ .delivered entry (some first) :: past) →
      .left entry ∈ since :=
  ⟨by decide, (arrival_delivered_once true overlappingLaunches (.inl rfl) (by decide)).1⟩

end DbgScope.Engine
