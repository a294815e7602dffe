import DbgScope.InStep
import DbgScope.Object.Namespace

/-!
# A stop is final

A walk is told to stop by a poll. Its functions ask nothing more then: what has been gathered is
marked, and each of the loops it comes back through leaves at once. Two runs of one walk are in step
as long as neither is told to stop (`Asking`), and a run that is stopped holds the first objects of
the one that goes on.

No loop of a walk outlasts the rounds it is given, so whatever it is told, it returns.
-/

namespace DbgScope.Object.Namespace

open Run

variable {W α : Type}

/-! ## Listings -/

section Listings

variable {ns : Namespace W} {R D : World W → World W → Prop} {P : α → Prop}

/-- Two runs that `R` relates stay in step or the first is stopped, and a failure is one that is
reported. -/
abbrev Steps (R D : World W → World W → Prop) (P : α → Prop) (m : Walk W α) : Prop :=
  InStep R D (· ≠ none) P m

/-- Reads keep two runs in step, and so does a poll that does not say to stop. -/
structure Asking (ns : Namespace W) (R D : World W → World W → Prop) : Prop where
  read : ∀ address len,
    Steps R D (fun _ => False) (callRead ns.memory address len : Walk W (Option (List UInt8)))
  poll : Steps R D (· = true) ns.stopped

theorem refuse_steps (error : ObjectError) : Steps R D P (Run.fail (some error) : Walk W α) :=
  InStep.fail (Option.some_ne_none error)

theorem guard_steps {c : Prop} [Decidable c] {error : ObjectError} {m : Walk W α}
    (h : Steps R D P m) : Steps R D P (if c then Run.fail (some error) else m) :=
  InStep.ite (fun _ => refuse_steps error) fun _ => h

theorem fieldAt_steps {P : ℕ → Prop} (bytes : List UInt8) (offset : ℕ) :
    Steps (W := W) R D P (fieldAt bytes offset) := by
  unfold fieldAt
  split
  · exact InStep.pure _
  · exact refuse_steps _

theorem needs_steps {P : ℕ → Prop} (global : Option ℕ) (what : String) :
    Steps (W := W) R D P (needs global what) := by
  unfold needs
  split
  · exact InStep.pure _
  · exact refuse_steps _

theorem counting_steps {P : Listing → Prop} (listing : Listing) {error : Option ObjectError}
    (h : error ≠ none) : Steps (W := W) R D P (counting listing error) := by
  unfold counting
  split
  · exact InStep.pure _
  · exact InStep.pure _
  · exact InStep.fail h

variable (h : ns.Asking R D)
include h

theorem read_steps (address len : ℕ) : Steps R D (fun _ => False) (ns.read address len) := by
  refine (h.read address len).bind_quiet fun found => ?_
  cases found with
  | none => exact refuse_steps _
  | some bytes => exact InStep.ite (fun _ => InStep.pure _) fun _ => refuse_steps _

theorem readByte_steps (address : ℕ) : Steps R D (fun _ => False) (ns.readByte address) :=
  (read_steps h address 1).bind_quiet fun _ => InStep.pure _

theorem pointerAt_steps (address : ℕ) : Steps R D (fun _ => False) (ns.pointerAt address) :=
  (read_steps h address _).bind_quiet fun _ =>
    InStep.ite (fun _ => InStep.pure _) fun _ => refuse_steps _

theorem unicodeAt_steps (address bound : ℕ) (what : String) :
    Steps R D (fun _ => False) (ns.unicodeAt address bound what) := by
  refine (read_steps h _ _).bind_quiet fun bytes => ?_
  refine (fieldAt_steps _ _).bind_quiet fun length => (fieldAt_steps _ _).bind_quiet fun _ => ?_
  refine guard_steps ((pointerAt_steps h _).bind_quiet fun buffer => ?_)
  refine InStep.ite (fun _ => InStep.pure _) fun _ => guard_steps (guard_steps (guard_steps ?_))
  exact (read_steps h _ _).bind_quiet fun _ => InStep.pure _

theorem nameOf_steps (body : ℕ) : Steps R D (fun _ => False) (ns.nameOf body) := by
  refine (readByte_steps h _).bind_quiet fun mask => InStep.ite (fun _ => InStep.pure _) fun _ => ?_
  refine (needs_steps _ _).bind_quiet fun offsets => (readByte_steps h _).bind_quiet fun _ => ?_
  exact guard_steps ((unicodeAt_steps h _ _ _).bind_quiet fun _ => InStep.pure _)

theorem securityOf_steps (body : ℕ) : Steps R D (fun _ => False) (ns.securityOf body) :=
  (pointerAt_steps h _).bind_quiet fun _ => InStep.pure _

theorem typeOf_steps (body : ℕ) : Steps R D (fun _ => False) (ns.typeOf body) := by
  have hthrough (cookie table : ℕ) :
      Steps R D (fun _ => False) (ns.typeThrough body cookie table) := by
    refine (readByte_steps h _).bind_quiet fun raw => (readByte_steps h _).bind_quiet fun _ => ?_
    refine (pointerAt_steps h _).bind_quiet fun entry => ?_
    refine InStep.ite (fun _ => InStep.pure _) fun _ => ?_
    exact (unicodeAt_steps h _ _ _).bind_quiet fun _ => InStep.pure _
  unfold typeOf
  split
  · exact InStep.attempt_bind (hthrough _ _) (fun _ => InStep.pure _) (fun _ _ => InStep.pure _)
      fun _ hstop => hstop.elim
  · exact InStep.pure _

theorem poll_steps {a : α} {m : Walk W α} (hm : Steps R D P m) (ha : P a) :
    Steps R D P (ns.stopped >>= fun stop => if stop then pure a else m) := by
  refine h.poll.bind (fun stop => InStep.ite (fun _ => InStep.pure _) fun _ => hm) ?_
  rintro _ rfl
  exact Settles.pure ha

omit h in
theorem chainRound_links (rounds : ℕ) (state : ℕ × Gathered)
    (hrounds : maxEntries + 2 ≤ rounds + 1 + state.2.followed) :
    Yields (ns.chainRound state) (Flow.Holds
      (fun state => maxEntries + 2 ≤ rounds + state.2.followed ∧
        (0 < rounds ∨ state.2.followed ≤ maxEntries)) (· ≠ none)) := by
  refine Yields.ite (fun _ => Yields.pure (Option.some_ne_none _)) fun _ => Yields.after fun _ => ?_
  refine Yields.ite (fun _ => Yields.pure (Option.some_ne_none _)) fun _ => ?_
  refine Yields.guard fun hbound => Yields.after fun _ => Yields.after fun _ => Yields.pure ?_
  exact ⟨by dsimp only; omega, .inr (by dsimp only; omega)⟩

theorem followChain_steps (entry : ℕ) (gathered : Gathered) :
    Steps R D (fun gathered => gathered.halted = true) (ns.followChain entry gathered) := by
  -- The rounds left and the links followed make up the rounds there were.
  have hlinks : Yields (Run.loop ns.chainRound (fun _ => none) (maxEntries + 2) (entry, gathered))
      (· ≠ none) := by
    refine Yields.countdown (I := fun rounds state => maxEntries + 2 ≤ rounds + state.2.followed ∧
      (0 < rounds ∨ state.2.followed ≤ maxEntries))
      (fun rounds state hI => chainRound_links rounds state hI.1) (fun state hI => ?_) _ _
      ⟨Nat.le_add_right _ _, .inl (by omega)⟩
    omega
  have hround (state : ℕ × Gathered) : Steps R D (Flow.Holds (fun _ => False) fun ended =>
      ∃ gathered : Gathered, ended = some gathered ∧ gathered.halted = true)
      (ns.chainRound state) := by
    refine InStep.ite (fun _ => InStep.pure _) fun _ => poll_steps h ?_ ⟨_, rfl, rfl⟩
    refine guard_steps ((pointerAt_steps h _).bind_quiet fun object => ?_)
    exact (pointerAt_steps h _).bind_quiet fun next => InStep.pure _
  refine (InStep.loop hround _ _).bind_of hlinks (fun ended hended => ?_) ?_
  · cases ended with
    | none => exact absurd rfl hended
    | some gathered => exact InStep.pure _
  · rintro _ ⟨gathered, rfl, hhalted⟩
    exact Settles.pure hhalted

theorem entriesOf_steps (directory : ℕ) :
    Steps R D (fun gathered => gathered.halted = true) (ns.entriesOf directory) := by
  refine InStep.fold (fun gathered bucket => ?_) (fun _ _ hhalted => if_pos hhalted) _ _
  refine InStep.ite (fun _ => InStep.pure _) fun _ => poll_steps h ?_ rfl
  exact (pointerAt_steps h _).bind_quiet fun entry => followChain_steps h entry gathered

theorem entryRound_steps (listing : Listing) (body : ℕ) :
    Steps R D (fun stopped => stopped.halted = true ∧ stopped.objects = listing.objects)
      (ns.entryRound listing body) := by
  refine InStep.ite (fun _ => InStep.pure _) fun _ => poll_steps h ?_ ⟨rfl, rfl⟩
  refine InStep.attempt_bind (nameOf_steps h body) (fun named => ?_)
    (fun _ herror => counting_steps listing herror) fun _ hstop => hstop.elim
  rcases named with _ | ⟨name, exactName⟩
  · exact InStep.pure _
  refine InStep.attempt_bind (securityOf_steps h body) (fun security => ?_)
    (fun _ herror => counting_steps listing herror) fun _ hstop => hstop.elim
  exact (typeOf_steps h body).bind_quiet fun _ => InStep.pure _

omit h in
theorem entries_over {listing : Listing} (hhalted : listing.halted = true) (bodies : List ℕ) :
    Run.fold ns.entryRound bodies listing = pure listing :=
  fold_over (fun _ => if_pos hhalted) bodies

theorem namedIn_steps (directory : ℕ) :
    Steps R D (fun listing => listing.halted = true) (ns.namedIn directory) := by
  refine (entriesOf_steps h directory).bind (fun gathered => ?_) fun gathered hhalted => ?_
  · exact InStep.fold (fun listing body => (entryRound_steps h listing body).imp fun _ hs => hs.1)
      (fun _ _ hhalted => if_pos hhalted) _ _
  · rw [entries_over hhalted]
    exact Settles.pure hhalted

theorem rootDirectory_steps : Steps R D (fun _ => False) ns.rootDirectory :=
  (needs_steps _ _).bind_quiet fun _ => pointerAt_steps h _

omit h in
theorem entryRound_adds (listing : Listing) (body : ℕ) :
    Yields (ns.entryRound listing body) fun listing' => listing.objects <+: listing'.objects := by
  have hcounting (error : Option ObjectError) :
      Yields (counting listing error : Walk W Listing) fun listing' =>
        listing.objects <+: listing'.objects := by
    unfold counting
    split
    · exact Yields.pure (List.prefix_refl _)
    · exact Yields.pure (List.prefix_refl _)
    · exact Yields.fail _
  refine Yields.ite (fun _ => Yields.pure (List.prefix_refl _)) fun _ => Yields.after fun stop => ?_
  refine Yields.ite (fun _ => Yields.pure (List.prefix_refl _)) fun _ =>
    Yields.after fun named => ?_
  split
  · exact hcounting _
  · exact Yields.pure (List.prefix_refl _)
  · refine Yields.after fun security => ?_
    split
    · exact hcounting _
    · exact Yields.after fun typeName => Yields.pure (List.prefix_append _ _)

theorem entries_prefix (bodies : List ℕ) (listing : Listing) {l u l' u' : World W}
    {part whole : Listing} (hr : R l u)
    (hpart : Run.fold ns.entryRound bodies listing l = (.ok part, l'))
    (hwhole : Run.fold ns.entryRound bodies listing u = (.ok whole, u')) :
    part.objects <+: whole.objects := by
  induction bodies generalizing listing l u with
  | nil =>
    cases hpart
    cases hwhole
    exact List.prefix_refl _
  | cons body bodies ih =>
    obtain ⟨b, l₁, hl, hpart⟩ := bind_ok hpart
    obtain ⟨c, u₁, hu, hrest⟩ := bind_ok hwhole
    rcases (entryRound_steps h listing body).step l u hr with
      ⟨r, l₂, u₂, hl', hu', hr', -⟩ | ⟨b', l₂, hl', ⟨hhalted, hobjects⟩, -⟩
    · rw [hl] at hl'
      rw [hu] at hu'
      cases hl'
      cases hu'
      exact ih b hr' hpart hrest
    · rw [hl] at hl'
      cases hl'
      rw [entries_over hhalted] at hpart
      cases hpart
      rw [hobjects]
      have hadds : Yields (Run.fold ns.entryRound (body :: bodies) listing) fun listing' =>
          listing.objects <+: listing'.objects :=
        Yields.fold (fun listing' body _ hbefore =>
          (entryRound_adds listing' body).imp fun _ => hbefore.trans) (List.prefix_refl _)
      exact hadds.of_ok hwhole

/-- **A listing that is stopped holds the first objects of the whole.** -/
theorem namedIn_prefix (directory : ℕ) {l u l' u' : World W} {part whole : Listing} (hr : R l u)
    (hpart : ns.namedIn directory l = (.ok part, l'))
    (hwhole : ns.namedIn directory u = (.ok whole, u')) : part.objects <+: whole.objects := by
  obtain ⟨gathered, l₁, hl, hpart⟩ := bind_ok hpart
  obtain ⟨gathered', u₁, hu, hwhole⟩ := bind_ok hwhole
  rcases (entriesOf_steps h directory).step l u hr with
    ⟨r, l₂, u₂, hl', hu', hr', -⟩ | ⟨b, l₂, hl', hhalted, -⟩
  · rw [hl] at hl'
    rw [hu] at hu'
    cases hl'
    cases hu'
    exact entries_prefix h _ _ hr' hpart hwhole
  · rw [hl] at hl'
    cases hl'
    rw [hhalted, entries_over rfl] at hpart
    cases hpart
    exact List.nil_prefix

end Listings

/-! ## Paths -/

section Paths

variable {ns : Namespace W} {I S : World W → Prop}

/-- A computation fails with an error that is reported, and one that is stopped fails with that. -/
abbrev Heeds (I S : World W → Prop) (m : Walk W α) : Prop :=
  Keeps I (fun error w => error ≠ none ∧ (I w ∨ S w ∧ ∃ what, error = some (.halted what))) m

theorem refuse_heeds (error : ObjectError) : Heeds I S (Run.fail (some error) : Walk W α) :=
  Keeps.fail fun _ hw => ⟨Option.some_ne_none error, .inl hw⟩

/-- What a path is resolved with. -/
structure Heeding (ns : Namespace W) (I S : World W → Prop) : Prop where
  root : Heeds I S ns.rootDirectory
  named : ∀ directory, Triple I (ns.namedIn directory)
    (fun listing w => I w ∨ S w ∧ listing.halted = true) fun error w => error ≠ none ∧ I w
  fold : ∀ units, Heeds I S (ns.upcase.foldUnits units : Walk W (List ℕ))

theorem Asking.heeding {R D : World W → World W → Prop} (h : ns.Asking R D)
    (halone : ∀ {α : Type} {P : α → Prop} {m : Walk W α}, Steps R D P m →
      Triple I m (fun a w => I w ∨ S w ∧ P a) fun error w => error ≠ none ∧ I w)
    (hknown : ∀ w known, I w → I { w with known := known }) : ns.Heeding I S := by
  have hquiet {α : Type} {m : Walk W α} (hm : Steps R D (fun _ => False) m) : Heeds I S m :=
    (halone hm).imp (fun _ hw => hw) (fun _ _ hw => hw.resolve_right fun hs => hs.2)
      fun _ _ he => ⟨he.1, .inl he.2⟩
  exact {
    root := hquiet (rootDirectory_steps h)
    named := fun directory => halone (namedIn_steps h directory)
    fold := Upcase.foldUnits_keeps (fun address len => hquiet (h.read address len)) hknown }

variable (h : ns.Heeding I S)
include h

theorem findNamed_heeds (component : String) (objects : List KernelObject) :
    Heeds I S (ns.findNamed component objects) := by
  induction objects with
  | nil => exact Keeps.pure _
  | cons object objects ih =>
    refine Keeps.ite (fun _ => ?_) fun _ => ih
    refine Keeps.bind (Keeps.bind (h.fold _) fun _ => (h.fold _).map) fun same => ?_
    exact Keeps.guard fun _ => ih

theorem lookupIn_heeds (directory : ℕ) (walked component : String) :
    Heeds I S (ns.lookupIn directory walked component) := by
  refine Triple.bind ((h.named directory).imp (fun _ hw => hw) (fun _ _ hw => hw)
    fun _ _ he => ⟨he.1, .inl he.2⟩) fun listing => ?_
  refine Triple.ite (fun _ => Triple.fail fun w hw => ?_) fun hgoes => ?_
  · exact ⟨Option.some_ne_none _, hw.imp_right fun hs => ⟨hs.1, component, rfl⟩⟩
  refine Triple.pre (P := I) ?_ fun w hw => hw.resolve_right fun hs => hgoes hs.2
  refine Keeps.bind (findNamed_heeds h component listing.objects) fun found => ?_
  cases found with
  | some found => exact Keeps.pure _
  | none => exact Keeps.ite (fun _ => refuse_heeds _) fun _ => refuse_heeds _

omit h in
theorem requireDirectory_heeds (found : KernelObject) (component rest : String) :
    Heeds I S (requireDirectory (W := W) found component rest) := by
  unfold requireDirectory
  split
  · exact Keeps.guard fun _ => refuse_heeds _
  · exact refuse_heeds _

theorem descend_heeds (rest : List String) (directory : ℕ) (walked component : String) :
    Heeds I S (ns.descend rest directory walked component) := by
  induction rest generalizing directory walked component with
  | nil => exact lookupIn_heeds h directory walked component
  | cons next rest ih =>
    refine Keeps.bind (lookupIn_heeds h directory walked component) fun found => ?_
    exact Keeps.bind (requireDirectory_heeds _ _ _) fun _ => ih _ _ _

omit h in
theorem components_heeds (path : String) :
    Heeds I S (Run.lift ((componentsOf path).mapError some) : Walk W (List String)) := by
  refine Keeps.lift fun error w herror hw => ⟨?_, .inl hw⟩
  rintro rfl
  cases hpath : componentsOf path <;> simp [hpath, Except.mapError] at herror

theorem objectAt_heeds (path : String) : Heeds I S (ns.objectAt path) := by
  refine Keeps.bind (components_heeds path) fun components => ?_
  cases components with
  | nil => exact refuse_heeds _
  | cons component rest =>
    refine Keeps.bind h.root fun directory => ?_
    exact Keeps.ite (fun _ => refuse_heeds _) fun _ => descend_heeds h _ _ _ _

theorem objectsIn_heeds (path : String) : Triple I (ns.objectsIn path)
    (fun listing w => I w ∨ S w ∧ listing.halted = true)
    fun error w => error ≠ none ∧ (I w ∨ S w ∧ ∃ what, error = some (.halted what)) := by
  refine Triple.bind (components_heeds path) fun components => ?_
  refine Triple.bind (Q := fun _ => I) ?_ fun directory => (h.named directory).imp
    (fun _ hw => hw) (fun _ _ hw => hw) fun _ _ he => ⟨he.1, .inl he.2⟩
  refine Keeps.ite (fun _ => h.root) fun _ => Keeps.bind (objectAt_heeds h path) fun found => ?_
  exact (requireDirectory_heeds _ _ _).map

end Paths

/-! ## Every walk returns -/

section Returns

variable (ns : Namespace W)

/-- No loop of the computation outlasts the rounds it is given. -/
abbrev Returns (m : Walk W α) : Prop :=
  Keeps (fun _ => True) (fun error _ => error ≠ none) m

theorem asking_self : ns.Asking Eq fun _ _ => True where
  read _ _ := InStep.refl fun _ _ => trivial
  poll := InStep.refl fun w _ => by
    unfold stopped
    cases ns.halt <;> trivial

theorem heeding_self : ns.Heeding (fun _ => True) fun _ => True :=
  ns.asking_self.heeding (fun h => h.alone (fun w _ => ⟨w, rfl⟩) (fun _ _ _ => trivial)
    fun _ _ _ => trivial) fun _ _ _ => trivial

theorem objectAt_returns (path : String) : Returns (ns.objectAt path) :=
  (objectAt_heeds ns.heeding_self path).imp (fun _ hw => hw) (fun _ _ hw => hw) fun _ _ he => he.1

theorem objectsIn_returns (path : String) : Returns (ns.objectsIn path) :=
  (objectsIn_heeds ns.heeding_self path).imp (fun _ hw => hw) (fun _ _ _ => trivial)
    fun _ _ he => he.1

end Returns

/-! ## A predicate that says to stop -/

/-- What a walk asks: a read of the target, or whether it is to stop, and the answer. -/
inductive Act where
  | read (address len : ℕ)
  | poll (stop : Bool)
  deriving DecidableEq, Repr

section Final

variable {M H : Type} (ns : Namespace M) (halt : H → Bool × H)

/-- The namespace under a halt predicate with a state of its own, where there is one. What is asked
of the target and of the predicate is written down. -/
def halting : Namespace (M × Option H × List Act) where
  memory address len w := ((ns.memory address len w.1).1, (ns.memory address len w.1).2, w.2.1,
    w.2.2 ++ [.read address len])
  layout := ns.layout
  globals := ns.globals
  halt := some fun w => match w.2.1 with
    | none => (false, w)
    | some state =>
      ((halt state).1, w.1, some (halt state).2, w.2.2 ++ [.poll (halt state).1])
  onHost := ns.onHost
  checked := ns.checked

def asked (w : World (M × Option H × List Act)) : List Act := w.target.2.2

def Live (w : World (M × Option H × List Act)) : Prop := Act.poll true ∉ asked w

/-- A poll said to stop, and it was the last thing asked. -/
def Stopped (w : World (M × Option H × List Act)) : Prop :=
  ∃ before, asked w = before ++ [.poll true] ∧ .poll true ∉ before

/-- The two walks have come to the same point, and nothing stops the second one. -/
def Beside (l u : World (M × Option H × List Act)) : Prop :=
  l.target.1 = u.target.1 ∧ l.known = u.known ∧ Live l ∧ u.target.2.1 = none

theorem halting_asking : (ns.halting halt).Asking Beside fun l _ => Stopped l where
  read address len := by
    refine ⟨fun l u h => .inl ?_, fun _ => fun _ h => h⟩
    obtain ⟨htarget, hknown, hlive, hnone⟩ := h
    refine ⟨_, _, _, rfl, Prod.ext ?_ rfl, ⟨?_, hknown, ?_, hnone⟩, nofun⟩
    · exact congrArg (fun m => Except.ok (ns.memory address len m).1) htarget.symm
    · exact congrArg (fun m => (ns.memory address len m).2) htarget
    · exact fun hmem => hlive (by simpa [asked, halting] using hmem)
  poll := by
    refine ⟨fun l u h => ?_, fun _ => fun _ h => h⟩
    obtain ⟨htarget, hknown, hlive, hnone⟩ := h
    have hu : (ns.halting halt).stopped u = (.ok false, u) := by simp [stopped, halting, hnone]
    cases hstate : l.target.2.1 with
    | none =>
      have hl : (ns.halting halt).stopped l = (.ok false, l) := by simp [stopped, halting, hstate]
      exact .inl ⟨_, _, _, hl, hu, ⟨htarget, hknown, hlive, hnone⟩, nofun⟩
    | some state =>
      have hl : (ns.halting halt).stopped l = (.ok (halt state).1, ⟨(l.target.1,
          some (halt state).2, asked l ++ [.poll (halt state).1]), l.known⟩) := by
        simp [stopped, halting, hstate, asked]
      cases hstop : (halt state).1 with
      | true =>
        rw [hstop] at hl
        exact .inr ⟨true, _, hl, rfl, by rw [hu]; exact ⟨asked l, rfl, hlive⟩⟩
      | false =>
        rw [hstop] at hl
        refine .inl ⟨_, _, _, hl, hu, ⟨htarget, hknown, fun hmem => hlive ?_, hnone⟩, nofun⟩
        simpa [asked] using hmem

theorem halting_alone {P : α → Prop} {m : Walk (M × Option H × List Act) α}
    (h : Steps Beside (fun l _ => Stopped l) P m) :
    Triple Live m (fun a w => Live w ∨ Stopped w ∧ P a) fun error w => error ≠ none ∧ Live w :=
  h.alone (fun w hw => ⟨⟨(w.target.1, none, []), w.known⟩, rfl, rfl, hw, rfl⟩)
    (fun _ _ h => h.2.2.1) fun _ _ h => h

/-- **A stop is honoured once and for all.** Nothing is asked after it; a listing of the root says
so and holds the first objects of the whole, and a lookup is refused with it. -/
theorem stop_is_final (m : M) (state : H) (known : Known) (path : String) :
    (∀ ending, (ns.halting halt).objectsIn path ⟨(m, some state, []), known⟩ = ending →
      .poll true ∈ asked ending.2 → Stopped ending.2) ∧
    (∀ ending, (ns.halting halt).objectsIn "\\" ⟨(m, some state, []), known⟩ = ending →
      .poll true ∈ asked ending.2 → ∃ listing, ending.1 = .ok listing ∧ listing.halted = true ∧
        ∀ whole, ((ns.halting halt).objectsIn "\\" ⟨(m, none, []), known⟩).1 = .ok whole →
          listing.objects <+: whole.objects) ∧
    ∀ ending, (ns.halting halt).objectAt path ⟨(m, some state, []), known⟩ = ending →
      .poll true ∈ asked ending.2 → Stopped ending.2 ∧
        ∃ what, ending.1 = .error (some (.halted what)) := by
  have hstart : Live (M := M) (H := H) ⟨(m, some state, []), known⟩ := List.not_mem_nil
  have hask := ns.halting_asking halt
  have hheeding := hask.heeding halting_alone fun _ _ hw => hw
  refine ⟨?_, ?_, ?_⟩
  · rintro ⟨r, w'⟩ hrun hpoll
    have hends := objectsIn_heeds hheeding path _ hstart
    rw [hrun] at hends
    cases r with
    | ok listing => exact (hends.resolve_left fun hlive => hlive hpoll).1
    | error error => exact (hends.2.resolve_left fun hlive => hlive hpoll).1
  · rintro ⟨r, w'⟩ hrun hpoll
    have hroot := rootDirectory_steps hask
    have hends := halting_alone (hroot.bind_quiet (namedIn_steps hask)) _ hstart
    have hrun' : ((ns.halting halt).rootDirectory >>= (ns.halting halt).namedIn)
        ⟨(m, some state, []), known⟩ = (r, w') := hrun
    rw [hrun'] at hends
    cases r with
    | error error => exact absurd hpoll hends.2
    | ok listing =>
      refine ⟨listing, rfl, (hends.resolve_left fun hlive => hlive hpoll).2, fun whole hwhole => ?_⟩
      obtain ⟨directory, l, hl, hpart⟩ := bind_ok hrun'
      obtain ⟨directory', u, hu, hwhole⟩ := bind_ok (m := (ns.halting halt).rootDirectory)
        (f := (ns.halting halt).namedIn) (Prod.ext hwhole rfl)
      have hbeside : Beside (M := M) (H := H) ⟨(m, some state, []), known⟩
          ⟨(m, none, []), known⟩ := ⟨rfl, rfl, hstart, rfl⟩
      rcases hroot.step _ _ hbeside with ⟨r, l', u', hl', hu', hr, -⟩ | ⟨_, _, -, hfalse, -⟩
      · rw [hl] at hl'
        rw [hu] at hu'
        cases hl'
        cases hu'
        exact namedIn_prefix hask directory hr hpart hwhole
      · exact hfalse.elim
  · rintro ⟨r, w'⟩ hrun hpoll
    have hends := objectAt_heeds hheeding path _ hstart
    rw [hrun] at hends
    cases r with
    | ok object => exact absurd hpoll hends
    | error error =>
      obtain ⟨hstopped, what, rfl⟩ := hends.2.resolve_left fun hlive => hlive hpoll
      exact ⟨hstopped, what, rfl⟩

end Final

end DbgScope.Object.Namespace
