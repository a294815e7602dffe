import DbgScope.Pool.Evidence

/-!
# What reading leaves behind

Everything discovery does between two diagnostics is a call on the target, and everything it says is
a diagnostic. A property `I` that calls keep and diagnostics restore, weakened to `J` from the
moment a read fails until something is said about it, therefore holds after every function here;
`Observing` and `Reporting` are those conditions, and each function has one lemma that uses them.
How often a read may come before the next poll is counted along the way (`Counting`), and `Raised`
says which call raised a halt.
-/

namespace DbgScope.Pool

open Run (Keeps Triple)
variable {S α : Type}

def Event.isCall : Event → Bool
  | .poll _ | .validRegion _ _ _ | .readExact _ _ _ | .committedRun _ => true
  | _ => false

def Event.raised : Event → Option SnapshotError
  | .poll raised => raised
  | .validRegion _ _ failure | .readExact _ _ failure => failure
  | _ => none

def Raised (error : SnapshotError) (w : World S) : Prop :=
  error.haltsWalk = true → ∃ event ∈ w.history, event.raised = some error

def Fails (J : World S → Prop) (error : SnapshotError) (w : World S) : Prop := J w ∧ Raised error w

theorem Raised.note {error : SnapshotError} {w : World S} (h : Raised error w) (event : Event) :
    Raised error (w.note event) := by
  intro hhalt
  obtain ⟨raising, hmem, hraised⟩ := h hhalt
  exact ⟨raising, by simp [hmem], hraised⟩

theorem raised_last (error : SnapshotError) (w : World S) {event : Event}
    (h : event.raised = some error) : Raised error (w.note event) :=
  fun _ => ⟨event, by simp, h⟩

theorem raised_of_own {error : SnapshotError} (w : World S) (h : error.haltsWalk = false) :
    Raised error w := by
  intro hhalt
  rw [h] at hhalt
  cases hhalt

theorem Fails.imp {J K : World S → Prop} {error : SnapshotError} {w : World S}
    (h : Fails J error w) (himp : ∀ w, J w → K w) : Fails K error w := ⟨himp w h.1, h.2⟩

/-! ## Calls -/

/-- A property the calls on the target keep. -/
structure Calling (I : World S → Prop) : Prop where
  call : ∀ w event, event.isCall = true → I w → I (w.note event)

section Calling

variable {I : World S → Prop}

variable (h : Calling I) (memory : PoolMemory) (address size : ℕ)
include h

theorem checkBudget_keeps : Keeps I (Fails I) (checkBudget memory : Walk S Unit) := by
  intro w hw
  unfold checkBudget
  cases hp : pollOutcome memory w.history with
  | ok u => exact h.call w _ rfl hw
  | error e => exact ⟨h.call w _ rfl hw, raised_last e w rfl⟩

theorem callReadExact_keeps :
    Keeps I (Fails I) (callReadExact memory address size : Walk S (List UInt8)) := by
  intro w hw
  unfold callReadExact
  cases hp : memory.readExact w.history address size with
  | ok bytes => exact h.call w _ rfl hw
  | error e => exact ⟨h.call w _ rfl hw, raised_last e w rfl⟩

theorem callValidRegion_keeps :
    Keeps I (Fails I) (callValidRegion memory address size : Walk S (ℕ × ℕ)) := by
  intro w hw
  unfold callValidRegion
  cases hp : memory.validRegion w.history address size with
  | ok valid => exact h.call w _ rfl hw
  | error e => exact ⟨h.call w _ rfl hw, raised_last e w rfl⟩

theorem guardedBytes_keeps :
    Keeps I (Fails I) (guardedBytes memory address size : Walk S (List UInt8)) := by
  refine Keeps.guard fun _ => ?_
  refine Keeps.bind (callValidRegion_keeps h memory address size) fun valid => ?_
  refine Keeps.ite (fun _ => ?_) fun _ => callReadExact_keeps h memory address size
  exact Keeps.fail fun w hw => ⟨hw, raised_of_own w rfl⟩

omit h in
theorem scalarOf_own {size : ℕ} {bytes : List UInt8} {error : SnapshotError}
    (h : scalarOf size bytes = .error error) : error.haltsWalk = false := by
  unfold scalarOf at h
  split at h
  · split at h <;> cases h; rfl
  · split at h <;> cases h; rfl
  · split at h <;> cases h; rfl
  · split at h <;> cases h; rfl
  · cases h; rfl

theorem scalarBytes_keeps : Keeps I (Fails I) (scalarBytes memory address size : Walk S ℕ) := by
  refine Keeps.bind (guardedBytes_keeps h memory address size) fun bytes => ?_
  exact Keeps.lift fun e w he hw => ⟨hw, raised_of_own w (scalarOf_own he)⟩

end Calling

theorem fails_own {J : World S → Prop} {error : SnapshotError} (w : World S)
    (h : error.haltsWalk = false) (hw : J w) : Fails J error w := ⟨hw, raised_of_own w h⟩

/-! ## Reads that are recorded when they fail -/

/-- `I` survives the calls, and `J` also a read that failed. -/
structure Observing (I J : World S → Prop) : Prop where
  weaken : ∀ w, I w → J w
  before : Calling I
  after : Calling J
  fault : ∀ w address size, J w → J (w.note (.fault address size))

section Observing

variable {I J : World S → Prop}

variable (h : Observing I J) (layout : PoolLayout) (memory : PoolMemory) (address size : ℕ)
include h

theorem Observing.fails {m : Walk S α} (hm : Keeps I (Fails I) m) : Keeps I (Fails J) m :=
  Triple.imp hm (fun _ hw => hw) (fun _ _ hw => hw) fun _ _ hw => hw.imp h.weaken

theorem Observing.again : Observing J J :=
  ⟨fun _ hw => hw, h.after, h.after, h.fault⟩

theorem poll_keeps : Keeps I (Fails J) (checkBudget memory : Walk S Unit) :=
  h.fails (checkBudget_keeps h.before memory)

theorem observed_keeps {read : Walk S α} (hread : Keeps I (Fails I) read) :
    Keeps I (Fails J) (observed address size read) := by
  intro w hw
  have hends := hread w hw
  unfold observed
  rcases hr : read w with ⟨r, w'⟩
  rw [hr] at hends
  cases r with
  | ok a => exact hends
  | error e => exact ⟨h.fault w' address size (h.weaken w' hends.1), hends.2.note _⟩

theorem guardedRead_keeps :
    Keeps I (Fails J) (guardedRead memory address size : Walk S (List UInt8)) :=
  observed_keeps h address size (guardedBytes_keeps h.before memory address size)

theorem scalar_keeps : Keeps I (Fails J) (scalar memory address size : Walk S ℕ) :=
  observed_keeps h address size (scalarBytes_keeps h.before memory address size)

theorem lift_layout_keeps (r : Except LayoutError α) :
    Keeps I (Fails J) (Run.lift (r.mapError .layout) : Walk S α) := by
  refine Keeps.lift fun e w he hw => ?_
  cases r with
  | ok a => cases he
  | error e' => cases he; exact fails_own w rfl (h.weaken w hw)

theorem typeLayoutOf_keeps (name : TypeName) :
    Keeps I (Fails J) (typeLayoutOf layout name : Walk S TypeLayout) :=
  lift_layout_keeps h _

theorem fieldOf_keeps (typeName : TypeName) (name : FieldName) :
    Keeps I (Fails J) (fieldOf layout typeName name : Walk S ℕ) :=
  lift_layout_keeps h _

theorem poolHeaderLayoutOf_keeps :
    Keeps I (Fails J) (poolHeaderLayoutOf layout : Walk S PoolHeaderLayout) :=
  lift_layout_keeps h _

end Observing

/-! ## Diagnostics -/

/-- What a function handed the diagnostics may do: call, fail, and say so. -/
structure Reporting (I J : World (List String) → Prop) : Prop extends Observing I J where
  report : ∀ w message, J w → I { w with state := w.state ++ [message] }
  dropped : ∀ w address size, J w → I (w.note (.dropped address size))
  capped : ∀ w what, what ≠ .segmentList → J w → w.state ≠ [] → I (w.note (.capped what))

section Reporting

variable {I J : World (List String) → Prop} (h : Reporting I J)
include h

theorem report_keeps (message : String) : Keeps I (Fails J) (report message) :=
  Keeps.modify fun w hw => h.report w message (h.weaken w hw)

theorem reported_keeps {read : Walk (List String) α} (hread : Keeps I (Fails J) read)
    (say : SnapshotError → String) : Keeps I (Fails J) (reported read say) := by
  refine Keeps.attempt_bind hread (fun a => Keeps.pure _) fun e => ?_
  refine Triple.bind (Q := fun _ => I) ?_ fun _ => Triple.pure fun _ hw => hw
  exact Triple.modify fun w hw => h.report w (say e) hw.1

end Reporting

/-! ## Reads since the last poll -/

/-- What the readers of a heap's free-chunk state keep, with the reads since the last poll
counted. A world `k` reads past its last poll satisfies `I k`, and `J k` while a read that failed
is still to be reported. Where a count is not `few`, nothing is asked for. -/
structure Counting (few : ℕ → Prop) (I J : ℕ → World (List String) → Prop)
    (E : SnapshotError → World (List String) → Prop) (memory : PoolMemory) : Prop where
  fewer : ∀ {k l}, k ≤ l → few l → few k
  mono : ∀ {k l w}, k ≤ l → I k w → I l w
  weaken : ∀ {k w}, I k w → J k w
  poll : ∀ {k}, few k → Triple (I k) (checkBudget memory) (fun _ => I 0) E
  read : ∀ {k} address size, few (k + 1) →
    Triple (I k) (guardedRead memory address size) (fun _ => I (k + 1)) fun _ => J (k + 1)
  scalar : ∀ {k} address size, few (k + 1) →
    Triple (I k) (scalar memory address size) (fun _ => I (k + 1)) fun _ => J (k + 1)
  /-- A second read, where the first one failed. -/
  again : ∀ {k} address size, few (k + 1) →
    Triple (J k) (Pool.scalar memory address size) (fun _ => J (k + 1)) fun _ => J (k + 1)
  report : ∀ {k w} message, J k w → I k { w with state := w.state ++ [message] }
  dropped : ∀ {k w} address size, few k → J k w → I k (w.note (.dropped address size))
  capped : ∀ {k w what}, few k → what ≠ .segmentList → J k w → w.state ≠ [] →
    I k (w.note (.capped what))

theorem Reporting.counting {I J : World (List String) → Prop} (h : Reporting I J)
    (memory : PoolMemory) :
    Counting (fun _ => True) (fun _ => I) (fun _ => J) (Fails J) memory where
  fewer _ _ := trivial
  mono _ hw := hw
  weaken := h.weaken _
  poll _ := poll_keeps h.toObserving memory
  read address size _ := (guardedRead_keeps h.toObserving memory address size).imp
    (fun _ hw => hw) (fun _ _ hw => hw) fun _ _ hw => hw.1
  scalar address size _ := (scalar_keeps h.toObserving memory address size).imp
    (fun _ hw => hw) (fun _ _ hw => hw) fun _ _ hw => hw.1
  again address size _ := (scalar_keeps h.toObserving.again memory address size).imp
    (fun _ hw => hw) (fun _ _ hw => hw) fun _ _ hw => hw.1
  report message hw := h.report _ message hw
  dropped address size _ hw := h.dropped _ address size hw
  capped _ hwhat hw hsaid := h.capped _ _ hwhat hw hsaid

section Counting

variable {few : ℕ → Prop} {I J : ℕ → World (List String) → Prop}
  {E : SnapshotError → World (List String) → Prop} {memory : PoolMemory} {k l : ℕ}

/-- The computation takes a walk `k` reads past its last poll to one `l` past it. -/
abbrev Counts (I : ℕ → World (List String) → Prop) (E : SnapshotError → World (List String) → Prop)
    (k l : ℕ) (m : Walk (List String) α) : Prop := Triple (I k) m (fun _ => I l) E

variable (h : Counting few I J E memory) (message : String) (layout : PoolLayout) (limit : ℕ)
include h

theorem pure_counts (a : α) (hkl : k ≤ l) : Counts I E k l (pure a) :=
  Triple.pure fun _ hw => h.mono hkl hw

theorem report_counts : Counts I E k k (report message) :=
  Triple.modify fun _ hw => h.report message (h.weaken hw)

theorem said_counts (a : α) (hkl : k ≤ l) :
    Triple (J k) (report message >>= fun _ => pure a) (fun _ => I l) E :=
  Triple.bind (Q := fun _ => I k) (Triple.modify fun _ hw => h.report message hw) fun _ =>
    pure_counts h a hkl

theorem report_then_counts (a : α) (hkl : k ≤ l) :
    Counts I E k l (report message >>= fun _ => pure a) :=
  (said_counts h message a hkl).pre fun _ hw => h.weaken hw

theorem attempt_counts {read : Walk (List String) α}
    (hread : Triple (I k) read (fun _ => I l) fun _ => J l) :
    Triple (I k) (Run.attempt read) (fun r w => J l w ∧ (r.isOk = true → I l w)) E :=
  Triple.attempt (hread.imp (fun _ hw => hw) (fun _ _ hw => ⟨h.weaken hw, fun _ => hw⟩)
    fun _ _ hw => ⟨hw, nofun⟩)

theorem reported_counts {read : Walk (List String) α}
    (hread : Triple (I k) read (fun _ => I l) fun _ => J l) (say : SnapshotError → String) :
    Counts I E k l (reported read say) := by
  refine Triple.bind (attempt_counts h hread) fun r => ?_
  cases r with
  | ok a => exact Triple.pure fun _ hw => hw.2 rfl
  | error e => exact (said_counts h (say e) none le_rfl).pre fun _ hw => hw.1

theorem capped_counts (hk : few k) {what : Traversal} (hwhat : what ≠ .segmentList)
    {f : Unit → Walk (List String) α} (hf : ∀ u, Counts I E k l (f u)) :
    Counts I E k l (report message >>= fun _ => note (.capped what) >>= f) := by
  have hsaid : Triple (I k) (report message) (fun _ w => J k w ∧ w.state ≠ []) E :=
    Triple.modify fun w hw => ⟨h.weaken (h.report message (h.weaken hw)), by simp⟩
  refine Triple.bind hsaid fun _ => Triple.bind ?_ hf
  exact Triple.modify fun w hw => h.capped hk hwhat hw.1 hw.2

/-! ## Trees and lists -/

section Few

variable (htwo : few 2)
include htwo

theorem treeStep_counts (left right : ℕ) (label : String) (s : TreeWalk) :
    Counts I E 2 2 (treeStep memory left right limit label s) := by
  unfold treeStep
  split
  · exact pure_counts h _ le_rfl
  · refine Triple.ite (fun _ => pure_counts h _ le_rfl) fun _ => ?_
    refine Triple.bind (h.poll htwo) fun _ => ?_
    refine Triple.ite (fun _ => report_then_counts h _ _ (by decide)) fun _ => ?_
    refine Triple.ite (fun _ => ?_) fun _ => ?_
    · exact capped_counts h _ (h.fewer (by decide) htwo) (by decide) fun _ =>
        pure_counts h _ (by decide)
    · refine Triple.bind (reported_counts h (h.read _ _ (h.fewer (by decide) htwo)) _)
        fun bytes => ?_
      split
      · exact pure_counts h _ (by decide)
      · exact pure_counts h _ (by decide)

theorem treeNodes_counts (treeAddress : ℕ) (label : String) (hk : few k) :
    Counts I E k 2 (treeNodes memory layout treeAddress limit label) := by
  refine Triple.bind (h.poll hk) fun _ => ?_
  split
  · refine Triple.bind (reported_counts h (h.scalar _ _ (h.fewer (by decide) htwo)) _)
      fun rootValue => ?_
    split
    · refine Triple.bind (Q := fun _ => I 2) ?_ fun encoded => ?_
      · unfold treeEncoded
        split
        · exact pure_counts h _ (by decide)
        · refine Triple.bind (reported_counts h (h.scalar _ _ htwo) _) fun value => ?_
          split
          · exact pure_counts h _ le_rfl
          · exact pure_counts h _ le_rfl
      · split
        · dsimp only
          split
          · split
            · split
              · exact Keeps.loop (treeStep_counts h limit htwo _ _ label) _ _
              · exact pure_counts h _ le_rfl
            · exact pure_counts h _ le_rfl
          · exact report_then_counts h _ _ le_rfl
        · exact pure_counts h _ le_rfl
    · exact pure_counts h _ (by decide)
  · exact report_then_counts h _ _ (by decide)

omit htwo in
theorem slistStep_counts (expected : ℕ) (label : String) (s : SlistWalk) (hk : few (k + 1)) :
    Counts I E (k + 1) (k + 1) (slistStep memory expected label s) := by
  refine Triple.ite (fun _ => pure_counts h _ le_rfl) fun _ => ?_
  refine Triple.bind (h.poll hk) fun _ => ?_
  refine Triple.ite (fun _ => report_then_counts h _ _ (Nat.zero_le _)) fun _ => ?_
  refine Triple.bind (reported_counts h (h.scalar _ _ (h.fewer (by omega) hk)) _) fun next => ?_
  split
  · exact pure_counts h _ (by omega)
  · exact pure_counts h _ (by omega)

omit htwo in
/-- **An empty list costs a read and no poll.** -/
theorem walkSlistNodes_counts (head : ℕ) (label : String) (hk : few (k + 1)) :
    Counts I E k (k + 1) (walkSlistNodes memory layout head limit label) := by
  unfold walkSlistNodes
  split
  · split
    · split
      · refine Triple.bind (reported_counts h (h.read _ _ hk) _) fun bytes => ?_
        split
        · refine Triple.bind (Keeps.loop (slistStep_counts h _ label · hk) _ _) fun nodes =>
            Triple.bind (Q := fun _ => I (k + 1)) ?_ fun _ => pure_counts h _ le_rfl
          refine Triple.ite (fun _ => ?_) fun _ => Triple.ite (fun _ => ?_) fun _ => ?_
          · exact capped_counts h _ hk (by decide) fun _ => pure_counts h _ le_rfl
          · exact report_counts h _
          · exact pure_counts h _ le_rfl
        · exact pure_counts h _ le_rfl
      · exact report_then_counts h _ _ (Nat.le_succ k)
    · exact report_then_counts h _ _ (Nat.le_succ k)
  · exact report_then_counts h _ _ (Nat.le_succ k)

/-! ## Evidence -/

theorem slotMapEntry_counts (context slotMap entrySize slotRefOffset treeOffset : ℕ)
    (delayOffset : Option ℕ) (back : SlotBackReference) (met : List VsRoot × Finset ℕ) (index : ℕ) :
    Counts I E 2 2 (slotMapEntry memory context slotMap entrySize slotRefOffset treeOffset
      delayOffset back met index) := by
  refine Triple.bind (h.poll htwo) fun _ => ?_
  refine Triple.bind (reported_counts h (h.scalar _ _ (h.fewer (by decide) htwo)) _)
    fun slotRef => ?_
  split
  · refine Triple.ite (fun _ => pure_counts h _ (by decide)) fun _ => ?_
    refine Triple.ite (fun _ => pure_counts h _ (by decide)) fun _ => ?_
    refine Triple.bind (reported_counts h (h.scalar _ _ htwo) _) fun value => ?_
    split
    · split
      · refine Triple.ite (fun _ => pure_counts h _ le_rfl) fun _ => ?_
        exact report_then_counts h _ _ le_rfl
      · exact report_then_counts h _ _ le_rfl
    · exact pure_counts h _ le_rfl
  · exact pure_counts h _ (by decide)

theorem vsRoots_counts (context : ℕ) : Counts I E 0 2 (vsRoots memory layout context) := by
  unfold vsRoots
  split
  · exact report_then_counts h _ _ (by decide)
  · exact pure_counts h _ (by decide)
  · refine Triple.bind (attempt_counts h (h.scalar _ _ (h.fewer (by decide) htwo)))
      fun mapRead => ?_
    cases mapRead with
    | error e =>
      refine Triple.bind (Q := fun _ => J 2) ?_ fun maskRead => said_counts h _ _ le_rfl
      exact Triple.attempt (Q := fun _ => J 2) ((h.again _ _ htwo).pre fun _ hw => hw.1)
    | ok slotMapRef =>
      refine Triple.bind ((attempt_counts h (h.scalar _ _ htwo)).pre fun _ hw => hw.2 rfl)
        fun maskRead => ?_
      cases maskRead with
      | error e => exact (said_counts h _ _ le_rfl).pre fun _ hw => hw.1
      | ok affinityMask =>
        refine Triple.pre (P := I 2) ?_ fun _ hw => hw.2 rfl
        refine Triple.ite (fun _ => report_then_counts h _ _ le_rfl) fun _ => ?_
        refine Triple.bind (Keeps.fold (slotMapEntry_counts h htwo _ _ _ _ _ _ _) _ _)
          fun roots => ?_
        exact pure_counts h _ le_rfl

omit htwo in
theorem vsSkipsPageEnd_counts (heapAddress : ℕ) (hk : few (k + 1)) :
    Counts I E k (k + 1) (vsSkipsPageEnd memory layout heapAddress) := by
  unfold vsSkipsPageEnd
  split
  · exact pure_counts h _ (Nat.le_succ k)
  · split
    · exact report_then_counts h _ _ (Nat.le_succ k)
    · refine Triple.bind (h.poll (h.fewer (Nat.le_succ k) hk)) fun _ => ?_
      refine Triple.bind (reported_counts h (h.scalar _ _ (h.fewer (by omega) hk)) _)
        fun flags => ?_
      split
      · exact pure_counts h _ (by omega)
      · exact pure_counts h _ (by omega)

omit htwo in
theorem delayFreeChunks_counts (roots : List VsRoot) (hk : few (k + roots.length)) :
    Counts I E k (k + roots.length) (delayFreeChunks memory layout limit roots) := by
  unfold delayFreeChunks
  split
  · refine Triple.fold_through (I := fun gone _ => I (k + gone.length))
      (fun gone root rest cached hroots => ?_) ∅
    have hlength := congrArg List.length hroots
    rw [List.length_append, List.length_cons] at hlength
    rw [List.length_append, List.length_singleton, ← Nat.add_assoc]
    unfold rootDelayFree
    split
    · exact pure_counts h _ (Nat.le_succ _)
    · refine Triple.bind (walkSlistNodes_counts h layout limit _ _ (h.fewer (by omega) hk)) ?_
      exact fun _ => pure_counts h _ le_rfl
  · exact pure_counts h _ (Nat.le_add_right _ _)

omit htwo in
theorem bucketStep_counts (dynamic bucketsOffset lookasideSize listOffset bucketCount : ℕ)
    (s : ℕ × Finset ℕ) (hk : few (k + 2)) :
    Counts I E (k + 2) (k + 2) (bucketStep memory layout dynamic bucketsOffset lookasideSize
      listOffset limit bucketCount s) := by
  refine Triple.ite (fun _ => pure_counts h _ le_rfl) fun _ => ?_
  refine Triple.bind (h.poll hk) fun _ => ?_
  split
  · exact report_then_counts h _ _ (Nat.zero_le _)
  · refine Triple.bind (Q := fun _ => I 1) ?_ fun used => ?_
    · unfold bucketInUse
      split
      · exact pure_counts h _ (by decide)
      · refine Triple.bind (reported_counts h (h.scalar _ _ (h.fewer (by omega) hk)) _)
          fun size => ?_
        split
        · refine Triple.ite (fun _ => pure_counts h _ le_rfl) fun _ => ?_
          refine Triple.ite (fun _ => ?_) fun _ => pure_counts h _ le_rfl
          exact report_then_counts h _ _ le_rfl
        · exact pure_counts h _ le_rfl
    · refine Triple.ite (fun _ => ?_) fun _ => pure_counts h _ (by omega)
      refine Triple.bind (walkSlistNodes_counts h layout limit _ _ (h.fewer (by omega) hk)) ?_
      exact fun _ => pure_counts h _ (by omega)

omit htwo in
theorem lookasideChunks_counts (dynamic : Option ℕ) (cached : Finset ℕ) (hk : few (k + 2)) :
    Counts I E (k + 1) (k + 2) (lookasideChunks memory layout limit dynamic cached) := by
  unfold lookasideChunks
  split
  · refine Triple.bind (Q := fun _ => I (k + 2)) ?_ fun count =>
      Triple.ite (fun _ => ?_) fun _ => ?_
    · unfold bucketCountOf
      split
      · exact pure_counts h _ (Nat.le_succ _)
      · refine Triple.bind (attempt_counts h (h.scalar _ _ hk)) fun answer => ?_
        cases answer with
        | ok count => exact Triple.pure fun _ hw => hw.2 rfl
        | error e =>
          -- nothing is said here, and the mark in the history is all that restores `I`
          refine Triple.bind (Q := fun _ => I (k + 2)) ?_ fun _ => pure_counts h _ le_rfl
          exact Triple.modify fun _ hw => h.dropped _ _ hk hw.1
    · exact report_then_counts h _ _ le_rfl
    · split
      · exact Keeps.loop (bucketStep_counts h layout limit _ _ _ _ _ · hk) _ _
      · exact pure_counts h _ le_rfl
  · exact pure_counts h _ (Nat.le_succ _)

theorem discoverVsEvidence_counts {P : World (List String) → Prop} (heapAddress : ℕ)
    (dynamic : Option ℕ) (hstart : ∀ w, P w → I 0 w)
    (hroots : ∀ offset, layout.field .segmentHeap .vsContext = .ok offset →
      Triple P (vsRoots memory layout (wrappingAdd heapAddress offset))
        (fun roots w => I 2 w ∧ few (roots.length + 3)) E) :
    Triple P (discoverVsEvidence memory layout heapAddress dynamic limit)
      (fun _ w => ∃ l, few l ∧ I l w) E := by
  unfold discoverVsEvidence
  split
  next offset hoffset =>
    refine Triple.bind (hroots offset hoffset) fun roots => Triple.pull fun hfew => ?_
    refine Triple.ite (fun _ => Triple.pure fun _ hw => ⟨2, htwo, hw⟩) fun _ => ?_
    have htrees (reusable : Finset ℕ) (root : VsRoot) : Counts I E 2 2 (rootFreeTree memory layout
        limit ((layout.field .heapVsChunkFreeHeader .treeNode).toOption.getD 0) reusable root) :=
      Triple.bind (treeNodes_counts h layout limit htwo _ _ htwo) fun _ => pure_counts h _ le_rfl
    refine Triple.bind (Keeps.fold htrees roots ∅) fun reusable => ?_
    refine Triple.bind (delayFreeChunks_counts h layout limit roots (h.fewer (by omega) hfew))
      fun delayed => ?_
    rw [show 2 + roots.length = roots.length + 1 + 1 by omega]
    refine Triple.bind (lookasideChunks_counts h layout limit dynamic delayed hfew) fun _ => ?_
    exact Triple.pure fun _ hw => ⟨_, hfew, hw⟩
  next => exact Triple.pure fun w hw => ⟨0, h.fewer (by decide) htwo, hstart w hw⟩

end Few

end Counting

section Reporting

variable {I J : World (List String) → Prop} (h : Reporting I J) (memory : PoolMemory)
  (layout : PoolLayout)
include h

theorem treeNodes_keeps (treeAddress limit : ℕ) (label : String) :
    Keeps I (Fails J) (treeNodes memory layout treeAddress limit label) :=
  treeNodes_counts (k := 0) (h.counting memory) layout limit trivial treeAddress label trivial

theorem vsSkipsPageEnd_keeps (heapAddress : ℕ) :
    Keeps I (Fails J) (vsSkipsPageEnd memory layout heapAddress) :=
  vsSkipsPageEnd_counts (k := 0) (h.counting memory) layout heapAddress trivial

theorem discoverVsEvidence_keeps (heapAddress : ℕ) (dynamic : Option ℕ) (limit : ℕ) :
    Keeps I (Fails J) (discoverVsEvidence memory layout heapAddress dynamic limit) := by
  have hcounts := h.counting memory
  refine Triple.post (discoverVsEvidence_counts hcounts layout limit trivial heapAddress dynamic
    (fun _ hw => hw) fun offset _ => ?_) fun _ _ ⟨_, _, hw⟩ => hw
  exact (vsRoots_counts hcounts layout trivial _).post fun _ _ hw => ⟨hw, trivial⟩

end Reporting

end DbgScope.Pool
