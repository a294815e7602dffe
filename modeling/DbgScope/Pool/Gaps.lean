import DbgScope.Pool.Extents

/-!
# What is filed for a gap

`unreadable` divides the range it is handed by what the memory manager says is behind it. The
spans it files tile the range, one for each question it asks; a span is an unreadable gap unless the
memory manager has called the run it lies in uncommitted.
-/

namespace DbgScope.Pool

open Run (Triple)
open PoolSnapshot

def PoolSpan.range (span : PoolSpan) : ℕ × ℕ := (span.headerAddress, span.spanEnd)

theorem containsAddress_iff {span : PoolSpan} {x : ℕ} :
    span.containsAddress x = true ↔ span.headerAddress ≤ x ∧ x < span.spanEnd := by
  unfold PoolSpan.containsAddress
  rw [Bool.and_eq_true, decide_eq_true_iff, decide_eq_true_iff]

def Event.gapRange : Event → Option (ℕ × ℕ)
  | .filed address stop => some (address, stop)
  | _ => none

/-- The spans of a gap from `address` to `stop`. -/
structure Gaps (memory : PoolMemory) (address stop : ℕ) (gaps : List PoolSpan) : Prop where
  tiles : Tiles address (gaps.map PoolSpan.range) stop
  kind : ∀ gap ∈ gaps, gap.state = .unreadable ∨ gap.state = .uncommitted ∧
    ∃ h run, memory.committedRun h gap.headerAddress = some run ∧ run.committed = false ∧
      gap.spanEnd ≤ run.runEnd

structure Gapped (w₀ : World PoolSnapshot) (gaps : List PoolSpan) (w : World PoolSnapshot) :
    Prop where
  spans : w.state.spans = w₀.state.spans ++ gaps
  complete : w.state.complete = true → w₀.state.complete = true ∧
    ∀ gap ∈ gaps, gap.state ≠ .unreadable
  refused : w.state.refusedChunks = w₀.state.refusedChunks
  unlimited : w₀.state.matchLimit = none →
    w.state.matchLimit = none ∧ w.state.matchLimitReached = w₀.state.matchLimitReached
  history : ∃ events, w.history = w₀.history ++ events ∧ events.filterMap Event.gapRange = []

section Gaps

variable {memory : PoolMemory} {region : PoolRegion} {address stop next : ℕ}
  {w₀ w : World PoolSnapshot} {gaps : List PoolSpan}
  {E : SnapshotError → World PoolSnapshot → Prop}

theorem Gaps.mem_iff (h : Gaps memory address stop gaps) {x : ℕ} :
    (∃ gap ∈ gaps, gap.containsAddress x = true) ↔ address ≤ x ∧ x < stop := by
  rw [← h.tiles.mem_iff]
  simp only [containsAddress_iff, List.mem_map, exists_exists_and_eq_and, PoolSpan.range]

theorem Gaps.not_isChunk (h : Gaps memory address stop gaps) {gap : PoolSpan} (hgap : gap ∈ gaps) :
    gap.state.isChunk = false := by
  rcases h.kind gap hgap with hstate | ⟨hstate, -⟩ <;> rw [hstate] <;> rfl

theorem recordSpan_of_gap (snapshot : PoolSnapshot) {span : PoolSpan}
    (h : span.state ≠ .allocated) :
    snapshot.recordSpan span = { snapshot with spans := snapshot.spans ++ [span] } := by
  unfold recordSpan
  cases snapshot.matchLimit with
  | none => rfl
  | some limit =>
    have hrefused : limit.accepts span = false := by
      unfold PoolMatchLimit.accepts
      rw [decide_eq_false h, Bool.false_and, Bool.false_and]
    dsimp only
    rw [hrefused]
    rfl

/-! ## The pieces of a gap -/

def asked (gaps : List PoolSpan) : History := gaps.map fun gap => .committedRun gap.headerAddress

/-- A gap is called what the memory manager says about its start, asked after the calls in `h`. -/
inductive CalledAs (memory : PoolMemory) (h : History) (gap : PoolSpan) : Prop
  | uncommitted (run : CommitRun) (hstate : gap.state = .uncommitted)
      (hrun : memory.committedRun h gap.headerAddress = some run) (hfree : run.committed = false)
      (hpast : gap.spanEnd ≤ run.runEnd)
  | unreadable (hstate : gap.state = .unreadable)
      (hrun : ∀ run, memory.committedRun h gap.headerAddress = some run →
        gap.headerAddress < run.runEnd → run.committed = true)

structure Split (memory : PoolMemory) (h : History) (address stop : ℕ) (gaps : List PoolSpan) :
    Prop where
  tiles : Tiles address (gaps.map PoolSpan.range) stop
  nonempty : ∀ gap ∈ gaps, gap.headerAddress < gap.spanEnd
  bare : ∀ gap ∈ gaps, gap.usableAddress = gap.headerAddress
  kind : ∀ k gap, gaps[k]? = some gap → CalledAs memory (h ++ asked (gaps.take k)) gap

def withGaps (w : World PoolSnapshot) (gaps : List PoolSpan) (missed : Bool) :
    World PoolSnapshot :=
  { history := w.history ++ asked gaps
    state := { w.state with
      spans := w.state.spans ++ gaps
      complete := w.state.complete && !missed } }

theorem Split.nil (memory : PoolMemory) (h : History) (address : ℕ) :
    Split memory h address address [] :=
  ⟨Tiles.nil _, List.forall_mem_nil _, List.forall_mem_nil _, fun _ _ hgap => by cases hgap⟩

theorem Split.snoc {h : History} (hs : Split memory h address stop gaps) {gap : PoolSpan}
    (hstart : gap.headerAddress = stop) (hend : gap.spanEnd = next)
    (hbare : gap.usableAddress = gap.headerAddress) (hlt : stop < next)
    (hkind : CalledAs memory (h ++ asked gaps) gap) :
    Split memory h address next (gaps ++ [gap]) := by
  constructor
  · rw [List.map_append]
    refine hs.tiles.append ⟨hstart, ?_, hend⟩
    show gap.headerAddress ≤ gap.spanEnd
    omega
  · intro other hother
    rcases List.mem_append.mp hother with hold | hnew
    · exact hs.nonempty other hold
    · rw [List.mem_singleton.mp hnew]
      omega
  · intro other hother
    rcases List.mem_append.mp hother with hold | hnew
    · exact hs.bare other hold
    · rw [List.mem_singleton.mp hnew]
      exact hbare
  · intro k other hother
    rcases lt_or_ge k gaps.length with hk | hk
    · rw [List.getElem?_append_left hk] at hother
      rw [List.take_append_of_le_length hk.le]
      exact hs.kind k other hother
    · rw [List.getElem?_append_right hk, List.getElem?_singleton] at hother
      obtain ⟨hlast, hsame⟩ := Option.ite_none_right_eq_some.mp hother
      obtain rfl := Option.some.inj hsame
      rw [List.take_append_of_le_length (by omega), List.take_of_length_le hk]
      exact hkind

theorem spanEnd_gap (region : PoolRegion) {address next : ℕ} (state : PoolState)
    (hle : address ≤ next) (hword : next < 2 ^ 64) :
    (baseSpan region address address (next - address) 0 state).spanEnd = next := by
  show saturatingAdd address (next - address) = next
  rw [saturatingAdd_of_lt (by omega), Nat.add_sub_cancel' hle]

theorem gap_eq {state : PoolState} (hstate : state ≠ .allocated) (hlt : address < next)
    (w : World PoolSnapshot) :
    gap region address (next - address) state w =
      (.ok state.isCoverageGap,
        { w with state :=
          { w.state with
            spans := w.state.spans ++ [baseSpan region address address (next - address) 0 state]
            complete := w.state.complete && !state.isCoverageGap } }) := by
  have hspan : (baseSpan region address address (next - address) 0 state).state ≠ .allocated :=
    hstate
  unfold gap
  rw [if_neg (by omega)]
  cases hgap : state.isCoverageGap with
  | true =>
    show (Except.ok true, World.mk w.history ({ w.state with complete := false }.recordSpan _)) = _
    rw [recordSpan_of_gap _ hspan, Bool.not_true, Bool.and_false]
  | false =>
    show (Except.ok false, World.mk w.history (w.state.recordSpan _)) = _
    rw [recordSpan_of_gap _ hspan, Bool.not_false, Bool.and_true]

def Pieces (memory : PoolMemory) (w₀ : World PoolSnapshot) (address cursor : ℕ) (missed : Bool)
    (w : World PoolSnapshot) : Prop :=
  ∃ gaps, w = withGaps w₀ gaps missed ∧ Split memory w₀.history address cursor gaps ∧
    (missed = true ↔ ∃ gap ∈ gaps, gap.state = .unreadable)

theorem Pieces.start (memory : PoolMemory) (w₀ : World PoolSnapshot) (address : ℕ) :
    Pieces memory w₀ address address false w₀ := by
  refine ⟨[], ?_, Split.nil _ _ _, by simp⟩
  unfold withGaps
  rw [Bool.not_false, Bool.and_true, List.append_nil]
  exact congrArg (World.mk · w₀.state) (List.append_nil _).symm

theorem Pieces.gap {missed : Bool} {state : PoolState} (hp : Pieces memory w₀ address stop missed w)
    (hstate : state ≠ .allocated) (hlt : stop < next) (hword : next < 2 ^ 64)
    (hkind : CalledAs memory w.history (baseSpan region stop stop (next - stop) 0 state)) :
    ∃ v, gap region stop (next - stop) state (w.note (.committedRun stop)) =
        (.ok state.isCoverageGap, v) ∧
      Pieces memory w₀ address next (missed || state.isCoverageGap) v := by
  obtain ⟨gaps, rfl, hsplit, hmissed⟩ := hp
  refine ⟨_, gap_eq hstate hlt _, gaps ++ [baseSpan region stop stop (next - stop) 0 state], ?_,
    hsplit.snoc rfl (spanEnd_gap region state hlt.le hword) rfl hlt hkind, ?_⟩
  · simp only [withGaps, asked, World.note, List.map_append, List.append_assoc, Bool.not_or,
      Bool.and_assoc]
    rfl
  · have hgap : state.isCoverageGap = true ↔ state = .unreadable := by cases state <;> decide
    rw [Bool.or_eq_true, hmissed, hgap]
    simp only [List.mem_append, List.mem_singleton, or_and_right, exists_or, exists_eq_left]
    rfl

/-- **What `unreadable` files.** -/
theorem unreadable_pieces (memory : PoolMemory) (region : PoolRegion) (hword : address < 2 ^ 64)
    (size : ℕ) (w₀ : World PoolSnapshot) :
    ∃ missed w, unreadable memory region address size w₀ = (.ok missed, w) ∧
      Pieces memory (w₀.note (.filed address (saturatingAdd address size))) address
        (saturatingAdd address size) missed w := by
  have hstop : saturatingAdd address size < 2 ^ 64 := saturatingAdd_lt _ _
  have hstart := le_saturatingAdd (b := size) hword
  have hsize := saturatingAdd_le address size
  suffices h : Triple (fun w => w = w₀) (unreadable memory region address size)
      (Pieces memory (w₀.note (.filed address (saturatingAdd address size))) address
        (saturatingAdd address size)) fun _ _ => False by
    have hends := h w₀ rfl
    rcases hrun : unreadable memory region address size w₀ with ⟨r, w⟩
    rw [hrun] at hends
    cases r with
    | ok missed => exact ⟨missed, w, rfl, hends⟩
    | error error => exact hends.elim
  unfold unreadable
  generalize saturatingAdd address size = stop at hstop hstart hsize
  refine Triple.bind (Q := fun _ w => w = w₀.note (.filed address stop))
    (Triple.modify fun w hw => by rw [hw]) fun _ => ?_
  generalize w₀.note (.filed address stop) = w₀
  refine Triple.ite (fun hzero => Triple.pure fun w hw => ?_) fun _ => ?_
  · obtain rfl : address = stop := by omega
    rw [hw]
    exact Pieces.start memory w₀ address
  -- the pieces reach the cursor, and the rounds left are enough for the rest
  refine (Triple.countdown (I := fun rounds s w => s.1 ≤ stop ∧ stop < s.1 + rounds ∧
    Pieces memory w₀ address s.1 s.2 w) (fun rounds s => ?_) ?_ _ _).pre fun w hw => ?_
  · rintro w ⟨hle, hrounds, hpieces⟩
    unfold unreadableStep
    by_cases hdone : stop ≤ s.1
    · rw [if_pos hdone]
      obtain hsame : s.1 = stop := Nat.le_antisymm hle hdone
      exact hsame ▸ hpieces
    rw [if_neg hdone]
    have hask : (callCommittedRun memory s.1 : Walk PoolSnapshot _) w =
      (.ok (memory.committedRun w.history s.1), w.note (.committedRun s.1)) := rfl
    rw [Run.bind_of_ok hask]
    cases hanswer : (memory.committedRun w.history s.1).filter fun run => decide (s.1 < run.runEnd)
      with
    | none =>
      dsimp only
      have hkind : CalledAs memory w.history
          (baseSpan region s.1 s.1 (stop - s.1) 0 .unreadable) := by
        refine .unreadable rfl fun run hrun hpast => ?_
        have hpast : decide (s.1 < run.runEnd) = true := decide_eq_true hpast
        rw [show memory.committedRun w.history s.1 = some run from hrun, Option.filter_some,
          if_pos hpast] at hanswer
        cases hanswer
      obtain ⟨v, hgap, hv⟩ := hpieces.gap (by decide) (Nat.lt_of_not_le hdone) hstop hkind
      rw [Run.bind_of_ok hgap]
      rwa [Bool.or_comm] at hv
    | some answer =>
      obtain ⟨hsome, hpast⟩ := Option.filter_eq_some_iff.mp hanswer
      have hpast : s.1 < answer.runEnd := of_decide_eq_true hpast
      dsimp only
      have hkind : CalledAs memory w.history (baseSpan region s.1 s.1
          (min answer.runEnd stop - s.1) 0
          (if answer.committed then .unreadable else .uncommitted)) := by
        cases hcommitted : answer.committed with
        | true =>
          refine .unreadable rfl fun run hrun _ => ?_
          obtain rfl := Option.some.inj (hsome.symm.trans hrun)
          exact hcommitted
        | false =>
          refine .uncommitted answer rfl hsome hcommitted ?_
          rw [spanEnd_gap region _ (by omega) (by omega)]
          exact Nat.min_le_left _ _
      obtain ⟨v, hgap, hv⟩ := hpieces.gap (by cases answer.committed <;> decide)
        (Nat.lt_min.mpr ⟨hpast, Nat.lt_of_not_le hdone⟩) (by omega) hkind
      rw [Run.bind_of_ok hgap]
      exact ⟨Nat.min_le_right _ _, by dsimp only; omega, hv⟩
  · rintro s w ⟨hle, hrounds, -⟩
    omega
  · rw [hw]
    exact ⟨hstart, by dsimp only; omega, Pieces.start memory w₀ address⟩

theorem Split.toGaps {h : History} (hs : Split memory h address stop gaps) :
    Gaps memory address stop gaps := by
  refine ⟨hs.tiles, fun gap hgap => ?_⟩
  obtain ⟨k, hk⟩ := List.mem_iff_getElem?.mp hgap
  cases hs.kind k gap hk with
  | uncommitted run hstate hrun hfree hpast => exact Or.inr ⟨hstate, _, run, hrun, hfree, hpast⟩
  | unreadable hstate _ => exact Or.inl hstate

theorem gapped_withGaps (w₀ : World PoolSnapshot) {missed : Bool}
    (h : missed = true ↔ ∃ gap ∈ gaps, gap.state = .unreadable) :
    Gapped w₀ gaps (withGaps w₀ gaps missed) := by
  refine ⟨rfl, fun hc => ?_, rfl, fun hlimit => ⟨hlimit, rfl⟩, asked gaps, rfl, ?_⟩
  · obtain ⟨hc, hmissed⟩ := Bool.and_eq_true_iff.mp hc
    refine ⟨hc, fun gap hgap hstate => ?_⟩
    rw [h.mpr ⟨gap, hgap, hstate⟩] at hmissed
    cases hmissed
  · rw [asked, List.filterMap_map, List.filterMap_eq_nil_iff]
    exact fun _ _ => rfl

theorem unreadable_gapped (memory : PoolMemory) (region : PoolRegion) (hword : address < 2 ^ 64)
    (size : ℕ) :
    Triple (fun w => w = w₀) (unreadable memory region address size)
      (fun _ w => ∃ gaps, Gaps memory address (saturatingAdd address size) gaps ∧
        Gapped (w₀.note (.filed address (saturatingAdd address size))) gaps w) E := by
  rintro w rfl
  obtain ⟨missed, w', hrun, gaps, rfl, hsplit, hmissed⟩ :=
    unreadable_pieces memory region hword size w
  rw [hrun]
  exact ⟨gaps, hsplit.toGaps, gapped_withGaps _ hmissed⟩

/-- **Filing an unreadable range splits it exactly**, whatever the memory manager answers, and ends:
no larger number of rounds comes to anything else. -/
theorem unreadable_splits_exactly (memory : PoolMemory) (region : PoolRegion) {address : ℕ}
    (hword : address < 2 ^ 64) (size : ℕ) (w₀ : World PoolSnapshot) :
    ∃ gaps missed w, unreadable memory region address size w₀ = (.ok missed, w) ∧
      w.state.spans = w₀.state.spans ++ gaps ∧
      Split memory (w₀.history ++ [.filed address (saturatingAdd address size)]) address
        (saturatingAdd address size) gaps ∧
      gaps.Pairwise (fun a b => a.spanEnd ≤ b.headerAddress) ∧
      (∀ x, (∃ gap ∈ gaps, gap.containsAddress x = true) ↔
        address ≤ x ∧ x < saturatingAdd address size) ∧
      (missed = true ↔ ∃ gap ∈ gaps, gap.state = .unreadable) ∧
      w.state.complete = (w₀.state.complete && !missed) ∧
      ∀ rounds > size, ∀ v, Run.loop (unreadableStep memory region (saturatingAdd address size))
          Prod.snd rounds (address, false) v =
        Run.loop (unreadableStep memory region (saturatingAdd address size)) Prod.snd (size + 1)
          (address, false) v := by
  obtain ⟨missed, w, hrun, gaps, rfl, hsplit, hmissed⟩ :=
    unreadable_pieces memory region hword size w₀
  refine ⟨gaps, missed, _, hrun, rfl, hsplit, ?_, fun x => hsplit.toGaps.mem_iff, hmissed, rfl, ?_⟩
  · have hdisjoint := hsplit.tiles.pairwise
    rwa [List.pairwise_map] at hdisjoint
  · exact fun rounds hrounds v => unreadable_ends memory region address size hrounds v

end Gaps

/-- Nothing is committed below `0x2000`, and nothing is known above. -/
def lowUncommitted : PoolMemory :=
  { smallTarget (fun _ => 0) none with
    committedRun := fun _ address =>
      if address < 0x2000 then some { runEnd := 0x2000, committed := false } else none }

theorem unreadable_splits_exactly_twoPieces :
    ∃ gaps missed w, unreadable lowUncommitted (onePage .segment none) 0x1000 0x2000 emptySnapshot =
        (.ok missed, w) ∧
      Split lowUncommitted [.filed 0x1000 0x3000] 0x1000 0x3000 gaps ∧
      (missed = true ↔ ∃ gap ∈ gaps, gap.state = .unreadable) := by
  have hword : 0x1000 < 2 ^ 64 := by decide
  obtain ⟨gaps, missed, w, hrun, -, hsplit, -, -, hmissed, -⟩ :=
    unreadable_splits_exactly lowUncommitted (onePage .segment none) hword 0x2000 emptySnapshot
  exact ⟨gaps, missed, w, hrun, hsplit, hmissed⟩

end DbgScope.Pool
