import DbgScope.Tiling
import DbgScope.Pool.Coverage

/-!
# The extents of a region

Every round of the extent loop that is followed by another moves the cursor forward, so the loop
ends, and more rounds than it is given make no difference.

An extent is read in pieces, each of them asked for where the one before it ended. A piece that is
not in full is refused, but where it is the only one its length is not looked at.
-/

namespace DbgScope.Pool

open Run (Keeps Triple)
open PoolSnapshot

/-! ## Rounds that end -/

section Advance

variable {memory : PoolMemory} {limit : ℕ} {region : PoolRegion} {s : RegionWalk}

theorem regionStep_lowers {s' : RegionWalk} {w w' : World PoolSnapshot}
    (h : regionStep memory limit region s w = (.ok (.again s'), w')) :
    region.requestedEnd - s'.cursor < region.requestedEnd - s.cursor := by
  obtain ⟨hlt, hle⟩ : s.cursor < s'.cursor ∧ s'.cursor ≤ region.requestedEnd :=
    (regionStep_advances memory limit region s).of_ok h
  omega

theorem requestedEnd_sub_le (region : PoolRegion) :
    region.requestedEnd - region.address ≤ region.size := by
  have := saturatingAdd_le region.address region.size
  unfold PoolRegion.requestedEnd
  omega

theorem walkExtents_ends (memory : PoolMemory) (limit : ℕ) (region : PoolRegion) {rounds : ℕ}
    (h : region.size < rounds) (w : World PoolSnapshot) :
    Run.loop (regionStep memory limit region) (fun _ => ()) rounds (RegionWalk.start region) w =
      walkExtents memory limit region w := by
  have hsize := requestedEnd_sub_le region
  exact Run.loop_stable (fun s => region.requestedEnd - s.cursor)
    (fun _ _ _ _ hstep => regionStep_lowers hstep) _ _ _ w
    (by show region.requestedEnd - region.address < _; omega)
    (by show region.requestedEnd - region.address < _; omega)

theorem unreadable_ends (memory : PoolMemory) (region : PoolRegion) (address size : ℕ)
    {rounds : ℕ} (h : size < rounds) (w : World PoolSnapshot) :
    Run.loop (unreadableStep memory region (saturatingAdd address size)) Prod.snd rounds
        (address, false) w =
      Run.loop (unreadableStep memory region (saturatingAdd address size)) Prod.snd (size + 1)
        (address, false) w := by
  have hle := saturatingAdd_le address size
  refine Run.loop_stable (fun s => saturatingAdd address size - s.1) (fun s w s' w' hstep => ?_) _ _
    _ w (by dsimp only; omega) (by dsimp only; omega)
  generalize saturatingAdd address size = stop at hstep
  have hflow : Triple (fun _ => True) (unreadableStep memory region stop s)
      (fun flow _ => match flow with
        | .again s' => s.1 < s'.1 ∧ s'.1 ≤ stop
        | .stop _ => True) (fun _ _ => True) := by
    refine Triple.ite (fun _ => Triple.pure fun _ _ => trivial) fun hmore => ?_
    refine Triple.bind (Triple.always _) fun run => ?_
    split
    · exact Triple.bind (Triple.always _) fun _ => Triple.pure fun _ _ => trivial
    · next run hrun =>
      have hpast : s.1 < run.runEnd := of_decide_eq_true (Option.filter_eq_some_iff.mp hrun).2
      refine Triple.bind (Triple.always _) fun _ => Triple.pure fun _ _ => ?_
      show s.1 < min run.runEnd stop ∧ min run.runEnd stop ≤ stop
      omega
  have hflow := hflow w trivial
  rw [hstep] at hflow
  obtain ⟨hlt, hle⟩ : s.1 < s'.1 ∧ s'.1 ≤ stop := hflow
  omega

end Advance

/-! ## Reading an extent -/

/-- A property of the bytes of a range that two ranges next to each other pass on to the whole. -/
structure Joins (Good : ℕ → ℕ → List UInt8 → Prop) : Prop where
  nil : ∀ address, Good address 0 []
  append : ∀ address n m bytes bytes', Good address n bytes → Good (address + n) m bytes' →
    Good address (n + m) (bytes ++ bytes')
  length : ∀ address n bytes, Good address n bytes → bytes.length = n

theorem joins_length : Joins fun _ n bytes => bytes.length = n where
  nil _ := rfl
  append _ _ _ _ _ h h' := by rw [List.length_append, h, h']
  length _ _ _ h := h

theorem readExtent_good {memory : PoolMemory} {P : World PoolSnapshot → Prop}
    {E : SnapshotError → World PoolSnapshot → Prop} {G : ℕ → ℕ → List UInt8 → Prop}
    (hg : Joins G) (hpoll : Keeps P E (checkBudget memory)) {base size : ℕ}
    (hread : ∀ address n, base ≤ address → address + n ≤ base + size →
      Triple P (callReadExact memory address n) (fun bytes w => G address n bytes ∧ P w) E)
    (hspace : base + size ≤ 2 ^ 64) :
    Triple P (readExtent memory base size) (fun bytes w => G base size bytes ∧ P w) E := by
  refine Triple.ite (fun _ => hread base size le_rfl le_rfl) fun hlarge => ?_
  -- the bytes so far are the first ones, and the rounds left are enough for the others
  refine (Triple.countdown (I := fun rounds bytes w => (G base bytes.length bytes ∧
      bytes.length ≤ size ∧ 0 < rounds ∧ size ≤ bytes.length + extentReadChunk * (rounds - 1)) ∧
      P w) (fun rounds bytes => ?_) ?_ _ _).pre fun w hw => ?_
  · rintro w ⟨⟨hgood, hle, -, hleft⟩, hw⟩
    unfold readExtentStep
    by_cases hdone : size ≤ bytes.length
    · rw [if_pos hdone]
      exact ⟨Nat.le_antisymm hle hdone ▸ hgood, hw⟩
    · rw [if_neg hdone]
      rw [wrappingAdd_of_lt (by omega)]
      refine Triple.bind hpoll (fun _ => ?_) w hw
      refine Triple.bind (hread _ _ (by omega) (by omega)) fun chunk => ?_
      rintro v ⟨hchunk, hv⟩
      have hlength := hg.length _ _ _ hchunk
      rw [if_neg (by rw [hlength]; exact fun h => h rfl)]
      have hrounds : ∃ k, rounds = k + 1 := by
        rcases rounds with _ | k
        · omega
        · exact ⟨k, rfl⟩
      obtain ⟨k, rfl⟩ := hrounds
      simp only [Nat.add_sub_cancel, Nat.mul_add, Nat.mul_one] at hleft ⊢
      refine ⟨⟨?_, ?_, Nat.succ_pos k, ?_⟩, hv⟩
      · rw [List.length_append, hlength]
        exact hg.append _ _ _ _ _ hgood hchunk
      · rw [List.length_append, hlength]
        omega
      · rw [List.length_append, hlength]
        omega
  · rintro bytes w ⟨⟨-, -, hpos, -⟩, -⟩
    omega
  · refine ⟨⟨hg.nil base, Nat.zero_le _, Nat.succ_pos _, ?_⟩, hw⟩
    have hdiv := Nat.div_add_mod size extentReadChunk
    have hmod : size % extentReadChunk < extentReadChunk := Nat.mod_lt _ (by decide)
    rw [show size / extentReadChunk + 2 - 1 = size / extentReadChunk + 1 from rfl, Nat.mul_add]
    omega

theorem readExtent_noted {memory : PoolMemory} {P : World PoolSnapshot → Prop}
    {E : SnapshotError → World PoolSnapshot → Prop} {G : ℕ → ℕ → List UInt8 → Prop}
    (hg : Joins G) (hpoll : Keeps P E (checkBudget memory))
    (hgood : ∀ h address n bytes, memory.readExact h address n = .ok bytes → G address n bytes)
    (hnote : ∀ {w address n failure}, P w → P (w.note (.readExact address n failure)))
    (hfailed : ∀ {h address n error w}, memory.readExact h address n = .error error → P w →
      E error w) {base size : ℕ} (hspace : base + size ≤ 2 ^ 64) :
    Triple P (readExtent memory base size) (fun bytes w => G base size bytes ∧ P w) E := by
  refine readExtent_good hg hpoll (fun address n _ _ w hw => ?_) hspace
  unfold callReadExact
  cases hr : memory.readExact w.history address n with
  | error error => exact hfailed hr (hnote hw)
  | ok bytes => exact ⟨hgood _ _ _ _ hr, hnote hw⟩

/-! ## The pieces of an extent -/

section Pieces

open Run

def pieceAt (base size k : ℕ) : ℕ × ℕ :=
  if size ≤ extentReadChunk then (base, size)
  else (wrappingAdd base (k * extentReadChunk),
    min extentReadChunk (size - k * extentReadChunk))

def pieceCount (size : ℕ) : ℕ := max 1 (divCeil size extentReadChunk)

/-- What is asked ahead of a piece: an extent of one piece is not polled for. -/
def askedFirst (size : ℕ) : History := if size ≤ extentReadChunk then [] else [.poll none]

/-- What has been asked once `k` pieces have been read. -/
def askedBefore (h : History) (base size k : ℕ) : History :=
  h ++ (List.range k).flatMap fun j =>
    askedFirst size ++ [.readExact (pieceAt base size j).1 (pieceAt base size j).2 none]

variable (memory : PoolMemory) (h : History) (base size : ℕ)

/-- The answer to a piece, when those before it have been read. -/
def pieceRead (k : ℕ) : Except SnapshotError (List UInt8) :=
  memory.readExact (askedBefore h base size k ++ askedFirst size) (pieceAt base size k).1
    (pieceAt base size k).2

/-- The poll ahead of a piece, where there is one, lets the walk go on. -/
def Polled (k : ℕ) : Prop :=
  size ≤ extentReadChunk ∨ pollOutcome memory (askedBefore h base size k) = .ok ()

/-- The first `k` pieces are polled for and read in full, and together they are `bytes`. -/
inductive PiecesRead : ℕ → List UInt8 → Prop
  | zero : PiecesRead 0 []
  | next {k : ℕ} {bytes chunk : List UInt8} (hbefore : PiecesRead k bytes)
      (hpoll : Polled memory h base size k) (hread : pieceRead memory h base size k = .ok chunk)
      (hfull : chunk.length = (pieceAt base size k).2) : PiecesRead (k + 1) (bytes ++ chunk)

/-- Reading an extent is reading its pieces one after the other. -/
structure ReadsPieces (w : World PoolSnapshot) : Prop where
  whole : ∀ bytes, (readExtent memory base size w).1 = .ok bytes ↔
    PiecesRead memory w.history base size (pieceCount size) bytes
  length : ∀ bytes, PiecesRead memory w.history base size (pieceCount size) bytes →
    bytes.length = size
  /-- The bytes are those of the span, where each read in full answers with the bytes there are. -/
  span : ∀ content bytes, (∀ address, content (address % 2 ^ 64) = content address) →
    (∀ h address n chunk, memory.readExact h address n = .ok chunk → chunk.length = n →
      chunk = bytesAt content address n) →
    (readExtent memory base size w).1 = .ok bytes → bytes = bytesAt content base size
  /-- A piece that fails or is not in full is the last thing asked. -/
  fails : ∀ k bytes, k < pieceCount size → PiecesRead memory w.history base size k bytes →
    Polled memory w.history base size k →
    (∀ chunk, pieceRead memory w.history base size k = .ok chunk →
      chunk.length ≠ (pieceAt base size k).2) →
    ∃ error, readExtent memory base size w = (.error error, { w with
      history := askedBefore w.history base size k ++ askedFirst size ++
        [.readExact (pieceAt base size k).1 (pieceAt base size k).2
          (failureOf (pieceRead memory w.history base size k))] })
  /-- So is a poll that ends the walk. -/
  halts : ∀ k bytes error, extentReadChunk < size → k < pieceCount size →
    PiecesRead memory w.history base size k bytes →
    pollOutcome memory (askedBefore w.history base size k) = .error error →
    readExtent memory base size w = (.error error, { w with
      history := askedBefore w.history base size k ++ [.poll (some error)] })
  /-- More rounds make no difference. -/
  rounds : extentReadChunk < size → ∀ rounds, size / extentReadChunk + 2 ≤ rounds →
    Run.loop (readExtentStep memory base size) id rounds [] w = readExtent memory base size w

variable {memory h base size}

theorem askedBefore_succ (k : ℕ) : askedBefore h base size (k + 1) =
    askedBefore h base size k ++ askedFirst size ++
      [.readExact (pieceAt base size k).1 (pieceAt base size k).2 none] := by
  simp [askedBefore, List.range_succ]

theorem checkBudget_of {w : World PoolSnapshot} {r : Except SnapshotError Unit}
    (h : pollOutcome memory w.history = r) :
    checkBudget memory w = (r, w.note (.poll (failureOf r))) := by
  subst h
  rfl

theorem callReadExact_of {w : World PoolSnapshot} {r : Except SnapshotError (List UInt8)}
    {address n : ℕ} (h : memory.readExact w.history address n = r) :
    callReadExact memory address n w = (r, w.note (.readExact address n (failureOf r))) := by
  subst h
  rfl

section Large

variable (hlarge : extentReadChunk < size)
include hlarge

theorem pieceAt_large (k : ℕ) : pieceAt base size k = (wrappingAdd base (k * extentReadChunk),
    min extentReadChunk (size - k * extentReadChunk)) := if_neg (by omega)

theorem PiecesRead.length {k : ℕ} {bytes : List UInt8}
    (hc : PiecesRead memory h base size k bytes) :
    bytes.length = min (k * extentReadChunk) size := by
  induction hc with
  | zero => simp
  | next _ _ _ hfull ih =>
    rw [List.length_append, ih, hfull, pieceAt_large hlarge, Nat.succ_mul]
    dsimp only
    omega

theorem pieceCount_bounds : (∀ k < pieceCount size, k * extentReadChunk < size) ∧
    size ≤ pieceCount size * extentReadChunk ∧ pieceCount size ≤ size / extentReadChunk + 1 := by
  have hchunk : extentReadChunk = 262144 := rfl
  simp only [pieceCount, divCeil, hchunk] at hlarge ⊢
  refine ⟨fun k hk => ?_, ?_, ?_⟩
  · omega
  · omega
  · omega

/-- The bytes collected are those from `base` on, where each read in full is of the target. -/
theorem PiecesRead.eq_bytesAt {content : ℕ → UInt8}
    (hwraps : ∀ address, content (address % 2 ^ 64) = content address)
    (hreads : ∀ h address n chunk, memory.readExact h address n = .ok chunk → chunk.length = n →
      chunk = bytesAt content address n)
    {k : ℕ} {bytes : List UInt8} (hc : PiecesRead memory h base size k bytes) :
    bytes = bytesAt content base bytes.length := by
  induction hc with
  | zero => rfl
  | @next k bytes chunk hbefore _ hread hfull ih =>
    have hchunk := hreads _ _ _ _ hread hfull
    have hlength := hbefore.length hlarge
    rw [← hfull, pieceAt_large hlarge] at hchunk
    rw [pieceAt_large hlarge] at hfull
    rw [List.length_append, ← bytesAt_append, ← ih]
    refine congrArg (bytes ++ ·) (hchunk.trans (List.map_congr_left fun i hi => ?_))
    -- a piece past the end is empty, so the ones before it are whole
    have hstart : bytes.length = k * extentReadChunk := by
      have := List.mem_range.mp hi
      dsimp only at hfull
      omega
    rw [← hwraps (wrappingAdd _ _ + i), ← hwraps (base + bytes.length + i), hstart]
    exact congrArg content (Nat.mod_add_mod _ _ _)

variable {k : ℕ} {bytes : List UInt8} {w : World PoolSnapshot}

/-- The world in which `k` pieces have been read. -/
def World.asking (w : World PoolSnapshot) (base size k : ℕ) : World PoolSnapshot :=
  { w with history := askedBefore w.history base size k }

theorem checkBudget_polled (hpoll : Polled memory w.history base size k) :
    checkBudget memory (w.asking base size k) = (.ok (), { w with
      history := askedBefore w.history base size k ++ askedFirst size }) := by
  have hfirst : askedFirst size = [.poll none] := if_neg (by omega)
  rw [hfirst]
  exact checkBudget_of (hpoll.resolve_left (by omega))

section Step

variable (hc : PiecesRead memory w.history base size k bytes)
include hc

/-- A round asks for the next piece: it polls, reads, and goes on where the piece is in full. -/
theorem readExtentStep_asks (hk : k < pieceCount size) :
    readExtentStep memory base size bytes = (do
      checkBudget memory
      let take := (pieceAt base size k).2
      let address := (pieceAt base size k).1
      let chunk ← callReadExact memory address take
      if chunk.length ≠ take then
        let got := chunk.length
        Run.fail (.invalidData (s!"short extent read at {hex address}: asked {hex take}, got " ++
          s!"{hex got}"))
      else pure (.again (bytes ++ chunk))) := by
  have hlength := hc.length hlarge
  have hlt := (pieceCount_bounds hlarge).1 k hk
  rw [Nat.min_eq_left hlt.le] at hlength
  unfold readExtentStep
  rw [if_neg (by omega), hlength, pieceAt_large hlarge]

theorem readExtentStep_halts (hk : k < pieceCount size) {error : SnapshotError}
    (hpoll : pollOutcome memory (askedBefore w.history base size k) = .error error) :
    readExtentStep memory base size bytes (w.asking base size k) =
      (.error error, { w with
        history := askedBefore w.history base size k ++ [.poll (some error)] }) := by
  rw [readExtentStep_asks hlarge hc hk]
  exact bind_of_error (checkBudget_of hpoll)

variable (hpoll : Polled memory w.history base size k)
include hpoll

theorem readExtentStep_next (hk : k < pieceCount size) {chunk : List UInt8}
    (hread : pieceRead memory w.history base size k = .ok chunk)
    (hfull : chunk.length = (pieceAt base size k).2) :
    readExtentStep memory base size bytes (w.asking base size k) =
      (.ok (.again (bytes ++ chunk)), w.asking base size (k + 1)) := by
  rw [readExtentStep_asks hlarge hc hk, bind_of_ok (checkBudget_polled hlarge hpoll)]
  refine (bind_of_ok (callReadExact_of hread)).trans ?_
  dsimp only
  rw [if_neg (not_not.mpr hfull), World.asking, askedBefore_succ]
  rfl

theorem readExtentStep_fails (hk : k < pieceCount size)
    (hread : ∀ chunk, pieceRead memory w.history base size k = .ok chunk →
      chunk.length ≠ (pieceAt base size k).2) :
    ∃ error, readExtentStep memory base size bytes (w.asking base size k) =
      (.error error, { w with
        history := askedBefore w.history base size k ++ askedFirst size ++
          [.readExact (pieceAt base size k).1 (pieceAt base size k).2
            (failureOf (pieceRead memory w.history base size k))] }) := by
  rw [readExtentStep_asks hlarge hc hk, bind_of_ok (checkBudget_polled hlarge hpoll)]
  cases hpiece : pieceRead memory w.history base size k with
  | error error => exact ⟨error, bind_of_error (callReadExact_of hpiece)⟩
  | ok chunk =>
    dsimp only
    rw [bind_of_ok (callReadExact_of hpiece), if_pos (hread chunk hpiece)]
    exact ⟨_, rfl⟩

end Step

theorem loop_piecesRead (hc : PiecesRead memory w.history base size k bytes)
    (hk : k ≤ pieceCount size) (rounds : ℕ) :
    Run.loop (readExtentStep memory base size) id (rounds + k) [] w =
      Run.loop (readExtentStep memory base size) id rounds bytes (w.asking base size k) := by
  induction hc generalizing rounds with
  | zero => simp [World.asking, askedBefore]
  | @next k bytes chunk hbefore hpoll hread hfull ih =>
    rw [show rounds + (k + 1) = rounds + 1 + k by omega, ih (by omega)]
    exact loop_again (readExtentStep_next hlarge hbefore hpoll hk hread hfull)

/-- Up to a piece every one is read in full, or there is a first one that ends the loop. -/
theorem collects_or_ends : ∀ n ≤ pieceCount size,
    (∃ bytes, PiecesRead memory w.history base size n bytes) ∨
    ∃ k bytes error w', k < n ∧ PiecesRead memory w.history base size k bytes ∧
      readExtentStep memory base size bytes (w.asking base size k) = (.error error, w')
  | 0, _ => .inl ⟨[], .zero⟩
  | n + 1, hn => by
    obtain ⟨bytes, hc⟩ | ⟨k, bytes, error, w', hk, hrest⟩ := collects_or_ends n (by omega)
    · cases hpoll : pollOutcome memory (askedBefore w.history base size n) with
      | error error =>
        exact .inr ⟨n, bytes, _, _, by omega, hc, readExtentStep_halts hlarge hc hn hpoll⟩
      | ok _ =>
        by_cases hread : ∃ chunk, pieceRead memory w.history base size n = .ok chunk ∧
          chunk.length = (pieceAt base size n).2
        · obtain ⟨chunk, hread, hfull⟩ := hread
          exact .inl ⟨_, .next hc (.inr hpoll) hread hfull⟩
        · obtain ⟨error, hstep⟩ := readExtentStep_fails hlarge hc (.inr hpoll) hn
            fun chunk hok hfull => hread ⟨chunk, hok, hfull⟩
          exact .inr ⟨n, bytes, _, _, by omega, hc, hstep⟩
    · exact .inr ⟨k, bytes, error, w', by omega, hrest⟩

theorem loop_ends (hc : PiecesRead memory w.history base size k bytes) (hk : k < pieceCount size)
    {error : SnapshotError} {w' : World PoolSnapshot}
    (hstep : readExtentStep memory base size bytes (w.asking base size k) = (.error error, w'))
    {rounds : ℕ} (hrounds : size / extentReadChunk + 2 ≤ rounds) :
    Run.loop (readExtentStep memory base size) id rounds [] w = (.error error, w') := by
  have hcount := (pieceCount_bounds hlarge).2.2
  obtain ⟨more, rfl⟩ : ∃ more, rounds = more + 1 + k := ⟨rounds - 1 - k, by omega⟩
  rw [loop_piecesRead hlarge hc hk.le]
  exact loop_error hstep

theorem loop_whole (hc : PiecesRead memory w.history base size (pieceCount size) bytes)
    {rounds : ℕ} (hrounds : size / extentReadChunk + 2 ≤ rounds) :
    Run.loop (readExtentStep memory base size) id rounds [] w =
      (.ok bytes, w.asking base size (pieceCount size)) := by
  obtain ⟨-, hsize, hcount⟩ := pieceCount_bounds hlarge
  obtain ⟨more, rfl⟩ : ∃ more, rounds = more + 1 + pieceCount size :=
    ⟨rounds - 1 - pieceCount size, by omega⟩
  have hlength := hc.length hlarge
  rw [loop_piecesRead hlarge hc le_rfl]
  refine loop_stop ?_
  unfold readExtentStep
  rw [if_pos (by omega)]
  rfl

theorem readsPieces_large : ReadsPieces memory base size w := by
  have hends : (∃ bytes, PiecesRead memory w.history base size (pieceCount size) bytes) ∨
      ∃ k bytes error w', k < pieceCount size ∧ PiecesRead memory w.history base size k bytes ∧
        readExtentStep memory base size bytes (w.asking base size k) = (.error error, w') :=
    collects_or_ends hlarge _ le_rfl
  have hread : readExtent memory base size =
      Run.loop (readExtentStep memory base size) id (size / extentReadChunk + 2) [] :=
    if_neg (by omega)
  have hcollected : ∀ bytes, (readExtent memory base size w).1 = .ok bytes →
      PiecesRead memory w.history base size (pieceCount size) bytes := by
    intro bytes hbytes
    rw [hread] at hbytes
    obtain ⟨all, hc⟩ | ⟨k, some, error, w', hk, hc, hstep⟩ := hends
    · rw [loop_whole hlarge hc le_rfl] at hbytes
      exact Except.ok.inj hbytes ▸ hc
    · rw [loop_ends hlarge hc hk hstep le_rfl] at hbytes
      cases hbytes
  have hlength : ∀ bytes, PiecesRead memory w.history base size (pieceCount size) bytes →
      bytes.length = size := fun bytes hc =>
    (hc.length hlarge).trans (Nat.min_eq_right (pieceCount_bounds hlarge).2.1)
  exact {
    whole := fun bytes => ⟨hcollected bytes, fun hc => by rw [hread, loop_whole hlarge hc le_rfl]⟩
    length := hlength
    span := fun content bytes hwraps hreads hbytes => by
      have hc := hcollected bytes hbytes
      have hspan := hc.eq_bytesAt hlarge hwraps hreads
      rwa [hlength bytes hc] at hspan
    fails := fun k bytes hk hc hpoll hfail => by
      obtain ⟨error, hstep⟩ := readExtentStep_fails hlarge hc hpoll hk hfail
      exact ⟨error, hread ▸ loop_ends hlarge hc hk hstep le_rfl⟩
    halts := fun k bytes error _ hk hc hpoll =>
      hread ▸ loop_ends hlarge hc hk (readExtentStep_halts hlarge hc hk hpoll) le_rfl
    rounds := fun _ rounds hrounds => by
      rw [hread]
      obtain ⟨all, hc⟩ | ⟨k, some, error, w', hk, hc, hstep⟩ := hends
      · rw [loop_whole hlarge hc hrounds, loop_whole hlarge hc le_rfl]
      · rw [loop_ends hlarge hc hk hstep hrounds, loop_ends hlarge hc hk hstep le_rfl] }

end Large

variable {w : World PoolSnapshot}

theorem readsPieces_small (hsmall : size ≤ extentReadChunk)
    (hexact : ∀ bytes, memory.readExact w.history base size = .ok bytes → bytes.length = size) :
    ReadsPieces memory base size w := by
  have hread : readExtent memory base size = callReadExact memory base size := if_pos hsmall
  have hpiece : ∀ k, pieceAt base size k = (base, size) := fun k => if_pos hsmall
  have hfirst : askedFirst size = [] := if_pos hsmall
  have hcount : pieceCount size = 1 := by
    have hchunk : extentReadChunk = 262144 := rfl
    simp only [pieceCount, divCeil, hchunk] at hsmall ⊢
    omega
  have hzero : pieceRead memory w.history base size 0 = memory.readExact w.history base size := by
    simp [pieceRead, hpiece, hfirst, askedBefore]
  have hwhole : ∀ bytes, PiecesRead memory w.history base size (pieceCount size) bytes ↔
      memory.readExact w.history base size = .ok bytes := by
    intro bytes
    rw [hcount]
    constructor
    · rintro (_ | ⟨⟨⟩, hpoll, hbytes, hfull⟩)
      exact hzero ▸ hbytes
    · intro hbytes
      refine .next .zero (.inl hsmall) (hzero.trans hbytes) ?_
      rw [hpiece]
      exact hexact bytes hbytes
  refine {
    whole := fun bytes => by rw [hread, hwhole]; rfl
    length := fun bytes hc => hexact bytes ((hwhole bytes).mp hc)
    span := fun content bytes _ hreads hbytes => ?_
    fails := fun k bytes hk hc _ hfail => ?_
    halts := fun k bytes error hlarge => absurd hsmall (Nat.not_le.mpr hlarge)
    rounds := fun hlarge => absurd hsmall (Nat.not_le.mpr hlarge) }
  · rw [hread] at hbytes
    exact hreads _ _ _ _ hbytes (hexact bytes hbytes)
  · obtain rfl : k = 0 := by omega
    rw [hzero, hpiece] at hfail
    rw [hzero, hpiece, hfirst, hread]
    cases hanswer : memory.readExact w.history base size with
    | error error => exact ⟨error, by rw [callReadExact_of hanswer]; simp [askedBefore, World.note]⟩
    | ok bytes => exact absurd (hexact bytes hanswer) (hfail bytes hanswer)

/-- **An extent is read in pieces, and in full or not at all**, exactly where an extent of one
piece is not answered with another number of bytes. -/
theorem extent_read_in_pieces_iff (memory : PoolMemory) (base size : ℕ) (w : World PoolSnapshot) :
    ReadsPieces memory base size w ↔ (size ≤ extentReadChunk → ∀ bytes,
      memory.readExact w.history base size = .ok bytes → bytes.length = size) := by
  constructor
  · intro hpieces hsmall bytes hbytes
    have hread : readExtent memory base size = callReadExact memory base size := if_pos hsmall
    exact hpieces.length bytes ((hpieces.whole bytes).mp (by rw [hread]; exact hbytes))
  · intro hexact
    rcases Nat.lt_or_ge extentReadChunk size with hlarge | hsmall
    · exact readsPieces_large hlarge
    · exact readsPieces_small hsmall (hexact hsmall)

def shortTarget : PoolMemory :=
  { smallTarget (fun _ => 0) none with
    readExact := fun _ address size => .ok (bytesAt (fun _ => 0) address (size - 1)) }

/-- Sixteen bytes are asked for, and the fifteen that come are passed on. -/
theorem short_piece_passed_on :
    (readExtent shortTarget 0x1000 16 emptySnapshot).1 = .ok (List.replicate 15 0) := by
  rfl

end Pieces

end DbgScope.Pool
