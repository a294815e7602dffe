import DbgScope.Heap.Roots
import Mathlib.Data.List.Nodup

/-!
# The heap list is followed to its end or the enumeration says it was not

`Ring` is a closed doubly linked list as memory holds it. The state of the walk is a function of the
entries it has passed (`walkAt`), so one lemma says what a round does (`visitEntry_spec`): it passes
one more entry, or it records why it could not. By induction over the rounds a healthy list is
followed all the way round, and a walk which records nothing has gone round a closed ring.
-/

namespace DbgScope.Heap

open Run

/-! ## Rings of list entries -/

section Rings

variable (memory : RootMemory) (layout : RootLayout)

def heapOf (entry : ℕ) : ℕ :=
  match readEntry memory entry with
  | .ok node => node.heap
  | .error _ => 0

def blinkOf (entry : ℕ) : ℕ :=
  match readEntry memory entry with
  | .ok node => node.blink
  | .error _ => 0

/-- Two entries that can be read, the first linking forward to the second and the second back. -/
def Linked (a b : ℕ) : Prop :=
  ∃ node node', readEntry memory a = .ok node ∧ readEntry memory b = .ok node' ∧
    node.flink = b ∧ node'.blink = a

/-- A closed doubly linked list through `start`. -/
structure Ring (start : ℕ) (rest : List ℕ) : Prop where
  nodup : (start :: rest).Nodup
  linked : (start :: rest ++ [start]).IsChain (Linked memory)

def Names (heap entry : ℕ) : Prop :=
  entry ≠ 0 ∧ ∃ offset,
    ((classifyAt memory layout heap).1 = .segment ∧ layout.segmentEntry = some offset ∨
      (classifyAt memory layout heap).1 = .nt ∧ layout.ntEntry = some offset) ∧
    readU64 memory (saturatingAdd heap offset) = .ok entry

def outside (ntdll : Range) (entries : List ℕ) : List ℕ :=
  entries.filter fun entry => !ntdll.contains entry

/-- A well-formed heap list, in cyclic order from the entry of the process heap. -/
structure HeapList (ntdll : Range) (processHeap start : ℕ) (rest : List ℕ) : Prop where
  ring : Ring memory start rest
  one_head : ((start :: rest).filter ntdll.contains).length = 1
  named : ∀ entry ∈ outside ntdll (start :: rest), Names memory layout (heapOf memory entry) entry
  process_heap : start ∈ outside ntdll (start :: rest) ∧ heapOf memory start = processHeap

variable {memory layout}

theorem heapOf_eq {entry : ℕ} {node : ListEntry} (h : readEntry memory entry = .ok node) :
    heapOf memory entry = node.heap := by
  simp [heapOf, h]

theorem blinkOf_eq {entry : ℕ} {node : ListEntry} (h : readEntry memory entry = .ok node) :
    blinkOf memory entry = node.blink := by
  simp [blinkOf, h]

theorem namedEntry_eq_some {heap entry : ℕ} {r : Except String ℕ} :
    namedEntry heap r = .ok (some entry) ↔ entry ≠ 0 ∧ r = .ok entry := by
  rcases r with e | n
  · simp [namedEntry]
  · cases n with
    | zero => simp [namedEntry]; omega
    | succ n => simp [namedEntry]; omega

theorem listEntryOf_eq_some {heap entry : ℕ} :
    listEntryOf memory layout heap (classifyAt memory layout heap).1 = .ok (some entry) ↔
      Names memory layout heap entry := by
  unfold listEntryOf Names
  generalize (classifyAt memory layout heap).1 = kind
  cases kind with
  | segment => cases layout.segmentEntry <;> simp [namedEntry_eq_some]
  | nt => cases layout.ntEntry <;> simp [namedEntry_eq_some]
  | unknown => simp
  | unreadable => simp

theorem disowned_eq_none {heap entry : ℕ} :
    disowned memory layout entry heap = none ↔ Names memory layout heap entry := by
  rw [← listEntryOf_eq_some]
  unfold disowned
  split
  · next named h =>
    rw [h]
    by_cases hn : named = entry <;> simp [hn]
  · next h => simp [h]
  · next why h => simp [h]

theorem Names.unique {heap entry entry' : ℕ} (h : Names memory layout heap entry)
    (h' : Names memory layout heap entry') : entry = entry' := by
  have hsome := (listEntryOf_eq_some.mpr h).symm.trans (listEntryOf_eq_some.mpr h')
  simpa using hsome

end Rings

/-! ## The state of the walk -/

section Walk

variable (memory : RootMemory) (layout : RootLayout) (ntdll : Range)

def listedRoots (entries : List ℕ) : List HeapRoot :=
  (entries.map (heapOf memory)).mapIdx fun index heap =>
    root index heap (classifyAt memory layout heap)

/-- The walk when it has passed `path` and stands before `next`. -/
def walkAt (path : List ℕ) (next : ℕ) : ListWalk where
  found := ⟨listedRoots memory layout (outside ntdll path), none, false, none⟩
  entry := next
  previous := path.getLast?
  firstBlink := (path.head?.map (blinkOf memory)).getD 0
  visited := path.reverse
  heads := path.filter ntdll.contains

def Passes (path : List ℕ) (entry : ℕ) (node : ListEntry) : Prop :=
  (∀ previous, path.getLast? = some previous → node.blink = previous) ∧
    (ntdll.contains entry = false → Names memory layout node.heap entry)

variable {memory layout ntdll}

theorem listedRoots_snoc (entries : List ℕ) (entry : ℕ) :
    listedRoots memory layout (entries ++ [entry]) = listedRoots memory layout entries ++
      [root entries.length (heapOf memory entry)
        (classifyAt memory layout (heapOf memory entry))] := by
  simp [listedRoots, List.mapIdx_append]

theorem length_listedRoots (entries : List ℕ) :
    (listedRoots memory layout entries).length = entries.length := by
  simp [listedRoots]

theorem address_listedRoots (entries : List ℕ) :
    (listedRoots memory layout entries).map (·.address) = entries.map (heapOf memory) := by
  apply List.ext_getElem
  · simp [listedRoots]
  · intro i h h'
    simp [listedRoots, root]

/-- **What one entry does to the walk.** It is passed, or the walk stops and says why. -/
theorem visitEntry_spec (start : ℕ) (path : List ℕ) {entry : ℕ} {node : ListEntry}
    (hread : readEntry memory entry = .ok node) :
    Passes memory layout ntdll path entry node ∧
      visitEntry memory layout ntdll start (walkAt memory layout ntdll path entry) node =
        (if node.flink = start then
          .stop (some (closeList start entry
            (walkAt memory layout ntdll (path ++ [entry]) node.flink)))
        else .again (walkAt memory layout ntdll (path ++ [entry]) node.flink)) ∨
    ¬ Passes memory layout ntdll path entry node ∧
      ∃ why, visitEntry memory layout ntdll start (walkAt memory layout ntdll path entry) node =
        .stop (some ((walkAt memory layout ntdll path entry).found.stopped why)) := by
  have hheap := heapOf_eq hread
  have hblink := blinkOf_eq hread
  unfold visitEntry
  dsimp only
  split
  · next previous hfilter =>
    refine .inr ⟨fun hpass => ?_, _, rfl⟩
    obtain ⟨hlast, hne⟩ := Option.filter_eq_some_iff.mp hfilter
    have hblink := hpass.1 previous hlast
    simp [hblink] at hne
  · next hfilter =>
    have hback : ∀ previous, path.getLast? = some previous → node.blink = previous := by
      intro previous hlast
      by_contra hne
      simp [walkAt, hlast, hne] at hfilter
    have hfirst : (if path = [] then node.blink
        else (path.head?.map (blinkOf memory)).getD 0) =
        blinkOf memory (path.head?.getD entry) := by
      cases path with
      | nil => simp [hblink]
      | cons e path => simp
    have hnext : ∀ walk walk' : ListWalk, walk = walk' →
        (if node.flink = start then .stop (some (closeList start entry walk)) else .again walk :
          Flow ListWalk (Option RootEnumeration)) =
        if node.flink = start then .stop (some (closeList start entry walk'))
        else .again walk' := by
      rintro walk _ rfl
      rfl
    split
    · next hin =>
      replace hin : ntdll.contains entry = true := hin
      refine .inl ⟨⟨hback, by simp [hin]⟩, hnext _ _ ?_⟩
      simp only [walkAt, ListWalk.mk.injEq, RootEnumeration.mk.injEq, and_true, true_and]
      simp [outside, hin, hfirst]
    · next hout =>
      replace hout : ntdll.contains entry = false := by simpa [walkAt] using hout
      split
      · next why hwhy =>
        refine .inr ⟨fun hpass => ?_, _, rfl⟩
        have hnone := disowned_eq_none.mpr (hpass.2 hout)
        cases hwhy.symm.trans hnone
      · next hnamed =>
        refine .inl ⟨⟨hback, fun _ => disowned_eq_none.mp hnamed⟩, hnext _ _ ?_⟩
        simp only [walkAt, ListWalk.mk.injEq, RootEnumeration.mk.injEq, and_true, true_and]
        have hroots : outside ntdll (path ++ [entry]) = outside ntdll path ++ [entry] := by
          simp [outside, hout]
        simp [hroots, listedRoots_snoc, length_listedRoots, hheap, hfirst, hout]

/-- What the walk knows when it has passed `path` from `start` and stands before `next`. -/
structure Passed (memory : RootMemory) (layout : RootLayout) (ntdll : Range) (start : ℕ)
    (path : List ℕ) (next : ℕ) : Prop where
  nodup : path.Nodup
  readable : ∀ entry ∈ path, ∃ node, readEntry memory entry = .ok node
  linked : path.IsChain (Linked memory)
  named : ∀ entry ∈ outside ntdll path, Names memory layout (heapOf memory entry) entry
  word : next < 2 ^ 64 ∧ ∀ entry ∈ path, entry < 2 ^ 64
  position : path = [] ∧ next = start ∨
    path.head? = some start ∧ ∃ last node, path.getLast? = some last ∧
      readEntry memory last = .ok node ∧ node.flink = next

theorem readEntry_flink_lt {entry : ℕ} {node : ListEntry}
    (h : readEntry memory entry = .ok node) : node.flink < 2 ^ 64 := by
  unfold readEntry at h
  split at h
  · cases h
  · next links hread =>
    cases h
    have hlt := fromLe_lt ((links.drop (0 * 8)).take 8)
    have hlen : ((links.drop (0 * 8)).take 8).length = 8 := by
      simp [memory.length_read hread]
    rw [hlen] at hlt
    exact hlt

theorem Passed.nil {start : ℕ} (h : start < 2 ^ 64) :
    Passed memory layout ntdll start [] start where
  nodup := List.nodup_nil
  readable := by simp
  linked := List.IsChain.nil
  named := by simp [outside]
  word := ⟨h, by simp⟩
  position := .inl ⟨rfl, rfl⟩

theorem Passed.snoc {start entry : ℕ} {path : List ℕ} {node : ListEntry}
    (h : Passed memory layout ntdll start path entry) (hnew : entry ∉ path)
    (hread : readEntry memory entry = .ok node)
    (hpass : Passes memory layout ntdll path entry node) :
    Passed memory layout ntdll start (path ++ [entry]) node.flink where
  nodup := by
    rw [List.nodup_append]
    refine ⟨h.nodup, by simp, ?_⟩
    intro a ha b hb hab
    rw [List.mem_singleton] at hb
    exact hnew (hb ▸ hab ▸ ha)
  readable := by
    intro e he
    rcases List.mem_append.mp he with he | he
    · exact h.readable e he
    · rw [List.mem_singleton.mp he]
      exact ⟨node, hread⟩
  linked := by
    rw [List.isChain_append]
    refine ⟨h.linked, by simp, ?_⟩
    intro last hlast next hnext
    simp only [List.head?_cons, Option.mem_def, Option.some.injEq] at hlast hnext
    subst hnext
    rcases h.position with ⟨rfl, -⟩ | ⟨-, last', node', hlast', hread', hflink⟩
    · simp at hlast
    · cases hlast.symm.trans hlast'
      exact ⟨node', node, hread', hread, hflink, hpass.1 last hlast⟩
  named := by
    intro e he
    simp only [outside, List.filter_append, List.mem_append] at he
    rcases he with he | he
    · exact h.named e he
    · simp only [List.mem_filter, List.mem_singleton, Bool.not_eq_true'] at he
      obtain ⟨rfl, hout⟩ := he
      rw [heapOf_eq hread]
      exact hpass.2 hout
  word := by
    refine ⟨readEntry_flink_lt hread, ?_⟩
    intro e he
    rcases List.mem_append.mp he with he | he
    · exact h.word.2 e he
    · rw [List.mem_singleton.mp he]
      exact h.word.1
  position := by
    refine .inr ⟨?_, entry, node, by simp, hread, rfl⟩
    rcases h.position with ⟨rfl, rfl⟩ | ⟨hhead, -⟩
    · rfl
    · rw [List.head?_append, hhead]
      rfl

theorem length_le_of_words {entries : List ℕ} (hnodup : entries.Nodup)
    (hword : ∀ entry ∈ entries, entry < 2 ^ 64) : entries.length ≤ 2 ^ 64 := by
  have hsub : entries ⊆ List.range (2 ^ 64) := fun e he => List.mem_range.mpr (hword e he)
  have hperm := (List.subperm_of_subset hnodup hsub).length_le
  rwa [List.length_range] at hperm

theorem word_of_linked {start : ℕ} {entries : List ℕ}
    (h : (start :: entries).IsChain (Linked memory)) : ∀ entry ∈ entries, entry < 2 ^ 64 := by
  induction entries generalizing start with
  | nil => simp
  | cons next entries ih =>
    rw [List.isChain_cons_cons] at h
    obtain ⟨⟨node, -, hread, -, hflink, -⟩, hrest⟩ := h
    intro entry hentry
    rcases List.mem_cons.mp hentry with rfl | hentry
    · rw [← hflink]
      exact readEntry_flink_lt hread
    · exact ih hrest entry hentry

theorem Ring.length_le {start : ℕ} {rest : List ℕ} (h : Ring memory start rest) :
    (start :: rest).length ≤ 2 ^ 64 := by
  have hword := word_of_linked h.linked
  apply length_le_of_words h.nodup
  intro entry hentry
  rcases List.mem_cons.mp hentry with rfl | hentry
  · exact hword _ (by simp)
  · exact hword entry (by simp [hentry])

/-- **A walk that comes back to where it started and finds the first link back right has gone
round a ring.** -/
theorem Passed.ring {start last : ℕ} {path : List ℕ}
    (h : Passed memory layout ntdll start (path ++ [last]) start)
    (hblink : blinkOf memory start = last) :
    ∃ rest, path ++ [last] = start :: rest ∧ Ring memory start rest := by
  rcases h.position with ⟨hnil, -⟩ | ⟨hhead, last', node, hlast, hread, hflink⟩
  · simp at hnil
  obtain ⟨rest, hrest⟩ : ∃ rest, path ++ [last] = start :: rest := by
    cases hpath : path ++ [last] with
    | nil => simp at hpath
    | cons e rest =>
      rw [hpath] at hhead
      cases hhead
      exact ⟨rest, rfl⟩
  refine ⟨rest, hrest, hrest ▸ h.nodup, ?_⟩
  obtain rfl : last = last' := by simpa using hlast
  obtain ⟨node', hread'⟩ := h.readable start (hrest ▸ List.mem_cons_self)
  rw [← hrest, List.isChain_append]
  refine ⟨h.linked, by simp, ?_⟩
  intro e he e' he'
  obtain rfl : last = e := by simpa using he
  obtain rfl : start = e' := by simpa using he'
  exact ⟨node, node', hread, hread', hflink, (blinkOf_eq hread').symm.trans hblink⟩

end Walk

/-! ## Following the list -/

section Follow

variable {looks : ℕ → Look} {memory : RootMemory} {layout : RootLayout} {ntdll : Range}
  {deadline : Option ℕ} {start : ℕ}

def Closed (memory : RootMemory) (layout : RootLayout) (ntdll : Range) (start : ℕ)
    (found : RootEnumeration) : Prop :=
  ∃ rest, Ring memory start rest ∧ ((start :: rest).filter ntdll.contains).length = 1 ∧
    (∀ entry ∈ outside ntdll (start :: rest), Names memory layout (heapOf memory entry) entry) ∧
    found = ⟨listedRoots memory layout (outside ntdll (start :: rest)), none, false, none⟩

variable {path : List ℕ} {processHeap entry next : ℕ} {rest : List ℕ}

theorem firstBlink_walkAt (h : path.head? = some start) :
    (walkAt memory layout ntdll path next).firstBlink = blinkOf memory start := by
  simp [walkAt, h]

theorem closeList_unseen {last next : ℕ} (h : path.head? = some start) :
    (closeList start last (walkAt memory layout ntdll path next)).unseen = none ↔
      blinkOf memory start = last ∧ (path.filter ntdll.contains).length = 1 := by
  unfold closeList
  rw [firstBlink_walkAt h]
  split_ifs with hblink hheads
  · simp [RootEnumeration.stopped, hblink]
  · simp only [RootEnumeration.stopped, reduceCtorEq, false_iff, not_and]
    exact fun _ => hheads
  · simp only [ne_eq, not_not] at hblink hheads
    exact ⟨fun _ => ⟨hblink, hheads⟩, fun _ => rfl⟩

theorem closeList_eq {last next : ℕ} (h : path.head? = some start)
    (hblink : blinkOf memory start = last) (hheads : (path.filter ntdll.contains).length = 1) :
    closeList start last (walkAt memory layout ntdll path next) =
      ⟨listedRoots memory layout (outside ntdll path), none, false, none⟩ := by
  unfold closeList
  rw [firstBlink_walkAt h, if_neg (by simp [hblink]), if_neg (by simp [walkAt, hheads])]
  rfl

/-- What one round does to the walk: it passes an entry, or it ends, and an end that records
nothing has closed a ring. -/
theorem passEntry_spec (h : Passed memory layout ntdll start path next) :
    (∃ node, readEntry memory next = .ok node ∧
      Passed memory layout ntdll start (path ++ [next]) node.flink ∧
      passEntry memory layout ntdll start (walkAt memory layout ntdll path next) =
        .again (walkAt memory layout ntdll (path ++ [next]) node.flink)) ∨
    ∃ found, passEntry memory layout ntdll start (walkAt memory layout ntdll path next) =
      .stop (some found) ∧ found.total = none ∧
      (found.unseen = none → Closed memory layout ntdll start found) := by
  unfold passEntry
  split
  · exact .inr ⟨_, rfl, rfl, by simp [RootEnumeration.stopped]⟩
  next hnew =>
  split
  · exact .inr ⟨_, rfl, rfl, by simp [RootEnumeration.stopped]⟩
  next node hread =>
  replace hread : readEntry memory next = .ok node := hread
  rcases visitEntry_spec start path hread with ⟨hpass, hvisit⟩ | ⟨-, why, hvisit⟩
  · have hpassed := h.snoc (by simpa [walkAt] using hnew) hread hpass
    rw [hvisit]
    by_cases hstart : node.flink = start
    · rw [if_pos hstart]
      rw [hstart] at hpassed ⊢
      have hhead : (path ++ [next]).head? = some start := by
        rcases hpassed.position with ⟨hnil, -⟩ | ⟨hhead, -⟩
        · simp at hnil
        · exact hhead
      refine .inr ⟨_, rfl, ?_, ?_⟩
      · unfold closeList
        split_ifs <;> rfl
      · intro hunseen
        obtain ⟨hblink, hheads⟩ := (closeList_unseen hhead).mp hunseen
        obtain ⟨rest, hrest, hring⟩ := hpassed.ring hblink
        rw [closeList_eq hhead hblink hheads, hrest]
        exact ⟨rest, hring, hrest ▸ hheads, hrest ▸ hpassed.named, rfl⟩
    · exact .inl ⟨node, hread, hpassed, if_neg hstart⟩
  · exact .inr ⟨_, hvisit, rfl, by simp [RootEnumeration.stopped]⟩

theorem rootReadBudgetExpired_cases (looks : ℕ → Look) (deadline : Option ℕ) (taken : ℕ) :
    (∃ error, rootReadBudgetExpired looks deadline taken = (.error error, taken + 1)) ∨
      ∃ expired, rootReadBudgetExpired looks deadline taken = (.ok expired, taken + 1) := by
  unfold rootReadBudgetExpired
  split
  · exact .inl ⟨_, rfl⟩
  · exact .inl ⟨_, rfl⟩
  · exact .inr ⟨_, rfl⟩

theorem listRound_cases (looks : ℕ → Look) (deadline : Option ℕ) (walk : ListWalk) (taken : ℕ) :
    (∃ error, listRound looks memory layout ntdll deadline start walk taken =
      (.error error, taken + 1)) ∨
    listRound looks memory layout ntdll deadline start walk taken =
      (.ok (.stop (some { walk.found with budgetExpired := true })), taken + 1) ∨
    listRound looks memory layout ntdll deadline start walk taken =
      (.ok (passEntry memory layout ntdll start walk), taken + 1) := by
  unfold listRound
  rcases rootReadBudgetExpired_cases looks deadline taken with ⟨error, h⟩ | ⟨expired, h⟩
  · exact .inl ⟨error, bind_of_error h⟩
  · rw [bind_of_ok h]
    cases expired with
    | true => exact .inr (.inl rfl)
    | false => exact .inr (.inr rfl)

def Standing (memory : RootMemory) (layout : RootLayout) (ntdll : Range) (start rounds : ℕ)
    (walk : ListWalk) : Prop :=
  ∃ path, walk = walkAt memory layout ntdll path walk.entry ∧
    Passed memory layout ntdll start path walk.entry ∧ path.length + rounds = listRounds

/-- What a walk ends with: an enumeration that, where it records nothing and was not cut short, is
a ring. -/
def Ended (memory : RootMemory) (layout : RootLayout) (ntdll : Range) (start : ℕ)
    (ended : Option RootEnumeration) : Prop :=
  ∃ found, ended = some found ∧ found.total = none ∧
    (found.unseen = none → found.budgetExpired = false → Closed memory layout ntdll start found)

theorem listRound_standing (rounds : ℕ) (walk : ListWalk) :
    Triple (fun _ => Standing memory layout ntdll start (rounds + 1) walk)
      (listRound looks memory layout ntdll deadline start walk)
      (fun flow _ => match flow with
        | .again walk' => Standing memory layout ntdll start rounds walk'
        | .stop ended => Ended memory layout ntdll start ended)
      (fun _ _ => True) := by
  rintro taken ⟨path, hwalk, hpassed, hlen⟩
  rcases listRound_cases looks deadline walk taken with ⟨error, h⟩ | h | h
  · rw [h]
    trivial
  · rw [h, hwalk]
    exact ⟨_, rfl, rfl, fun _ hexp => by simp at hexp⟩
  · rw [h, hwalk]
    rcases passEntry_spec hpassed with ⟨node, -, hpassed', hagain⟩ | ⟨found, hstop, htotal, hclosed⟩
    · rw [hagain]
      refine ⟨_, rfl, hpassed', ?_⟩
      simp only [List.length_append, List.length_singleton]
      omega
    · rw [hstop]
      exact ⟨found, rfl, htotal, fun hunseen _ => hclosed hunseen⟩

/-- **Every walk ends**, and one that records nothing and was not cut short has closed a ring. -/
theorem listLoop_ends (hstart : start < 2 ^ 64) :
    Triple (fun _ => True)
      (Run.loop (listRound looks memory layout ntdll deadline start) (fun _ => none) listRounds
        (walkAt memory layout ntdll [] start))
      (fun ended _ => Ended memory layout ntdll start ended) (fun _ _ => True) := by
  -- Each round passes one more entry, and there are more rounds than entries a walk can pass.
  have hloop : Triple
      (fun _ => Standing memory layout ntdll start listRounds (walkAt memory layout ntdll [] start))
      (Run.loop (listRound looks memory layout ntdll deadline start) (fun _ => none) listRounds
        (walkAt memory layout ntdll [] start))
      (fun ended _ => Ended memory layout ntdll start ended) (fun _ _ => True) := by
    refine Triple.countdown (I := fun rounds walk _ =>
      Standing memory layout ntdll start rounds walk) (fun rounds walk => ?_) ?_ _ _
    · refine (listRound_standing rounds walk).post fun flow _ h => ?_
      cases flow <;> exact h
    · rintro walk _ ⟨path, -, hpassed, hlen⟩
      have := length_le_of_words hpassed.nodup hpassed.word.2
      unfold listRounds at hlen
      omega
  exact hloop.pre fun _ _ => ⟨[], rfl, Passed.nil hstart, by simp⟩

/-! A healthy list is followed all the way round. -/

def Undisturbed (looks : ℕ → Look) : Prop := ∀ taken, (looks taken).interrupted = .ok false

theorem rootReadBudgetExpired_undisturbed (h : Undisturbed looks) (taken : ℕ) :
    rootReadBudgetExpired looks none taken = (.ok false, taken + 1) := by
  simp [rootReadBudgetExpired, h taken]

theorem passes_of_heapList {path suffix : List ℕ}
    (h : HeapList memory layout ntdll processHeap start rest)
    (hsplit : start :: rest = path ++ entry :: suffix) :
    ∃ node, readEntry memory entry = .ok node ∧ entry ∉ path ∧
      Passes memory layout ntdll path entry node ∧
      node.flink = (suffix ++ [start]).head (by simp) ∧ blinkOf memory node.flink = entry := by
  have hchain := h.ring.linked
  rw [hsplit, List.append_assoc, List.cons_append, List.isChain_append] at hchain
  obtain ⟨-, hafter, hbefore⟩ := hchain
  obtain ⟨next, more, hmore⟩ : ∃ next more, suffix ++ [start] = next :: more := by
    cases suffix <;> simp
  rw [hmore, List.isChain_cons_cons] at hafter
  obtain ⟨node, node', hread, hread', hflink, hblink⟩ := hafter.1
  refine ⟨node, hread, ?_, ⟨?_, ?_⟩, ?_, ?_⟩
  · have hnodup := h.ring.nodup
    rw [hsplit, List.nodup_append] at hnodup
    intro hmem
    exact hnodup.2.2 entry hmem entry (by simp) rfl
  · intro previous hlast
    obtain ⟨node₀, node₁, hread₀, hread₁, hflink₀, hblink₁⟩ :=
      hbefore previous (by simp [hlast]) entry (by simp)
    cases hread.symm.trans hread₁
    exact hblink₁
  · intro hout
    rw [← heapOf_eq hread]
    exact h.named entry (by simp [outside, hsplit, hout])
  · simp only [hmore, List.head_cons]
    exact hflink
  · rw [hflink, blinkOf_eq hread']
    exact hblink

theorem passEntry_of_heapList {path suffix : List ℕ}
    (h : HeapList memory layout ntdll processHeap start rest)
    (hsplit : start :: rest = path ++ entry :: suffix) :
    ∃ next, next = (suffix ++ [start]).head (by simp) ∧ blinkOf memory next = entry ∧
      passEntry memory layout ntdll start (walkAt memory layout ntdll path entry) =
        if next = start then
          .stop (some (closeList start entry (walkAt memory layout ntdll (path ++ [entry]) next)))
        else .again (walkAt memory layout ntdll (path ++ [entry]) next) := by
  obtain ⟨node, hread, hnew, hpass, hflink, hblink⟩ := passes_of_heapList h hsplit
  refine ⟨node.flink, hflink, hblink, ?_⟩
  rcases visitEntry_spec start path hread with ⟨-, hvisit⟩ | ⟨hnot, -⟩
  · rw [← hvisit]
    unfold passEntry
    rw [if_neg (by simpa [walkAt] using hnew)]
    rw [show (walkAt memory layout ntdll path entry).entry = entry from rfl, hread]
  · exact absurd hpass hnot

theorem ne_start_of_heapList {path more : List ℕ}
    (h : HeapList memory layout ntdll processHeap start rest)
    (hsplit : start :: rest = path ++ entry :: next :: more) : next ≠ start := by
  rintro rfl
  have hnodup := h.ring.nodup
  rw [hsplit] at hnodup
  cases path with
  | nil =>
    cases hsplit
    simp at hnodup
  | cons e path =>
    cases hsplit
    simp at hnodup

/-- **A healthy list is followed all the way round.** The induction is on the entries still
ahead. -/
theorem listLoop_of_heapList (h : HeapList memory layout ntdll processHeap start rest)
    (hquiet : Undisturbed looks) {path suffix : List ℕ} {entry rounds : ℕ}
    (hsplit : start :: rest = path ++ entry :: suffix) (hrounds : suffix.length < rounds)
    (taken : ℕ) : Run.loop (listRound looks memory layout ntdll none start) (fun _ => none) rounds
        (walkAt memory layout ntdll path entry) taken =
      (.ok (some ⟨listedRoots memory layout (outside ntdll (start :: rest)), none, false, none⟩),
        taken + suffix.length + 1) := by
  obtain ⟨rounds, rfl⟩ : ∃ n, rounds = n + 1 := ⟨rounds - 1, by omega⟩
  have hround : ∀ walk taken, listRound looks memory layout ntdll none start walk taken =
      (.ok (passEntry memory layout ntdll start walk), taken + 1) := by
    intro walk taken
    unfold listRound
    rw [bind_of_ok (rootReadBudgetExpired_undisturbed hquiet taken)]
    rfl
  induction suffix generalizing path entry rounds taken with
  | nil =>
    obtain ⟨next, hnext, hblink, hpass⟩ := passEntry_of_heapList h hsplit
    replace hnext : next = start := hnext
    subst hnext
    rw [if_pos rfl, ← hsplit, closeList_eq rfl hblink h.one_head] at hpass
    unfold Run.loop
    rw [bind_of_ok (hround _ taken), hpass]
    rfl
  | cons next more ih =>
    obtain ⟨next', hnext, -, hpass⟩ := passEntry_of_heapList h hsplit
    replace hnext : next' = next := hnext
    subst hnext
    rw [if_neg (ne_start_of_heapList h hsplit)] at hpass
    obtain ⟨rounds, rfl⟩ : ∃ n, rounds = n + 1 := by
      simp only [List.length_cons] at hrounds
      exact ⟨rounds - 1, by omega⟩
    unfold Run.loop
    rw [bind_of_ok (hround _ taken), hpass]
    have hsplit' : start :: rest = (path ++ [entry]) ++ next' :: more := by simp [hsplit]
    have hrest := ih hsplit' (taken + 1) rounds (by simp only [List.length_cons] at hrounds; omega)
    rw [show taken + (next' :: more).length + 1 = taken + 1 + more.length + 1 by
      simp only [List.length_cons]; omega]
    exact hrest

theorem readU64_lt {address value : ℕ} (h : readU64 memory address = .ok value) :
    value < 2 ^ 64 := by
  unfold readU64 at h
  cases hread : memory.read address 8 with
  | error e => simp [hread, Except.map] at h
  | ok bytes =>
    simp only [hread, Except.map, Except.ok.injEq] at h
    have hlt := fromLe_lt bytes
    rw [memory.length_read hread] at hlt
    omega

theorem Names.lt {heap entry : ℕ} (h : Names memory layout heap entry) : entry < 2 ^ 64 := by
  obtain ⟨-, offset, -, hread⟩ := h
  exact readU64_lt hread

theorem followHeapList_eq {taken : ℕ} (hnames : Names memory layout processHeap start)
    (hlook : rootReadBudgetExpired looks deadline taken = (.ok false, taken + 1)) :
    followHeapList looks memory layout ntdll deadline processHeap ⟨[], none, false, none⟩ taken =
      (Run.loop (listRound looks memory layout ntdll deadline start) (fun _ => none) listRounds
        (walkAt memory layout ntdll [] start) >>= fun ended => pure (ended.map (true, ·)))
        (taken + 1) := by
  have hentry : ¬ (layout.segmentEntry.isNone ∧ layout.ntEntry.isNone) := by
    obtain ⟨-, offset, ⟨-, hoffset⟩ | ⟨-, hoffset⟩, -⟩ := hnames <;> simp [hoffset]
  unfold followHeapList
  rw [if_neg hentry, bind_of_ok hlook, if_neg Bool.false_ne_true, listEntryOf_eq_some.mpr hnames]
  rfl

def Answered (memory : RootMemory) (layout : RootLayout) (ntdll : Range) (processHeap : ℕ)
    (followed : Option (Bool × RootEnumeration)) : Prop :=
  ∃ listed found, followed = some (listed, found) ∧ found.total = none ∧
    (listed = true → found.unseen = none → found.budgetExpired = false →
      ∃ start, Names memory layout processHeap start ∧ Closed memory layout ntdll start found)

theorem followHeapList_ends (processHeap : ℕ) :
    Triple (fun _ => True)
      (followHeapList looks memory layout ntdll deadline processHeap ⟨[], none, false, none⟩)
      (fun followed _ => Answered memory layout ntdll processHeap followed)
      (fun _ _ => True) := by
  intro taken _
  unfold followHeapList
  split
  · exact ⟨false, _, rfl, rfl, by simp⟩
  rcases rootReadBudgetExpired_cases looks deadline taken with ⟨error, h⟩ | ⟨expired, h⟩
  · rw [bind_of_error h]
    trivial
  rw [bind_of_ok h]
  cases expired with
  | true => exact ⟨true, _, rfl, rfl, by simp⟩
  | false =>
    rw [if_neg Bool.false_ne_true]
    cases hentry : listEntryOf memory layout processHeap
        (classifyAt memory layout processHeap).1 with
    | error why => exact ⟨true, _, rfl, rfl, by simp [RootEnumeration.stopped]⟩
    | ok entry =>
      cases entry with
      | none => exact ⟨false, _, rfl, rfl, by simp⟩
      | some start =>
        have hnames := listEntryOf_eq_some.mp hentry
        refine Triple.bind (listLoop_ends hnames.lt) (fun ended => Triple.pure ?_) (taken + 1)
          trivial
        rintro _ ⟨found, rfl, htotal, hclosed⟩
        exact ⟨true, found, rfl, htotal, fun _ hunseen hexp =>
          ⟨start, hnames, hclosed hunseen hexp⟩⟩

theorem followHeapList_of_heapList (h : HeapList memory layout ntdll processHeap start rest)
    (hquiet : Undisturbed looks) (taken : ℕ) :
    ∃ taken', followHeapList looks memory layout ntdll none processHeap ⟨[], none, false, none⟩
      taken = (.ok (some (true, ⟨listedRoots memory layout (outside ntdll (start :: rest)), none,
        false, none⟩)), taken') := by
  have hnames : Names memory layout processHeap start := by
    rw [← h.process_heap.2]
    exact h.named start h.process_heap.1
  have hlength : rest.length < listRounds := by
    have hle := h.ring.length_le
    simp only [List.length_cons] at hle
    unfold listRounds
    omega
  rw [followHeapList_eq hnames (rootReadBudgetExpired_undisturbed hquiet taken),
    bind_of_ok (listLoop_of_heapList h hquiet (List.nil_append _).symm hlength (taken + 1))]
  exact ⟨_, rfl⟩

/-! ## The heaps the environment block names besides -/

theorem addNamed_keeps {onList : List ℕ} {found₀ : RootEnumeration} (address : ℕ)
    (found : RootEnumeration) :
    Triple
      (fun _ => found.unseen = found₀.unseen ∧ found.total = found₀.total ∧
        ∃ extra, found.roots = found₀.roots ++ extra)
      (addNamed looks memory layout deadline onList found address)
      (fun found' _ => found'.unseen = found₀.unseen ∧ found'.total = found₀.total ∧
        ∃ extra, found'.roots = found₀.roots ++ extra)
      (fun _ _ => True) := by
  rintro taken ⟨hunseen, htotal, extra, hroots⟩
  unfold addNamed
  split
  · exact ⟨hunseen, htotal, extra, hroots⟩
  split
  · exact ⟨hunseen, htotal, extra, hroots⟩
  rcases rootReadBudgetExpired_cases looks deadline taken with ⟨error, h⟩ | ⟨expired, h⟩
  · rw [bind_of_error h]
    trivial
  rw [bind_of_ok h]
  cases expired with
  | true => exact ⟨hunseen, htotal, extra, hroots⟩
  | false =>
    refine ⟨hunseen, htotal, extra ++
      [root found.roots.length address (classifyAt memory layout address)], ?_⟩
    rw [← List.append_assoc, ← hroots]

theorem addNamed_undisturbed (hquiet : Undisturbed looks) (onList named : List ℕ)
    (found : RootEnumeration) (hexp : found.budgetExpired = false) (taken : ℕ) :
    ∃ found' taken', Run.fold (addNamed looks memory layout none onList) named found taken =
        (.ok found', taken') ∧
      found'.roots.map (·.address) =
        found.roots.map (·.address) ++ named.filter (· ∉ onList) ∧
      found'.unseen = found.unseen ∧ found'.total = found.total ∧ found'.budgetExpired = false := by
  induction named generalizing found taken with
  | nil => exact ⟨found, taken, rfl, by simp, rfl, rfl, hexp⟩
  | cons address named ih =>
    by_cases hon : address ∈ onList
    · have hstep : addNamed looks memory layout none onList found address taken =
          (.ok found, taken) := by
        simp [addNamed, hexp, hon]
      obtain ⟨found', taken', hfold, hroots, hrest⟩ := ih found hexp taken
      refine ⟨found', taken', ?_, by simpa [hon] using hroots, hrest⟩
      unfold Run.fold
      rw [bind_of_ok hstep, hfold]
    · let found₁ := { found with roots := found.roots ++
        [root found.roots.length address (classifyAt memory layout address)] }
      have hstep : addNamed looks memory layout none onList found address taken =
          (.ok found₁, taken + 1) := by
        unfold addNamed
        rw [if_neg (by simp [hexp]), if_neg hon,
          bind_of_ok (rootReadBudgetExpired_undisturbed hquiet taken)]
        rfl
      obtain ⟨found', taken', hfold, hroots, hrest⟩ := ih found₁ hexp (taken + 1)
      refine ⟨found', taken', ?_, ?_, hrest⟩
      · unfold Run.fold
        rw [bind_of_ok hstep, hfold]
      · rw [hroots]
        simp [found₁, hon, root]

theorem nodup_heaps {entries : List ℕ} (hnodup : entries.Nodup)
    (hnamed : ∀ entry ∈ outside ntdll entries, Names memory layout (heapOf memory entry) entry) :
    ((outside ntdll entries).map (heapOf memory)).Nodup := by
  apply List.Nodup.map_on
  · intro a ha b hb hab
    exact (hnamed a ha).unique (hab ▸ hnamed b hb)
  · exact hnodup.filter _

end Follow

/-! ## The enumeration -/

section Enumeration

variable (looks : ℕ → Look) (memory : RootMemory) (layout : RootLayout) (ntdll : Range) (peb : ℕ)

/-- What an enumeration that followed a list and says nothing is missing found. A list was
followed where no count was taken from the environment block. -/
def Complete (found : RootEnumeration) : Prop :=
  found.total = none → found.unseen = none → found.budgetExpired = false →
    ∃ start rest extra, Ring memory start rest ∧
      ((start :: rest).filter ntdll.contains).length = 1 ∧
      found.roots = listedRoots memory layout (outside ntdll (start :: rest)) ++ extra ∧
      ((outside ntdll (start :: rest)).map (heapOf memory)).Nodup

variable {looks memory layout ntdll peb} {deadline : Option ℕ}

theorem addNamedRoots_ends {named : List ℕ} {processHeap : ℕ}
    {followed : Option (Bool × RootEnumeration)}
    (h : Answered memory layout ntdll processHeap followed) :
    Triple (fun _ => True) (addNamedRoots looks memory layout deadline named followed)
      (fun ended _ => ∃ found, ended = some found ∧ Complete memory layout ntdll found)
      (fun _ _ => True) := by
  obtain ⟨listed, found, rfl, htotal, hclosed⟩ := h
  unfold addNamedRoots
  dsimp only
  split
  · next hexp =>
    refine Triple.pure fun _ _ => ⟨found, rfl, fun _ _ hnot => ?_⟩
    rw [hexp] at hnot
    cases hnot
  next hexp =>
  replace hexp : found.budgetExpired = false := by simpa using hexp
  -- The roots only grow, and nothing is recorded on the way.
  refine Triple.bind (Triple.pre (Triple.fold (fun b x _ => addNamed_keeps x b) _)
    fun _ _ => ⟨rfl, rfl, [], (List.append_nil _).symm⟩)
    fun found' => Triple.pure ?_
  rintro _ ⟨hunseen, htotal', extra, hroots⟩
  refine ⟨found', rfl, fun hnone hnothing _ => ?_⟩
  cases listed with
  | false => simp [hnone] at htotal'
  | true =>
    simp only [if_true] at hunseen hroots
    obtain ⟨start, -, rest, hring, hhead, hnamed, hfound⟩ :=
      hclosed rfl (hunseen.symm.trans hnothing) hexp
    refine ⟨start, rest, extra, hring, hhead, ?_, nodup_heaps hring.nodup hnamed⟩
    rw [hroots, hfound]

/-- **Every enumeration ends**, and one that followed a list and says nothing is missing found a
closed ring. -/
theorem enumerateRoots_ends :
    Triple (fun _ => True) (enumerateRoots looks memory layout ntdll deadline peb)
      (fun ended _ => ∃ found, ended = some found ∧ Complete memory layout ntdll found)
      (fun _ _ => True) := by
  intro taken _
  unfold enumerateRoots
  rcases rootReadBudgetExpired_cases looks deadline taken with ⟨error, h⟩ | ⟨expired, h⟩
  · rw [bind_of_error h]
    trivial
  rw [bind_of_ok h]
  cases expired with
  | true => exact ⟨_, rfl, fun _ _ hexp => by cases hexp⟩
  | false =>
    rw [if_neg Bool.false_ne_true]
    cases hnamed : pebHeaps memory layout peb with
    | error error => trivial
    | ok named =>
      cases named with
      | nil =>
        have hanswered : Answered memory layout ntdll 0 (some (false, ⟨[], none, false, none⟩)) :=
          ⟨false, _, rfl, rfl, by simp⟩
        have hadded : Triple _ (addNamedRoots looks memory layout deadline [] _) _ _ :=
          addNamedRoots_ends hanswered
        exact hadded (taken + 1) trivial
      | cons processHeap named =>
        refine Triple.bind (followHeapList_ends processHeap) (fun followed => ?_) (taken + 1)
          trivial
        exact fun taken hanswered => addNamedRoots_ends hanswered taken trivial

/-- A healthy list is enumerated in its order, then what the environment block names besides. -/
theorem enumerateRoots_of_heapList {processHeap start : ℕ} {rest named : List ℕ}
    (h : HeapList memory layout ntdll processHeap start rest)
    (hpeb : pebHeaps memory layout peb = .ok (processHeap :: named)) (hquiet : Undisturbed looks)
    (taken : ℕ) :
    ∃ found taken', enumerateRoots looks memory layout ntdll none peb taken =
        (.ok (some found), taken') ∧
      found.roots.map (·.address) = (outside ntdll (start :: rest)).map (heapOf memory) ++
        (processHeap :: named).filter (· ∉ (outside ntdll (start :: rest)).map (heapOf memory)) ∧
      found.unseen = none ∧ found.budgetExpired = false := by
  obtain ⟨taken₁, hfollow⟩ := followHeapList_of_heapList h hquiet (taken + 1)
  obtain ⟨found, taken₂, hfold, hroots, hunseen, -, hexp⟩ := addNamed_undisturbed hquiet
    ((listedRoots memory layout (outside ntdll (start :: rest))).map (·.address))
    (processHeap :: named)
    ⟨listedRoots memory layout (outside ntdll (start :: rest)), none, false, none⟩ rfl taken₁
  rw [address_listedRoots] at hfold hroots
  refine ⟨found, taken₂, ?_, hroots, hunseen, hexp⟩
  have hadd : addNamedRoots looks memory layout none (processHeap :: named)
      (some (true, ⟨listedRoots memory layout (outside ntdll (start :: rest)), none, false, none⟩))
      taken₁ = (.ok (some found), taken₂) := by
    unfold addNamedRoots
    dsimp only
    rw [if_neg Bool.false_ne_true, if_pos rfl, address_listedRoots, bind_of_ok hfold]
    rfl
  unfold enumerateRoots
  rw [bind_of_ok (rootReadBudgetExpired_undisturbed hquiet taken), if_neg Bool.false_ne_true, hpeb]
  change (followHeapList looks memory layout ntdll none processHeap _ >>= fun followed =>
    addNamedRoots looks memory layout none (processHeap :: named) followed) (taken + 1) = _
  rw [bind_of_ok hfollow, hadd]

def threeHeaps : RootMemory where
  read address size := .ok ((List.range size).map fun i =>
    let word := [(0x1000, 2), (0x1008, 0x40000), (0x40000, 0x30000), (0x40008, 0x50000),
      (0x20000, 0x21000), (0x20008, 0x7000), (0x20010, 0x30000),
      (0x21000, 0x7000), (0x21008, 0x20000), (0x21010, 0x60000),
      (0x7000, 0x20000), (0x7008, 0x21000),
      (0x30010, 0xddeeddee), (0x30020, 0x20000),
      (0x60018, 0xeeffeeff), (0x60028, 0x21000)].lookup ((address + i) / 8 * 8)
    .ofNat (word.getD 0 >>> ((address + i) % 8 * 8)))
  length_read h := by
    rw [← Except.ok.inj h]
    simp

def threeHeapsLayout : RootLayout := ⟨0, 8, 0x10, 0x18, some 0x20, some 0x28⟩

theorem threeHeaps_heapList :
    HeapList threeHeaps threeHeapsLayout ⟨0x7000, 0x8000⟩ 0x30000 0x20000 [0x21000, 0x7000] where
  ring := {
    nodup := by decide
    linked := by
      simp only [List.cons_append, List.nil_append, List.isChain_cons_cons, List.isChain_singleton,
        and_true]
      exact ⟨⟨_, _, rfl, rfl, by decide, by decide⟩, ⟨_, _, rfl, rfl, by decide, by decide⟩,
        ⟨_, _, rfl, rfl, by decide, by decide⟩⟩ }
  one_head := by decide
  named := by
    have hout : outside ⟨0x7000, 0x8000⟩ [0x20000, 0x21000, 0x7000] = [0x20000, 0x21000] := by
      decide
    rw [hout]
    simp only [List.mem_cons, List.not_mem_nil, or_false, forall_eq_or_imp, forall_eq]
    exact ⟨⟨by decide, 0x20, .inl ⟨by decide, rfl⟩, by rfl⟩,
      ⟨by decide, 0x28, .inr ⟨by decide, rfl⟩, by rfl⟩⟩
  process_heap := ⟨by decide, by decide⟩

end Enumeration

end DbgScope.Heap
