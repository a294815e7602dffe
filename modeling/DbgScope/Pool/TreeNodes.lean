import DbgScope.Preorder
import DbgScope.Pool.Frozen
import DbgScope.Pool.Traverse

/-!
# The nodes of a tree

`walk_tree_nodes` over a target that stands still, whatever graph its links make. The stack of the
walk is what is left of a preorder of that graph, so the walk returns the first `limit` nodes of it;
what it reports tells whether that was all, and whether the graph was a tree.
-/

namespace DbgScope.Pool

/-- What the target answers depends only on what it is asked, and it never ends a walk. -/
structure Still (memory : PoolMemory) : Prop where
  read : ∀ h address size, memory.readExact h address size = memory.readExact [] address size
  valid : ∀ h address size, memory.validRegion h address size = memory.validRegion [] address size
  poll : ∀ h, pollOutcome memory h = .ok ()

def guardedAnswer (memory : PoolMemory) (address size : ℕ) : Except SnapshotError (List UInt8) :=
  if size = 0 then .ok []
  else match memory.validRegion [] address size with
    | .error error => .error error
    | .ok (validBase, validSize) =>
      if validBase ≠ address ∨ validSize < size then
        .error (.regionValidation address size validBase validSize)
      else memory.readExact [] address size

def storedLink (link : Option ℕ) : Option ℕ := link.filter fun node => decide (node ≠ 0)

def treeLinks (memory : PoolMemory) (leftOffset rightOffset : ℕ) : BinaryLinks ℕ := fun node =>
  match guardedAnswer memory node (saturatingAdd (max leftOffset rightOffset) 8) with
  | .ok bytes =>
    some (storedLink (readU64 bytes leftOffset), storedLink (readU64 bytes rightOffset))
  | .error _ => none

def Reaches (memory : PoolMemory) (leftOffset rightOffset root node : ℕ) : Prop :=
  ∃ start, storedLink (some root) = some start ∧
    Relation.ReflTransGen (treeLinks memory leftOffset rightOffset).Leads start node

/-- The nodes of a stack that are there to visit. -/
def pending (stack : List ℕ) : List ℕ := stack.filter fun node => decide (node ≠ 0)

def traversalLimitReached (label : String) : String := s!"{label} traversal limit reached"

/-! ## The graph -/

section Graph

variable {memory : PoolMemory} {leftOffset rightOffset : ℕ}

theorem readU64_lt_two_pow {bytes : List UInt8} {offset value : ℕ}
    (h : readU64 bytes offset = some value) : value < 2 ^ 64 := by
  obtain ⟨part, hpart, rfl⟩ := Option.map_eq_some_iff.mp h
  obtain ⟨-, hpart⟩ := Option.ite_none_right_eq_some.mp hpart
  have hlength : part.length ≤ 8 := by
    rw [← Option.some.inj hpart]
    exact List.length_take_le _ _
  calc fromLe part < 256 ^ part.length := fromLe_lt part
    _ ≤ 256 ^ 8 := Nat.pow_le_pow_right (by decide) hlength
    _ = 2 ^ 64 := by decide

theorem storedLink_lt {bytes : List UInt8} {offset value : ℕ}
    (h : storedLink (readU64 bytes offset) = some value) : value < 2 ^ 64 :=
  readU64_lt_two_pow (Option.filter_eq_some_iff.mp h).1

/-- Links are words, so the graph is finite. -/
theorem treeLinks_lt {a b : ℕ} (h : (treeLinks memory leftOffset rightOffset).Leads a b) :
    b < 2 ^ 64 := by
  obtain ⟨left, right, hlinks, hto⟩ := h
  unfold treeLinks at hlinks
  split at hlinks
  · obtain ⟨rfl, rfl⟩ := Prod.mk.inj (Option.some.inj hlinks)
    rcases hto with hto | hto <;> exact storedLink_lt hto
  · cases hlinks

theorem exists_treePreorder (memory : PoolMemory) (leftOffset rightOffset root : ℕ) :
    ∃ order after, Preorder (treeLinks memory leftOffset rightOffset) (storedLink (some root)) ∅
      order after := by
  refine exists_preorder (insert root (Finset.range (2 ^ 64))) (fun a b hleads => ?_) ∅ _
    fun a ha => ?_
  · exact Finset.mem_insert_of_mem (Finset.mem_range.mpr (treeLinks_lt hleads))
  · obtain rfl := Option.some.inj (Option.filter_eq_some_iff.mp ha).1
    exact Finset.mem_insert_self _ _

theorem pending_cons {node : ℕ} (hnode : node ≠ 0) (rest : List ℕ) :
    pending (node :: rest) = node :: pending rest :=
  List.filter_cons_of_pos (decide_eq_true hnode)

theorem pending_toList (link : Option ℕ) (rest : List ℕ) :
    pending (link.toList ++ rest) = (storedLink link).toList ++ pending rest := by
  unfold pending storedLink
  rw [List.filter_append]
  cases link with
  | none => rfl
  | some node =>
    by_cases hnode : node = 0
    · simp [hnode]
    · simp [hnode, Option.filter_some]

theorem pending_root (root : ℕ) : pending [root] = (storedLink (some root)).toList := by
  have h := pending_toList (some root) []
  rwa [Option.toList_some, List.append_nil, show pending [] = [] from rfl, List.append_nil] at h

end Graph

/-! ## The walk -/

section Walk

variable {memory : PoolMemory} {leftOffset rightOffset limit : ℕ} {label : String}

theorem Still.guardedBytes (h : Still memory) {S : Type} (address size : ℕ) (w : World S) :
    (guardedBytes memory address size w).1 = guardedAnswer memory address size ∧
      (guardedBytes memory address size w).2.state = w.state := by
  unfold Pool.guardedBytes guardedAnswer
  by_cases hsize : size = 0
  · rw [if_pos hsize, if_pos hsize]
    exact ⟨rfl, rfl⟩
  rw [if_neg hsize, if_neg hsize]
  have hcall : callValidRegion memory address size w = (memory.validRegion [] address size,
      w.note (.validRegion address size (failureOf (memory.validRegion [] address size)))) := by
    unfold callValidRegion
    rw [h.valid]
  rcases hvalid : memory.validRegion [] address size with error | ⟨validBase, validSize⟩
  · rw [hvalid] at hcall
    rw [Run.bind_of_error hcall]
    exact ⟨rfl, rfl⟩
  · rw [hvalid] at hcall
    rw [Run.bind_of_ok hcall]
    dsimp only
    split
    · exact ⟨rfl, rfl⟩
    · exact ⟨h.read _ _ _, rfl⟩

theorem Still.guardedRead (h : Still memory) {S : Type} (address size : ℕ) (w : World S) :
    ∃ w', Pool.guardedRead memory address size w = (guardedAnswer memory address size, w') ∧
      w'.state = w.state := by
  obtain ⟨hanswer, hstate⟩ := h.guardedBytes address size w
  unfold Pool.guardedRead observed
  rcases hrun : Pool.guardedBytes memory address size w with ⟨r, w'⟩
  rw [hrun] at hanswer hstate
  dsimp only at hanswer hstate
  subst hanswer
  cases guardedAnswer memory address size with
  | ok bytes => exact ⟨w', rfl, hstate⟩
  | error error => exact ⟨_, rfl, hstate⟩

theorem reported_of_ok {α : Type} {read : Walk (List String) α} {w w' : World (List String)} {a : α}
    (h : read w = (.ok a, w')) (say : SnapshotError → String) :
    reported read say w = (.ok (some a), w') := by
  unfold reported
  rw [Run.attempt_bind_apply, h]
  rfl

theorem reported_of_error {α : Type} {read : Walk (List String) α} {w w' : World (List String)}
    {error : SnapshotError} (h : read w = (.error error, w')) (say : SnapshotError → String) :
    reported read say w = (.ok none, { w' with state := w'.state ++ [say error] }) := by
  unfold reported
  rw [Run.attempt_bind_apply, h]
  rfl

inductive TreeRound (memory : PoolMemory) (leftOffset rightOffset limit : ℕ) (label : String)
    (s : TreeWalk) (node : ℕ) (rest : List ℕ) (before : List String) :
    Flow TreeWalk (List ℕ) → List String → Prop
  | seen (hseen : node ∈ s.seen) (message : String) : TreeRound memory leftOffset rightOffset limit
      label s node rest before (.again { s with stack := rest }) (before ++ [message])
  | limit (hnew : node ∉ s.seen) (hlimit : limit ≤ s.nodes.length) : TreeRound memory leftOffset
      rightOffset limit label s node rest before (.stop s.nodes) (before ++ [traversalLimitReached label])
  | missing (hnew : node ∉ s.seen) (hroom : s.nodes.length < limit)
      (hlinks : treeLinks memory leftOffset rightOffset node = none) (message : String) :
      TreeRound memory leftOffset rightOffset limit label s node rest before
        (.again { s with stack := rest, seen := insert node s.seen }) (before ++ [message])
  | visit (hnew : node ∉ s.seen) (hroom : s.nodes.length < limit) (left right : Option ℕ)
      (hlinks : treeLinks memory leftOffset rightOffset node =
        some (storedLink left, storedLink right)) :
      TreeRound memory leftOffset rightOffset limit label s node rest before
        (.again { stack := left.toList ++ right.toList ++ rest, seen := insert node s.seen,
                  nodes := s.nodes ++ [node] }) before

variable (leftOffset rightOffset limit label) in
theorem treeStep_round (h : Still memory) {s : TreeWalk} {node : ℕ} {rest : List ℕ}
    (hstack : s.stack = node :: rest) (hnode : node ≠ 0) (w : World (List String)) :
    ∃ flow w', treeStep memory leftOffset rightOffset limit label s w = (.ok flow, w') ∧
      TreeRound memory leftOffset rightOffset limit label s node rest w.state flow w'.state := by
  have hpoll : checkBudget memory w = (.ok (), w.note (.poll none)) := by
    unfold checkBudget
    rw [h.poll]
    rfl
  unfold treeStep
  rw [hstack]
  dsimp only
  rw [if_neg hnode, Run.bind_of_ok hpoll]
  by_cases hseen : node ∈ s.seen
  · rw [if_pos hseen]
    exact ⟨_, _, rfl, .seen hseen _⟩
  rw [if_neg hseen]
  by_cases hlimit : limit ≤ s.nodes.length
  · rw [if_pos hlimit]
    exact ⟨_, _, rfl, .limit hseen hlimit⟩
  rw [if_neg hlimit]
  obtain ⟨w', hread, hstate⟩ := h.guardedRead node
    (saturatingAdd (max leftOffset rightOffset) 8) (w.note (.poll none))
  have hroom := Nat.lt_of_not_le hlimit
  have hlinks : treeLinks memory leftOffset rightOffset node =
      match guardedAnswer memory node (saturatingAdd (max leftOffset rightOffset) 8) with
      | .ok bytes =>
        some (storedLink (readU64 bytes leftOffset), storedLink (readU64 bytes rightOffset))
      | .error _ => none := rfl
  rcases hanswer : guardedAnswer memory node (saturatingAdd (max leftOffset rightOffset) 8) with
    error | bytes
  · rw [hanswer] at hlinks hread
    rw [Run.bind_of_ok (reported_of_error hread _)]
    refine ⟨_, _, rfl, ?_⟩
    rw [hstate]
    exact .missing hseen hroom hlinks _
  · rw [hanswer] at hlinks hread
    rw [Run.bind_of_ok (reported_of_ok hread _)]
    refine ⟨_, _, rfl, ?_⟩
    rw [hstate]
    exact .visit hseen hroom _ _ hlinks

structure TreeEnd (links : BinaryLinks ℕ) (limit : ℕ) (label : String) (s : TreeWalk)
    (order : List ℕ) (before : List String)
    (result : Except SnapshotError (List ℕ) × World (List String)) : Prop where
  nodes : result.1 = .ok (s.nodes ++ order.take (limit - s.nodes.length))
  said : ∃ messages, result.2.state = before ++ messages ∧
    (traversalLimitReached label ∉ messages → order.length ≤ limit - s.nodes.length) ∧
    (messages = [] → ∃ trees, UnfoldsAll links (pending s.stack) trees ∧
      order = trees.flatMap preorder)

theorem TreeEnd.skip {links : BinaryLinks ℕ} {s : TreeWalk} {rest : List ℕ} {seen : Finset ℕ}
    {order : List ℕ} {before : List String} {message : String}
    {result : Except SnapshotError (List ℕ) × World (List String)}
    (h : TreeEnd links limit label { s with stack := rest, seen } order (before ++ [message])
      result) : TreeEnd links limit label s order before result := by
  obtain ⟨messages, hsaid, hall, -⟩ := h.said
  refine ⟨h.nodes, message :: messages, ?_,
    fun hlimit => hall (List.not_mem_of_not_mem_cons hlimit),
    fun hnone => absurd hnone (List.cons_ne_nil _ _)⟩
  rw [hsaid, List.append_assoc, List.singleton_append]

theorem TreeEnd.visit {links : BinaryLinks ℕ} {s : TreeWalk} {node : ℕ} {rest : List ℕ}
    {left right : Option ℕ} {order : List ℕ} {before : List String}
    {result : Except SnapshotError (List ℕ) × World (List String)}
    (hstack : s.stack = node :: rest) (hnode : node ≠ 0) (hroom : s.nodes.length < limit)
    (hlinks : links node = some (storedLink left, storedLink right))
    (h : TreeEnd links limit label
      { stack := left.toList ++ right.toList ++ rest, seen := insert node s.seen,
        nodes := s.nodes ++ [node] } order before result) :
    TreeEnd links limit label s (node :: order) before result := by
  obtain ⟨hnodes, messages, hsaid, hall, htree⟩ := h
  have hleft : limit - s.nodes.length = limit - (s.nodes ++ [node]).length + 1 := by
    rw [List.length_append, List.length_singleton]
    omega
  refine ⟨?_, messages, hsaid, fun hlimit => ?_, fun hnone => ?_⟩
  · rw [hnodes, hleft, List.take_succ_cons, List.append_assoc, List.singleton_append]
  · rw [hleft]
    exact Nat.succ_le_succ (hall hlimit)
  · obtain ⟨trees, htrees, rfl⟩ := htree hnone
    rw [List.append_assoc, pending_toList, pending_toList] at htrees
    obtain ⟨trees', htrees', hflat⟩ := htrees.visit hlinks
    refine ⟨trees', ?_, hflat.symm⟩
    rw [hstack, pending_cons hnode]
    exact htrees'

variable (leftOffset rightOffset limit label) in
/-- **The stack is what is left of a preorder.** Given rounds for every node it may still push, the
loop lists that preorder as far as the limit. -/
theorem treeLoop_ends (h : Still memory) (out : TreeWalk → List ℕ) :
    ∀ (rounds : ℕ) (s : TreeWalk) (order : List ℕ) (after : Finset ℕ) (w : World (List String)),
      PreorderAll (treeLinks memory leftOffset rightOffset) (pending s.stack) s.seen order after →
      s.stack.length + 2 * (limit - s.nodes.length) < rounds →
      TreeEnd (treeLinks memory leftOffset rightOffset) limit label s order w.state
        (Run.loop (treeStep memory leftOffset rightOffset limit label) out rounds s w) := by
  intro rounds
  induction rounds with
  | zero => exact fun s order after w _ hrounds => absurd hrounds (Nat.not_lt_zero _)
  | succ rounds ih =>
    intro s order after w horder hrounds
    rcases hstack : s.stack with _ | ⟨node, rest⟩
    · -- nothing is left
      rw [hstack] at horder
      cases horder
      have hstop : treeStep memory leftOffset rightOffset limit label s w =
          (.ok (.stop s.nodes), w) := by
        unfold treeStep
        rw [hstack]
        rfl
      rw [Run.loop_stop hstop]
      refine ⟨by simp, [], (List.append_nil _).symm, fun _ => Nat.zero_le _,
        fun _ => ⟨[], ?_, rfl⟩⟩
      rw [hstack]
      exact .nil
    rw [hstack] at horder hrounds
    rw [List.length_cons] at hrounds
    by_cases hnode : node = 0
    · -- a null link
      subst hnode
      have hagain : treeStep memory leftOffset rightOffset limit label s w =
          (.ok (.again { s with stack := rest }), w) := by
        unfold treeStep
        rw [hstack]
        rfl
      rw [Run.loop_again hagain]
      obtain ⟨hnodes, hsaid⟩ := ih { s with stack := rest } order after w horder
        (by dsimp only; omega)
      exact ⟨hnodes, hstack ▸ hsaid⟩
    rw [pending_cons hnode] at horder
    obtain ⟨flow, w', hstep, hround⟩ :=
      treeStep_round leftOffset rightOffset limit label h hstack hnode w
    generalize hstate : w'.state = state at hround
    cases hround with
    | seen hseen message =>
      rw [Run.loop_again hstep]
      have hend := ih { s with stack := rest } order after w' (horder.of_seen hseen)
        (by dsimp only; omega)
      rw [hstate] at hend
      exact hend.skip
    | limit hnew hlimit =>
      rw [Run.loop_stop hstep]
      refine ⟨?_, [traversalLimitReached label], hstate, fun hnot => ?_, fun hnone => ?_⟩
      · rw [Nat.sub_eq_zero_of_le hlimit, List.take_zero, List.append_nil]
      · exact absurd (List.mem_singleton_self _) hnot
      · exact absurd hnone (List.cons_ne_nil _ _)
    | missing hnew hroom hlinks message =>
      rw [Run.loop_again hstep]
      have hend := ih { s with stack := rest, seen := insert node s.seen } order after w'
        (horder.of_missing hnew hlinks) (by dsimp only; omega)
      rw [hstate] at hend
      exact hend.skip
    | visit hnew hroom left right hlinks =>
      rw [Run.loop_again hstep]
      obtain ⟨order, rfl, hrest⟩ := horder.of_visit hnew hlinks
      rw [← pending_toList, ← pending_toList, ← List.append_assoc] at hrest
      have hlength : ∀ link : Option ℕ, link.toList.length ≤ 1 := fun link => by
        cases link <;> simp
      have hend := ih ⟨left.toList ++ right.toList ++ rest, insert node s.seen, s.nodes ++ [node]⟩
        order after w' hrest (by
          have hleft := hlength left
          have hright := hlength right
          simp only [List.length_append, List.length_singleton]
          omega)
      rw [hstate] at hend
      exact hend.visit hstack hnode hroom hlinks

/-- **The walk returns the readable nodes that can be reached, in preorder.** It lists the first
`limit` of them, within the rounds it is given. -/
theorem walkTreeNodes_returns (h : Still memory) (root leftOffset rightOffset limit : ℕ)
    (label : String) (w : World (List String)) :
    ∃ nodes messages w', walkTreeNodes memory root leftOffset rightOffset limit label w =
        (.ok nodes, w') ∧ w'.state = w.state ++ messages ∧
      (∀ out rounds, 2 * limit + 1 < rounds →
        (Run.loop (treeStep memory leftOffset rightOffset limit label) out rounds
          ⟨[root], ∅, []⟩ w).1 = .ok nodes) ∧
      nodes.Nodup ∧ nodes.length ≤ limit ∧
      (∃ order after, Preorder (treeLinks memory leftOffset rightOffset) (storedLink (some root)) ∅
        order after ∧ nodes = order.take limit) ∧
      (traversalLimitReached label ∉ messages → ∀ node, node ∈ nodes ↔
        (treeLinks memory leftOffset rightOffset node).isSome ∧
          Reaches memory leftOffset rightOffset root node) ∧
      (messages = [] →
        (∃ tree, Unfolds (treeLinks memory leftOffset rightOffset) (storedLink (some root)) tree ∧
          (preorder tree).Nodup ∧ nodes = preorder tree) ∧
        ∀ node, Reaches memory leftOffset rightOffset root node →
          (treeLinks memory leftOffset rightOffset node).isSome) := by
  obtain ⟨order, after, horder⟩ := exists_treePreorder memory leftOffset rightOffset root
  have hall : PreorderAll (treeLinks memory leftOffset rightOffset) (pending [root]) ∅ order
      after := by
    have hstart := PreorderAll.of_option horder .nil
    rwa [List.append_nil, List.append_nil, ← pending_root] at hstart
  have hends := fun out rounds (hrounds : 2 * limit + 1 < rounds) =>
    treeLoop_ends leftOffset rightOffset limit label h out rounds ⟨[root], ∅, []⟩ order after w hall
      (by rwa [List.length_singleton, List.length_nil, Nat.sub_zero, Nat.add_comm])
  obtain ⟨hnodes, messages, hsaid, hwhole, htree⟩ := hends TreeWalk.nodes (2 * limit + 3) (by omega)
  rw [List.nil_append, List.length_nil, Nat.sub_zero] at hnodes
  rw [List.length_nil, Nat.sub_zero] at hwhole
  refine ⟨order.take limit, messages, _, Prod.ext hnodes rfl, hsaid, fun out rounds hrounds => ?_,
    horder.nodup.sublist (List.take_sublist _ _), List.length_take_le _ _,
    ⟨order, after, horder, rfl⟩, fun hlimit node => ?_, fun hnone => ?_⟩
  · have hagain := (hends out rounds hrounds).nodes
    rwa [List.nil_append, List.length_nil, Nat.sub_zero] at hagain
  · rw [List.take_of_length_le (hwhole hlimit)]
    exact horder.mem_iff
  · obtain ⟨trees, htrees, horder'⟩ := htree hnone
    have htrees' : UnfoldsAll (treeLinks memory leftOffset rightOffset)
        ((storedLink (some root)).toList ++ []) trees := by
      rwa [List.append_nil, ← pending_root]
    obtain ⟨tree, more, hunfolds, hmore, hflat⟩ := htrees'.of_option
    cases hmore
    rw [List.flatMap_nil, List.append_nil] at hflat
    have hlimit : traversalLimitReached label ∉ messages := by
      rw [hnone]
      exact List.not_mem_nil
    have hpreorder : order = preorder tree := horder'.trans hflat
    refine ⟨⟨tree, hunfolds, hpreorder ▸ horder.nodup, ?_⟩, ?_⟩
    · rw [List.take_of_length_le (hwhole hlimit), hpreorder]
    · rintro node ⟨start, hstart, hpath⟩
      rw [hstart] at hunfolds
      exact hunfolds.readable hpath

end Walk

/-- A node at `0x10` whose left link leads to `0x20`, and nothing below that. -/
def twoNodes : PoolMemory := frozenTarget fun address => if address = 0x10 then 0x20 else 0

theorem twoNodes_still : Still twoNodes := ⟨fun _ _ _ => rfl, fun _ _ _ => rfl, fun _ => rfl⟩

theorem walkTreeNodes_returns_twoNodes :
    ∃ nodes messages w', walkTreeNodes twoNodes 0x10 0 8 4 "tree" ⟨[], []⟩ = (.ok nodes, w') ∧
      w'.state = messages ∧ nodes.Nodup ∧ nodes.length ≤ 4 ∧
      (traversalLimitReached "tree" ∉ messages → ∀ node, node ∈ nodes ↔
        (treeLinks twoNodes 0 8 node).isSome ∧ Reaches twoNodes 0 8 0x10 node) := by
  obtain ⟨nodes, messages, w', hwalk, hsaid, -, hnodup, hlimit, -, hreached, -⟩ :=
    walkTreeNodes_returns twoNodes_still 0x10 0 8 4 "tree" ⟨[], []⟩
  exact ⟨nodes, messages, w', hwalk, hsaid, hnodup, hlimit, hreached⟩

end DbgScope.Pool
