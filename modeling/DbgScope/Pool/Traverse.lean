import DbgScope.Pool.Memory

/-!
# Trees and lists

The two traversals discovery shares: a red-black tree followed from its root, and an interlocked
list followed from its header. Each keeps the nodes it has met, stops at a limit, and turns what
it could not read into a diagnostic; both are handed the diagnostics alone, so that is all they
can write.
-/

namespace DbgScope.Pool

variable {α : Type}

def report (message : String) : Walk (List String) Unit := update fun messages =>
  messages ++ [message]

/-- A read whose failure becomes a diagnostic: `Err(error) => diagnostics.push(..)`. -/
def reported (read : Walk (List String) α) (say : SnapshotError → String) :
    Walk (List String) (Option α) := do
  match ← Run.attempt read with
  | .ok a => pure (some a)
  | .error error =>
    report (say error)
    pure none

/-! ## Trees -/

structure TreeWalk where
  stack : List ℕ
  seen : Finset ℕ
  nodes : List ℕ

variable (memory : PoolMemory) (layout : PoolLayout)

def treeStep (leftOffset rightOffset limit : ℕ) (label : String) (s : TreeWalk) :
    Walk (List String) (Flow TreeWalk (List ℕ)) :=
  match s.stack with
  | [] => pure (.stop s.nodes)
  | node :: rest =>
    if node = 0 then pure (.again { s with stack := rest })
    else do
      checkBudget memory
      if node ∈ s.seen then do
        report s!"{label} cycle detected at {hex node}"
        pure (.again { s with stack := rest })
      else if limit ≤ s.nodes.length then do
        report s!"{label} traversal limit reached"
        note (.capped .tree)
        pure (.stop s.nodes)
      else do
        let size := saturatingAdd (max leftOffset rightOffset) 8
        let seen := insert node s.seen
        match ← reported (guardedRead memory node size)
            (fun error => s!"unreadable {label} node {hex node}: {error.text}") with
        | some bytes =>
          -- the right link is pushed first, so the left one is popped first
          let links := (readU64 bytes leftOffset).toList ++ (readU64 bytes rightOffset).toList
          pure (.again { stack := links ++ rest, seen, nodes := s.nodes ++ [node] })
        | none => pure (.again { s with stack := rest, seen })

/-- The nodes of a tree, each pop of the stack a round: every node pushes at most two. -/
def walkTreeNodes (root leftOffset rightOffset limit : ℕ) (label : String) :
    Walk (List String) (List ℕ) :=
  Run.loop (treeStep memory leftOffset rightOffset limit label) TreeWalk.nodes (2 * limit + 3)
    { stack := [root], seen := ∅, nodes := [] }

/-- Whether a tree's root is stored encoded; `none` where the flag would not read. -/
def treeEncoded (treeAddress : ℕ) (label : String) : Walk (List String) (Option Bool) :=
  match layout.field .rtlRbTree .encoded with
  | .error _ => pure (some false)
  | .ok encodedOffset => do
    let some value ← reported (scalar memory (wrappingAdd treeAddress encodedOffset) 1)
        (fun error => s!"cannot read {label} encoded flag: {error.text}")
      | pure none
    pure (some (value &&& 1 != 0))

def treeNodes (treeAddress limit : ℕ) (label : String) : Walk (List String) (List ℕ) := do
  checkBudget memory
  let .ok rootOffset := layout.field .rtlRbTree .root
    | do report s!"cannot resolve {label} root field"
         pure []
  let some rootValue ← reported (scalar memory (wrappingAdd treeAddress rootOffset) 8)
      (fun error => s!"cannot read {label} root: {error.text}")
    | pure []
  let some encoded ← treeEncoded memory layout treeAddress label
    | pure []
  let decodedRoot := if layout.isUser then decodeRbRootFor rootValue treeAddress encoded true
    else decodeRbRoot rootValue treeAddress encoded
  let some root := decodedRoot
    | do report s!"rejecting corrupt {label} root {hex rootValue}"
         pure []
  let .ok left := layout.field .rtlBalancedNode .left
    | pure []
  let .ok right := layout.field .rtlBalancedNode .right
    | pure []
  walkTreeNodes memory root left right limit label

/-! ## Lists -/

structure SlistWalk where
  entry : ℕ
  seen : Finset ℕ
  nodes : List ℕ

def slistStep (expected : ℕ) (label : String) (s : SlistWalk) :
    Walk (List String) (Flow SlistWalk (List ℕ)) :=
  if s.entry = 0 ∨ expected ≤ s.nodes.length then pure (.stop s.nodes)
  else do
    checkBudget memory
    if s.entry ∈ s.seen then do
      report s!"{label} list cycle detected at {hex s.entry}"
      pure (.stop s.nodes)
    else do
      let nodes := s.nodes ++ [s.entry]
      match ← reported (scalar memory s.entry 8)
          (fun error => s!"unreadable {label} list entry {hex s.entry}: {error.text}") with
      | some next =>
        pure (.again { entry := next &&& complement 0xf, seen := insert s.entry s.seen, nodes })
      | none => pure (.stop nodes)

def slistVerdict (label : String) (depth limit : ℕ) (nodes : List ℕ) :
    Walk (List String) Unit :=
  if limit < depth then do
    report s!"{label} list traversal limit reached"
    note (.capped .slist)
  else if nodes.length ≠ depth then
    report s!"{label} list depth is {depth}, but only {nodes.length} entries were readable"
  else pure ()

def walkSlistNodes (head limit : ℕ) (label : String) : Walk (List String) (List ℕ) := do
  let .ok header := layout.typeLayout .slistHeader
    | do report s!"cannot resolve {label} SLIST header type"
         pure []
  let .ok alignmentOffset := layout.field .slistHeader .alignment
    | do report s!"cannot resolve {label} SLIST depth field"
         pure []
  let .ok regionOffset := layout.field .slistHeader .region
    | do report s!"cannot resolve {label} SLIST next field"
         pure []
  let some bytes ← reported (guardedRead memory head header.size)
      (fun error => s!"cannot read {label} list head: {error.text}")
    | pure []
  let depth := (readU16 bytes alignmentOffset).getD 0
  let entry := ((readU64 bytes regionOffset).map decodeSlistHeaderNext).getD 0
  let expected := min depth limit
  let nodes ← Run.loop (slistStep memory expected label) SlistWalk.nodes (expected + 1)
    { entry, seen := ∅, nodes := [] }
  slistVerdict label depth limit nodes
  pure nodes

def insertCachedChunkCandidates (cached : Finset ℕ) (entry poolHeaderSize vsHeaderSize : ℕ) :
    Finset ℕ :=
  let cached := insert entry cached
  match checkedSub entry (saturatingAdd poolHeaderSize vsHeaderSize) with
  | none => cached
  | some header =>
    let cached := insert header cached
    -- data sixteen bytes into a page may have its chunk header one unit further back
    if header &&& (pageSize - 1) = wrappingSub pageSize poolHeaderSize then
      insert (header - vsUnit) cached
    else cached

end DbgScope.Pool
