import DbgScope.Pool.Traverse

/-!
# Free-chunk evidence

What a heap's VS allocator says about its free chunks before a single chunk is decoded: the chunks
in its free trees, on its delay-free lists and in the pool's dynamic lookasides. A read that fails
becomes a diagnostic, with one exception: a bucket count that will not read is taken to be zero.
-/

namespace DbgScope.Pool

/-! ## Where a context keeps its free-chunk state -/

structure VsRoot where
  base : ℕ
  treeOffset : ℕ
  delayOffset : Option ℕ

def SlotBackReference.claimed (back : SlotBackReference) (slot value : ℕ) : Option ℕ :=
  match back with
  | .address _ => some value
  | .displacement _ => checkedSub slot value

def SlotBackReference.offset : SlotBackReference → ℕ
  | .address offset | .displacement offset => offset

variable (memory : PoolMemory) (layout : PoolLayout)

def slotMapEntry (context slotMap entrySize slotRefOffset treeOffset : ℕ) (delayOffset : Option ℕ)
    (back : SlotBackReference) (met : List VsRoot × Finset ℕ) (index : ℕ) :
    Walk (List String) (List VsRoot × Finset ℕ) := do
  checkBudget memory
  let entry := wrappingAdd slotMap (index * entrySize)
  let some slotRef ← reported (scalar memory (wrappingAdd entry slotRefOffset) 2)
      (fun _ => (s!"cannot read VS slot map entry {index} at {hex entry}; its affinity slot is " ++
        "omitted"))
    | pure met
  if slotRef = 0 then pure met
  else
    let slot := wrappingAdd context (slotRef <<< 6)
    if slot ∈ met.2 then pure met
    else do
      let seen := insert slot met.2
      -- the slot has to name the context it was reached from
      let some value ← reported (scalar memory (wrappingAdd slot back.offset) 8)
          (fun error => s!"cannot read VS affinity slot {hex slot}: {error.text}")
        | pure (met.1, seen)
      match back.claimed slot value with
      | some owner =>
        if owner = context then
          pure (met.1 ++ [{ base := slot, treeOffset, delayOffset }], seen)
        else do
          report (s!"VS affinity slot {hex slot} claims context {hex owner}, not {hex context}; " ++
            "skipped")
          pure (met.1, seen)
      | none => do
        report s!"VS affinity slot {hex slot} claims context none, not {hex context}; skipped"
        pure (met.1, seen)

def vsRoots (context : ℕ) : Walk (List String) (List VsRoot) :=
  match layout.vsShape with
  | .error detail => do
    report s!"VS free-chunk state is in neither the context nor an affinity slot: {detail}"
    pure []
  | .ok (.inline tree delay) =>
    pure [{ base := context, treeOffset := tree, delayOffset := delay }]
  | .ok (.affinitySlots slotMapRefOffset affinityOffset slotRefOffset tree delay back) => do
    -- both are read before either answer is looked at
    let mapRead ← Run.attempt (scalar memory (wrappingAdd context slotMapRefOffset) 2)
    let maskRead ← Run.attempt (scalar memory (wrappingAdd context affinityOffset) 1)
    match mapRead, maskRead with
    | .ok slotMapRef, .ok affinityMask =>
      let entries := affinityMask + 1
      if slotMapRef = 0 ∨ entries > 256 then do
        report (s!"implausible VS slot map for context {hex context}: ref {hex slotMapRef}, " ++
          s!"{entries} entries")
        pure []
      else do
        let entrySize := match layout.typeLayout .heapVsSlotMap with
          | .ok map => map.size
          | .error _ => 4
        let slotMap := wrappingAdd context (slotMapRef <<< 6)
        let (roots, _) ← Run.fold
          (slotMapEntry memory context slotMap entrySize slotRefOffset tree delay back)
          (List.range entries) ([], ∅)
        pure roots
    | _, _ => do
      report s!"cannot read the VS slot map of context {hex context}"
      pure []

/-! ## The page-end rule -/

def vsConfigPageAlign : ℕ := 1

/-- Whether a heap's VS allocator moves a user block off the end of a page. -/
def vsSkipsPageEnd (heapAddress : ℕ) : Walk (List String) Bool :=
  match layout.field .segmentHeap .vsContext with
  | .error _ => pure false
  | .ok contextOffset =>
    match layout.field .heapVsContext .config with
    | .error _ => do
      report (s!"VS context of heap {hex heapAddress} has no resolved Config: a user block " ++
        "ending a page is read at its chunk header")
      pure false
    | .ok configOffset => do
      checkBudget memory
      let address := wrappingAdd (wrappingAdd heapAddress contextOffset) configOffset
      let some flags ← reported (scalar memory address 1)
          (fun error => (s!"cannot read VS context config at {hex address}: {error.text}; a " ++
            "user block ending a page is read at its chunk header"))
        | pure false
      pure (flags &&& vsConfigPageAlign != 0)

/-! ## The chunks a context names -/

def sizeOrZero (name : TypeName) : ℕ :=
  match layout.typeLayout name with
  | .ok type => type.size
  | .error _ => 0

def insertCachedEntries (cached : Finset ℕ) (entries : List ℕ) : Finset ℕ :=
  entries.foldl (fun cached entry => insertCachedChunkCandidates cached entry
    (sizeOrZero layout .poolHeader) (sizeOrZero layout .heapVsChunkHeader)) cached

def rootFreeTree (limit treeNodeOffset : ℕ) (reusable : Finset ℕ) (root : VsRoot) :
    Walk (List String) (Finset ℕ) := do
  let nodes ← treeNodes memory layout (wrappingAdd root.base root.treeOffset) limit
    "VS free tree"
  pure (reusable ∪ (nodes.map fun node => node - treeNodeOffset).toFinset)

def rootDelayFree (limit listOffset : ℕ) (cached : Finset ℕ) (root : VsRoot) :
    Walk (List String) (Finset ℕ) :=
  match root.delayOffset with
  | none => pure cached
  | some delayOffset => do
    let entries ← walkSlistNodes memory layout
      (wrappingAdd (wrappingAdd root.base delayOffset) listOffset) limit "VS delay-free"
    pure (insertCachedEntries layout cached entries)

def bucketCountOf (dynamic : ℕ) : Walk (List String) ℕ :=
  match layout.field .rtlDynamicLookaside .bucketCount with
  | .error _ => pure 0
  | .ok offset => do
    let address := wrappingAdd dynamic offset
    match ← Run.attempt (scalar memory address 4) with
    | .ok count => pure count
    | .error _ =>
      -- `.ok()` and `unwrap_or(0)`: no diagnostic is left of this failure
      note (.dropped address 4)
      pure 0

def bucketInUse (bucketAddress bucket : ℕ) : Walk (List String) Bool :=
  match layout.field .rtlLookaside .sizeField with
  | .error _ => pure true
  | .ok sizeOffset => do
    let some size ← reported (scalar memory (wrappingAdd bucketAddress sizeOffset) 4)
        (fun error => s!"cannot read VS dynamic-lookaside bucket {bucket} size: {error.text}")
      | pure false
    if size = 0 then pure false
    else if size > 0x10000 then do
      report s!"rejecting VS dynamic-lookaside bucket {bucket} size {hex size}"
      pure false
    else pure true

/-- One round of the bucket loop: the bucket it is at, and the chunks cached so far. -/
def bucketStep (dynamic bucketsOffset lookasideSize listOffset limit bucketCount : ℕ)
    (s : ℕ × Finset ℕ) : Walk (List String) (Flow (ℕ × Finset ℕ) (Finset ℕ)) :=
  if bucketCount ≤ s.1 then pure (.stop s.2)
  else do
    checkBudget memory
    match (checkedAdd dynamic bucketsOffset).bind
        (fun value => checkedAdd value (s.1 * lookasideSize)) with
    | none => do
      report "VS dynamic-lookaside bucket address overflow"
      pure (.stop s.2)
    | some bucketAddress => do
      if ← bucketInUse memory layout bucketAddress s.1 then
        let entries ← walkSlistNodes memory layout (wrappingAdd bucketAddress listOffset) limit
          "VS dynamic-lookaside"
        pure (.again (s.1 + 1, insertCachedEntries layout s.2 entries))
      else pure (.again (s.1 + 1, s.2))

def dynamicLookasideChunks (limit dynamic : ℕ) (cached : Finset ℕ) :
    Walk (List String) (Finset ℕ) := do
  let bucketCount ← bucketCountOf memory layout dynamic
  if bucketCount > 64 then do
    report s!"rejecting implausible VS dynamic-lookaside bucket count {bucketCount}"
    pure cached
  else
    match layout.field .rtlDynamicLookaside .buckets, layout.typeLayout .rtlLookaside,
      layout.field .rtlLookaside .listHead with
    | .ok bucketsOffset, .ok lookaside, .ok listOffset =>
      Run.loop (bucketStep memory layout dynamic bucketsOffset lookaside.size listOffset limit
        bucketCount) Prod.snd (bucketCount + 1) (0, cached)
    | _, _, _ => pure cached

def delayFreeChunks (limit : ℕ) (roots : List VsRoot) : Walk (List String) (Finset ℕ) :=
  match layout.field .heapVsDelayFreeContext .listHead with
  | .ok listOffset => Run.fold (rootDelayFree memory layout limit listOffset) roots ∅
  | .error _ => pure ∅

def lookasideChunks (limit : ℕ) (dynamicLookaside : Option ℕ) (cached : Finset ℕ) :
    Walk (List String) (Finset ℕ) :=
  match dynamicLookaside with
  | some dynamic => dynamicLookasideChunks memory layout limit dynamic cached
  | none => pure cached

/-- The reusable and the cached chunks of a heap's VS allocator. -/
def discoverVsEvidence (heapAddress : ℕ) (dynamicLookaside : Option ℕ) (limit : ℕ) :
    Walk (List String) (Finset ℕ × Finset ℕ) := do
  let .ok vsContextOffset := layout.field .segmentHeap .vsContext
    | pure (∅, ∅)
  let roots ← vsRoots memory layout (wrappingAdd heapAddress vsContextOffset)
  if roots.isEmpty then pure (∅, ∅)
  else do
    let treeNodeOffset := (layout.field .heapVsChunkFreeHeader .treeNode).toOption.getD 0
    let reusable ← Run.fold (rootFreeTree memory layout limit treeNodeOffset) roots ∅
    let delayed ← delayFreeChunks memory layout limit roots
    let cached ← lookasideChunks memory layout limit dynamicLookaside delayed
    pure (reusable, cached)

end DbgScope.Pool
