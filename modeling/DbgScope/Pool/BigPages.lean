import DbgScope.Pool.Traverse

/-!
# The big-page table

`nt!PoolBigPageTable`: where the kernel keeps the tag of every allocation too large to carry a
pool header. It is read as the kernel reads it, probing forward from the address's hash, and kept
a batch of entries at a time, so that a second question landing in a batch costs no read.
-/

namespace DbgScope.Pool

def bigPageBatch : ℕ := 256

structure BigPageEntry where
  tag : ℕ
  size : ℕ
  deriving DecidableEq

structure BigPageTable where
  base : ℕ
  count : ℕ
  entrySize : ℕ
  vaOffset : ℕ
  tagOffset : ℕ
  sizeOffset : ℕ
  /-- One slot per batch, filled on first touch. -/
  batches : List (Option (List UInt8))

namespace BigPageTable

def credible (base count : ℕ) : Bool :=
  !(base == 0 || count == 0 || decide (count > 0x100000) || !isPowerOfTwo count)

/-- The table at the two globals, or `none` where it would not read or is not plausible. -/
def openAt (memory : PoolMemory) (tablePointerAddress sizeAddress entrySize vaOffset tagOffset
    sizeOffset : ℕ) : Walk (List String) (Option BigPageTable) := do
  checkBudget memory
  let some base ← reported (scalar memory tablePointerAddress 8)
      (fun error => s!"cannot read big-page table pointer: {error.text}")
    | pure none
  -- the size is four bytes or eight, and asking for the second width is still one read
  let some count ← reported (observed sizeAddress 4
        (Run.orElse (scalarBytes memory sizeAddress 4) (scalarBytes memory sizeAddress 8)))
      (fun error => s!"cannot read big-page table size: {error.text}")
    | pure none
  if credible base count then
    pure (some { base, count, entrySize, vaOffset, tagOffset, sizeOffset,
                 batches := List.replicate (divCeil count bigPageBatch) none })
  else do
    report s!"rejecting implausible big-page table size {count}"
    pure none

def openTable (memory : PoolMemory) (layout : PoolLayout) :
    Walk (List String) (Option BigPageTable) :=
  match layout.typeLayout .poolTrackerBigPages, layout.field .poolTrackerBigPages .va,
    layout.field .poolTrackerBigPages .key, layout.field .poolTrackerBigPages .numberOfBytes,
    layout.globals .poolBigPageTable, layout.globals .poolBigPageTableSize with
  | .ok entry, .ok vaOffset, .ok tagOffset, .ok sizeOffset, some pointer, some size =>
    openAt memory pointer size entry.size vaOffset tagOffset sizeOffset
  | _, _, _, _, _, _ => pure none

def onMessages {α : Type} (m : Walk (List String) α) : Walk (BigPageTable × List String) α :=
  focus Prod.snd (fun messages state => (state.1, messages)) m

def keep (batch : ℕ) (bytes : List UInt8) (table : BigPageTable) : BigPageTable :=
  { table with batches := table.batches.set batch (some bytes) }

/-- One batch of entries, read on first touch and kept. -/
def batch (memory : PoolMemory) (batch : ℕ) :
    Walk (BigPageTable × List String) (Option (List UInt8)) := do
  let table ← Run.read fun w => w.state.1
  match table.batches[batch]? with
  | none => pure none
  | some (some bytes) => pure (some bytes)
  | some none =>
    checkBudget memory
    let first := batch * bigPageBatch
    let len := min bigPageBatch (table.count - first)
    match checkedMul table.entrySize len,
      checkedAdd table.base (wrappingMul first table.entrySize) with
    | some byteLen, some entryAddress => do
      let read ← onMessages (reported (guardedRead memory entryAddress byteLen)
        (fun error => (s!"cannot read big-page entries {first}..{first + len} at " ++
          s!"{hex entryAddress}: {error.text}")))
      -- an empty batch is still a batch: its failed read is not asked for again
      let bytes := read.getD []
      update fun state => (keep batch bytes state.1, state.2)
      pure (some bytes)
    | _, _ => Run.fail (.invalidData "big-page batch address overflow")

def lookupStep (memory : PoolMemory) (address index : ℕ) :
    Walk (BigPageTable × List String) (Flow ℕ (Option BigPageEntry)) := do
  let table ← Run.read fun w => w.state.1
  let offset := index % bigPageBatch * table.entrySize
  let some bytes ← batch memory (index / bigPageBatch)
    | pure (.stop none)
  -- the batch is short of this entry, so the chain ends here
  let some candidate := readU64 bytes (offset + table.vaOffset)
    | pure (.stop none)
  -- never used, so the allocator would have put the entry here rather than past it
  if candidate ≤ 1 then pure (.stop none)
  else if candidate = address then
    match readU32 bytes (offset + table.tagOffset), readU64 bytes (offset + table.sizeOffset) with
    | some tag, some size => pure (.stop (some { tag, size }))
    | _, _ => do
      onMessages (report s!"truncated big-page entry {index}")
      pure (.stop none)
  else pure (.again ((index + 1) % table.count))

def lookup (memory : PoolMemory) (address : ℕ) :
    Walk (BigPageTable × List String) (Option BigPageEntry) := do
  let table ← Run.read fun w => w.state.1
  match bigPageHash address table.count with
  | none => Run.fail (.invalidData s!"invalid big-page table size {table.count}")
  | some index => Run.loop (lookupStep memory address) (fun _ => none) table.count index

end BigPageTable

end DbgScope.Pool
