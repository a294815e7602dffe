import DbgScope.Run
import DbgScope.Pool.Layout

/-!
# The target, and reading it

`src/pool/snapshot.rs`, the part below every walk: the errors a walk raises, the memory it reads,
the poll that may end it, and the guarded reads discovery is made of. A target answers each call as
a function of the calls made so far. The history also records what a call led to: a failure nobody
reported, a traversal the limit cut, a range handed to a decoder or filed as a gap. Nothing in the
walk reads it back.
-/

namespace DbgScope.Pool

inductive SnapshotError where
  | read (address size : ℕ) (source : String)
  | regionQuery (address size : ℕ) (source : String)
  | regionValidation (address size validBase validSize : ℕ)
  | layout (source : LayoutError)
  | interrupted
  | budgetExpired
  | interruptQuery (source : String)
  | invalidData (detail : String)
  deriving DecidableEq

namespace SnapshotError

def text : SnapshotError → String
  | .read address size source => s!"read at {hex address}+{hex size}: {source}"
  | .regionQuery address size source =>
    s!"valid-region query at {hex address}+{hex size}: {source}"
  | .regionValidation address size validBase validSize =>
    s!"sparse virtual range at {hex address}+{hex size} (valid {hex validBase}+{hex validSize})"
  | .layout source => s!"snapshot layout lookup failed: {source.text}"
  | .interrupted => "pool snapshot interrupted by Ctrl+C"
  | .budgetExpired => "pool snapshot ran out of its walk budget"
  | .interruptQuery source => s!"interrupt-status query failed: {source}"
  | .invalidData detail => s!"invalid snapshot data: {detail}"

/-- Whether this ends the whole walk rather than one step of it. -/
def haltsWalk : SnapshotError → Bool
  | .interrupted | .budgetExpired => true
  | _ => false

end SnapshotError

def missingLayout (item : String) : SnapshotError := .layout (.missing item)

/-! ## The target -/

/-- One run of address space the memory manager describes the same way. -/
structure CommitRun where
  /-- One past the last byte of the run: the source's `end`. -/
  runEnd : ℕ
  committed : Bool
  deriving DecidableEq

/-- The linked structures a traversal limit bounds. -/
inductive Traversal where
  | tree
  | slist
  | segmentList
  | vsExtent
  deriving DecidableEq

/-- What a walk did, in the order it did it. -/
inductive Event where
  /-- A poll of the interrupt and the clock, and what it raised. -/
  | poll (raised : Option SnapshotError)
  | validRegion (address size : ℕ) (failure : Option SnapshotError)
  | readExact (address size : ℕ) (failure : Option SnapshotError)
  | committedRun (address : ℕ)
  /-- A guarded read or a scalar failed. -/
  | fault (address size : ℕ)
  /-- The failure just recorded was dropped by the code that met it. -/
  | dropped (address size : ℕ)
  /-- The traversal limit left part of a structure unvisited. -/
  | capped (what : Traversal)
  /-- A range was handed to a backend decoder as a read extent. -/
  | decoded (address stop : ℕ)
  /-- A range was handed to `unreadable`. -/
  | filed (address stop : ℕ)
  deriving DecidableEq

abbrev History := List Event

/-- The source's `PoolMemory`, answering as a function of the calls made before. -/
structure PoolMemory where
  readExact : History → ℕ → ℕ → Except SnapshotError (List UInt8)
  validRegion : History → ℕ → ℕ → Except SnapshotError (ℕ × ℕ)
  interrupted : History → Except SnapshotError Bool
  outOfBudget : History → Bool
  committedRun : History → ℕ → Option CommitRun

/-- A memory source with a deadline attached, read off the clock `now`. -/
def budgeted (now : History → ℕ) (inner : PoolMemory) (deadline : Option ℕ) : PoolMemory :=
  { inner with
    outOfBudget := fun h =>
      (match deadline with | some deadline => decide (deadline ≤ now h) | none => false) ||
        inner.outOfBudget h }

/-! ## Calls -/

/-- What has happened so far, and the value the code is building. -/
structure World (S : Type) where
  history : History
  state : S

variable {S α : Type}

def World.note (w : World S) (event : Event) : World S :=
  { w with history := w.history ++ [event] }

@[simp] theorem World.note_state (w : World S) (event : Event) : (w.note event).state = w.state :=
  rfl

@[simp] theorem World.note_history (w : World S) (event : Event) :
    (w.note event).history = w.history ++ [event] := rfl

abbrev Walk (S α : Type) := Run SnapshotError (World S) α

def failureOf (result : Except SnapshotError α) : Option SnapshotError :=
  match result with
  | .ok _ => none
  | .error error => some error

def note (event : Event) : Walk S Unit := Run.modify fun w => w.note event

def update (f : S → S) : Walk S Unit := Run.modify fun w => { w with state := f w.state }

def focus {T : Type} (get : S → T) (put : T → S → S) (m : Walk T α) : Walk S α :=
  Run.zoom (fun w => { history := w.history, state := get w.state })
    (fun v w => { history := v.history, state := put v.state w.state }) m

variable (layout : PoolLayout) (memory : PoolMemory)

def callReadExact (address size : ℕ) : Walk S (List UInt8) := fun w =>
  let answer := memory.readExact w.history address size
  (answer, w.note (.readExact address size (failureOf answer)))

def callValidRegion (address size : ℕ) : Walk S (ℕ × ℕ) := fun w =>
  let answer := memory.validRegion w.history address size
  (answer, w.note (.validRegion address size (failureOf answer)))

def callCommittedRun (address : ℕ) : Walk S (Option CommitRun) := fun w =>
  (.ok (memory.committedRun w.history address), w.note (.committedRun address))

def pollOutcome (h : History) : Except SnapshotError Unit :=
  match memory.interrupted h with
  | .error error => .error error
  | .ok true => .error .interrupted
  | .ok false => if memory.outOfBudget h then .error .budgetExpired else .ok ()

/-- The one place a walk asks whether it is still allowed to run. -/
def checkBudget : Walk S Unit := fun w =>
  let answer := pollOutcome memory w.history
  (answer, w.note (.poll (failureOf answer)))

/-- A read as discovery issues it: its failure is recorded, and then raised as it is. -/
def observed (address size : ℕ) (read : Walk S α) : Walk S α := fun w =>
  match read w with
  | (.ok a, w') => (.ok a, w')
  | (.error error, w') => (.error error, w'.note (.fault address size))

/-- The reads behind `guardedRead` and `scalar`. -/
def guardedBytes (address size : ℕ) : Walk S (List UInt8) :=
  if size = 0 then pure []
  else do
    let (validBase, validSize) ← callValidRegion memory address size
    if validBase ≠ address ∨ validSize < size then
      Run.fail (.regionValidation address size validBase validSize)
    else callReadExact memory address size

def guardedRead (address size : ℕ) : Walk S (List UInt8) :=
  observed address size (guardedBytes memory address size)

/-- A little-endian number of one of the four widths. -/
def scalarOf (size : ℕ) (bytes : List UInt8) : Except SnapshotError ℕ :=
  match size with
  | 1 => match bytes.head? with
    | some byte => .ok byte.toNat
    | none => .error (.invalidData "short u8")
  | 2 => if bytes.length = 2 then .ok (fromLe bytes) else .error (.invalidData "short u16")
  | 4 => if bytes.length = 4 then .ok (fromLe bytes) else .error (.invalidData "short u32")
  | 8 => if bytes.length = 8 then .ok (fromLe bytes) else .error (.invalidData "short u64")
  | size => .error (.invalidData s!"unsupported scalar size {size}")

/-- The reads behind `scalar`. -/
def scalarBytes (address size : ℕ) : Walk S ℕ := do
  let bytes ← guardedBytes memory address size
  Run.lift (scalarOf size bytes)

def scalar (address size : ℕ) : Walk S ℕ :=
  observed address size (scalarBytes memory address size)

def typeLayoutOf (name : TypeName) : Walk S TypeLayout :=
  Run.lift ((layout.typeLayout name).mapError .layout)

def fieldOf (typeName : TypeName) (name : FieldName) : Walk S ℕ :=
  Run.lift ((layout.field typeName name).mapError .layout)

def poolHeaderLayoutOf : Walk S PoolHeaderLayout :=
  Run.lift (layout.poolHeaderLayout.mapError .layout)

end DbgScope.Pool
