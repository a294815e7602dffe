import DbgScope.Machine
import DbgScope.Run

/-!
# Heap roots of a process

The heaps a process has are on a circular list `ntdll` keeps, reached through the process heap's own
entry on it; the process environment block names the process heap and, on builds that keep no list,
the others. `enumerateRoots` follows the list, checking every entry rather than trusting it. Each
time it asks whether to go on it takes one look at its surroundings; the state of a run is the
number of looks taken.
-/

namespace DbgScope.Heap

structure RootMemory where
  read : ℕ → ℕ → Except String (List UInt8)
  /-- A read answers all the bytes asked for or none. -/
  length_read : ∀ {address size bytes}, read address size = .ok bytes → bytes.length = size

/-- What a look at the surroundings sees: the interrupt flag, and the clock. -/
structure Look where
  interrupted : Except String Bool
  now : ℕ

inductive HeapKind
  | segment
  | nt
  | unknown
  | unreadable
  deriving DecidableEq, Repr

structure HeapRoot where
  index : ℕ
  address : ℕ
  kind : HeapKind
  supported : Bool
  reason : Option String
  deriving DecidableEq, Repr

inductive HeapQueryError
  | invalidPeb (text : String)
  | interrupted
  | engine (error : String)
  deriving DecidableEq, Repr

structure RootLayout where
  numberOfHeaps : ℕ
  processHeaps : ℕ
  segmentSignature : ℕ
  ntSignature : ℕ
  /-- Where each kind of heap names its entry on the list, when the symbols say. -/
  segmentEntry : Option ℕ
  ntEntry : Option ℕ
  deriving DecidableEq, Repr

structure RootEnumeration where
  roots : List HeapRoot
  /-- How many roots there are, when that was known before they were classified. -/
  total : Option ℕ
  budgetExpired : Bool
  /-- Why roots may exist that this enumeration did not see. -/
  unseen : Option String
  deriving DecidableEq, Repr

structure Range where
  start : ℕ
  stop : ℕ
  deriving DecidableEq, Repr

def Range.contains (range : Range) (address : ℕ) : Bool :=
  range.start ≤ address && address < range.stop

def segmentHeapSignature : ℕ := 0xddeeddee

def ntHeapSignature : ℕ := 0xeeffeeff

def maxProcessHeaps : ℕ := 4096

def listEntryHeap : ℕ := 0x10

section Readings

variable (memory : RootMemory) (layout : RootLayout)

def readU32 (address : ℕ) : Except String ℕ := (memory.read address 4).map fromLe

def readU64 (address : ℕ) : Except String ℕ := (memory.read address 8).map fromLe

def userPointer (address : ℕ) : Bool := 0x10000 ≤ address && address < 0x0000800000000000

def classifyRoot (segment nt : Except String ℕ) : HeapKind × Option String :=
  let isSegment : Bool := segment.toOption = some segmentHeapSignature
  let isNt : Bool := nt.toOption = some ntHeapSignature
  if isSegment ∧ isNt then
    (.unknown, some "root ambiguously matches both Segment and NT heap signatures")
  else if isSegment then
    (.segment, none)
  else if isNt then
    (.nt, some "classic NT heap decoding is outside the v1 Segment Heap walker")
  else
    match segment, nt with
    | .error segment, .error nt =>
      (.unreadable, some ("cannot read Segment signature (" ++ segment ++ ") or NT signature (" ++
        nt ++ ")"))
    | _, _ =>
      (.unknown, some "root matches neither the PDB-resolved Segment nor NT heap signature")

def readRootSignatures (address : ℕ) : Except String ℕ × Except String ℕ :=
  let startOffset := min layout.segmentSignature layout.ntSignature
  let endOffset := saturatingAdd (max layout.segmentSignature layout.ntSignature) 4
  match checkedAdd address startOffset with
  | none => (.error "heap signature address overflow", .error "heap signature address overflow")
  | some start =>
    match memory.read start (endOffset - startOffset) with
    | .error error => (.error error, .error error)
    | .ok bytes =>
      let decode (offset : ℕ) := fromLe ((bytes.drop (offset - startOffset)).take 4)
      (.ok (decode layout.segmentSignature), .ok (decode layout.ntSignature))

def classifyAt (address : ℕ) : HeapKind × Option String :=
  if address = 0 then
    (.unknown, some "null heap root")
  else if ¬ userPointer address then
    (.unknown, some "heap root is outside the user address range")
  else
    let signatures := readRootSignatures memory layout address
    classifyRoot signatures.1 signatures.2

def root (index address : ℕ) (classified : HeapKind × Option String) : HeapRoot where
  index := index
  address := address
  kind := classified.1
  supported := classified.1 = .segment
  reason := classified.2

def namedEntry (heap : ℕ) : Except String ℕ → Except String (Option ℕ)
  | .ok 0 => .ok none
  | .ok entry => .ok (some entry)
  | .error error => .error ("cannot read where heap " ++ hex heap ++ " names its entry: " ++ error)

def listEntryOf (heap : ℕ) (kind : HeapKind) : Except String (Option ℕ) :=
  let offset : Except String (Option ℕ) := match kind with
    | .segment => .ok layout.segmentEntry
    | .nt => .ok layout.ntEntry
    | .unknown | .unreadable =>
      .error ("heap " ++ hex heap ++ " is neither a Segment nor an NT heap, so where it names " ++
        "its entry is not known")
  match offset with
  | .error error => .error error
  | .ok none => .ok none
  | .ok (some offset) => namedEntry heap (readU64 memory (saturatingAdd heap offset))

def pebHeaps (peb : ℕ) : Except HeapQueryError (List ℕ) := do
  let count ← (readU32 memory (wrappingAdd peb layout.numberOfHeaps)).mapError .engine
  if count > maxProcessHeaps then
    throw (.invalidPeb ("NumberOfHeaps is " ++ toString count ++ ", maximum is " ++
      toString maxProcessHeaps))
  let array ← (readU64 memory (wrappingAdd peb layout.processHeaps)).mapError .engine
  if count ≠ 0 ∧ array = 0 then
    throw (.invalidPeb "ProcessHeaps is null while NumberOfHeaps is nonzero")
  if count = 0 then
    return []
  if ¬ userPointer array then
    throw (.invalidPeb ("ProcessHeaps " ++ hex array ++ " is outside the user address range"))
  let bytes ← (memory.read array (count * 8)).mapError .engine
  return (List.range count).map fun i => fromLe ((bytes.drop (8 * i)).take 8)

structure ListEntry where
  flink : ℕ
  blink : ℕ
  heap : ℕ
  deriving DecidableEq, Repr

def readEntry (entry : ℕ) : Except String ListEntry :=
  match memory.read entry 0x18 with
  | .error error => .error error
  | .ok links =>
    let word (index : ℕ) := fromLe ((links.drop (index * 8)).take 8)
    .ok ⟨word 0, word 1, word (listEntryHeap / 8)⟩

end Readings

/-! ## The enumeration -/

section Enumeration

variable (looks : ℕ → Look) (memory : RootMemory) (layout : RootLayout) (ntdll : Range)
  (deadline : Option ℕ)

def rootReadBudgetExpired : Run HeapQueryError ℕ Bool := fun taken =>
  (match (looks taken).interrupted with
    | .error error => .error (.engine error)
    | .ok true => .error .interrupted
    | .ok false => .ok (deadline.any (· ≤ (looks taken).now)), taken + 1)

structure ListWalk where
  found : RootEnumeration
  entry : ℕ
  previous : Option ℕ := none
  firstBlink : ℕ := 0
  visited : List ℕ := []
  heads : List ℕ := []

def broken (entry : ℕ) (why : String) : String :=
  "ntdll's heap list could not be followed past " ++ hex entry ++ ": " ++ why ++
    "; heaps after it are unknown, not absent"

def disowned (entry heap : ℕ) : Option String :=
  match listEntryOf memory layout heap (classifyAt memory layout heap).1 with
  | .ok (some named) => if named = entry then none else some ("names " ++ hex named ++ " instead")
  | .ok none => some "names no entry"
  | .error why => some why

def RootEnumeration.stopped (found : RootEnumeration) (why : String) : RootEnumeration :=
  { found with unseen := some why }

def closeList (start last : ℕ) (walk : ListWalk) : RootEnumeration :=
  if walk.firstBlink ≠ last then
    walk.found.stopped (broken start ("the first entry links back to " ++ hex walk.firstBlink ++
      " rather than to the last, " ++ hex last))
  else if walk.heads.length ≠ 1 then
    walk.found.stopped ("the heap list followed from the process heap has " ++
      toString walk.heads.length ++ " entries inside ntdll where a list has exactly one head, " ++
      "so it is not the list this walker knows; heaps it did not reach are unknown, not absent")
  else
    walk.found

def visitEntry (start : ℕ) (walk : ListWalk) (node : ListEntry) :
    Flow ListWalk (Option RootEnumeration) :=
  let entry := walk.entry
  let onward (walk' : ListWalk) : Flow ListWalk (Option RootEnumeration) :=
    let walk' := { walk' with
      entry := node.flink
      previous := some entry
      firstBlink := if walk.previous.isNone then node.blink else walk.firstBlink
      visited := entry :: walk.visited }
    if node.flink = start then .stop (some (closeList start entry walk')) else .again walk'
  match walk.previous.filter (node.blink ≠ ·) with
  | some previous =>
    .stop (some (walk.found.stopped (broken entry ("it links back to " ++ hex node.blink ++
      " rather than to " ++ hex previous))))
  | none =>
    if ntdll.contains entry then
      onward { walk with heads := walk.heads ++ [entry] }
    else
      match disowned memory layout entry node.heap with
      | some why =>
        .stop (some (walk.found.stopped (broken entry ("it stands for heap " ++ hex node.heap ++
          ", which " ++ why))))
      | none =>
        let index := walk.found.roots.length
        onward { walk with found := { walk.found with
          roots := walk.found.roots ++
            [root index node.heap (classifyAt memory layout node.heap)] } }

def passEntry (start : ℕ) (walk : ListWalk) : Flow ListWalk (Option RootEnumeration) :=
  if walk.entry ∈ walk.visited then
    .stop (some (walk.found.stopped (broken walk.entry
      ("the list comes back to it without returning to " ++ hex start))))
  else
    match readEntry memory walk.entry with
    | .error error =>
      .stop (some (walk.found.stopped (broken walk.entry ("the entry cannot be read: " ++ error))))
    | .ok node => visitEntry memory layout ntdll start walk node

def listRound (start : ℕ) (walk : ListWalk) :
    Run HeapQueryError ℕ (Flow ListWalk (Option RootEnumeration)) := do
  if ← rootReadBudgetExpired looks deadline then
    return .stop (some { walk.found with budgetExpired := true })
  else
    return passEntry memory layout ntdll start walk

/-- The rounds a walk is given: one more than there are addresses to visit. A walk that had not
ended by then would be `none`. -/
def listRounds : ℕ := 2 ^ 64 + 1

/-- Follow the list from the process heap's own entry. Answers whether there was a list to follow
and what was found. -/
def followHeapList (processHeap : ℕ) (found : RootEnumeration) :
    Run HeapQueryError ℕ (Option (Bool × RootEnumeration)) := do
  if layout.segmentEntry.isNone ∧ layout.ntEntry.isNone then
    return some (false, found)
  if ← rootReadBudgetExpired looks deadline then
    return some (true, { found with budgetExpired := true })
  match listEntryOf memory layout processHeap (classifyAt memory layout processHeap).1 with
  | .ok none => return some (false, found)
  | .error why =>
    return some (true, found.stopped ("the process heap could not say where ntdll's heap list " ++
      "is (" ++ why ++ "), so heaps the PEB does not name are unknown, not absent"))
  | .ok (some start) =>
    let ended ← Run.loop (listRound looks memory layout ntdll deadline start) (fun _ => none)
      listRounds { found := found, entry := start }
    return ended.map (true, ·)

def addNamed (onList : List ℕ) (found : RootEnumeration) (address : ℕ) :
    Run HeapQueryError ℕ RootEnumeration := do
  if found.budgetExpired then
    return found
  if address ∈ onList then
    return found
  if ← rootReadBudgetExpired looks deadline then
    return { found with budgetExpired := true }
  return { found with roots := found.roots ++
    [root found.roots.length address (classifyAt memory layout address)] }

def addNamedRoots (named : List ℕ) (followed : Option (Bool × RootEnumeration)) :
    Run HeapQueryError ℕ (Option RootEnumeration) :=
  match followed with
  | none => pure none
  | some (listed, found) =>
    if found.budgetExpired then
      pure (some found)
    else do
      let found := if listed then found else { found with total := some named.length }
      let onList := found.roots.map (·.address)
      let found ← Run.fold (addNamed looks memory layout deadline onList) named found
      return some found

/-- Every heap root in the process: those on the list in its order, then those the environment
block names besides. `none` would be a list walk that does not end. -/
def enumerateRoots (peb : ℕ) : Run HeapQueryError ℕ (Option RootEnumeration) := do
  let found : RootEnumeration := ⟨[], none, false, none⟩
  if ← rootReadBudgetExpired looks deadline then
    return some { found with budgetExpired := true }
  else
    let named ← Run.lift (pebHeaps memory layout peb)
    let followed ← match named with
      | processHeap :: _ => followHeapList looks memory layout ntdll deadline processHeap found
      | [] => pure (some (false, found))
    addNamedRoots looks memory layout deadline named followed

end Enumeration

end DbgScope.Heap
