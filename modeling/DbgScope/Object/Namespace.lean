import DbgScope.Object.Upcase

/-!
# The object namespace of a kernel

A directory is an array of hash buckets, each a chain of entries, each pointing at an object body.
`objectAt` resolves a path a component at a time, enumerating each directory on the way; `objectsIn`
lists one. An entry that cannot be read is skipped and counted. Every chain is bounded, and reaching
a bound is an error; the failure `none` is that of the model, for a loop that has used up its
rounds.
-/

namespace DbgScope.Object

open Run

inductive ObjectError
  | unreadable (address len : ℕ)
  | malformed (reason : String)
  | badPath (path reason : String)
  | notFound (directory component : String)
  | notADirectory (component rest : String)
  | untyped (component : String)
  | unavailable (what : String)
  | tooMany (what : String) (bound : ℕ)
  | halted (what : String)
  | notFoundInPart (directory component : String) (unreadable malformed : ℕ)
  deriving DecidableEq, Repr

def maxEntries : ℕ := 65536

def maxComponents : ℕ := 32

def maxNameBytes : ℕ := 1024

def maxStructure : ℕ := 4096

def maxBuckets : ℕ := 1024

def directoryType : String := "Directory"

def rootSymbol : String := "nt!ObpRootDirectoryObject"

def offsetsSymbol : String := "nt!ObpInfoMaskToOffset"

def infoMaskName : ℕ := 0x02

structure Layout where
  pointer : ℕ
  buckets : ℕ
  hashBuckets : ℕ
  entryChain : ℕ
  entryObject : ℕ
  headerBody : ℕ
  headerTypeIndex : ℕ
  headerInfoMask : ℕ
  headerSecurity : ℕ
  nameInfoName : ℕ
  nameInfoSize : ℕ
  unicodeLength : ℕ
  unicodeBuffer : ℕ
  linkTarget : ℕ
  linkFlags : ℕ
  typeName : ℕ
  deriving DecidableEq, Repr

def Layout.check (layout : Layout) : Except ObjectError Unit :=
  let fields := [layout.hashBuckets, layout.entryChain, layout.entryObject, layout.headerBody,
    layout.headerTypeIndex, layout.headerInfoMask, layout.headerSecurity, layout.nameInfoName,
    layout.nameInfoSize, layout.unicodeLength, layout.unicodeBuffer, layout.linkTarget,
    layout.linkFlags, layout.typeName]
  let unicode := layout.unicodeBuffer + layout.pointer
  if layout.pointer ≠ 4 ∧ layout.pointer ≠ 8 then
    .error (.malformed "a pointer on this target is neither four bytes nor eight")
  else if layout.buckets = 0 ∨ maxBuckets < layout.buckets then
    .error (.malformed "a directory's bucket count is not one a directory has")
  else if fields.any (maxStructure < ·) then
    .error (.malformed "a field sits further into its structure than any of these reach")
  else if unicode < layout.unicodeLength + 4 then
    .error (.malformed "a UNICODE_STRING's lengths sit outside the structure")
  else if layout.nameInfoSize < layout.nameInfoName + unicode then
    .error (.malformed "a name header's string sits outside the name header")
  else
    .ok ()

/-- The globals a walk starts from, where the target resolves them. -/
structure Globals where
  root : Option ℕ
  infoMaskToOffset : Option ℕ
  headerCookie : Option ℕ
  typeIndexTable : Option ℕ
  upcase : Option UpcaseTable
  deriving DecidableEq, Repr

structure KernelObject where
  address : ℕ
  name : String
  /-- Whether `name` is the object's name, or only shows it. -/
  exactName : Bool
  typeName : Option String
  securityDescriptor : Option ℕ
  deriving DecidableEq, Repr

/-- What a directory holds, and how much of it could not be read. -/
structure Listing where
  objects : List KernelObject := []
  unreadable : ℕ := 0
  malformed : ℕ := 0
  halted : Bool := false
  deriving DecidableEq, Repr

/-- The whole directory: every entry reached, and every one of them presented. -/
def Listing.isComplete (listing : Listing) : Bool :=
  !listing.halted && listing.unreadable + listing.malformed == 0

/-- The namespace, over some memory and a layout that has been checked. -/
structure Namespace (W : Type) where
  memory : Memory W
  layout : Layout
  globals : Globals
  halt : Option (W → Bool × W)
  /-- One code unit through the host's upcase table. -/
  onHost : ℕ → ℕ
  checked : layout.check = .ok ()

abbrev Walk (W α : Type) := Run (Option ObjectError) (World W) α

def componentsOf (path : String) : Except ObjectError (List String) :=
  let separator := '\\'
  if path.toList.head? ≠ some separator then
    .error (.badPath path "an object path begins at the root, with a backslash")
  else if path = "\\" then
    .ok []
  else
    let body := if path.toList.getLast? = some separator then path.toList.dropLast
      else path.toList
    let parts := (body.drop 1).splitOn separator
    if parts.any List.isEmpty then
      .error (.badPath path "it has a component with no name in it")
    else if maxComponents < parts.length then
      .error (.badPath path "it has more components than the namespace is deep")
    else
      .ok (parts.map String.ofList)

def unitsOf : List UInt8 → List ℕ
  | low :: high :: rest => fromLe [low, high] :: unitsOf rest
  | _ => []

/-- The text of a run of code units, and whether it is the name or only shows it. -/
def utf16 (units : List ℕ) : String × Bool := (Utf16.render units, Utf16.wellFormed units)

/-- The bodies gathered from a directory, and how many links were followed for them. -/
structure Gathered where
  bodies : List ℕ := []
  followed : ℕ := 0
  halted : Bool := false

namespace Namespace

variable {W : Type} (ns : Namespace W)

def upcase : Upcase W where
  memory := ns.memory
  target := ns.globals.upcase.map (⟨·, ns.layout.pointer⟩)
  onHost := ns.onHost

def stopped : Walk W Bool := fun w =>
  match ns.halt with
  | none => (.ok false, w)
  | some halt => (.ok (halt w.target).1, { w with target := (halt w.target).2 })

def needs (global : Option ℕ) (what : String) : Walk W ℕ :=
  match global with
  | some address => pure address
  | none => Run.fail (some (.unavailable what))

def read (address len : ℕ) : Walk W (List UInt8) := do
  match ← callRead ns.memory address len with
  | some bytes =>
    if len ≤ bytes.length then pure bytes else Run.fail (some (.unreadable address len))
  | none => Run.fail (some (.unreadable address len))

def readByte (address : ℕ) : Walk W ℕ := do
  let bytes ← ns.read address 1
  return (bytes.headD 0).toNat

def pointerAt (address : ℕ) : Walk W ℕ := do
  let bytes ← ns.read address ns.layout.pointer
  if ns.layout.pointer = 4 ∨ ns.layout.pointer = 8 then
    return fromLe (bytes.take ns.layout.pointer)
  else
    Run.fail (some (.malformed "a pointer on this target is neither four bytes nor eight"))

def fieldAt (bytes : List UInt8) (offset : ℕ) : Walk W ℕ :=
  match firstChunk 2 (bytes.drop offset) with
  | some value => pure value
  | none =>
    Run.fail (some (.malformed "a field sits outside the structure this layout describes"))

/-! ## The entries of a directory -/

def chainRound (state : ℕ × Gathered) : Walk W (Flow (ℕ × Gathered) (Option Gathered)) :=
  if state.1 = 0 then
    return .stop (some state.2)
  else do
    if ← ns.stopped then
      return .stop (some { state.2 with halted := true })
    else if maxEntries < state.2.followed + 1 then
      Run.fail (some (.tooMany "a directory's entries" maxEntries))
    else
      let object ← ns.pointerAt (wrappingAdd state.1 ns.layout.entryObject)
      let next ← ns.pointerAt (wrappingAdd state.1 ns.layout.entryChain)
      return .again (next, { state.2 with
        bodies := if object = 0 then state.2.bodies else state.2.bodies ++ [object]
        followed := state.2.followed + 1 })

def followChain (entry : ℕ) (gathered : Gathered) : Walk W Gathered := do
  match ← Run.loop ns.chainRound (fun _ => none) (maxEntries + 2) (entry, gathered) with
  | some gathered => pure gathered
  | none => Run.fail none

def bucketAddress (directory bucket : ℕ) : ℕ :=
  wrappingAdd (wrappingAdd directory ns.layout.hashBuckets) (bucket * ns.layout.pointer)

def bucketRound (directory : ℕ) (gathered : Gathered) (bucket : ℕ) : Walk W Gathered :=
  if gathered.halted then
    pure gathered
  else do
    if ← ns.stopped then
      return { gathered with halted := true }
    else
      let entry ← ns.pointerAt (ns.bucketAddress directory bucket)
      ns.followChain entry gathered

def entriesOf (directory : ℕ) : Walk W Gathered :=
  Run.fold (ns.bucketRound directory) (List.range ns.layout.buckets) {}

/-! ## An object -/

def headerOf (body : ℕ) : ℕ := wrappingSub body ns.layout.headerBody

def unicodeAt (address bound : ℕ) (what : String) : Walk W (String × Bool) := do
  let size := ns.layout.unicodeBuffer + ns.layout.pointer
  let bytes ← ns.read address size
  let length ← fieldAt bytes ns.layout.unicodeLength
  let maximum ← fieldAt bytes (ns.layout.unicodeLength + 2)
  if maximum < length then
    Run.fail (some (.malformed "a UNICODE_STRING is longer than its own maximum"))
  else
    let buffer ← ns.pointerAt (wrappingAdd address ns.layout.unicodeBuffer)
    if length = 0 then
      return ("", true)
    else if buffer = 0 then
      Run.fail (some (.malformed "a UNICODE_STRING has a length and no buffer"))
    else if length % 2 ≠ 0 then
      Run.fail (some (.malformed
        "a UNICODE_STRING's length is not a whole number of UTF-16 units"))
    else if bound < length then
      Run.fail (some (.tooMany what bound))
    else
      let raw ← ns.read buffer length
      return utf16 (unitsOf (raw.take length))

/-- An object's own name; `none` is an object filed under no name at all. -/
def nameOf (body : ℕ) : Walk W (Option (String × Bool)) := do
  let header := ns.headerOf body
  let mask ← ns.readByte (wrappingAdd header ns.layout.headerInfoMask)
  if mask &&& infoMaskName = 0 then
    return none
  else
    let index := mask &&& (infoMaskName ||| (infoMaskName - 1))
    let offsets ← needs ns.globals.infoMaskToOffset offsetsSymbol
    let distance ← ns.readByte (wrappingAdd offsets index)
    if distance < ns.layout.nameInfoSize then
      Run.fail (some (.malformed "the name header's distance is shorter than the name header"))
    else
      let nameInfo := wrappingSub header distance
      let name ← ns.unicodeAt (wrappingAdd nameInfo ns.layout.nameInfoName) maxNameBytes
        "an object name"
      return some name

def securityOf (body : ℕ) : Walk W (Option ℕ) := do
  let counted := 2 * ns.layout.pointer - 1
  let field ← ns.pointerAt (wrappingAdd (ns.headerOf body) ns.layout.headerSecurity)
  let descriptor := field &&& complement counted
  return if descriptor = 0 then none else some descriptor

def typeThrough (body cookie table : ℕ) : Walk W (Option String) := do
  let header := ns.headerOf body
  let raw ← ns.readByte (wrappingAdd header ns.layout.headerTypeIndex)
  let cookie ← ns.readByte cookie
  let index := raw ^^^ cookie ^^^ (header / 2 ^ 8 % 2 ^ 8)
  let entry ← ns.pointerAt (wrappingAdd table (index * ns.layout.pointer))
  if entry = 0 then
    return none
  else
    let name ← ns.unicodeAt (wrappingAdd entry ns.layout.typeName) maxNameBytes "a type name"
    return if name.1 = "" then none else some name.1

def typeOf (body : ℕ) : Walk W (Option String) :=
  match ns.globals.headerCookie, ns.globals.typeIndexTable with
  | some cookie, some table => do
    match ← Run.attempt (ns.typeThrough body cookie table) with
    | .ok typeName => pure typeName
    | .error _ => pure none
  | _, _ => pure none

/-! ## A directory, named -/

def counting (listing : Listing) (error : Option ObjectError) : Walk W Listing :=
  match error with
  | some (.unreadable _ _) => pure { listing with unreadable := listing.unreadable + 1 }
  | some (.malformed _) => pure { listing with malformed := listing.malformed + 1 }
  | fatal => Run.fail fatal

def entryRound (listing : Listing) (body : ℕ) : Walk W Listing :=
  if listing.halted then
    pure listing
  else do
    if ← ns.stopped then
      return { listing with halted := true }
    else
      match ← Run.attempt (ns.nameOf body) with
      | .error error => counting listing error
      | .ok none => pure listing
      | .ok (some (name, exactName)) =>
        match ← Run.attempt (ns.securityOf body) with
        | .error error => counting listing error
        | .ok securityDescriptor =>
          let typeName ← ns.typeOf body
          return { listing with
            objects := listing.objects ++ [⟨body, name, exactName, typeName, securityDescriptor⟩] }

def namedIn (directory : ℕ) : Walk W Listing := do
  let gathered ← ns.entriesOf directory
  Run.fold ns.entryRound gathered.bodies { halted := gathered.halted }

/-! ## Paths -/

def findNamed (component : String) : List KernelObject → Walk W (Option KernelObject)
  | [] => pure none
  | object :: objects =>
    if object.exactName then do
      if ← ns.upcase.sameName object.name component then
        return some object
      else
        findNamed component objects
    else
      findNamed component objects

def lookupIn (directory : ℕ) (walked component : String) : Walk W KernelObject := do
  let listing ← ns.namedIn directory
  if listing.halted then
    Run.fail (some (.halted component))
  else
    match ← ns.findNamed component listing.objects with
    | some found => pure found
    | none =>
      if listing.unreadable = 0 ∧ listing.malformed = 0 then
        Run.fail (some (.notFound walked component))
      else
        Run.fail (some (.notFoundInPart walked component listing.unreadable listing.malformed))

def requireDirectory (found : KernelObject) (component rest : String) : Walk W Unit :=
  match found.typeName with
  | some typeName =>
    if typeName = directoryType then pure ()
    else Run.fail (some (.notADirectory component rest))
  | none => Run.fail (some (.untyped component))

def deeper (walked component : String) : String :=
  (if 1 < walked.length then walked ++ "\\" else walked) ++ component

def descend : List String → ℕ → String → String → Walk W KernelObject
  | [], directory, walked, component => ns.lookupIn directory walked component
  | next :: rest, directory, walked, component => do
    let found ← ns.lookupIn directory walked component
    requireDirectory found component ("\\".intercalate (next :: rest))
    descend rest found.address (deeper walked component) next

def rootDirectory : Walk W ℕ := do
  let root ← needs ns.globals.root rootSymbol
  ns.pointerAt root

def objectAt (path : String) : Walk W KernelObject := do
  let components ← Run.lift ((componentsOf path).mapError some)
  match components with
  | [] =>
    Run.fail (some (.badPath path "it names the root directory rather than an object in it"))
  | component :: rest =>
    let directory ← ns.rootDirectory
    if directory = 0 then
      Run.fail (some (.malformed "the root directory pointer is null"))
    else
      ns.descend rest directory "\\" component

def directoryAt (path : String) (components : List String) : Walk W ℕ :=
  if components.isEmpty then
    ns.rootDirectory
  else do
    let found ← ns.objectAt path
    requireDirectory found found.name ""
    return found.address

def objectsIn (path : String) : Walk W Listing := do
  let components ← Run.lift ((componentsOf path).mapError some)
  let directory ← ns.directoryAt path components
  ns.namedIn directory

end Namespace

end DbgScope.Object
