import DbgScope.Machine
import DbgScope.Run

/-!
# The imports of a loaded image

A loaded image is read through a reader that may have holes in it. `readImports` walks the import
directory a descriptor at a time, and the lookup table of each library a thunk at a time, naming
the slots of the import address table without reading one. Every bound refuses rather than
truncates.

The reader and the halt closure may keep a state of their own, of which nothing is assumed.
-/

namespace DbgScope.Pe

inductive PeError
  | unreadable (address len : ℕ)
  | notAnImage (reason : String)
  | malformed (reason : String)
  | interrupted
  deriving DecidableEq, Repr

inductive Bitness
  | bits32
  | bits64
  deriving DecidableEq, Repr

def Bitness.pointer : Bitness → ℕ
  | .bits32 => 4
  | .bits64 => 8

theorem Bitness.pointer_pos (bitness : Bitness) : 0 < bitness.pointer := by
  cases bitness <;> decide

structure Section where
  name : String
  rva : UInt32
  virtualSize : UInt32
  characteristics : UInt32
  deriving DecidableEq

/-- The headers of an image; a directory is its offset and its size. -/
structure Image where
  base : UInt64
  bitness : Bitness
  machine : UInt16
  sizeOfImage : UInt32
  sectionAlignment : UInt32
  sections : List Section
  exportDirectory : UInt32 × UInt32
  importDirectory : UInt32 × UInt32
  iatDirectory : UInt32 × UInt32
  deriving DecidableEq

inductive ImportName
  | named (name : String)
  | ordinal (ordinal : ℕ)
  deriving DecidableEq, Repr

structure Import where
  library : String
  name : ImportName
  slot : ℕ
  deriving DecidableEq, Repr

structure ImportTable where
  imports : List Import := []
  /-- Libraries whose imports could not be named. -/
  unnamedLibraries : List String := []
  deriving DecidableEq, Repr

def maxLibraries : ℕ := 64

def maxImportsPerLibrary : ℕ := 8192

def maxImportsTotal : ℕ := 16 * 1024

def maxName : ℕ := 512

def nameReadGranule : ℕ := 0x200

/-! ## Fields of a buffer -/

/-- A little-endian field, refused where the buffer is too short to hold it. -/
def fieldAt (width : ℕ) (reason : String) (bytes : List UInt8) (offset : ℕ) : Except PeError ℕ :=
  if offset + width ≤ bytes.length then .ok (fromLe ((bytes.drop offset).take width))
  else .error (.malformed reason)

def u32 : List UInt8 → ℕ → Except PeError ℕ := fieldAt 4 "short read of a 32-bit field"

def u64At : List UInt8 → ℕ → Except PeError ℕ := fieldAt 8 "short read of a 64-bit field"

/-! ## Addresses -/

def va (base offset len : ℕ) : Except PeError ℕ :=
  match checkedAdd base offset with
  | none => .error (.malformed "an image address overflowed")
  | some start =>
    match checkedAdd start len with
    | none => .error (.malformed "an image address overflowed")
    | some _ => .ok start

def Image.checkedVa (image : Image) (rva len : ℕ) : Except PeError ℕ :=
  match checkedAdd rva len with
  | none => .error (.malformed "an image offset and length overflowed")
  | some stop =>
    if image.sizeOfImage.toNat ≤ rva ∨ image.sizeOfImage.toNat < stop then
      .error (.malformed "an image offset points outside the image")
    else va image.base.toNat rva len

def declaredFits (rva len sizeOfImage : ℕ) (reason : String) : Except PeError Unit :=
  if saturatingAdd rva len ≤ sizeOfImage then .ok () else .error (.malformed reason)

def narrow (rva : ℕ) (reason : String) : Except PeError ℕ :=
  if rva < 2 ^ 32 then .ok rva else .error (.malformed reason)

/-! ## Reads -/

/-- The closures a caller hands in. -/
structure Target (W : Type) where
  read : ℕ → ℕ → W → Option (List UInt8) × W
  halt : W → Bool × W

section Reads

variable {W : Type} (target : Target W) (image : Image)

def checkHalt : Run PeError W Unit := fun w =>
  ((if (target.halt w).1 then .error .interrupted else .ok ()), (target.halt w).2)

def readAt (address len : ℕ) : Run PeError W (List UInt8) := fun w =>
  (match (target.read address len w).1 with
    | some bytes => .ok bytes
    | none => .error (.unreadable address len), (target.read address len w).2)

def clippedReader (rva len : ℕ) : Run PeError W (List UInt8) := do
  let room := image.sizeOfImage.toNat - rva
  let len := min len room
  let address ← Run.lift (image.checkedVa rva len)
  readAt target address len

def nameRound (rva : ℕ) (raw : List UInt8) : Run PeError W (Flow (List UInt8) (Option String)) :=
  if maxName ≤ raw.length then
    pure (.stop none)
  else do
    let taken ← Run.lift (narrow raw.length
      "an import or library name runs past the length a name may have")
    let here ← Run.lift (narrow (rva + taken)
      "an import name runs past the end of a 32-bit image offset")
    let want := min (nameReadGranule - here % nameReadGranule) (maxName - raw.length)
    let chunk ← clippedReader target image here want
    if chunk.isEmpty then
      -- The image ended before the name did.
      pure (.stop none)
    else
      match chunk.findIdx? (· == 0) with
      | some stop =>
        match String.fromUTF8? ⟨(raw ++ chunk.take stop).toArray⟩ with
        | some name => pure (.stop (some name))
        | none => Run.fail (.malformed "an import or library name is not text")
      | none => pure (.again (raw ++ chunk))

/-- A name, read up to its terminator. A round adds a byte or is the last, so that the rounds
allowed are never used up. -/
def readCString (rva : ℕ) : Run PeError W String :=
  if rva = 0 then
    Run.fail (.malformed "a name at RVA zero, which is the image's header rather than a string")
  else do
    match ← Run.loop (nameRound target image rva) (fun _ => none) (maxName + 1) [] with
    | some name => pure name
    | none =>
      Run.fail (.malformed "an import or library name runs past the length a name may have")

end Reads

/-! ## The table -/

structure Descriptor where
  lookup : ℕ
  stamp : ℕ
  forwarder : ℕ
  nameRva : ℕ
  iat : ℕ
  deriving DecidableEq

def Descriptor.null : Descriptor := ⟨0, 0, 0, 0, 0⟩

def readDescriptor {W : Type} (descriptors : List UInt8) (offset : ℕ) :
    Run PeError W Descriptor := do
  let lookup ← Run.lift (u32 descriptors offset)
  let nameRva ← Run.lift (u32 descriptors (offset + 12))
  let iat ← Run.lift (u32 descriptors (offset + 16))
  let stamp ← Run.lift (u32 descriptors (offset + 4))
  let forwarder ← Run.lift (u32 descriptors (offset + 8))
  return ⟨lookup, stamp, forwarder, nameRva, iat⟩

def ordinalFlag : Bitness → ℕ
  | .bits32 => 2 ^ 31
  | .bits64 => 2 ^ 63

/-- What is kept from import to import: the table so far, and the slots it claims. A slot belongs
to one import. -/
structure Claims where
  table : ImportTable
  claimed : List ℕ
  claimed_eq : claimed = table.imports.map (·.slot)
  nodup : claimed.Nodup

def Claims.empty : Claims := ⟨{}, [], rfl, List.nodup_nil⟩

/-- A library whose imports cannot be named claims no slot. -/
def Claims.unnamed (claims : Claims) (library : String) : Claims where
  table := { claims.table with unnamedLibraries := claims.table.unnamedLibraries ++ [library] }
  claimed := claims.claimed
  claimed_eq := claims.claimed_eq
  nodup := claims.nodup

def Claims.add (claims : Claims) (entry : Import) (h : entry.slot ∉ claims.claimed) : Claims where
  table := { claims.table with imports := claims.table.imports ++ [entry] }
  claimed := claims.claimed ++ [entry.slot]
  claimed_eq := by simp [claims.claimed_eq]
  nodup := by
    rw [List.nodup_append]
    refine ⟨claims.nodup, List.nodup_singleton _, fun a ha b hb hab => h ?_⟩
    rwa [← List.mem_singleton.mp hb, ← hab]

section Table

variable {W : Type} (target : Target W) (image : Image)

def thunkName (value : ℕ) : Run PeError W ImportName :=
  let flag := ordinalFlag image.bitness
  if value &&& flag ≠ 0 then
    if value &&& complement (flag ||| 0xffff) ≠ 0 then
      Run.fail (.malformed
        "an ordinal import sets bits that are neither its flag nor its ordinal")
    else
      pure (.ordinal (value &&& 0xffff))
  else do
    let hint ← Run.lift (narrow value "an import name table entry is not a 32-bit image offset")
    let nameRva ← Run.lift (narrow (hint + 2)
      "an import name's hint runs past the end of a 32-bit image offset")
    let name ← readCString target image nameRva
    return .named name

def thunkValue (entry : List UInt8) : Except PeError ℕ :=
  match image.bitness with
  | .bits32 => u32 entry 0
  | .bits64 => u64At entry 0

def claim (claims : Claims) (entry : Import) : Except PeError Claims :=
  if h : entry.slot ∈ claims.claimed then
    .error (.malformed "two imports claim the same import address table slot")
  else if maxImportsTotal ≤ claims.table.imports.length then
    .error (.malformed "the image imports more functions in total than a plausible one does")
  else
    .ok (claims.add entry h)

def slotRound (library : String) (lookup iat : ℕ) (state : ℕ × Claims) :
    Run PeError W (Flow (ℕ × Claims) (Option Claims)) := do
  checkHalt target
  let pointer := image.bitness.pointer
  let offset := state.1 * pointer
  let slotRva ← Run.lift (narrow (iat + offset)
    "an import address table entry lies outside a 32-bit image offset")
  let slot ← Run.lift (image.checkedVa slotRva pointer)
  let entryRva ← Run.lift (narrow (lookup + offset)
    "an import lookup table entry lies outside a 32-bit image offset")
  let entry ← clippedReader target image entryRva pointer
  let value ← Run.lift (thunkValue image entry)
  if value = 0 then
    return .stop (some state.2)
  else
    let name ← thunkName target image value
    let claims ← Run.lift (claim state.2 ⟨library, name, slot⟩)
    return .again (state.1 + 1, claims)

def readLibrary (descriptor : Descriptor) (claims : Claims) : Run PeError W Claims :=
  if descriptor.nameRva = 0 then
    Run.fail (.malformed "an import descriptor names no library")
  else if descriptor.iat = 0 then
    Run.fail (.malformed "an import descriptor has no import address table")
  else do
    let library ← readCString target image descriptor.nameRva
    if descriptor.lookup = 0 then
      let _ ← Run.lift (image.checkedVa descriptor.iat image.bitness.pointer)
      return claims.unnamed library
    else
      match ← Run.loop (slotRound target image library descriptor.lookup descriptor.iat)
          (fun _ => none) maxImportsPerLibrary (0, claims) with
      | some claims => pure claims
      | none =>
        Run.fail (.malformed "a library imports more functions than an image plausibly does")

def descriptorRound (descriptors : List UInt8) (state : ℕ × Claims) :
    Run PeError W (Flow (ℕ × Claims) (Option ImportTable)) := do
  checkHalt target
  let descriptor ← readDescriptor descriptors (state.1 * 20)
  if descriptor = .null then
    return .stop (some state.2.table)
  else
    let claims ← readLibrary target image descriptor state.2
    return .again (state.1 + 1, claims)

def readImports : Run PeError W ImportTable :=
  let directory := image.importDirectory.1.toNat
  let size := image.importDirectory.2.toNat
  -- Absent means both are zero.
  if directory = 0 ∧ size = 0 then
    pure {}
  else if directory = 0 ∨ size = 0 then
    Run.fail (.malformed "the import directory has a size without an address, or the reverse")
  else if maxLibraries + 1 < size / 20 then
    Run.fail (.malformed "the import directory names more libraries than an image plausibly has")
  else do
    Run.lift (declaredFits directory size image.sizeOfImage.toNat
      "the import directory runs past the end of the image")
    let descriptors ← clippedReader target image directory size
    match ← Run.loop (descriptorRound target image descriptors) (fun _ => none)
        (descriptors.length / 20) (0, .empty) with
    | some table => pure table
    | none => Run.fail (.malformed "the import directory ends without a null descriptor")

end Table

/-- The imports indexed by the slot a call goes through. -/
def importsBySlot (imports : List Import) : Std.TreeMap ℕ Import :=
  .ofList (imports.map fun entry => (entry.slot, entry))

end DbgScope.Pe
