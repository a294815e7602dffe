import DbgScope.Pe.Imports
import Mathlib.Data.Finset.Basic

/-!
# The other tables of a loaded image

The import address table slot by slot, the exports at a set of addresses, and the ranges that hold
code. A span that the image declares is read whole or refused; only a name, whose length is this
module's choice, is clipped to the image.
-/

namespace DbgScope.Pe

def u16 : List UInt8 → ℕ → Except PeError ℕ := fieldAt 2 "short read of a 16-bit field"

/-! ## Code -/

def Section.executable (s : Section) : Bool := s.characteristics.toNat &&& 0x20000000 != 0

def Image.codeSections (image : Image) : List Section := image.sections.filter (·.executable)

/-- The least multiple of `m` at or above `a`, where it is a 32-bit word. -/
def checkedNextMultipleOf (a m : ℕ) : Option ℕ :=
  if nextMultipleOf a m < 2 ^ 32 then some (nextMultipleOf a m) else none

def Image.extent (image : Image) (s : Section) : ℕ :=
  let alignment := image.sectionAlignment.toNat
  let rounded :=
    if isPowerOfTwo alignment then checkedNextMultipleOf s.virtualSize.toNat alignment else none
  rounded.getD s.virtualSize.toNat

def Image.executableRange (image : Image) (s : Section) : Option (ℕ × ℕ) :=
  let room := image.sizeOfImage.toNat - s.rva.toNat
  let len := min (image.extent s) room
  match image.checkedVa s.rva.toNat len with
  | .ok start => some (start, start + len)
  | .error _ => none

def Image.executableRanges (image : Image) : List (ℕ × ℕ) :=
  (image.codeSections.filterMap image.executableRange).filter fun range => range.1 < range.2

section Tables

variable {W : Type} (target : Target W) (image : Image)

def readDeclared (rva len : ℕ) : Run PeError W (List UInt8) :=
  if rva = 0 ∧ 0 < len then
    Run.fail (.malformed "a table at RVA zero, which is the image's header rather than a table")
  else do
    let address ← Run.lift (image.checkedVa rva len)
    let bytes ← readAt target address len
    if bytes.length = len then pure bytes else Run.fail (.unreadable address len)

/-! ## The import address table -/

structure IatSlot where
  slot : ℕ
  value : ℕ
  deriving DecidableEq, Repr

def iatRound (address : ℕ) (bytes : List UInt8) (slots : List IatSlot) (index : ℕ) :
    Run PeError W (List IatSlot) := do
  let pointer := image.bitness.pointer
  let raw := (bytes.drop (index * pointer)).take pointer
  let value ← Run.lift (thunkValue image raw)
  return if value ≠ 0 then slots ++ [⟨address + index * pointer, value⟩] else slots

def readImportAddressTable : Run PeError W (List IatSlot) :=
  let rva := image.iatDirectory.1.toNat
  let len := image.iatDirectory.2.toNat
  let pointer := image.bitness.pointer
  if rva = 0 ∧ len = 0 then
    pure []
  else if rva = 0 ∨ len = 0 then
    Run.fail
      (.malformed "the import address table has a size without an address, or the reverse")
  else if len % pointer ≠ 0 then
    Run.fail (.malformed "the import address table is not a whole number of slots")
  else if maxImportsTotal + maxLibraries < len / pointer then
    Run.fail (.malformed "more import address slots than an image plausibly has")
  else do
    let address ← Run.lift (image.checkedVa rva len)
    let bytes ← readDeclared target image rva len
    Run.fold (iatRound image address bytes) (List.range (bytes.length / pointer)) []

/-! ## Exports -/

/-- The image's name for its own library, and the names each address asked about is exported
under, in the order of the name table. -/
structure ExportsAt where
  library : String
  names : Std.TreeMap ℕ (List String) := {}

def maxExports : ℕ := 1 <<< 16

structure ExportHeader where
  nameRva : ℕ
  functions : ℕ
  named : ℕ
  functionsAt : ℕ
  namesAt : ℕ
  ordinalsAt : ℕ
  deriving DecidableEq, Repr

def readExportHeader (header : List UInt8) : Run PeError W ExportHeader := do
  let nameRva ← Run.lift (u32 header 12)
  let functions ← Run.lift (u32 header 20)
  let named ← Run.lift (u32 header 24)
  let functionsAt ← Run.lift (u32 header 28)
  let namesAt ← Run.lift (u32 header 32)
  let ordinalsAt ← Run.lift (u32 header 36)
  return ⟨nameRva, functions, named, functionsAt, namesAt, ordinalsAt⟩

def functionRound (addresses : List UInt8) (entries : List (ℕ × ℕ)) (index : ℕ) :
    Run PeError W (List (ℕ × ℕ)) := do
  let address ← Run.lift (u32 addresses (index * 4))
  return entries ++ [(index, address)]

/-- The entries asked about. One inside the directory's own span is a forwarder, a string rather
than code. -/
def wantedOf (rvas : Finset ℕ) (entries : List (ℕ × ℕ)) : Std.TreeMap ℕ ℕ :=
  let rva := image.exportDirectory.1.toNat
  let size := image.exportDirectory.2.toNat
  .ofList (entries.filter fun entry =>
    entry.2 ∈ rvas ∧ ¬(rva ≤ entry.2 ∧ entry.2 < min (rva + size) (2 ^ 32 - 1)))

def ExportsAt.push (exports : ExportsAt) (address : ℕ) (name : String) : ExportsAt :=
  { exports with names := exports.names.insert address (exports.names.getD address [] ++ [name]) }

def nameEntryRound (header : ExportHeader) (wanted : Std.TreeMap ℕ ℕ)
    (ordinals names : List UInt8) (exports : ExportsAt) (index : ℕ) :
    Run PeError W ExportsAt := do
  let ordinal ← Run.lift (u16 ordinals (index * 2))
  if header.functions ≤ ordinal then
    Run.fail
      (.malformed "an export name's ordinal is past the end of the export address table")
  else
    match wanted[ordinal]? with
    | none => pure exports
    | some address =>
      checkHalt target
      let nameRva ← Run.lift (u32 names (index * 4))
      let name ← readCString target image nameRva
      return exports.push address name

def readNames (rvas : Finset ℕ) (header : ExportHeader) (exports : ExportsAt) :
    Run PeError W ExportsAt := do
  checkHalt target
  let addresses ← readDeclared target image header.functionsAt (header.functions * 4)
  let entries ← Run.fold (functionRound addresses) (List.range header.functions) []
  let wanted := wantedOf image rvas entries
  if wanted.isEmpty then
    return exports
  else
    checkHalt target
    let ordinals ← readDeclared target image header.ordinalsAt (header.named * 2)
    checkHalt target
    let names ← readDeclared target image header.namesAt (header.named * 4)
    Run.fold (nameEntryRound target image header wanted ordinals names)
      (List.range header.named) exports

def readExportsAt (rvas : Finset ℕ) : Run PeError W (Option ExportsAt) :=
  let rva := image.exportDirectory.1.toNat
  let size := image.exportDirectory.2.toNat
  if rva = 0 ∧ size = 0 then
    pure none
  else if rva = 0 ∨ size = 0 then
    Run.fail (.malformed "the export directory has a size without an address, or the reverse")
  else if size < 40 then
    Run.fail (.malformed "the export directory is smaller than its own header")
  else do
    Run.lift (declaredFits rva size image.sizeOfImage.toNat
      "the export directory runs past the end of the image")
    let bytes ← readDeclared target image rva 40
    let header ← readExportHeader bytes
    if maxExports < header.functions ∨ maxExports < header.named then
      Run.fail (.malformed "more exports than an ordinal can number")
    else if header.functions = 0 ∧ 0 < header.named then
      Run.fail (.malformed "export names with no export address table for them to index")
    else
      let library ← readCString target image header.nameRva
      let exports : ExportsAt := ⟨library, {}⟩
      if rvas = ∅ ∨ header.functions = 0 ∨ header.named = 0 then
        return some exports
      else
        let exports ← readNames target image rvas header exports
        return some exports

end Tables

end DbgScope.Pe
