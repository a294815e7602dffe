import DbgScope.Lockstep
import DbgScope.Pe.ImportTable
import DbgScope.Pe.Tables

/-!
# The parser over machine words

The reads of an image compute offsets and addresses in 32-bit, 64-bit and `usize` words. Some sums
are checked and refuse; the others are plain, and `Trap.overflow` is where one overflows. None ever
does: over machine words every function goes through the same reads as over the natural numbers, and
ends in the same way.
-/

namespace DbgScope.Pe

open Run

/-- What ends a run over machine words early. -/
inductive Trap
  | overflow
  | refused (error : PeError)
  deriving DecidableEq, Repr

namespace Words

/-! ## Plain operations -/

section Operations

variable {W α : Type}

/-- A refusal of the source. -/
def heed (m : Run PeError W α) : Run Trap W α := Run.mapError .refused m

def add (width a b : ℕ) : Run Trap W ℕ :=
  if a + b < 2 ^ width then pure (a + b) else Run.fail .overflow

def mul (width a b : ℕ) : Run Trap W ℕ :=
  if a * b < 2 ^ width then pure (a * b) else Run.fail .overflow

def sub (a b : ℕ) : Run Trap W ℕ :=
  if b ≤ a then pure (a - b) else Run.fail .overflow

theorem add_bind {width a b : ℕ} (h : a + b < 2 ^ width) (f : ℕ → Run Trap W α) :
    (add width a b >>= f) = f (a + b) := by
  unfold add
  rw [if_pos h]
  rfl

theorem mul_bind {width a b : ℕ} (h : a * b < 2 ^ width) (f : ℕ → Run Trap W α) :
    (mul width a b >>= f) = f (a * b) := by
  unfold mul
  rw [if_pos h]
  rfl

theorem sub_bind {a b : ℕ} (h : b ≤ a) (f : ℕ → Run Trap W α) :
    (sub a b >>= f) = f (a - b) := by
  unfold sub
  rw [if_pos h]
  rfl

end Operations

/-! ## The functions -/

section Functions

variable {W : Type} (bits : ℕ) (target : Target W) (image : Image)

def field (read : List UInt8 → ℕ → Except PeError ℕ) (width : ℕ) (bytes : List UInt8)
    (offset : ℕ) : Run Trap W ℕ := do
  let _ ← add bits offset width
  heed (Run.lift (read bytes offset))

def u16 : List UInt8 → ℕ → Run Trap W ℕ := field bits Pe.u16 2

def u32 : List UInt8 → ℕ → Run Trap W ℕ := field bits Pe.u32 4

def u64At : List UInt8 → ℕ → Run Trap W ℕ := field bits Pe.u64At 8

def thunkValue (entry : List UInt8) : Run Trap W ℕ :=
  match image.bitness with
  | .bits32 => u32 bits entry 0
  | .bits64 => u64At bits entry 0

def nameRound (rva : ℕ) (raw : List UInt8) : Run Trap W (Flow (List UInt8) (Option String)) :=
  if maxName ≤ raw.length then
    pure (.stop none)
  else do
    let taken ← heed (Run.lift (narrow raw.length
      "an import or library name runs past the length a name may have"))
    let here ← heed (Run.lift (narrow (rva + taken)
      "an import name runs past the end of a 32-bit image offset"))
    let boundary ← sub nameReadGranule (here % nameReadGranule)
    let budget ← sub maxName raw.length
    let chunk ← heed (clippedReader target image here (min boundary budget))
    if chunk.isEmpty then
      pure (.stop none)
    else
      match chunk.findIdx? (· == 0) with
      | some stop =>
        match String.fromUTF8? ⟨(raw ++ chunk.take stop).toArray⟩ with
        | some name => pure (.stop (some name))
        | none => Run.fail (.refused (.malformed "an import or library name is not text"))
      | none => pure (.again (raw ++ chunk))

def readCString (rva : ℕ) : Run Trap W String :=
  if rva = 0 then
    Run.fail (.refused
      (.malformed "a name at RVA zero, which is the image's header rather than a string"))
  else do
    match ← Run.loop (nameRound target image rva) (fun _ => none) (maxName + 1) [] with
    | some name => pure name
    | none =>
      Run.fail (.refused
        (.malformed "an import or library name runs past the length a name may have"))

/-! ### Imports -/

def readDescriptor (descriptors : List UInt8) (offset : ℕ) : Run Trap W Descriptor := do
  let lookup ← u32 bits descriptors offset
  let nameRva ← u32 bits descriptors (← add bits offset 12)
  let iat ← u32 bits descriptors (← add bits offset 16)
  let stamp ← u32 bits descriptors (← add bits offset 4)
  let forwarder ← u32 bits descriptors (← add bits offset 8)
  return ⟨lookup, stamp, forwarder, nameRva, iat⟩

def thunkName (value : ℕ) : Run Trap W ImportName :=
  let flag := ordinalFlag image.bitness
  if value &&& flag ≠ 0 then
    if value &&& complement (flag ||| 0xffff) ≠ 0 then
      Run.fail (.refused (.malformed
        "an ordinal import sets bits that are neither its flag nor its ordinal"))
    else
      pure (.ordinal (value &&& 0xffff))
  else do
    let hint ← heed (Run.lift
      (narrow value "an import name table entry is not a 32-bit image offset"))
    let nameRva ← heed (Run.lift (narrow (hint + 2)
      "an import name's hint runs past the end of a 32-bit image offset"))
    let name ← readCString target image nameRva
    return .named name

def slotRound (library : String) (lookup iat : ℕ) (state : ℕ × Claims) :
    Run Trap W (Flow (ℕ × Claims) (Option Claims)) := do
  heed (checkHalt target)
  let pointer := image.bitness.pointer
  let offset ← mul bits state.1 pointer
  let slotRva ← heed (Run.lift (narrow (← add 64 iat offset)
    "an import address table entry lies outside a 32-bit image offset"))
  let slot ← heed (Run.lift (image.checkedVa slotRva pointer))
  let entryRva ← heed (Run.lift (narrow (← add 64 lookup offset)
    "an import lookup table entry lies outside a 32-bit image offset"))
  let entry ← heed (clippedReader target image entryRva pointer)
  let value ← thunkValue bits image entry
  if value = 0 then
    return .stop (some state.2)
  else
    let name ← thunkName target image value
    let claims ← heed (Run.lift (claim state.2 ⟨library, name, slot⟩))
    return .again (state.1 + 1, claims)

def readLibrary (descriptor : Descriptor) (claims : Claims) : Run Trap W Claims :=
  if descriptor.nameRva = 0 then
    Run.fail (.refused (.malformed "an import descriptor names no library"))
  else if descriptor.iat = 0 then
    Run.fail (.refused (.malformed "an import descriptor has no import address table"))
  else do
    let library ← readCString target image descriptor.nameRva
    if descriptor.lookup = 0 then
      let _ ← heed (Run.lift (image.checkedVa descriptor.iat image.bitness.pointer))
      return claims.unnamed library
    else
      match ← Run.loop (slotRound bits target image library descriptor.lookup descriptor.iat)
          (fun _ => none) maxImportsPerLibrary (0, claims) with
      | some claims => pure claims
      | none =>
        Run.fail (.refused
          (.malformed "a library imports more functions than an image plausibly does"))

def descriptorRound (descriptors : List UInt8) (state : ℕ × Claims) :
    Run Trap W (Flow (ℕ × Claims) (Option ImportTable)) := do
  heed (checkHalt target)
  let descriptor ← readDescriptor bits descriptors (← mul bits state.1 20)
  if descriptor = .null then
    return .stop (some state.2.table)
  else
    let claims ← readLibrary bits target image descriptor state.2
    return .again (state.1 + 1, claims)

def readImports : Run Trap W ImportTable :=
  let directory := image.importDirectory.1.toNat
  let size := image.importDirectory.2.toNat
  if directory = 0 ∧ size = 0 then
    pure {}
  else if directory = 0 ∨ size = 0 then
    Run.fail (.refused
      (.malformed "the import directory has a size without an address, or the reverse"))
  else if maxLibraries + 1 < size / 20 then
    Run.fail (.refused
      (.malformed "the import directory names more libraries than an image plausibly has"))
  else do
    heed (Run.lift (declaredFits directory size image.sizeOfImage.toNat
      "the import directory runs past the end of the image"))
    let descriptors ← heed (clippedReader target image directory size)
    match ← Run.loop (descriptorRound bits target image descriptors) (fun _ => none)
        (descriptors.length / 20) (0, .empty) with
    | some table => pure table
    | none =>
      Run.fail (.refused (.malformed "the import directory ends without a null descriptor"))

/-! ### The import address table -/

def iatRound (address : ℕ) (bytes : List UInt8) (slots : List IatSlot) (index : ℕ) :
    Run Trap W (List IatSlot) := do
  let pointer := image.bitness.pointer
  let raw := (bytes.drop (index * pointer)).take pointer
  let value ← thunkValue bits image raw
  if value ≠ 0 then
    let offset ← mul bits index pointer
    let slot ← add 64 address offset
    return slots ++ [⟨slot, value⟩]
  else
    return slots

def readImportAddressTable : Run Trap W (List IatSlot) :=
  let rva := image.iatDirectory.1.toNat
  let len := image.iatDirectory.2.toNat
  let pointer := image.bitness.pointer
  if rva = 0 ∧ len = 0 then
    pure []
  else if rva = 0 ∨ len = 0 then
    Run.fail (.refused
      (.malformed "the import address table has a size without an address, or the reverse"))
  else if len % pointer ≠ 0 then
    Run.fail (.refused (.malformed "the import address table is not a whole number of slots"))
  else if maxImportsTotal + maxLibraries < len / pointer then
    Run.fail (.refused (.malformed "more import address slots than an image plausibly has"))
  else do
    let address ← heed (Run.lift (image.checkedVa rva len))
    let bytes ← heed (readDeclared target image rva len)
    Run.fold (iatRound bits image address bytes) (List.range (bytes.length / pointer)) []

/-! ### Exports -/

def readExportHeader (header : List UInt8) : Run Trap W ExportHeader := do
  let nameRva ← u32 bits header 12
  let functions ← u32 bits header 20
  let named ← u32 bits header 24
  let functionsAt ← u32 bits header 28
  let namesAt ← u32 bits header 32
  let ordinalsAt ← u32 bits header 36
  return ⟨nameRva, functions, named, functionsAt, namesAt, ordinalsAt⟩

def functionRound (addresses : List UInt8) (entries : List (ℕ × ℕ)) (index : ℕ) :
    Run Trap W (List (ℕ × ℕ)) := do
  let address ← u32 bits addresses (← mul bits index 4)
  return entries ++ [(index, address)]

def nameEntryRound (header : ExportHeader) (wanted : Std.TreeMap ℕ ℕ)
    (ordinals names : List UInt8) (exports : ExportsAt) (index : ℕ) :
    Run Trap W ExportsAt := do
  let ordinal ← u16 bits ordinals (← mul bits index 2)
  if header.functions ≤ ordinal then
    Run.fail (.refused
      (.malformed "an export name's ordinal is past the end of the export address table"))
  else
    match wanted[ordinal]? with
    | none => pure exports
    | some address =>
      heed (checkHalt target)
      let nameRva ← u32 bits names (← mul bits index 4)
      let name ← readCString target image nameRva
      return exports.push address name

def readNames (rvas : Finset ℕ) (header : ExportHeader) (exports : ExportsAt) :
    Run Trap W ExportsAt := do
  heed (checkHalt target)
  let len ← mul bits header.functions 4
  let addresses ← heed (readDeclared target image header.functionsAt len)
  let entries ← Run.fold (functionRound bits addresses) (List.range header.functions) []
  let wanted := wantedOf image rvas entries
  if wanted.isEmpty then
    return exports
  else
    heed (checkHalt target)
    let ordinals ← heed (readDeclared target image header.ordinalsAt (← mul bits header.named 2))
    heed (checkHalt target)
    let names ← heed (readDeclared target image header.namesAt (← mul bits header.named 4))
    Run.fold (nameEntryRound bits target image header wanted ordinals names)
      (List.range header.named) exports

def readExportsAt (rvas : Finset ℕ) : Run Trap W (Option ExportsAt) :=
  let rva := image.exportDirectory.1.toNat
  let size := image.exportDirectory.2.toNat
  if rva = 0 ∧ size = 0 then
    pure none
  else if rva = 0 ∨ size = 0 then
    Run.fail (.refused
      (.malformed "the export directory has a size without an address, or the reverse"))
  else if size < 40 then
    Run.fail (.refused (.malformed "the export directory is smaller than its own header"))
  else do
    heed (Run.lift (declaredFits rva size image.sizeOfImage.toNat
      "the export directory runs past the end of the image"))
    let bytes ← heed (readDeclared target image rva 40)
    let header ← readExportHeader bits bytes
    if maxExports < header.functions ∨ maxExports < header.named then
      Run.fail (.refused (.malformed "more exports than an ordinal can number"))
    else if header.functions = 0 ∧ 0 < header.named then
      Run.fail (.refused
        (.malformed "export names with no export address table for them to index"))
    else
      let library ← readCString target image header.nameRva
      let exports : ExportsAt := ⟨library, {}⟩
      if rvas = ∅ ∨ header.functions = 0 ∨ header.named = 0 then
        return some exports
      else
        let exports ← readNames bits target image rvas header exports
        return some exports

/-! ### Code -/

def executableRound (ranges : List (ℕ × ℕ)) (s : Section) : Run Trap W (List (ℕ × ℕ)) :=
  let room := image.sizeOfImage.toNat - s.rva.toNat
  let len := min (image.extent s) room
  match image.checkedVa s.rva.toNat len with
  | .error _ => pure ranges
  | .ok start => do
    let stop ← add 64 start len
    return if start < stop then ranges ++ [(start, stop)] else ranges

def executableRanges : Run Trap W (List (ℕ × ℕ)) :=
  Run.fold (executableRound image) image.codeSections []

end Functions

/-! ## No overflow -/

section Exact

variable {W α : Type} {bits : ℕ} {target : Target W} {image : Image}

/-- Over words the computation reads the same, and answers the same or refuses the same. -/
abbrev Exact (Q : α → Prop) (m : Run PeError W α) (m' : Run Trap W α) : Prop :=
  Alike (fun a b => a = b ∧ Q a) (fun error trap => trap = .refused error) m m'

/-- A buffer is no longer than an allocation may be. -/
def Allocated (bits : ℕ) (target : Target W) : Prop :=
  ∀ address len w bytes, (target.read address len w).1 = some bytes →
    bytes.length < 2 ^ (bits - 1)

theorem heed_exact {m : Run PeError W α} {Q : α → Prop} (h : Yields m Q) : Exact Q m (heed m) :=
  Alike.mapError _ h

theorem heed_same (m : Run PeError W α) : Exact (fun _ => True) m (heed m) :=
  heed_exact (Yields.always m)

theorem readAt_length (h : Allocated bits target) (address len : ℕ) :
    Yields (readAt target address len) fun bytes => bytes.length < 2 ^ (bits - 1) := by
  intro w _
  unfold readAt
  cases hread : (target.read address len w).1 with
  | some bytes => exact h _ _ _ _ hread
  | none => trivial

theorem clippedReader_length (h : Allocated bits target) (rva len : ℕ) :
    Yields (clippedReader target image rva len) fun bytes => bytes.length < 2 ^ (bits - 1) :=
  Yields.after fun _ => readAt_length h _ _

/-! ### Fields -/

theorem fieldAt_lt {width offset value : ℕ} {reason : String} {bytes : List UInt8}
    (h : fieldAt width reason bytes offset = .ok value) : value < 256 ^ width := by
  unfold fieldAt at h
  split at h
  · rw [← Except.ok.inj h]
    refine (fromLe_lt _).trans_le (Nat.pow_le_pow_right (by decide) ?_)
    exact List.length_take_le _ _
  · cases h

theorem field_exact {width offset : ℕ} {reason : String} {bytes : List UInt8}
    (h : offset + width < 2 ^ bits) :
    Exact (· < 256 ^ width) (Run.lift (fieldAt width reason bytes offset) : Run PeError W ℕ)
      (field bits (fieldAt width reason) width bytes offset) := by
  unfold field
  rw [add_bind h]
  exact heed_exact (Yields.lift fun _ hok => fieldAt_lt hok)

theorem thunkValue_exact (hbits : 32 ≤ bits) (entry : List UInt8) :
    Exact (fun _ => True) (Run.lift (Pe.thunkValue image entry) : Run PeError W ℕ)
      (thunkValue bits image entry) := by
  have hpow : 2 ^ 32 ≤ 2 ^ bits := Nat.pow_le_pow_right (by decide) hbits
  unfold Pe.thunkValue thunkValue
  cases image.bitness with
  | bits32 => exact (field_exact (by omega)).imp fun _ _ h => ⟨h.1, trivial⟩
  | bits64 => exact (field_exact (by omega)).imp fun _ _ h => ⟨h.1, trivial⟩

/-! ### Names -/

theorem nameRound_exact (rva : ℕ) (raw : List UInt8) :
    Alike (Flow.Alike Eq Eq) (fun error trap => trap = .refused error)
      (Pe.nameRound target image rva raw) (nameRound target image rva raw) := by
  refine Alike.ite (fun _ => Alike.pure (.stop rfl)) fun hshort => ?_
  refine Alike.bind (heed_same _) ?_
  rintro taken _ ⟨rfl, -⟩
  refine Alike.bind (heed_same _) ?_
  rintro here _ ⟨rfl, -⟩
  rw [sub_bind (Nat.mod_lt here (by decide)).le, sub_bind (Nat.le_of_not_le hshort)]
  refine Alike.bind (heed_same _) ?_
  rintro chunk _ ⟨rfl, -⟩
  refine Alike.ite (fun _ => Alike.pure (.stop rfl)) fun _ => ?_
  cases chunk.findIdx? (· == 0) with
  | none => exact Alike.pure (.again rfl)
  | some stop =>
    dsimp only
    cases String.fromUTF8? ⟨(raw ++ chunk.take stop).toArray⟩ with
    | none => exact Alike.fail rfl
    | some name => exact Alike.pure (.stop rfl)

theorem readCString_exact (rva : ℕ) :
    Exact (fun _ => True) (Pe.readCString target image rva) (readCString target image rva) := by
  refine Alike.guard fun _ => ?_
  refine Alike.bind (Alike.loop (I := fun _ => Eq) (fun _ raw _ h => h ▸ nameRound_exact rva raw)
    (fun _ _ _ => rfl) _ _ _ rfl) ?_
  rintro found _ rfl
  cases found with
  | none => exact Alike.fail rfl
  | some name => exact Alike.pure ⟨rfl, trivial⟩

/-! ### Imports -/

theorem readDescriptor_exact {descriptors : List UInt8} {offset : ℕ}
    (h : offset + 20 < 2 ^ bits) :
    Exact (fun descriptor => descriptor.lookup < 2 ^ 32 ∧ descriptor.iat < 2 ^ 32)
      (Pe.readDescriptor descriptors offset : Run PeError W Descriptor)
      (readDescriptor bits descriptors offset) := by
  refine Alike.bind (field_exact (by omega)) ?_
  rintro lookup _ ⟨rfl, hlookup⟩
  rw [add_bind (by omega)]
  refine Alike.bind (field_exact (by omega)) ?_
  rintro nameRva _ ⟨rfl, -⟩
  rw [add_bind (by omega)]
  refine Alike.bind (field_exact (by omega)) ?_
  rintro iat _ ⟨rfl, hiat⟩
  rw [add_bind (by omega)]
  refine Alike.bind (field_exact (by omega)) ?_
  rintro stamp _ ⟨rfl, -⟩
  rw [add_bind (by omega)]
  refine Alike.bind (field_exact (by omega)) ?_
  rintro forwarder _ ⟨rfl, -⟩
  exact Alike.pure ⟨rfl, hlookup, hiat⟩

theorem thunkName_exact (value : ℕ) :
    Exact (fun _ => True) (Pe.thunkName target image value) (thunkName target image value) := by
  refine Alike.ite (fun _ => ?_) fun _ => ?_
  · exact Alike.guard fun _ => Alike.pure ⟨rfl, trivial⟩
  · refine Alike.bind (heed_same _) ?_
    rintro hint _ ⟨rfl, -⟩
    refine Alike.bind (heed_same _) ?_
    rintro nameRva _ ⟨rfl, -⟩
    refine Alike.bind (readCString_exact _) ?_
    rintro name _ ⟨rfl, -⟩
    exact Alike.pure ⟨rfl, trivial⟩

theorem slotRound_exact (hbits : 32 ≤ bits) {library : String} {lookup iat rounds : ℕ}
    {state : ℕ × Claims} (hlookup : lookup < 2 ^ 32) (hiat : iat < 2 ^ 32)
    (hstate : state.1 + (rounds + 1) = maxImportsPerLibrary) :
    Alike (Flow.Alike (fun s t => t = s ∧ s.1 + rounds = maxImportsPerLibrary) Eq)
      (fun error trap => trap = .refused error)
      (Pe.slotRound target image library lookup iat state)
      (slotRound bits target image library lookup iat state) := by
  have hpow : 2 ^ 32 ≤ 2 ^ bits := Nat.pow_le_pow_right (by decide) hbits
  have hcount : maxImportsPerLibrary = 8192 := rfl
  have hpointer : image.bitness.pointer ≤ 8 := by cases image.bitness <;> decide
  have hoffset : state.1 * image.bitness.pointer ≤ 8192 * 8 :=
    Nat.mul_le_mul (by omega) hpointer
  refine Alike.bind (heed_same _) ?_
  rintro _ _ -
  rw [mul_bind (by omega), add_bind (by omega)]
  refine Alike.bind (heed_same _) ?_
  rintro slotRva _ ⟨rfl, -⟩
  refine Alike.bind (heed_same _) ?_
  rintro slot _ ⟨rfl, -⟩
  rw [add_bind (by omega)]
  refine Alike.bind (heed_same _) ?_
  rintro entryRva _ ⟨rfl, -⟩
  refine Alike.bind (heed_same _) ?_
  rintro entry _ ⟨rfl, -⟩
  refine Alike.bind (thunkValue_exact hbits entry) ?_
  rintro value _ ⟨rfl, -⟩
  refine Alike.ite (fun _ => Alike.pure (.stop rfl)) fun _ => ?_
  refine Alike.bind (thunkName_exact value) ?_
  rintro name _ ⟨rfl, -⟩
  refine Alike.bind (heed_same _) ?_
  rintro claims _ ⟨rfl, -⟩
  exact Alike.pure (.again ⟨rfl, by dsimp only; omega⟩)

theorem readLibrary_exact (hbits : 32 ≤ bits) {descriptor : Descriptor} {claims : Claims}
    (hlookup : descriptor.lookup < 2 ^ 32) (hiat : descriptor.iat < 2 ^ 32) :
    Exact (fun _ => True) (Pe.readLibrary target image descriptor claims)
      (readLibrary bits target image descriptor claims) := by
  refine Alike.guard fun _ => ?_
  refine Alike.guard fun _ => ?_
  refine Alike.bind (readCString_exact _) ?_
  rintro library _ ⟨rfl, -⟩
  refine Alike.ite (fun _ => ?_) fun _ => ?_
  · exact Alike.bind (heed_same _) fun _ _ _ => Alike.pure ⟨rfl, trivial⟩
  refine Alike.bind (Alike.loop
    (I := fun rounds s t => t = s ∧ s.1 + rounds = maxImportsPerLibrary)
    (by
      rintro rounds state _ ⟨rfl, hstate⟩
      exact slotRound_exact hbits hlookup hiat hstate)
    (fun _ _ _ => rfl) _ _ _ ⟨rfl, Nat.zero_add _⟩) ?_
  rintro ended _ rfl
  cases ended with
  | none => exact Alike.fail rfl
  | some claims => exact Alike.pure ⟨rfl, trivial⟩

theorem descriptorRound_exact (hbits : 32 ≤ bits) {descriptors : List UInt8} {rounds : ℕ}
    {state : ℕ × Claims} (hlength : descriptors.length < 2 ^ (bits - 1))
    (hstate : state.1 + (rounds + 1) = descriptors.length / 20) :
    Alike (Flow.Alike (fun s t => t = s ∧ s.1 + rounds = descriptors.length / 20) Eq)
      (fun error trap => trap = .refused error)
      (Pe.descriptorRound target image descriptors state)
      (descriptorRound bits target image descriptors state) := by
  have hhalf : 2 ^ (bits - 1) ≤ 2 ^ bits := Nat.pow_le_pow_right (by decide) (Nat.sub_le _ _)
  refine Alike.bind (heed_same _) ?_
  rintro _ _ -
  rw [mul_bind (by omega)]
  refine Alike.bind (readDescriptor_exact (by omega)) ?_
  rintro descriptor _ ⟨rfl, hlookup, hiat⟩
  refine Alike.ite (fun _ => Alike.pure (.stop rfl)) fun _ => ?_
  refine Alike.bind (readLibrary_exact hbits hlookup hiat) ?_
  rintro claims _ ⟨rfl, -⟩
  exact Alike.pure (.again ⟨rfl, by dsimp only; omega⟩)

/-- **No sum of `readImports` overflows.** -/
theorem readImports_exact (hbits : 32 ≤ bits) (h : Allocated bits target) :
    Exact (fun _ => True) (Pe.readImports target image) (readImports bits target image) := by
  refine Alike.ite (fun _ => Alike.pure ⟨rfl, trivial⟩) fun _ => ?_
  refine Alike.guard fun _ => ?_
  refine Alike.guard fun _ => ?_
  refine Alike.bind (heed_same _) fun _ _ _ => ?_
  refine Alike.bind (heed_exact (clippedReader_length h _ _)) ?_
  rintro descriptors _ ⟨rfl, hlength⟩
  refine Alike.bind (Alike.loop
    (I := fun rounds s t => t = s ∧ s.1 + rounds = descriptors.length / 20)
    (by
      rintro rounds state _ ⟨rfl, hstate⟩
      exact descriptorRound_exact hbits hlength hstate)
    (fun _ _ _ => rfl) _ _ _ ⟨rfl, Nat.zero_add _⟩) ?_
  rintro ended _ rfl
  cases ended with
  | none => exact Alike.fail rfl
  | some table => exact Alike.pure ⟨rfl, trivial⟩

/-! ### The other tables -/

theorem readDeclared_length (rva len : ℕ) :
    Yields (readDeclared target image rva len) fun bytes => bytes.length = len := by
  refine Yields.guard fun _ => ?_
  refine Yields.after fun _ => ?_
  refine Yields.after fun bytes => ?_
  exact Yields.ite (fun hlen => Yields.pure hlen) fun _ => Yields.fail _

theorem checkedVa_stop {rva len address : ℕ} (h : image.checkedVa rva len = .ok address) :
    address + len < 2 ^ 64 := by
  have haddress := checkedVa_ok h
  unfold Image.checkedVa at h
  split at h
  · cases h
  split at h
  · cases h
  unfold va checkedAdd at h
  by_contra hnot
  rw [haddress] at hnot
  by_cases hstart : image.base.toNat + rva < 2 ^ 64
  · rw [if_pos hstart] at h
    dsimp only at h
    rw [if_neg hnot] at h
    cases h
  · rw [if_neg hstart] at h
    cases h

theorem iatRound_exact (hbits : 32 ≤ bits) {address len index : ℕ} {bytes : List UInt8}
    {slots : List IatSlot} (hlen : len < 2 ^ 32) (hstop : address + len < 2 ^ 64)
    (hindex : index < len / image.bitness.pointer) :
    Exact (fun _ => True) (Pe.iatRound image address bytes slots index : Run PeError W _)
      (iatRound bits image address bytes slots index) := by
  have hpow : 2 ^ 32 ≤ 2 ^ bits := Nat.pow_le_pow_right (by decide) hbits
  have hoffset : index * image.bitness.pointer ≤ len :=
    (Nat.mul_le_mul_right _ hindex.le).trans (Nat.div_mul_le_self _ _)
  refine Alike.bind (thunkValue_exact hbits _) ?_
  rintro value _ ⟨rfl, -⟩
  by_cases hvalue : value ≠ 0
  · rw [if_pos hvalue, if_pos hvalue, mul_bind (by omega), add_bind (by omega)]
    exact Alike.pure ⟨rfl, trivial⟩
  · rw [if_neg hvalue, if_neg hvalue]
    exact Alike.pure ⟨rfl, trivial⟩

/-- **No sum of `readImportAddressTable` overflows.** -/
theorem readImportAddressTable_exact (hbits : 32 ≤ bits) :
    Exact (fun _ => True) (Pe.readImportAddressTable target image)
      (readImportAddressTable bits target image) := by
  refine Alike.ite (fun _ => Alike.pure ⟨rfl, trivial⟩) fun _ => ?_
  refine Alike.guard fun _ => ?_
  refine Alike.guard fun _ => ?_
  refine Alike.guard fun _ => ?_
  refine Alike.bind (heed_exact (Yields.lift fun _ hok => checkedVa_stop hok)) ?_
  rintro address _ ⟨rfl, hstop⟩
  refine Alike.bind (heed_exact (readDeclared_length _ _)) ?_
  rintro bytes _ ⟨rfl, hlength⟩
  refine Alike.fold (fun slots _ index hindex h => ?_) [] [] ⟨rfl, trivial⟩
  rw [hlength, List.mem_range] at hindex
  rw [← h.1]
  exact iatRound_exact hbits image.iatDirectory.2.toNat_lt hstop hindex

theorem readExportHeader_exact (hbits : 32 ≤ bits) (header : List UInt8) :
    Exact (fun _ => True) (Pe.readExportHeader header : Run PeError W ExportHeader)
      (readExportHeader bits header) := by
  have hpow : 2 ^ 32 ≤ 2 ^ bits := Nat.pow_le_pow_right (by decide) hbits
  refine Alike.bind (field_exact (by omega)) ?_
  rintro nameRva _ ⟨rfl, -⟩
  refine Alike.bind (field_exact (by omega)) ?_
  rintro functions _ ⟨rfl, -⟩
  refine Alike.bind (field_exact (by omega)) ?_
  rintro named _ ⟨rfl, -⟩
  refine Alike.bind (field_exact (by omega)) ?_
  rintro functionsAt _ ⟨rfl, -⟩
  refine Alike.bind (field_exact (by omega)) ?_
  rintro namesAt _ ⟨rfl, -⟩
  refine Alike.bind (field_exact (by omega)) ?_
  rintro ordinalsAt _ ⟨rfl, -⟩
  exact Alike.pure ⟨rfl, trivial⟩

theorem functionRound_exact (hbits : 32 ≤ bits) {addresses : List UInt8}
    {entries : List (ℕ × ℕ)} {index : ℕ} (hindex : index < maxExports) :
    Exact (fun _ => True) (Pe.functionRound addresses entries index : Run PeError W _)
      (functionRound bits addresses entries index) := by
  have hpow : 2 ^ 32 ≤ 2 ^ bits := Nat.pow_le_pow_right (by decide) hbits
  have hmax : maxExports = 65536 := rfl
  unfold Pe.functionRound functionRound
  rw [mul_bind (by omega)]
  refine Alike.bind (field_exact (by omega)) ?_
  rintro address _ ⟨rfl, -⟩
  exact Alike.pure ⟨rfl, trivial⟩

theorem nameEntryRound_exact (hbits : 32 ≤ bits) {header : ExportHeader}
    {wanted : Std.TreeMap ℕ ℕ} {ordinals names : List UInt8} {exports : ExportsAt} {index : ℕ}
    (hindex : index < maxExports) :
    Exact (fun _ => True)
      (Pe.nameEntryRound target image header wanted ordinals names exports index)
      (nameEntryRound bits target image header wanted ordinals names exports index) := by
  have hpow : 2 ^ 32 ≤ 2 ^ bits := Nat.pow_le_pow_right (by decide) hbits
  have hmax : maxExports = 65536 := rfl
  unfold Pe.nameEntryRound nameEntryRound
  rw [mul_bind (by omega)]
  refine Alike.bind (field_exact (by omega)) ?_
  rintro ordinal _ ⟨rfl, -⟩
  refine Alike.guard fun _ => ?_
  cases wanted[ordinal]? with
  | none => exact Alike.pure ⟨rfl, trivial⟩
  | some address =>
    refine Alike.bind (heed_same _) fun _ _ _ => ?_
    rw [mul_bind (by omega)]
    refine Alike.bind (field_exact (by omega)) ?_
    rintro nameRva _ ⟨rfl, -⟩
    refine Alike.bind (readCString_exact _) ?_
    rintro name _ ⟨rfl, -⟩
    exact Alike.pure ⟨rfl, trivial⟩

theorem readNames_exact (hbits : 32 ≤ bits) {rvas : Finset ℕ} {header : ExportHeader}
    {exports : ExportsAt} (hfunctions : header.functions ≤ maxExports)
    (hnamed : header.named ≤ maxExports) :
    Exact (fun _ => True) (Pe.readNames target image rvas header exports)
      (readNames bits target image rvas header exports) := by
  have hpow : 2 ^ 32 ≤ 2 ^ bits := Nat.pow_le_pow_right (by decide) hbits
  have hmax : maxExports = 65536 := rfl
  refine Alike.bind (heed_same _) fun _ _ _ => ?_
  rw [mul_bind (by omega)]
  refine Alike.bind (heed_same _) ?_
  rintro addresses _ ⟨rfl, -⟩
  refine Alike.bind (Alike.fold (R := fun a b => a = b ∧ True) (fun entries _ index hindex h => ?_)
    [] [] ⟨rfl, trivial⟩) ?_
  · rw [← h.1]
    exact functionRound_exact hbits ((List.mem_range.mp hindex).trans_le hfunctions)
  rintro entries _ ⟨rfl, -⟩
  refine Alike.ite (fun _ => Alike.pure ⟨rfl, trivial⟩) fun _ => ?_
  refine Alike.bind (heed_same _) fun _ _ _ => ?_
  rw [mul_bind (by omega)]
  refine Alike.bind (heed_same _) ?_
  rintro ordinals _ ⟨rfl, -⟩
  refine Alike.bind (heed_same _) fun _ _ _ => ?_
  rw [mul_bind (by omega)]
  refine Alike.bind (heed_same _) ?_
  rintro names _ ⟨rfl, -⟩
  refine Alike.fold (fun exports _ index hindex h => ?_) _ _ ⟨rfl, trivial⟩
  rw [← h.1]
  exact nameEntryRound_exact hbits ((List.mem_range.mp hindex).trans_le hnamed)

/-- **No sum of `readExportsAt` overflows.** -/
theorem readExportsAt_exact (hbits : 32 ≤ bits) (rvas : Finset ℕ) :
    Exact (fun _ => True) (Pe.readExportsAt target image rvas)
      (readExportsAt bits target image rvas) := by
  refine Alike.ite (fun _ => Alike.pure ⟨rfl, trivial⟩) fun _ => ?_
  refine Alike.guard fun _ => ?_
  refine Alike.guard fun _ => ?_
  refine Alike.bind (heed_same _) fun _ _ _ => ?_
  refine Alike.bind (heed_same _) ?_
  rintro bytes _ ⟨rfl, -⟩
  refine Alike.bind (readExportHeader_exact hbits bytes) ?_
  rintro header _ ⟨rfl, -⟩
  refine Alike.guard fun hmax => ?_
  refine Alike.guard fun _ => ?_
  refine Alike.bind (readCString_exact _) ?_
  rintro library _ ⟨rfl, -⟩
  refine Alike.ite (fun _ => Alike.pure ⟨rfl, trivial⟩) fun _ => ?_
  refine Alike.bind (readNames_exact hbits (by omega) (by omega)) ?_
  rintro exports _ ⟨rfl, -⟩
  exact Alike.pure ⟨rfl, trivial⟩

theorem executableRound_eq (ranges : List (ℕ × ℕ)) (s : Section) :
    (executableRound image ranges s : Run Trap W _) =
      pure (ranges ++ (image.executableRange s).toList.filter fun range => range.1 < range.2) := by
  unfold executableRound Image.executableRange
  cases hstart : image.checkedVa s.rva.toNat
    (min (image.extent s) (image.sizeOfImage.toNat - s.rva.toNat)) with
  | error e =>
    simp only [hstart]
    simp
  | ok start =>
    simp only [hstart]
    rw [add_bind (checkedVa_stop hstart)]
    split
    · next hlt => simp [hlt]
    · next hnot => simp [hnot]

/-- **No sum of `executableRanges` overflows**, and over words it answers the same ranges. -/
theorem executableRanges_exact :
    (executableRanges image : Run Trap W _) = pure image.executableRanges := by
  suffices h : ∀ (sections : List Section) (ranges : List (ℕ × ℕ)),
      (Run.fold (executableRound image) sections ranges : Run Trap W _) =
        pure (ranges ++ (sections.filterMap image.executableRange).filter
          fun range => range.1 < range.2) by
    exact h image.codeSections []
  intro sections
  induction sections with
  | nil =>
    intro ranges
    simp [Run.fold]
  | cons s sections ih =>
    intro ranges
    rw [Run.fold, executableRound_eq]
    refine (ih _).trans (congrArg pure ?_)
    cases hrange : image.executableRange s with
    | none => simp [hrange]
    | some range =>
      rw [List.filterMap_cons_some hrange, List.append_assoc, ← List.filter_append]
      rfl

end Exact

end Words

end DbgScope.Pe
