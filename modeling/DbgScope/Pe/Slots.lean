import DbgScope.Lockstep
import DbgScope.Pe.ImportTable

/-!
# The bytes of the import slots

The walk keeps the starts of the slots that are claimed and refuses one that comes up twice. A
slot is as wide as a pointer, and where a library's slots start is a field of its descriptor that
nothing aligns, so that two slots with different starts may still share bytes. They share none
exactly where the runs of slots of the libraries do not meet.
-/

namespace DbgScope.Pe

open Run

/-! ## Spans of bytes -/

def SharesByte (start len start' len' : ℕ) : Prop :=
  ∃ byte, (start ≤ byte ∧ byte < start + len) ∧ start' ≤ byte ∧ byte < start' + len'

instance (start len start' len' : ℕ) : Decidable (SharesByte start len start' len') :=
  decidable_of_iff (max start start' < min (start + len) (start' + len')) <| by
    unfold SharesByte
    constructor
    · intro h
      exact ⟨max start start', by omega, by omega⟩
    · rintro ⟨byte, h, h'⟩
      omega

/-- The slots of a library: the offset of the first one, and how many there are. -/
structure SlotRun where
  first : ℕ
  count : ℕ
  deriving DecidableEq, Repr

section Runs

variable (image : Image)

def SlotRun.slots (run : SlotRun) : List ℕ :=
  (List.range run.count).map fun index =>
    image.base.toNat + run.first + index * image.bitness.pointer

def SlotRun.Meets (run run' : SlotRun) : Prop :=
  SharesByte run.first (run.count * image.bitness.pointer)
    run'.first (run'.count * image.bitness.pointer)

instance (run run' : SlotRun) : Decidable (run.Meets image run') := by
  unfold SlotRun.Meets
  infer_instance

def SlotsApart (slots : List ℕ) : Prop :=
  slots.Pairwise fun slot slot' =>
    ¬SharesByte slot image.bitness.pointer slot' image.bitness.pointer

instance (slots : List ℕ) : Decidable (SlotsApart image slots) := by
  unfold SlotsApart
  infer_instance

end Runs

/-! ## The runs of a directory -/

section Directory

variable {W : Type} (target : Target W) (image : Image)

/-- One descriptor: the run of slots its library takes is as long as the imports it adds. -/
def slotRunRound (descriptors : List UInt8) (state : (ℕ × Claims) × List SlotRun) :
    Run PeError W (Flow ((ℕ × Claims) × List SlotRun) (Option (List SlotRun))) := do
  checkHalt target
  let descriptor ← readDescriptor descriptors (state.1.1 * 20)
  if descriptor = .null then
    return .stop (some state.2)
  else
    let claims ← readLibrary target image descriptor state.1.2
    let added := claims.table.imports.length - state.1.2.table.imports.length
    return .again ((state.1.1 + 1, claims), state.2 ++ [⟨descriptor.iat, added⟩])

def slotRuns : Run PeError W (List SlotRun) :=
  let directory := image.importDirectory.1.toNat
  let size := image.importDirectory.2.toNat
  if directory = 0 ∧ size = 0 then
    pure []
  else if directory = 0 ∨ size = 0 then
    Run.fail (.malformed "the import directory has a size without an address, or the reverse")
  else if maxLibraries + 1 < size / 20 then
    Run.fail (.malformed "the import directory names more libraries than an image plausibly has")
  else do
    Run.lift (declaredFits directory size image.sizeOfImage.toNat
      "the import directory runs past the end of the image")
    let descriptors ← clippedReader target image directory size
    match ← Run.loop (slotRunRound target image descriptors) (fun _ => none)
        (descriptors.length / 20) ((0, .empty), []) with
    | some runs => pure runs
    | none => Run.fail (.malformed "the import directory ends without a null descriptor")

end Directory

/-! ## Runs and their slots -/

section Bytes

variable {image : Image}

theorem byte_of_run_iff {start count pointer byte : ℕ} (hpointer : 0 < pointer) :
    (start ≤ byte ∧ byte < start + count * pointer) ↔
      ∃ index < count,
        start + index * pointer ≤ byte ∧ byte < start + index * pointer + pointer := by
  constructor
  · rintro ⟨hstart, hstop⟩
    have hmod := Nat.mod_lt (byte - start) hpointer
    have hdiv := Nat.div_add_mod' (byte - start) pointer
    refine ⟨(byte - start) / pointer, ?_, by omega, by omega⟩
    rw [Nat.div_lt_iff_lt_mul hpointer]
    omega
  · rintro ⟨index, hindex, hlow, hhigh⟩
    have hnext : (index + 1) * pointer ≤ count * pointer := Nat.mul_le_mul_right _ hindex
    rw [Nat.add_mul, Nat.one_mul] at hnext
    exact ⟨by omega, by omega⟩

theorem SlotRun.slots_apart (run : SlotRun) : SlotsApart image (run.slots image) := by
  unfold SlotsApart slots
  rw [List.pairwise_map]
  refine List.pairwise_lt_range.imp fun {index index'} hlt => ?_
  rintro ⟨byte, ⟨-, hbelow⟩, habove, -⟩
  have hnext : (index + 1) * image.bitness.pointer ≤ index' * image.bitness.pointer :=
    Nat.mul_le_mul_right _ hlt
  rw [Nat.add_mul, Nat.one_mul] at hnext
  omega

/-- **Two runs meet exactly where a slot of one shares a byte with a slot of the other.** -/
theorem SlotRun.meets_iff (run run' : SlotRun) :
    run.Meets image run' ↔ ∃ slot ∈ run.slots image, ∃ slot' ∈ run'.slots image,
      SharesByte slot image.bitness.pointer slot' image.bitness.pointer := by
  have hpointer := image.bitness.pointer_pos
  simp only [slots, List.mem_map, List.mem_range, exists_exists_and_eq_and]
  constructor
  · rintro ⟨byte, hrun, hrun'⟩
    obtain ⟨index, hindex, hbyte⟩ := (byte_of_run_iff hpointer).mp hrun
    obtain ⟨index', hindex', hbyte'⟩ := (byte_of_run_iff hpointer).mp hrun'
    exact ⟨index, hindex, index', hindex', image.base.toNat + byte, by omega, by omega⟩
  · rintro ⟨index, hindex, index', hindex', byte, hbyte, hbyte'⟩
    refine ⟨byte - image.base.toNat, (byte_of_run_iff hpointer).mpr ⟨index, hindex, ?_⟩,
      (byte_of_run_iff hpointer).mpr ⟨index', hindex', ?_⟩⟩
    · omega
    · omega

theorem slotsApart_flatMap_iff (runs : List SlotRun) :
    SlotsApart image (runs.flatMap (·.slots image)) ↔
      runs.Pairwise fun run run' => ¬run.Meets image run' := by
  unfold SlotsApart
  rw [List.pairwise_flatMap]
  constructor
  · rintro ⟨-, happart⟩
    refine happart.imp fun {run run'} hslots hmeets => ?_
    obtain ⟨slot, hslot, slot', hslot', hshares⟩ := (SlotRun.meets_iff run run').mp hmeets
    exact hslots slot hslot slot' hslot' hshares
  · intro happart
    refine ⟨fun run _ => run.slots_apart, happart.imp ?_⟩
    intro run run' hnot slot hslot slot' hslot' hshares
    exact hnot ((SlotRun.meets_iff run run').mpr ⟨slot, hslot, slot', hslot', hshares⟩)

end Bytes

/-! ## The runs are the slots of the table -/

section Walk

variable {W : Type} {target : Target W} {image : Image}

def ImportTable.slots (table : ImportTable) : List ℕ := table.imports.map (·.slot)

/-- What a library has claimed after `state.1` thunks. -/
def TakesSlots (image : Image) (iat : ℕ) (claims : Claims) (state : ℕ × Claims) : Prop :=
  state.2.table.slots = claims.table.slots ++ (⟨iat, state.1⟩ : SlotRun).slots image

theorem TakesSlots.next {iat : ℕ} {claims claims' : Claims} {state : ℕ × Claims} {entry : Import}
    (h : TakesSlots image iat claims state) (hclaim : claim state.2 entry = .ok claims')
    (hslot : entry.slot = image.base.toNat + iat + state.1 * image.bitness.pointer) :
    TakesSlots image iat claims (state.1 + 1, claims') := by
  unfold TakesSlots ImportTable.slots SlotRun.slots at h ⊢
  rw [claim_ok hclaim]
  simp only [List.map_append, List.map_cons, List.map_nil, List.range_succ]
  rw [h, hslot, List.append_assoc]

theorem readLibrary_takes (descriptor : Descriptor) (claims : Claims) :
    Yields (readLibrary target image descriptor claims) fun claims' =>
      ∃ count, TakesSlots image descriptor.iat claims (count, claims') := by
  have hnone : TakesSlots image descriptor.iat claims (0, claims) := by
    simp [TakesSlots, SlotRun.slots]
  refine readLibrary_walks descriptor (I := fun _ => TakesSlots image descriptor.iat claims)
    (fun _ _ => ⟨0, hnone⟩) hnone fun _ state flow htakes hstep => ?_
  cases hstep with
  | ends hslot =>
    rintro claims' hended
    rw [← Option.some.inj hended]
    exact ⟨state.1, htakes⟩
  | claims hslot hclaim =>
    exact htakes.next hclaim (by rw [checkedVa_ok hslot, Nat.add_assoc])

theorem TakesSlots.count_eq {iat count : ℕ} {claims claims' : Claims}
    (h : TakesSlots image iat claims (count, claims')) :
    claims'.table.imports.length - claims.table.imports.length = count := by
  have hlength := congrArg List.length h
  simp only [ImportTable.slots, SlotRun.slots, List.length_map, List.length_append,
    List.length_range] at hlength
  omega

def RunsOf (image : Image) (state : ℕ × Claims) (state' : (ℕ × Claims) × List SlotRun) : Prop :=
  state'.1 = state ∧ state.2.table.slots = state'.2.flatMap (·.slots image)

theorem slotRunRound_alike (descriptors : List UInt8) {state : ℕ × Claims}
    {state' : (ℕ × Claims) × List SlotRun} (h : RunsOf image state state') :
    Alike (Flow.Alike (RunsOf image) fun ended ended' =>
        ended = none ∧ ended' = none ∨ ∃ table runs, ended = some table ∧ ended' = some runs ∧
          table.slots = runs.flatMap (·.slots image)) Eq
      (descriptorRound target image descriptors state)
      (slotRunRound target image descriptors state') := by
  obtain ⟨state', runs⟩ := state'
  obtain ⟨rfl, hslots⟩ := h
  refine Alike.bind (Alike.refl (Yields.always _)) fun _ _ _ => ?_
  refine Alike.bind (Alike.refl (Yields.always _)) ?_
  rintro descriptor _ ⟨rfl, -⟩
  refine Alike.ite (fun _ => Alike.pure (.stop (.inr ⟨_, _, rfl, rfl, hslots⟩))) fun _ => ?_
  refine Alike.bind (Alike.refl (readLibrary_takes _ _)) ?_
  rintro claims _ ⟨rfl, count, htakes⟩
  refine Alike.pure (.again ⟨rfl, ?_⟩)
  dsimp only at hslots ⊢
  rw [htakes.count_eq, htakes, hslots]
  simp

/-- **The slots of a table are those of the directory's runs**, whatever the reader answers. -/
theorem readImports_alike :
    Alike (fun table runs => table.slots = runs.flatMap (·.slots image)) Eq
      (readImports target image) (slotRuns target image) := by
  refine Alike.ite (fun _ => Alike.pure rfl) fun _ => ?_
  refine Alike.guard fun _ => ?_
  refine Alike.guard fun _ => ?_
  refine Alike.bind (Alike.refl (Yields.always _)) fun _ _ _ => ?_
  refine Alike.bind (Alike.refl (Yields.always _)) ?_
  rintro descriptors _ ⟨rfl, -⟩
  refine Alike.bind (Alike.loop (I := fun _ => RunsOf image)
    (fun _ _ _ h => slotRunRound_alike descriptors h) (fun _ _ _ => .inl ⟨rfl, rfl⟩) _ _ _
    ⟨rfl, rfl⟩) ?_
  rintro _ _ (⟨rfl, rfl⟩ | ⟨table, runs, rfl, rfl, hslots⟩)
  · exact Alike.fail rfl
  · exact Alike.pure hslots

end Walk

/-! ## The runs an image lays out -/

section Held

variable {W : Type} {target : Target W} {image : Image} {content : ℕ → UInt8}

end Held

/-! ## The slots of a table -/

def halfContent (address : ℕ) : UInt8 :=
  let word := [(0x10020, 0x60), (0x10028, 0xc000000000), (0x10030, 0x70000000a0),
    (0x10040, 0xa4000000c8), (0x10060, 0x8000000000000007), (0x10070, 0x8000000000000008),
    (0x100c0, 0x7379732e61), (0x100c8, 0x7379732e62)].lookup (address / 8 * 8)
  .ofNat (word.getD 0 >>> (address % 8 * 8))

def halfTarget : Target Unit where
  read address len _ := (some (bytesAt halfContent address len), ())
  halt _ := (false, ())

def halfImage : Image := { smallImage with importDirectory := (0x20, 60) }

end DbgScope.Pe
