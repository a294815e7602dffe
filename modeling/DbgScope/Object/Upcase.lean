import DbgScope.Machine
import DbgScope.Run
import DbgScope.Utf16

/-!
# Folding object names

Names are folded a code unit at a time through the upcase table of the target: lower-case ASCII is
raised, other units below `U+00C0` stay, and the rest go through a trie whose leaf is a
difference. Where the table cannot be reached the table of the host stands in. What has been
folded is remembered.

The memory of the target may keep a state of its own.
-/

namespace DbgScope.Object

open Run

/-- Where a target keeps its upcase table. -/
structure UpcaseTable where
  siloGlobals : ℕ
  nlsState : ℕ
  upcaseTable : ℕ
  deriving DecidableEq, Repr

/-- The table's address once it has been asked for, and the units folded through it. -/
structure Known where
  base : Option (Option ℕ) := none
  units : List (ℕ × ℕ) := []
  hostFolded : Bool := false
  deriving DecidableEq, Repr

/-- The state of the target, and what a fold remembers. -/
structure World (W : Type) where
  target : W
  known : Known := {}

def World.rememberBase {W : Type} (w : World W) (base : Option ℕ) : World W :=
  { w with known := { w.known with base := some base } }

def World.rememberUnit {W : Type} (w : World W) (unit folded : ℕ) : World W :=
  { w with known := { w.known with units := (unit, folded) :: w.known.units } }

def World.foldedOnHost {W : Type} (w : World W) : World W :=
  { w with known := { w.known with hostFolded := true } }

/-- A read of target memory: `none` for anything that would not read. -/
abbrev Memory (W : Type) := ℕ → ℕ → W → Option (List UInt8) × W

/-- A target's table, and how wide a pointer is on the way. -/
structure TargetTable where
  table : UpcaseTable
  pointer : ℕ
  deriving DecidableEq, Repr

structure Upcase (W : Type) where
  memory : Memory W
  target : Option TargetTable
  /-- One code unit through the host's table. -/
  onHost : ℕ → ℕ

variable {ε W : Type}

def callRead (memory : Memory W) (address len : ℕ) : Run ε (World W) (Option (List UInt8)) :=
  fun w => (.ok (memory address len w.target).1,
    { w with target := (memory address len w.target).2 })

def firstChunk (n : ℕ) (bytes : List UInt8) : Option ℕ :=
  if n ≤ bytes.length then some (fromLe (bytes.take n)) else none

def TargetTable.pointerAddress (target : TargetTable) : ℕ :=
  wrappingAdd (wrappingAdd target.table.siloGlobals target.table.nlsState)
    target.table.upcaseTable

namespace Upcase

variable (up : Upcase W)

def readBase (target : TargetTable) : Run ε (World W) (Option ℕ) :=
  if target.pointer = 4 ∨ target.pointer = 8 then do
    let bytes ← callRead up.memory target.pointerAddress target.pointer
    pure (bytes.bind (firstChunk target.pointer))
  else
    pure none

/-- The table's address, read once and remembered, or `none` for folding on the host. -/
def base : Run ε (World W) (Option ℕ) := do
  match ← Run.read (·.known.base) with
  | some asked => pure asked
  | none =>
    match up.target with
    | none => pure none
    | some target =>
      let base ← up.readBase target
      Run.modify (·.rememberBase base)
      pure base

def element (base index : ℕ) : Run ε (World W) (Option ℕ) := do
  let bytes ← callRead up.memory (wrappingAdd base (index * 2)) 2
  pure (bytes.bind (firstChunk 2))

def fromTable (base unit : ℕ) : Run ε (World W) (Option ℕ) := do
  match ← up.element base (unit / 2 ^ 8) with
  | none => pure none
  | some level1 =>
    match ← up.element base (level1 + unit / 2 ^ 4 % 2 ^ 4) with
    | none => pure none
    | some level2 =>
      match ← up.element base (level2 + unit % 2 ^ 4) with
      | none => pure none
      | some delta => pure (some ((unit + delta) % 2 ^ 16))

/-- One code unit at or above `U+00C0`, from whichever table answers. -/
def uncached (unit : ℕ) : Run ε (World W) ℕ :=
  match up.target with
  | none => pure (up.onHost unit)
  | some _ => do
    match ← up.base with
    | none => pure (up.onHost unit)
    | some base =>
      if base = 0 then
        pure unit
      else
        match ← up.fromTable base unit with
        | some folded => pure folded
        | none =>
          Run.modify (·.foldedOnHost)
          pure (up.onHost unit)

/-- One code unit, in the three bands the lookup folds in. -/
def unit (unit : ℕ) : Run ε (World W) ℕ :=
  if 0x61 ≤ unit ∧ unit ≤ 0x7a then
    pure (unit - 0x20)
  else if unit ≤ 0xbf then
    pure unit
  else do
    match ← Run.read (·.known.units.lookup unit) with
    | some remembered => pure remembered
    | none =>
      let folded ← up.uncached unit
      Run.modify (·.rememberUnit unit folded)
      pure folded

def foldUnits : List ℕ → Run ε (World W) (List ℕ)
  | [] => pure []
  | unit :: units => do
    let folded ← up.unit unit
    let rest ← foldUnits units
    pure (folded :: rest)

def fold (name : String) : Run ε (World W) (List ℕ) := up.foldUnits (Utf16.encode name)

/-- Whether two names are the one name the object manager would file an object under. -/
def sameName (one other : String) : Run ε (World W) Bool := do
  let one ← up.fold one
  let other ← up.fold other
  return one = other

theorem foldUnits_keeps {up : Upcase W} {I : World W → Prop}
    {E : ε → World W → Prop} (hread : ∀ address len, Keeps I E (callRead up.memory address len))
    (hknown : ∀ w known, I w → I { w with known := known }) (units : List ℕ) :
    Keeps I E (up.foldUnits units) := by
  have hbase : Keeps I E up.base := by
    refine Keeps.bind (Keeps.read _) fun asked => ?_
    cases asked with
    | some _ => exact Keeps.pure _
    | none =>
      cases up.target with
      | none => exact Keeps.pure _
      | some target =>
        refine Keeps.bind (Keeps.when fun _ => (hread _ _).map) fun base => ?_
        exact Keeps.bind (Keeps.modify fun w hw => hknown w _ hw) fun _ => Keeps.pure _
  have htable (base unit : ℕ) : Keeps I E (up.fromTable base unit) := by
    have helement (index : ℕ) : Keeps I E (up.element base index) := (hread _ _).map
    refine Keeps.bind (helement _) fun level1 => ?_
    cases level1 with
    | none => exact Keeps.pure _
    | some level1 =>
      refine Keeps.bind (helement _) fun level2 => ?_
      cases level2 with
      | none => exact Keeps.pure _
      | some level2 =>
        refine Keeps.bind (helement _) fun delta => ?_
        cases delta <;> exact Keeps.pure _
  have huncached (unit : ℕ) : Keeps I E (up.uncached unit) := by
    unfold uncached
    cases up.target with
    | none => exact Keeps.pure _
    | some target =>
      refine Keeps.bind hbase fun base => ?_
      cases base with
      | none => exact Keeps.pure _
      | some base =>
        refine Keeps.guard fun _ => Keeps.bind (htable _ _) fun found => ?_
        cases found with
        | some folded => exact Keeps.pure _
        | none => exact Keeps.bind (Keeps.modify fun w hw => hknown w _ hw) fun _ => Keeps.pure _
  induction units with
  | nil => exact Keeps.pure _
  | cons unit units ih =>
    refine Keeps.bind ?_ fun folded => ih.map
    refine Keeps.guard fun _ => Keeps.guard fun _ => Keeps.bind (Keeps.read _) fun found => ?_
    cases found with
    | some folded => exact Keeps.pure _
    | none =>
      refine Keeps.bind (huncached unit) fun folded => ?_
      exact Keeps.bind (Keeps.modify fun w hw => hknown w _ hw) fun _ => Keeps.pure _

/-! ## The fold of the target -/

section Target

variable (content : ℕ → UInt8)

def tableBase (target : TargetTable) : ℕ :=
  fromLe (bytesAt content target.pointerAddress target.pointer)

def tableElement (base index : ℕ) : ℕ := fromLe (bytesAt content (wrappingAdd base (index * 2)) 2)

def tableDelta (base unit : ℕ) : ℕ :=
  let level1 := tableElement content base (unit / 2 ^ 8)
  let level2 := tableElement content base (level1 + unit / 2 ^ 4 % 2 ^ 4)
  tableElement content base (level2 + unit % 2 ^ 4)

def targetFold (unit : ℕ) : ℕ :=
  if 0x61 ≤ unit ∧ unit ≤ 0x7a then unit - 0x20
  else if unit ≤ 0xbf then unit
  else
    match up.target with
    | none => unit
    | some target =>
      if tableBase content target = 0 then unit
      else (unit + tableDelta content (tableBase content target) unit) % 2 ^ 16

structure TableReadable (target : TargetTable) : Prop where
  target_eq : up.target = some target
  pointer : target.pointer = 4 ∨ target.pointer = 8
  base : ∀ w, (up.memory target.pointerAddress target.pointer w).1 =
    some (bytesAt content target.pointerAddress target.pointer)
  element : ∀ index ≤ 0x1000e, ∀ w,
    (up.memory (wrappingAdd (tableBase content target) (index * 2)) 2 w).1 =
      some (bytesAt content (wrappingAdd (tableBase content target) (index * 2)) 2)

def Remembers (w : World W) : Prop :=
  ∀ target, TableReadable up content target →
    (∀ base, w.known.base = some base → base = some (tableBase content target)) ∧
      ∀ entry ∈ w.known.units, entry.2 = up.targetFold content entry.1

def Foldable (unit : ℕ) : Prop :=
  unit ≤ 0xbf ∨ unit < 2 ^ 16 ∧ ∃ target, TableReadable up content target

theorem remembers_fresh (w : W) : up.Remembers content ⟨w, {}⟩ :=
  fun _ _ => ⟨fun _ h => (nomatch h), fun _ h => (nomatch h)⟩

variable {up content} {E : ε → World W → Prop}

theorem firstChunk_bytesAt (n address : ℕ) :
    firstChunk n (bytesAt content address n) = some (fromLe (bytesAt content address n)) := by
  unfold firstChunk
  rw [length_bytesAt, if_pos (le_refl n), List.take_of_length_le (by simp)]

theorem mem_of_lookup {entries : List (ℕ × ℕ)} {key value : ℕ}
    (h : entries.lookup key = some value) : (key, value) ∈ entries := by
  induction entries with
  | nil => cases h
  | cons entry entries ih =>
    rw [List.lookup_cons] at h
    split at h
    · next heq =>
      rw [beq_iff_eq] at heq
      rw [← Option.some.inj h, heq]
      exact List.mem_cons_self
    · exact List.mem_cons_of_mem _ (ih h)

theorem callRead_target {address len : ℕ} {bytes : List UInt8}
    (h : ∀ w, (up.memory address len w).1 = some bytes) {I : World W → Prop}
    (hI : ∀ w w', I w → I { w with target := w' }) :
    Triple I (callRead up.memory address len) (fun found w => found = some bytes ∧ I w) E :=
  fun w hw => ⟨h w.target, hI w _ hw⟩

variable {target : TargetTable} (h : TableReadable up content target)
include h

theorem readBase_target : Triple (up.Remembers content) (up.readBase target)
      (fun base w => up.Remembers content w ∧ base = some (tableBase content target)) E := by
  unfold readBase
  rw [if_pos h.pointer]
  refine Triple.bind (callRead_target h.base fun _ _ hw => hw) ?_
  rintro bytes w ⟨rfl, hw⟩
  exact ⟨hw, firstChunk_bytesAt _ _⟩

omit h in
theorem TableReadable.unique {target' : TargetTable} (h : TableReadable up content target)
    (h' : TableReadable up content target') : target' = target :=
  Option.some.inj (h'.target_eq.symm.trans h.target_eq)

theorem base_target : Triple (up.Remembers content) up.base
      (fun base w => up.Remembers content w ∧ base = some (tableBase content target)) E := by
  intro w hw
  unfold base
  rw [read_bind_apply]
  cases hasked : w.known.base with
  | some asked => exact ⟨hw, (hw target h).1 asked hasked⟩
  | none =>
    rw [h.target_eq]
    refine Triple.bind (readBase_target h) (fun base => Triple.pull ?_) w hw
    rintro rfl w hw
    refine ⟨fun target' h' => ⟨fun base' hbase => ?_, (hw target' h').2⟩, rfl⟩
    rw [h.unique h', ← Option.some.inj hbase]

theorem element_target {index : ℕ} (hindex : index ≤ 0x1000e) :
    Triple (up.Remembers content) (up.element (tableBase content target) index)
      (fun found w => up.Remembers content w ∧
        found = some (tableElement content (tableBase content target) index)) E := by
  unfold element
  refine Triple.bind (callRead_target (h.element index hindex) fun _ _ hw => hw) ?_
  rintro bytes w ⟨rfl, hw⟩
  exact ⟨hw, firstChunk_bytesAt _ _⟩

omit h in
theorem tableElement_lt (base index : ℕ) : tableElement content base index < 2 ^ 16 := by
  have hlt := fromLe_lt (bytesAt content (wrappingAdd base (index * 2)) 2)
  rw [length_bytesAt] at hlt
  exact hlt

theorem fromTable_target {unit : ℕ} (hunit : unit < 2 ^ 16) :
    Triple (up.Remembers content) (up.fromTable (tableBase content target) unit)
      (fun found w => up.Remembers content w ∧
        found = some ((unit + tableDelta content (tableBase content target) unit) % 2 ^ 16)) E := by
  have hlevel (index : ℕ) : tableElement content (tableBase content target) index < 2 ^ 16 :=
    tableElement_lt _ _
  unfold fromTable
  refine Triple.bind (element_target h (by omega)) fun level1 => Triple.pull ?_
  rintro rfl
  have hlevel1 := hlevel (unit / 2 ^ 8)
  refine Triple.bind (element_target h (by omega)) fun level2 => Triple.pull ?_
  rintro rfl
  have hlevel2 := hlevel
    (tableElement content (tableBase content target) (unit / 2 ^ 8) + unit / 2 ^ 4 % 2 ^ 4)
  refine Triple.bind (element_target h (by omega)) fun delta => Triple.pull ?_
  rintro rfl
  exact Triple.pure fun w hw => ⟨hw, rfl⟩

theorem targetFold_table {unit : ℕ} (hunit : ¬unit ≤ 0xbf) :
    up.targetFold content unit = if tableBase content target = 0 then unit
      else (unit + tableDelta content (tableBase content target) unit) % 2 ^ 16 := by
  unfold targetFold
  rw [if_neg (by omega), if_neg hunit, h.target_eq]

theorem uncached_target {unit : ℕ} (hunit : unit < 2 ^ 16) (hband : ¬unit ≤ 0xbf) :
    Triple (up.Remembers content) (up.uncached unit)
      (fun folded w => up.Remembers content w ∧ folded = up.targetFold content unit) E := by
  rw [targetFold_table h hband]
  unfold uncached
  rw [h.target_eq]
  refine Triple.bind (base_target h) fun base => Triple.pull ?_
  rintro rfl
  by_cases hbase : tableBase content target = 0
  · rw [if_pos hbase]
    exact Triple.ite (fun _ => Triple.pure fun w hw => ⟨hw, rfl⟩) fun hne => absurd hbase hne
  · rw [if_neg hbase]
    refine Triple.ite (fun hzero => absurd hzero hbase) fun _ => ?_
    refine Triple.bind (fromTable_target h hunit) fun found => Triple.pull ?_
    rintro rfl
    exact Triple.pure fun w hw => ⟨hw, rfl⟩

omit h in
/-- **A unit whose fold can be told is folded as the target folds it.** -/
theorem unit_target {unit : ℕ} (hunit : up.Foldable content unit) :
    Triple (up.Remembers content) (up.unit unit)
      (fun folded w => up.Remembers content w ∧ folded = up.targetFold content unit) E := by
  unfold Upcase.unit
  by_cases hlower : 0x61 ≤ unit ∧ unit ≤ 0x7a
  · rw [if_pos hlower]
    exact Triple.pure fun w hw => ⟨hw, (if_pos hlower).symm⟩
  rw [if_neg hlower]
  by_cases hband : unit ≤ 0xbf
  · rw [if_pos hband]
    refine Triple.pure fun w hw => ⟨hw, ?_⟩
    unfold targetFold
    rw [if_neg hlower, if_pos hband]
  rw [if_neg hband]
  obtain ⟨hlt, target, h⟩ := hunit.resolve_left hband
  intro w hw
  rw [read_bind_apply]
  cases hfound : w.known.units.lookup unit with
  | some folded => exact ⟨hw, (hw target h).2 (unit, folded) (mem_of_lookup hfound)⟩
  | none =>
    refine Triple.bind (uncached_target h hlt hband) (fun folded => Triple.pull ?_) w hw
    rintro rfl w hw
    refine ⟨fun target' h' => ⟨(hw target' h').1, fun entry hentry => ?_⟩, rfl⟩
    rcases List.mem_cons.mp hentry with rfl | hold
    · rfl
    · exact (hw target' h').2 entry hold

omit h in
theorem foldUnits_target {units : List ℕ} (hunits : ∀ unit ∈ units, up.Foldable content unit) :
    Triple (up.Remembers content) (up.foldUnits units)
      (fun folded w => up.Remembers content w ∧ folded = units.map (up.targetFold content)) E := by
  induction units with
  | nil => exact Triple.pure fun w hw => ⟨hw, rfl⟩
  | cons unit units ih =>
    unfold foldUnits
    refine Triple.bind (unit_target (hunits unit (by simp))) fun folded => Triple.pull ?_
    rintro rfl
    refine Triple.bind (ih fun u hu => hunits u (by simp [hu])) fun rest => Triple.pull ?_
    rintro rfl
    exact Triple.pure fun w hw => ⟨hw, rfl⟩

def Same (up : Upcase W) (content : ℕ → UInt8) (one other : List ℕ) : Prop :=
  one.map (up.targetFold content) = other.map (up.targetFold content)

omit h in
theorem sameName_target {one other : String}
    (hone : ∀ unit ∈ Utf16.encode one, up.Foldable content unit)
    (hother : ∀ unit ∈ Utf16.encode other, up.Foldable content unit) :
    Triple (up.Remembers content) (up.sameName one other)
      (fun same w => up.Remembers content w ∧
        (same = true ↔ up.Same content (Utf16.encode one) (Utf16.encode other))) E := by
  unfold sameName fold
  refine Triple.bind (foldUnits_target hone) fun folded => Triple.pull ?_
  rintro rfl
  refine Triple.bind (foldUnits_target hother) fun folded => Triple.pull ?_
  rintro rfl
  exact Triple.pure fun w hw => ⟨hw, by simp [Same]⟩

/-- The target's table moves no surrogate, and nothing onto one. -/
def KeepsSurrogates (up : Upcase W) (content : ℕ → UInt8) : Prop :=
  ∀ unit < 2 ^ 16, Utf16.isHigh (up.targetFold content unit) = Utf16.isHigh unit ∧
    Utf16.isLow (up.targetFold content unit) = Utf16.isLow unit

end Target

end Upcase

end DbgScope.Object
