import DbgScope.Pe.Imports

/-!
# An import table is answered whole

The table an image holds is stated over its bytes: descriptors up to the null one, for each
library the thunks of its lookup table up to the zero one, names up to their terminator. The
reader answers a request with exactly these bytes or not at all. Whatever `readImports` answers is
then that table, each slot claimed once.
-/

namespace DbgScope.Pe

open Run

/-! ## The table an image holds -/

section Held

variable (image : Image) (content : ℕ → UInt8)

def wordAt (width address : ℕ) : ℕ := fromLe (bytesAt content address width)

/-- The text at an address is the bytes in front of the first zero. -/
def NameAt (address : ℕ) (name : String) : Prop :=
  ∃ n, name.toUTF8.data.toList = bytesAt content address n ∧ 0 ∉ bytesAt content address n ∧
    content (address + n) = 0

def descriptorAt (index : ℕ) : Descriptor :=
  let address := image.base.toNat + image.importDirectory.1.toNat + index * 20
  ⟨wordAt content 4 address, wordAt content 4 (address + 4), wordAt content 4 (address + 8),
    wordAt content 4 (address + 12), wordAt content 4 (address + 16)⟩

def thunkAt (lookup index : ℕ) : ℕ :=
  wordAt content image.bitness.pointer
    (image.base.toNat + lookup + index * image.bitness.pointer)

/-- What a thunk names: an ordinal beside the flag, or the text behind a two-byte hint. -/
def ThunkNames (value : ℕ) : ImportName → Prop
  | .ordinal ordinal => ordinal < 2 ^ 16 ∧ value = ordinalFlag image.bitness + ordinal
  | .named name =>
    value < ordinalFlag image.bitness ∧ NameAt content (image.base.toNat + value + 2) name

structure ImportAt (descriptor : Descriptor) (library : String) (index : ℕ) (entry : Import) :
    Prop where
  thunk : thunkAt image content descriptor.lookup index ≠ 0
  library : entry.library = library
  name : ThunkNames image content (thunkAt image content descriptor.lookup index) entry.name
  slot : entry.slot = image.base.toNat + descriptor.iat + index * image.bitness.pointer

def Listed (descriptor : Descriptor) (library : String) (imports : List Import) : Prop :=
  (∀ index entry, imports[index]? = some entry →
    ImportAt image content descriptor library index entry) ∧
  thunkAt image content descriptor.lookup imports.length = 0

def Accounted (descriptor : Descriptor) (part : ImportTable) : Prop :=
  ∃ library, NameAt content (image.base.toNat + descriptor.nameRva) library ∧
    if descriptor.lookup = 0 then part = ⟨[], [library]⟩
    else part.unnamedLibraries = [] ∧ Listed image content descriptor library part.imports

def joinTables (parts : List ImportTable) : ImportTable :=
  ⟨parts.flatMap (·.imports), parts.flatMap (·.unnamedLibraries)⟩

/-- Parts for the first descriptors of the directory, none of them the null one. -/
def Parts (parts : List ImportTable) : Prop :=
  ∀ index part, parts[index]? = some part →
    descriptorAt image content index ≠ .null ∧
      Accounted image content (descriptorAt image content index) part

def Whole (table : ImportTable) : Prop :=
  ∃ parts, table = joinTables parts ∧ Parts image content parts ∧
    (parts.length + 1) * 20 ≤ image.importDirectory.2.toNat ∧
    descriptorAt image content parts.length = .null

end Held

/-! ## Reads -/

section Reads

variable {W : Type} {target : Target W} {image : Image} {content : ℕ → UInt8}

/-- The reader answers with exactly the bytes asked for, or not at all. -/
def Faithful (target : Target W) (content : ℕ → UInt8) : Prop :=
  ∀ address len w bytes, (target.read address len w).1 = some bytes →
    bytes = bytesAt content address len

theorem checkedVa_ok {rva len address : ℕ} (h : image.checkedVa rva len = .ok address) :
    address = image.base.toNat + rva := by
  unfold Image.checkedVa at h
  split at h
  · cases h
  split at h
  · cases h
  unfold va checkedAdd at h
  by_cases hstart : image.base.toNat + rva < 2 ^ 64
  · rw [if_pos hstart] at h
    dsimp only at h
    split at h
    · cases h
    · exact (Except.ok.inj h).symm
  · rw [if_neg hstart] at h
    cases h

theorem narrow_ok {rva rva' : ℕ} {reason : String} (h : narrow rva reason = .ok rva') :
    rva' = rva ∧ rva < 2 ^ 32 := by
  unfold narrow at h
  split at h
  · next hlt => exact ⟨(Except.ok.inj h).symm, hlt⟩
  · cases h

theorem fieldAt_ok {width address n offset value : ℕ} {reason : String}
    (h : fieldAt width reason (bytesAt content address n) offset = .ok value) :
    value = wordAt content width (address + offset) := by
  unfold fieldAt at h
  split at h
  · next hfits =>
    rw [length_bytesAt] at hfits
    rw [take_drop_bytesAt hfits] at h
    exact (Except.ok.inj h).symm
  · cases h

theorem clippedReader_yields (h : Faithful target content) (rva len : ℕ) :
    Yields (clippedReader target image rva len) fun bytes =>
      bytes = bytesAt content (image.base.toNat + rva)
        (min len (image.sizeOfImage.toNat - rva)) := by
  refine Yields.bind (Yields.lift fun address haddress => checkedVa_ok haddress) ?_
  rintro _ rfl w -
  unfold readAt
  cases hread : (target.read (image.base.toNat + rva)
    (min len (image.sizeOfImage.toNat - rva)) w).1 with
  | some bytes => exact h _ _ _ _ hread
  | none => trivial

/-! ### Names -/

/-- What is read of a name while its terminator has not been found. -/
def NamePart (content : ℕ → UInt8) (address : ℕ) (raw : List UInt8) : Prop :=
  raw = bytesAt content address raw.length ∧ 0 ∉ raw

theorem NamePart.append {address n : ℕ} {raw : List UInt8} (h : NamePart content address raw)
    (hnone : 0 ∉ bytesAt content (address + raw.length) n) :
    NamePart content address (raw ++ bytesAt content (address + raw.length) n) := by
  refine ⟨?_, by simp [h.2, hnone]⟩
  rw [List.length_append, length_bytesAt, ← bytesAt_append, ← h.1]

theorem toUTF8_of_fromUTF8? {bytes : ByteArray} {name : String}
    (h : String.fromUTF8? bytes = some name) : name.toUTF8 = bytes := by
  unfold String.fromUTF8? at h
  split at h
  · rw [← Option.some.inj h]
    rfl
  · cases h

theorem NamePart.ends {address n stop : ℕ} {raw : List UInt8} {name : String}
    (h : NamePart content address raw)
    (hstop : (bytesAt content (address + raw.length) n).findIdx? (· == 0) = some stop)
    (hname : String.fromUTF8?
      ⟨(raw ++ (bytesAt content (address + raw.length) n).take stop).toArray⟩ = some name) :
    NameAt content address name := by
  obtain ⟨hlt, hzero, hbefore⟩ := List.findIdx?_eq_some_iff_getElem.mp hstop
  rw [length_bytesAt] at hlt
  have htake : (bytesAt content (address + raw.length) n).take stop =
      bytesAt content (address + raw.length) stop := by
    have hrange : 0 + stop ≤ n := by omega
    exact take_drop_bytesAt hrange
  have hnone : 0 ∉ bytesAt content (address + raw.length) stop := by
    intro hmem
    rw [bytesAt, List.mem_map] at hmem
    obtain ⟨i, hi, hcontent⟩ := hmem
    have := hbefore i (List.mem_range.mp hi)
    simp [bytesAt, hcontent] at this
  have hpart := h.append hnone
  rw [htake] at hname
  refine ⟨raw.length + stop, ?_, ?_, ?_⟩
  · rw [toUTF8_of_fromUTF8? hname, ← bytesAt_append, ← h.1]
  · rw [← bytesAt_append, ← h.1]
    exact hpart.2
  · rw [← Nat.add_assoc]
    simpa [bytesAt] using hzero

theorem nameRound_yields (h : Faithful target content) (rva : ℕ) {raw : List UInt8}
    (hraw : NamePart content (image.base.toNat + rva) raw) :
    Yields (nameRound target image rva raw)
      (Flow.Holds (NamePart content (image.base.toNat + rva))
        fun found => ∀ name, found = some name → NameAt content (image.base.toNat + rva) name) := by
  refine Yields.ite (fun _ => Yields.pure fun _ hnone => by cases hnone) fun _ => ?_
  refine Yields.lift_eq (fun _ hok => (narrow_ok hok).1) ?_
  refine Yields.lift_eq (fun _ hok => (narrow_ok hok).1) ?_
  refine Yields.bind (clippedReader_yields h _ _) ?_
  rintro _ rfl
  rw [← Nat.add_assoc]
  refine Yields.ite (fun _ => Yields.pure fun _ hnone => by cases hnone) fun _ => ?_
  split
  · next stop hstop =>
    split
    · next name hname =>
      refine Yields.pure fun name' hname' => ?_
      rw [← Option.some.inj hname']
      exact hraw.ends hstop hname
    · exact Yields.fail _
  · next hnone =>
    refine Yields.pure (hraw.append fun hmem => ?_)
    have := List.findIdx?_eq_none_iff.mp hnone 0 hmem
    simp at this

/-- **A name is the bytes up to its terminator.** -/
theorem readCString_yields (h : Faithful target content) (rva : ℕ) :
    Yields (readCString target image rva) (NameAt content (image.base.toNat + rva)) := by
  refine Yields.guard fun _ => ?_
  refine Yields.bind (Yields.countdown (I := fun _ => NamePart content (image.base.toNat + rva))
    (fun _ _ hraw => nameRound_yields h rva hraw) (fun _ _ _ hnone => by cases hnone) _ _
    ⟨rfl, List.not_mem_nil⟩) fun found hfound => ?_
  cases found with
  | some name => exact Yields.pure (hfound name rfl)
  | none => exact Yields.fail _

/-! ### Thunks -/

theorem eq_flag_add {k value : ℕ} (hk : 16 ≤ k) (hk' : k < 64) (hvalue : value < 2 ^ 64)
    (hflag : value &&& 2 ^ k ≠ 0) (hrest : value &&& complement (2 ^ k ||| 0xffff) = 0) :
    value = 2 ^ k + (value &&& 0xffff) := by
  have hpow : (2 : ℕ) ^ 16 ≤ 2 ^ k := Nat.pow_le_pow_right (by decide) hk
  have hlow : value &&& 0xffff < 2 ^ 16 := Nat.and_lt_two_pow _ (by decide)
  have hmask : 2 ^ k ||| 0xffff < 2 ^ 64 :=
    Nat.or_lt_two_pow (Nat.pow_lt_pow_right (by decide) hk') (by decide)
  have hset : value &&& 2 ^ k = 2 ^ k := by
    rw [Nat.and_two_pow] at hflag ⊢
    cases hbit : value.testBit k with
    | true => simp
    | false => simp [hbit] at hflag
  have hwhole : value = value &&& (2 ^ k ||| 0xffff) := by
    refine Nat.eq_of_testBit_eq fun i => ?_
    have hbit : (value &&& complement (2 ^ k ||| 0xffff)).testBit i = false := by
      rw [hrest, Nat.zero_testBit]
    rw [Nat.testBit_and, testBit_complement hmask] at hbit
    rw [Nat.testBit_and]
    by_cases hi : i < 64
    · simp only [hi, decide_true, Bool.true_and] at hbit
      cases hv : value.testBit i with
      | false => rfl
      | true =>
        rw [hv, Bool.true_and, Bool.not_eq_false'] at hbit
        rw [hbit, Bool.true_and]
    · have hhigh : value.testBit i = false :=
        Nat.testBit_lt_two_pow (hvalue.trans_le (Nat.pow_le_pow_right (by decide) (by omega)))
      simp [hhigh]
  have hsum := Nat.two_pow_add_eq_or_of_lt (hlow.trans_le hpow) 1
  rw [Nat.mul_one] at hsum
  rw [hsum]
  conv_lhs => rw [hwhole, Nat.and_or_distrib_left, hset]

theorem lt_ordinalFlag {bitness : Bitness} {value : ℕ} (hvalue : value < 2 ^ 32)
    (hflag : value &&& ordinalFlag bitness = 0) : value < ordinalFlag bitness := by
  cases bitness with
  | bits32 =>
    simp only [ordinalFlag, Nat.and_two_pow, Nat.testBit_eq_decide_div_mod_eq] at hflag ⊢
    by_cases htop : value / 2 ^ 31 % 2 = 1
    · rw [htop] at hflag
      simp at hflag
    · omega
  | bits64 =>
    simp only [ordinalFlag]
    omega

theorem thunkName_yields (h : Faithful target content) {value : ℕ}
    (hvalue : value < 256 ^ image.bitness.pointer) :
    Yields (thunkName target image value) (ThunkNames image content value) := by
  refine Yields.ite (fun hflag => ?_) fun hflag => ?_
  · refine Yields.guard fun hrest => Yields.pure ?_
    refine ⟨Nat.and_lt_two_pow _ (by decide), ?_⟩
    rw [ne_eq, not_not] at hrest
    cases hbits : image.bitness with
    | bits32 =>
      rw [hbits] at hflag hrest hvalue
      exact eq_flag_add (by decide) (by decide) (hvalue.trans (by decide)) hflag hrest
    | bits64 =>
      rw [hbits] at hflag hrest hvalue
      exact eq_flag_add (by decide) (by decide) (hvalue.trans_le (by decide)) hflag hrest
  · rw [ne_eq, not_not] at hflag
    refine Yields.bind (Yields.lift fun _ hok => narrow_ok hok) ?_
    rintro _ ⟨rfl, hlt⟩
    refine Yields.lift_eq (fun _ hok => (narrow_ok hok).1) ?_
    refine Yields.bind (readCString_yields h _) fun name hname => Yields.pure ?_
    rw [← Nat.add_assoc] at hname
    exact ⟨lt_ordinalFlag hlt hflag, hname⟩

theorem thunkValue_ok {address n value : ℕ}
    (h : thunkValue image (bytesAt content address n) = .ok value) :
    value = wordAt content image.bitness.pointer address := by
  unfold thunkValue u32 u64At at h
  cases hbits : image.bitness with
  | bits32 =>
    rw [hbits] at h
    have hvalue := fieldAt_ok h
    rwa [Nat.add_zero] at hvalue
  | bits64 =>
    rw [hbits] at h
    have hvalue := fieldAt_ok h
    rwa [Nat.add_zero] at hvalue

theorem wordAt_lt (width address : ℕ) : wordAt content width address < 256 ^ width := by
  have hlt := fromLe_lt (bytesAt content address width)
  rwa [length_bytesAt] at hlt

end Reads

/-! ## Libraries -/

section Libraries

variable {W : Type} {target : Target W} {image : Image} {content : ℕ → UInt8}

theorem getElem?_snoc {α : Type} {xs : List α} {x y : α} {index : ℕ}
    (h : (xs ++ [x])[index]? = some y) : xs[index]? = some y ∨ index = xs.length ∧ y = x := by
  rcases Nat.lt_or_ge index xs.length with hlt | hge
  · exact .inl ((List.getElem?_append_left hlt).symm.trans h)
  · rw [List.getElem?_append_right hge] at h
    obtain ⟨hzero, hy⟩ := List.getElem?_eq_some_iff.mp h
    have hindex : index = xs.length := by
      rw [List.length_singleton] at hzero
      omega
    exact .inr ⟨hindex, by simpa using hy.symm⟩

theorem claim_ok {claims claims' : Claims} {entry : Import}
    (h : claim claims entry = .ok claims') :
    claims'.table = ⟨claims.table.imports ++ [entry], claims.table.unnamedLibraries⟩ := by
  unfold claim at h
  split at h
  · cases h
  split at h
  · cases h
  · rw [← Except.ok.inj h]
    rfl

def ReadSlots (image : Image) (content : ℕ → UInt8) (descriptor : Descriptor) (library : String)
    (table : ImportTable) (state : ℕ × Claims) : Prop :=
  ∃ imports, imports.length = state.1 ∧
    state.2.table = ⟨table.imports ++ imports, table.unnamedLibraries⟩ ∧
    ∀ index entry, imports[index]? = some entry →
      ImportAt image content descriptor library index entry

theorem ReadSlots.snoc {descriptor : Descriptor} {library : String} {table : ImportTable}
    {state : ℕ × Claims} {claims : Claims} {entry : Import}
    (h : ReadSlots image content descriptor library table state)
    (hclaim : claim state.2 entry = .ok claims)
    (hentry : ImportAt image content descriptor library state.1 entry) :
    ReadSlots image content descriptor library table (state.1 + 1, claims) := by
  obtain ⟨imports, hlength, htable, hat⟩ := h
  refine ⟨imports ++ [entry], by simp [hlength], ?_, fun index other hother => ?_⟩
  · rw [claim_ok hclaim, htable, List.append_assoc]
  · rcases getElem?_snoc hother with hold | ⟨hindex, rfl⟩
    · exact hat index other hold
    · rw [hindex, hlength]
      exact hentry

theorem slotRound_yields (h : Faithful target content) {descriptor : Descriptor}
    {library : String} {table : ImportTable} {state : ℕ × Claims}
    (hstate : ReadSlots image content descriptor library table state) :
    Yields (slotRound target image library descriptor.lookup descriptor.iat state)
      (Flow.Holds (ReadSlots image content descriptor library table) fun ended =>
        ∀ claims, ended = some claims →
          ∃ imports, claims.table = ⟨table.imports ++ imports, table.unnamedLibraries⟩ ∧
            Listed image content descriptor library imports) := by
  refine Yields.after fun _ => ?_
  refine Yields.lift_eq (fun _ hok => (narrow_ok hok).1) ?_
  refine Yields.lift_eq (fun _ => checkedVa_ok) ?_
  refine Yields.lift_eq (fun _ hok => (narrow_ok hok).1) ?_
  refine Yields.bind (clippedReader_yields h _ _) ?_
  rintro _ rfl
  rw [← Nat.add_assoc]
  refine Yields.lift_eq (fun _ => thunkValue_ok) ?_
  refine Yields.ite (fun hzero => Yields.pure ?_) fun hthunk => ?_
  · intro claims hclaims
    obtain ⟨imports, hlength, htable, hat⟩ := hstate
    refine ⟨imports, by rw [← Option.some.inj hclaims, htable], hat, ?_⟩
    rw [hlength]
    exact hzero
  · refine Yields.bind (thunkName_yields h (wordAt_lt _ _)) fun name hname => ?_
    refine Yields.bind (Yields.lift fun claims hclaim => hclaim) fun claims hclaim =>
      Yields.pure (hstate.snoc hclaim ⟨hthunk, rfl, hname, ?_⟩)
    rw [Nat.add_assoc]

def ImportTable.append (table part : ImportTable) : ImportTable :=
  ⟨table.imports ++ part.imports, table.unnamedLibraries ++ part.unnamedLibraries⟩

/-- **A descriptor adds its library, whole.** -/
theorem readLibrary_yields (h : Faithful target content) (descriptor : Descriptor)
    (claims : Claims) :
    Yields (readLibrary target image descriptor claims) fun claims' =>
      ∃ part, claims'.table = claims.table.append part ∧
        Accounted image content descriptor part := by
  refine Yields.guard fun _ => ?_
  refine Yields.guard fun _ => ?_
  refine Yields.bind (readCString_yields h _) fun library hlibrary => ?_
  refine Yields.ite (fun hbound => ?_) fun hlookup => ?_
  · refine Yields.after fun _ => Yields.pure ?_
    refine ⟨⟨[], [library]⟩, ?_, library, hlibrary, by rw [if_pos hbound]⟩
    simp [ImportTable.append, Claims.unnamed]
  · have hstart : ReadSlots image content descriptor library claims.table (0, claims) :=
      ⟨[], rfl, by simp, by simp⟩
    refine Yields.bind (Yields.countdown
      (I := fun _ => ReadSlots image content descriptor library claims.table)
      (fun _ _ hstate => slotRound_yields h hstate) (fun _ _ _ hnone => by cases hnone) _ _
      hstart) fun ended hended => ?_
    cases ended with
    | none => exact Yields.fail _
    | some claims' =>
      obtain ⟨imports, htable, hlisted⟩ := hended claims' rfl
      refine Yields.pure ⟨⟨imports, []⟩, ?_, library, hlibrary, ?_⟩
      · simp [htable, ImportTable.append]
      · rw [if_neg hlookup]
        exact ⟨rfl, hlisted⟩

/-- What a round over a slot can do, whatever the reader answers: the slot is one of the image's,
and the walk ends at it or claims it. -/
inductive SlotStep (image : Image) (iat : ℕ) (state : ℕ × Claims) :
    Flow (ℕ × Claims) (Option Claims) → Prop
  | ends {slot : ℕ}
      (hslot : image.checkedVa (iat + state.1 * image.bitness.pointer) image.bitness.pointer =
        .ok slot) :
      SlotStep image iat state (.stop (some state.2))
  | claims {entry : Import} {claims : Claims}
      (hslot : image.checkedVa (iat + state.1 * image.bitness.pointer) image.bitness.pointer =
        .ok entry.slot)
      (hclaim : claim state.2 entry = .ok claims) :
      SlotStep image iat state (.again (state.1 + 1, claims))

theorem slotRound_steps (library : String) (lookup iat : ℕ) (state : ℕ × Claims) :
    Yields (slotRound target image library lookup iat state) (SlotStep image iat state) := by
  refine Yields.after fun _ => ?_
  refine Yields.lift_eq (fun _ hok => (narrow_ok hok).1) ?_
  refine Yields.bind (Yields.lift fun _ hok => hok) fun slot hslot => ?_
  refine Yields.after fun _ => Yields.after fun _ => Yields.after fun _ => ?_
  refine Yields.ite (fun _ => Yields.pure (.ends hslot)) fun _ => ?_
  refine Yields.after fun name => ?_
  refine Yields.bind (Yields.lift fun _ hok => hok) fun claims hclaim => ?_
  exact Yields.pure (.claims hslot hclaim)

/-- **The rule for a library's slots**, whatever the reader answers: what every slot keeps while
the rounds run down holds where the walk of the library ends. -/
theorem readLibrary_walks (descriptor : Descriptor) {claims : Claims}
    {I : ℕ → ℕ × Claims → Prop} {R : Claims → Prop}
    (hunnamed : descriptor.lookup = 0 → ∀ library, R (claims.unnamed library))
    (hstart : I maxImportsPerLibrary (0, claims))
    (hround : ∀ rounds state flow, I (rounds + 1) state →
      SlotStep image descriptor.iat state flow →
      flow.Holds (I rounds) fun ended => ∀ claims', ended = some claims' → R claims') :
    Yields (readLibrary target image descriptor claims) R := by
  refine Yields.guard fun _ => ?_
  refine Yields.guard fun _ => ?_
  refine Yields.after fun library => ?_
  refine Yields.ite (fun hbound => ?_) fun _ => ?_
  · exact Yields.after fun _ => Yields.pure (hunnamed hbound library)
  refine Yields.bind (Yields.countdown
    (R := fun ended => ∀ claims', ended = some claims' → R claims')
    (fun rounds state hstate => (slotRound_steps library descriptor.lookup descriptor.iat
      state).imp fun flow => hround rounds state flow hstate)
    (fun _ _ _ hended => by cases hended) _ _ hstart) fun ended hended => ?_
  cases ended with
  | none => exact Yields.fail _
  | some claims' => exact Yields.pure (hended claims' rfl)

end Libraries

/-! ## The directory -/

section Directory

variable {W : Type} {target : Target W} {image : Image} {content : ℕ → UInt8}

theorem readDescriptor_yields (n index : ℕ) :
    Yields (readDescriptor (W := W)
        (bytesAt content (image.base.toNat + image.importDirectory.1.toNat) n) (index * 20))
      fun descriptor => descriptor = descriptorAt image content index := by
  refine Yields.lift_eq (fun _ => fieldAt_ok) ?_
  refine Yields.lift_eq (fun _ => fieldAt_ok) ?_
  refine Yields.lift_eq (fun _ => fieldAt_ok) ?_
  refine Yields.lift_eq (fun _ => fieldAt_ok) ?_
  refine Yields.lift_eq (fun _ => fieldAt_ok) ?_
  refine Yields.pure ?_
  simp only [descriptorAt, Nat.add_assoc]

/-- What has been read of the directory when its first descriptors have been. -/
def ReadParts (image : Image) (content : ℕ → UInt8) (state : ℕ × Claims) : Prop :=
  ∃ parts, parts.length = state.1 ∧ state.2.table = joinTables parts ∧
    Parts image content parts

theorem Parts.snoc {parts : List ImportTable} {part : ImportTable}
    (h : Parts image content parts)
    (hnull : descriptorAt image content parts.length ≠ .null)
    (hpart : Accounted image content (descriptorAt image content parts.length) part) :
    Parts image content (parts ++ [part]) := by
  intro index other hother
  rcases getElem?_snoc hother with hold | ⟨rfl, rfl⟩
  · exact h index other hold
  · exact ⟨hnull, hpart⟩

theorem descriptorRound_yields (h : Faithful target content) {n rounds : ℕ} {state : ℕ × Claims}
    (hrounds : state.1 + (rounds + 1) = n / 20) (hstate : ReadParts image content state) :
    Yields (descriptorRound target image
        (bytesAt content (image.base.toNat + image.importDirectory.1.toNat) n) state)
      (Flow.Holds (fun state' => state'.1 + rounds = n / 20 ∧ ReadParts image content state')
        fun ended => ∀ table, ended = some table →
          (table.imports.map (·.slot)).Nodup ∧
          ∃ parts, table = joinTables parts ∧ Parts image content parts ∧
            (parts.length + 1) * 20 ≤ n ∧
            descriptorAt image content parts.length = .null) := by
  obtain ⟨parts, hlength, htable, hparts⟩ := hstate
  refine Yields.after fun _ => ?_
  refine Yields.bind (readDescriptor_yields _ _) ?_
  rintro _ rfl
  refine Yields.ite (fun hnull => Yields.pure ?_) fun hnull => ?_
  · intro table hsome
    rw [← Option.some.inj hsome]
    refine ⟨?_, parts, htable, hparts, by omega, by rw [hlength, hnull]⟩
    rw [← state.2.claimed_eq]
    exact state.2.nodup
  · refine Yields.bind (readLibrary_yields h _ _) ?_
    rintro claims ⟨part, hadded, hpart⟩
    refine Yields.pure ⟨by dsimp only; omega, parts ++ [part], by simp [hlength], ?_, ?_⟩
    · rw [hadded, htable]
      simp [ImportTable.append, joinTables]
    · rw [← hlength] at hnull hpart
      exact hparts.snoc hnull hpart

theorem declaredFits_ok {rva len size : ℕ} {reason : String} (hlen : rva + len < 2 ^ 64)
    (h : declaredFits rva len size reason = .ok ()) : rva + len ≤ size := by
  unfold declaredFits at h
  rw [saturatingAdd_of_lt hlen] at h
  by_contra hnot
  rw [if_neg hnot] at h
  cases h

theorem readImports_yields (h : Faithful target content) :
    Yields (readImports target image) fun table =>
      (table.imports.map (·.slot)).Nodup ∧
        (image.importDirectory = (0, 0) ∧ table = {} ∨ Whole image content table) := by
  refine Yields.ite (fun hzero => Yields.pure ?_) fun _ => ?_
  · refine ⟨List.nodup_nil, .inl ⟨?_, rfl⟩⟩
    exact Prod.ext (UInt32.toNat_inj.mp hzero.1) (UInt32.toNat_inj.mp hzero.2)
  refine Yields.guard fun _ => ?_
  refine Yields.guard fun _ => ?_
  refine Yields.bind (Yields.lift fun _ hok => hok) fun _ hfits => ?_
  have hdirectory := image.importDirectory.1.toNat_lt
  have hsize := image.importDirectory.2.toNat_lt
  replace hfits := declaredFits_ok (by omega) hfits
  refine Yields.bind (clippedReader_yields h _ _) ?_
  -- What the image declares fits it, so the read is not clipped.
  rw [Nat.min_eq_left (by omega)]
  rintro _ rfl
  rw [length_bytesAt]
  have hstart : ReadParts image content (0, .empty) := ⟨[], rfl, rfl, by simp [Parts]⟩
  refine Yields.bind (Yields.countdown
    (I := fun rounds state => state.1 + rounds = image.importDirectory.2.toNat / 20 ∧
      ReadParts image content state)
    (fun _ _ hstate => descriptorRound_yields h hstate.1 hstate.2)
    (fun _ _ _ hnone => by cases hnone) _ _ ⟨Nat.zero_add _, hstart⟩) fun ended hended => ?_
  cases ended with
  | none => exact Yields.fail _
  | some table => exact Yields.pure ⟨(hended table rfl).1, .inr (hended table rfl).2⟩

/-- **An import table is never answered short.** Whatever the reader leaves unread, a table that is
answered has a part for every descriptor in front of the null one; each part has one import for
every thunk in front of the zero one, or the name of a library without a lookup table; and
no two imports share a slot. -/
theorem imports_whole (target : Target W) (image : Image) (content : ℕ → UInt8)
    (hfaithful : Faithful target content) {w w' : W} {table : ImportTable}
    (hread : readImports target image w = (.ok table, w')) :
    (image.importDirectory = (0, 0) ∧ table = {} ∨ Whole image content table) ∧
      (table.imports.map (·.slot)).Nodup ∧
      (importsBySlot table.imports).size = table.imports.length := by
  obtain ⟨hnodup, hwhole⟩ := (readImports_yields hfaithful).of_ok hread
  refine ⟨hwhole, hnodup, ?_⟩
  unfold importsBySlot
  rw [Std.TreeMap.size_ofList, List.length_map]
  rw [List.pairwise_map]
  rw [List.Nodup, List.pairwise_map] at hnodup
  exact hnodup.imp fun hne heq => hne (Nat.compare_eq_eq.mp heq)

/-- A readable image with one library, one import by name and one by ordinal. -/
def smallImage : Image where
  base := 0x10000
  bitness := .bits64
  machine := 0x8664
  sizeOfImage := 0x100
  sectionAlignment := 0x1000
  sections := []
  exportDirectory := (0, 0)
  importDirectory := (0x20, 40)
  iatDirectory := (0, 0)

/-- Its words: a descriptor and the null one, a lookup table, and the names `a.sys` and `Go`. -/
def smallContent (address : ℕ) : UInt8 :=
  let word := [(0x10020, 0x60), (0x10028, 0xb000000000), (0x10030, 0xa0), (0x10060, 0xc0),
    (0x10068, 0x8000000000000007), (0x100b0, 0x7379732e61), (0x100c0, 0x6f470000)].lookup
    (address / 8 * 8)
  .ofNat (word.getD 0 >>> (address % 8 * 8))

def smallTarget : Target Unit where
  read address len _ := (some (bytesAt smallContent address len), ())
  halt _ := (false, ())

theorem imports_whole_small :
    ∃ table, readImports smallTarget smallImage () = (.ok table, ()) ∧
      table.imports = [⟨"a.sys", .named "Go", 0x100a0⟩, ⟨"a.sys", .ordinal 7, 0x100a8⟩] ∧
      Whole smallImage smallContent table := by
  have hread : readImports smallTarget smallImage () =
      (.ok ⟨[⟨"a.sys", .named "Go", 0x100a0⟩, ⟨"a.sys", .ordinal 7, 0x100a8⟩], []⟩, ()) := by
    rfl
  have hwhole := (imports_whole smallTarget smallImage smallContent
    (fun _ _ _ _ h => (Option.some.inj h).symm) hread).1
  refine ⟨_, hread, rfl, hwhole.resolve_left fun h => ?_⟩
  exact absurd h.1 (by decide)

end Directory

end DbgScope.Pe
