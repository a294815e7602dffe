import DbgScope.Pe.Granules

/-!
# Holes beside the import table

A well-formed import table is read as long as the granules that hold it are readable: those of the
directory, of the lookup tables up to their terminators, of the names up to theirs. Three bounds are
the reader's own: the imports of a library with its terminator, the slot beside the terminator, and
the number of libraries.
-/

namespace DbgScope.Pe

open Run

/-! ## Well-formed tables -/

section WellFormed

variable (image : Image) (content : ℕ → UInt8)

structure ImportFits (descriptor : Descriptor) (library : String) (index : ℕ) (entry : Import) :
    Prop extends ImportAt image content descriptor library index entry where
  slot_inside : descriptor.iat + (index + 1) * image.bitness.pointer ≤ image.sizeOfImage.toNat
  name_fits : ∀ name, entry.name = .named name →
    NameFits image content (thunkAt image content descriptor.lookup index + 2) name

def LibraryFits (descriptor : Descriptor) (part : ImportTable) : Prop :=
  descriptor.iat ≠ 0 ∧ ∃ library, NameFits image content descriptor.nameRva library ∧
    if descriptor.lookup = 0 then
      part = ⟨[], [library]⟩ ∧
        descriptor.iat + image.bitness.pointer ≤ image.sizeOfImage.toNat
    else
      part.unnamedLibraries = [] ∧ part.imports.length ≤ maxImportsPerLibrary ∧
        (∀ index entry, part.imports[index]? = some entry →
          ImportFits image content descriptor library index entry) ∧
        thunkAt image content descriptor.lookup part.imports.length = 0 ∧
        descriptor.lookup + (part.imports.length + 1) * image.bitness.pointer ≤
          image.sizeOfImage.toNat

/-- The image holds a well-formed import table, a part for each library: all of it inside the
image, which ends below the top of the address space, and within the constants. -/
structure WellFormed (parts : List ImportTable) : Prop where
  aligned : image.base.toNat % nameReadGranule = 0
  addresses : image.base.toNat + image.sizeOfImage.toNat < 2 ^ 64
  present : image.importDirectory.1.toNat ≠ 0
  inside : image.importDirectory.1.toNat + image.importDirectory.2.toNat ≤
    image.sizeOfImage.toNat
  ends : (parts.length + 1) * 20 ≤ image.importDirectory.2.toNat
  null : descriptorAt image content parts.length = .null
  libraries : ∀ index part, parts[index]? = some part →
    LibraryFits image content (descriptorAt image content index) part
  few : parts.length ≤ maxLibraries
  total : (joinTables parts).imports.length ≤ maxImportsTotal
  distinct : ((joinTables parts).imports.map (·.slot)).Nodup

/-- The granules that hold the table are readable: those of the directory, of the names up to
their terminators, and of the lookup tables up to theirs. -/
structure TableReadable (hole : Set ℕ) (parts : List ImportTable) : Prop where
  directory : Readable hole (image.base.toNat + image.importDirectory.1.toNat)
    image.importDirectory.2.toNat
  names : ∀ index library, index < parts.length →
    NameAt content (image.base.toNat + (descriptorAt image content index).nameRva) library →
    Readable hole (image.base.toNat + (descriptorAt image content index).nameRva)
      (library.toUTF8.size + 1)
  thunks : ∀ index part, parts[index]? = some part →
    (descriptorAt image content index).lookup ≠ 0 →
    Readable hole (image.base.toNat + (descriptorAt image content index).lookup)
      ((part.imports.length + 1) * image.bitness.pointer)
  imports : ∀ index part position entry name, parts[index]? = some part →
    part.imports[position]? = some entry → entry.name = .named name →
    Readable hole (image.base.toNat +
        (thunkAt image content (descriptorAt image content index).lookup position + 2))
      (name.toUTF8.size + 1)

/-- What the reader asks for besides: a directory no larger than the libraries allowed and their
terminator, and in each lookup table room for the terminator, also beside it. -/
structure LeavesRoom (parts : List ImportTable) : Prop where
  directory : image.importDirectory.2.toNat / 20 ≤ maxLibraries + 1
  terminators : ∀ index part, parts[index]? = some part →
    (descriptorAt image content index).lookup ≠ 0 →
    part.imports.length < maxImportsPerLibrary ∧
      (descriptorAt image content index).iat +
        (part.imports.length + 1) * image.bitness.pointer ≤ image.sizeOfImage.toNat

end WellFormed

/-! ## Libraries that are read -/

section Libraries

variable {W : Type} {target : Target W} {image : Image} {content : ℕ → UInt8} {hole : Set ℕ}

theorem claim_eq_ok {claims : Claims} {entry : Import}
    (hfree : entry.slot ∉ claims.table.imports.map (·.slot))
    (hroom : claims.table.imports.length < maxImportsTotal) :
    ∃ claims', claim claims entry = .ok claims' ∧
      claims'.table =
        ⟨claims.table.imports ++ [entry], claims.table.unnamedLibraries⟩ := by
  rw [← claims.claimed_eq] at hfree
  refine ⟨claims.add entry hfree, ?_, rfl⟩
  unfold claim
  rw [dif_neg hfree, if_neg (Nat.not_le.mpr hroom)]

structure SlotsReady (image : Image) (content : ℕ → UInt8) (hole : Set ℕ)
    (descriptor : Descriptor) (library : String) (imports : List Import) : Prop where
  fits : ∀ index entry, imports[index]? = some entry →
    ImportFits image content descriptor library index entry
  zero : thunkAt image content descriptor.lookup imports.length = 0
  lookup_inside : descriptor.lookup + (imports.length + 1) * image.bitness.pointer ≤
    image.sizeOfImage.toNat
  iat_inside : descriptor.iat + (imports.length + 1) * image.bitness.pointer ≤
    image.sizeOfImage.toNat
  thunks : Readable hole (image.base.toNat + descriptor.lookup)
    ((imports.length + 1) * image.bitness.pointer)
  names : ∀ index entry name, imports[index]? = some entry → entry.name = .named name →
    Readable hole (image.base.toNat + (thunkAt image content descriptor.lookup index + 2))
      (name.toUTF8.size + 1)

section Slots

variable {descriptor : Descriptor} {library : String} {imports : List Import}
  (h : Granular target content hole) (hhalt : ∀ w, (target.halt w).1 = false)
  (haligned : image.base.toNat % nameReadGranule = 0)
  (haddresses : image.base.toNat + image.sizeOfImage.toNat < 2 ^ 64)
  (hready : SlotsReady image content hole descriptor library imports)

include h haddresses hready in
theorem thunk_answers {index : ℕ} (hindex : index ≤ imports.length) :
    narrow (descriptor.iat + index * image.bitness.pointer)
        "an import address table entry lies outside a 32-bit image offset" =
        .ok (descriptor.iat + index * image.bitness.pointer) ∧
      image.checkedVa (descriptor.iat + index * image.bitness.pointer) image.bitness.pointer =
        .ok (image.base.toNat + descriptor.iat + index * image.bitness.pointer) ∧
      narrow (descriptor.lookup + index * image.bitness.pointer)
        "an import lookup table entry lies outside a 32-bit image offset" =
        .ok (descriptor.lookup + index * image.bitness.pointer) ∧
      Answers (clippedReader target image (descriptor.lookup + index * image.bitness.pointer)
        image.bitness.pointer)
        (bytesAt content (image.base.toNat + descriptor.lookup + index * image.bitness.pointer)
          image.bitness.pointer) := by
  have hpointer := image.bitness.pointer_pos
  have hsize := image.sizeOfImage.toNat_lt
  have hle : (index + 1) * image.bitness.pointer ≤ (imports.length + 1) * image.bitness.pointer :=
    Nat.mul_le_mul_right _ (by omega)
  have hlookup := hready.lookup_inside
  have hiat := hready.iat_inside
  rw [Nat.add_mul, Nat.one_mul] at hle
  refine ⟨narrow_eq_ok (by omega), ?_, narrow_eq_ok (by omega), ?_⟩
  · rw [checkedVa_eq_ok haddresses (by omega) (by omega), Nat.add_assoc]
  · rw [Nat.add_assoc]
    refine clippedReader_answers_whole h haddresses hpointer (by omega) fun offset hoffset => ?_
    have hread := hready.thunks (index * image.bitness.pointer + offset) (by omega)
    rwa [← Nat.add_assoc, Nat.add_assoc image.base.toNat] at hread

include h hhalt haligned haddresses hready in
theorem slotRound_answers_again {index : ℕ} {entry : Import} {claims claims' : Claims}
    (hentry : imports[index]? = some entry) (hclaim : claim claims entry = .ok claims') :
    Answers (slotRound target image library descriptor.lookup descriptor.iat (index, claims))
      (.again (index + 1, claims')) := by
  obtain ⟨hlt, -⟩ := List.getElem?_eq_some_iff.mp hentry
  obtain ⟨hslotRva, hslot, hentryRva, hread⟩ := thunk_answers h haddresses hready hlt.le
  have hfits := hready.fits index entry hentry
  have hvalue : entry = ⟨library, entry.name,
      image.base.toNat + descriptor.iat + index * image.bitness.pointer⟩ := by
    rw [← hfits.library, ← hfits.slot]
  refine Answers.bind (checkHalt_answers hhalt) ?_
  refine Answers.bind (Answers.lift hslotRva) ?_
  refine Answers.bind (Answers.lift hslot) ?_
  refine Answers.bind (Answers.lift hentryRva) ?_
  refine Answers.bind hread ?_
  refine Answers.bind (Answers.lift thunkValue_eq_ok) ?_
  have hthunk := hfits.thunk
  unfold thunkAt at hthunk
  rw [if_neg hthunk]
  refine Answers.bind (thunkName_answers h haligned haddresses hfits.name hfits.name_fits
    fun text htext => hready.names index entry text hentry htext) ?_
  refine Answers.bind (Answers.lift (hvalue ▸ hclaim)) ?_
  exact Answers.pure _

include h hhalt haddresses hready in
theorem slotRound_answers_stop (claims : Claims) :
    Answers (slotRound target image library descriptor.lookup descriptor.iat
      (imports.length, claims)) (.stop (some claims)) := by
  obtain ⟨hslotRva, hslot, hentryRva, hread⟩ := thunk_answers h haddresses hready le_rfl
  refine Answers.bind (checkHalt_answers hhalt) ?_
  refine Answers.bind (Answers.lift hslotRva) ?_
  refine Answers.bind (Answers.lift hslot) ?_
  refine Answers.bind (Answers.lift hentryRva) ?_
  refine Answers.bind hread ?_
  refine Answers.bind (Answers.lift thunkValue_eq_ok) ?_
  have hzero := hready.zero
  unfold thunkAt at hzero
  rw [if_pos hzero]
  exact Answers.pure _

include h hhalt haligned haddresses hready in
/-- **The imports of a library are all read**, one round each and one for the terminator. -/
theorem slotLoop_answers {table : ImportTable}
    (hdistinct : ((table.imports ++ imports).map (·.slot)).Nodup)
    (htotal : (table.imports ++ imports).length ≤ maxImportsTotal) :
    ∀ (rest done : List Import) (rounds : ℕ) (claims : Claims), imports = done ++ rest →
      claims.table = ⟨table.imports ++ done, table.unnamedLibraries⟩ → rest.length < rounds →
      ∃ claims', claims'.table = ⟨table.imports ++ imports, table.unnamedLibraries⟩ ∧
        Answers (Run.loop (slotRound target image library descriptor.lookup descriptor.iat)
          (fun _ => none) rounds (done.length, claims)) (some claims') := by
  intro rest
  induction rest with
  | nil =>
    intro done rounds claims himports htable hrounds
    rw [List.append_nil] at himports
    subst himports
    obtain ⟨rounds, rfl⟩ : ∃ n, rounds = n + 1 := ⟨rounds - 1, by simp at hrounds; omega⟩
    exact ⟨claims, htable, Answers.stop (slotRound_answers_stop h hhalt haddresses hready claims)⟩
  | cons entry rest ih =>
    intro done rounds claims himports htable hrounds
    obtain ⟨rounds, rfl⟩ : ∃ n, rounds = n + 1 := ⟨rounds - 1, by simp at hrounds; omega⟩
    have hentry : imports[done.length]? = some entry := by
      rw [himports]
      simp
    have hfree : entry.slot ∉ claims.table.imports.map (·.slot) := by
      rw [htable]
      rw [himports, ← List.append_assoc, List.map_append, List.nodup_append] at hdistinct
      exact fun hmem => hdistinct.2.2 _ hmem _ (by simp) rfl
    have hroom : claims.table.imports.length < maxImportsTotal := by
      rw [himports, ← List.append_assoc, List.length_append, List.length_cons] at htotal
      rw [htable]
      dsimp only
      omega
    obtain ⟨claims', hclaim, htable'⟩ := claim_eq_ok hfree hroom
    obtain ⟨claims'', hfinal, hloop⟩ := ih (done ++ [entry]) rounds claims' (by simp [himports])
      (by rw [htable', htable, List.append_assoc]) (by simpa using hrounds)
    refine ⟨claims'', hfinal, Answers.again
      (slotRound_answers_again h hhalt haligned haddresses hready hentry hclaim) ?_⟩
    rwa [List.length_append, List.length_singleton] at hloop

end Slots

/-- **A library that fits is read whole.** -/
theorem readLibrary_answers (h : Granular target content hole)
    (hhalt : ∀ w, (target.halt w).1 = false)
    (haligned : image.base.toNat % nameReadGranule = 0)
    (haddresses : image.base.toNat + image.sizeOfImage.toNat < 2 ^ 64)
    {descriptor : Descriptor} {part : ImportTable} {claims : Claims}
    (hfits : LibraryFits image content descriptor part)
    (hname : ∀ library, NameAt content (image.base.toNat + descriptor.nameRva) library →
      Readable hole (image.base.toNat + descriptor.nameRva) (library.toUTF8.size + 1))
    (hthunks : descriptor.lookup ≠ 0 → Readable hole (image.base.toNat + descriptor.lookup)
      ((part.imports.length + 1) * image.bitness.pointer))
    (himports : ∀ position entry name, part.imports[position]? = some entry →
      entry.name = .named name → Readable hole (image.base.toNat +
        (thunkAt image content descriptor.lookup position + 2)) (name.toUTF8.size + 1))
    (hroom : descriptor.lookup ≠ 0 → part.imports.length < maxImportsPerLibrary ∧
      descriptor.iat + (part.imports.length + 1) * image.bitness.pointer ≤
        image.sizeOfImage.toNat)
    (hdistinct : ((claims.table.imports ++ part.imports).map (·.slot)).Nodup)
    (htotal : (claims.table.imports ++ part.imports).length ≤ maxImportsTotal) :
    ∃ claims', claims'.table = claims.table.append part ∧
      Answers (readLibrary target image descriptor claims) claims' := by
  obtain ⟨hiat, library, hlibrary, hpart⟩ := hfits
  have hpointer := image.bitness.pointer_pos
  have hlibraryRead : Answers (readCString target image descriptor.nameRva) library :=
    readCString_answers h haligned haddresses hlibrary (hname library hlibrary.text)
  unfold readLibrary
  rw [if_neg hlibrary.present, if_neg hiat]
  by_cases hlookup : descriptor.lookup = 0
  · rw [if_pos hlookup] at hpart
    obtain ⟨rfl, hinside⟩ := hpart
    refine ⟨claims.unnamed library, by simp [Claims.unnamed, ImportTable.append],
      Answers.bind hlibraryRead ?_⟩
    rw [if_pos hlookup]
    exact Answers.bind (Answers.lift (checkedVa_eq_ok haddresses (by omega) hinside))
      (Answers.pure _)
  · rw [if_neg hlookup] at hpart
    obtain ⟨hunnamed, -, hall, hzero, hinside⟩ := hpart
    obtain ⟨hcount, hterminator⟩ := hroom hlookup
    have hready : SlotsReady image content hole descriptor library part.imports :=
      ⟨hall, hzero, hinside, hterminator, hthunks hlookup, himports⟩
    obtain ⟨claims', htable, hloop⟩ := slotLoop_answers h hhalt haligned haddresses hready
      hdistinct htotal part.imports [] maxImportsPerLibrary claims rfl (by simp) hcount
    refine ⟨claims', by simp [htable, ImportTable.append, hunnamed],
      Answers.bind hlibraryRead ?_⟩
    rw [if_neg hlookup]
    exact Answers.bind hloop (Answers.pure _)

theorem readDescriptor_answers {n index : ℕ} (hindex : (index + 1) * 20 ≤ n) :
    Answers (readDescriptor (W := W)
        (bytesAt content (image.base.toNat + image.importDirectory.1.toNat) n) (index * 20))
      (descriptorAt image content index) := by
  refine Answers.bind (Answers.lift (fieldAt_eq_ok (by omega))) ?_
  refine Answers.bind (Answers.lift (fieldAt_eq_ok (by omega))) ?_
  refine Answers.bind (Answers.lift (fieldAt_eq_ok (by omega))) ?_
  refine Answers.bind (Answers.lift (fieldAt_eq_ok (by omega))) ?_
  refine Answers.bind (Answers.lift (fieldAt_eq_ok (by omega))) ?_
  unfold descriptorAt
  simp only [Nat.add_assoc]
  exact Answers.pure _

theorem LibraryFits.ne_null {descriptor : Descriptor} {part : ImportTable}
    (h : LibraryFits image content descriptor part) : descriptor ≠ .null := by
  rintro rfl
  exact h.1 rfl

end Libraries

/-! ## The table -/

section Table

variable {W : Type} {target : Target W} {image : Image} {content : ℕ → UInt8} {hole : Set ℕ}
  {parts : List ImportTable}
  (h : Granular target content hole) (hhalt : ∀ w, (target.halt w).1 = false)
  (hwell : WellFormed image content parts)
  (hreadable : TableReadable image content hole parts)
  (hroom : LeavesRoom image content parts)

include h hhalt hwell hreadable hroom in
/-- **The libraries of a directory are all read**, one round each and one for the null
descriptor. -/
theorem descriptorLoop_answers :
    ∀ (rest done : List ImportTable) (rounds : ℕ) (claims : Claims), parts = done ++ rest →
      claims.table = joinTables done → rest.length < rounds →
      Answers (Run.loop (descriptorRound target image
          (bytesAt content (image.base.toNat + image.importDirectory.1.toNat)
            image.importDirectory.2.toNat))
        (fun _ => none) rounds (done.length, claims)) (some (joinTables parts)) := by
  have hends := hwell.ends
  intro rest
  induction rest with
  | nil =>
    intro done rounds claims hparts htable hrounds
    rw [List.append_nil] at hparts
    subst hparts
    obtain ⟨rounds, rfl⟩ : ∃ n, rounds = n + 1 := ⟨rounds - 1, by simp at hrounds; omega⟩
    refine Answers.stop ?_
    refine Answers.bind (checkHalt_answers hhalt) ?_
    refine Answers.bind (readDescriptor_answers hends) ?_
    rw [if_pos hwell.null, htable]
    exact Answers.pure _
  | cons part rest ih =>
    intro done rounds claims hparts htable hrounds
    obtain ⟨rounds, rfl⟩ : ∃ n, rounds = n + 1 := ⟨rounds - 1, by simp at hrounds; omega⟩
    have hat : parts[done.length]? = some part := by
      rw [hparts]
      simp
    have hlt : done.length < parts.length := (List.getElem?_eq_some_iff.mp hat).1
    have hfits := hwell.libraries done.length part hat
    have hjoin : (joinTables parts).imports = (claims.table.imports ++ part.imports) ++
        rest.flatMap (·.imports) := by
      rw [htable, hparts]
      simp [joinTables]
    have hdistinct : ((claims.table.imports ++ part.imports).map (·.slot)).Nodup := by
      have hall := hwell.distinct
      rw [hjoin, List.map_append] at hall
      exact hall.of_append_left
    have htotal : (claims.table.imports ++ part.imports).length ≤ maxImportsTotal := by
      have hall := hwell.total
      rw [hjoin, List.length_append] at hall
      omega
    obtain ⟨claims', htable', hlibrary⟩ := readLibrary_answers h hhalt hwell.aligned
      hwell.addresses hfits (fun library => hreadable.names done.length library hlt)
      (hreadable.thunks done.length part hat)
      (fun position entry name => hreadable.imports done.length part position entry name hat)
      (hroom.terminators done.length part hat) hdistinct htotal
    have hloop := ih (done ++ [part]) rounds claims' (by simp [hparts])
      (by rw [htable', htable]; simp [joinTables, ImportTable.append]) (by simpa using hrounds)
    rw [List.length_append, List.length_singleton] at hloop
    refine Answers.again ?_ hloop
    refine Answers.bind (checkHalt_answers hhalt) ?_
    refine Answers.bind (readDescriptor_answers (by omega)) ?_
    rw [if_neg hfits.ne_null]
    exact Answers.bind hlibrary (Answers.pure _)

include h hhalt hwell hreadable hroom in
theorem readImports_answers : Answers (readImports target image) (joinTables parts) := by
  have hends := hwell.ends
  have hinside := hwell.inside
  have hpresent := hwell.present
  have hdirectory := image.importDirectory.1.toNat_lt
  have hsize := image.importDirectory.2.toNat_lt
  unfold readImports
  rw [if_neg (by omega), if_neg (by omega), if_neg (Nat.not_lt.mpr hroom.directory)]
  refine Answers.bind (Answers.lift (if_pos ?_)) ?_
  · rw [saturatingAdd_of_lt (by omega)]
    exact hinside
  refine Answers.bind (clippedReader_answers_whole h hwell.addresses (by omega) hinside
    hreadable.directory) ?_
  rw [length_bytesAt]
  refine Answers.bind (descriptorLoop_answers h hhalt hwell hreadable hroom parts [] _ .empty rfl
    rfl (by omega)) ?_
  exact Answers.pure _

end Table

/-! ## The room a reading leaves -/

section Room

variable {W : Type} {target : Target W} {image : Image} {content : ℕ → UInt8}

/-- The terminator of a library's lookup table, at position `count`, had a round of its own and a
slot beside it. -/
def TerminatorFits (image : Image) (descriptor : Descriptor) (count : ℕ) : Prop :=
  count < maxImportsPerLibrary ∧
    descriptor.iat + (count + 1) * image.bitness.pointer ≤ image.sizeOfImage.toNat

theorem readLibrary_ends (descriptor : Descriptor) (claims : Claims) :
    Yields (readLibrary target image descriptor claims) fun claims' =>
      descriptor.lookup ≠ 0 → ∃ count,
        claims'.table.imports.length = claims.table.imports.length + count ∧
          TerminatorFits image descriptor count := by
  refine readLibrary_walks descriptor
    (I := fun rounds state => state.1 + rounds = maxImportsPerLibrary ∧
      state.2.table.imports.length = claims.table.imports.length + state.1)
    (fun hbound _ hne => absurd hbound hne) ⟨Nat.zero_add _, rfl⟩ ?_
  rintro rounds state flow ⟨hrounds, hcount⟩ hstep
  cases hstep with
  | ends hslot =>
    intro claims' hended _
    obtain ⟨-, -, hinside, -⟩ := checkedVa_inside hslot
    rw [checkedVa_ok hslot] at hinside
    rw [← Option.some.inj hended]
    refine ⟨state.1, hcount, by omega, ?_⟩
    rw [Nat.add_mul, Nat.one_mul]
    omega
  | claims hslot hclaim =>
    refine ⟨by dsimp only; omega, ?_⟩
    rw [claim_ok hclaim]
    simp [hcount, Nat.add_assoc]

def PartsFit (image : Image) (content : ℕ → UInt8) (parts : List ImportTable) : Prop :=
  ∀ index part, parts[index]? = some part →
    (descriptorAt image content index).lookup ≠ 0 →
    TerminatorFits image (descriptorAt image content index) part.imports.length

theorem descriptorRound_ends (h : Faithful target content) {n : ℕ} {state : ℕ × Claims}
    (hstate : ∃ parts, parts.length = state.1 ∧ state.2.table = joinTables parts ∧
      Parts image content parts ∧ PartsFit image content parts) :
    Yields (descriptorRound target image
        (bytesAt content (image.base.toNat + image.importDirectory.1.toNat) n) state)
      (Flow.Holds (fun state => ∃ parts, parts.length = state.1 ∧
          state.2.table = joinTables parts ∧ Parts image content parts ∧
          PartsFit image content parts)
        fun ended => ∀ table, ended = some table → ∃ parts, Parts image content parts ∧
          descriptorAt image content parts.length = .null ∧ PartsFit image content parts) := by
  obtain ⟨parts, hlength, htable, hparts, hfit⟩ := hstate
  refine Yields.after fun _ => ?_
  refine Yields.bind (readDescriptor_yields _ _) ?_
  rintro _ rfl
  refine Yields.ite (fun hnull => Yields.pure fun _ _ => ⟨parts, hparts, ?_, hfit⟩) fun hnull => ?_
  · rw [hlength, hnull]
  refine Yields.bind (Yields.and (readLibrary_yields h _ _) (readLibrary_ends _ _)) ?_
  rintro claims ⟨⟨part, hadded, hpart⟩, hends⟩
  refine Yields.pure ⟨parts ++ [part], by simp [hlength], ?_, ?_, ?_⟩
  · rw [hadded, htable]
    simp [ImportTable.append, joinTables]
  · rw [← hlength] at hnull hpart
    exact hparts.snoc hnull hpart
  · intro index other hother hlookup
    rcases getElem?_snoc hother with hold | ⟨rfl, rfl⟩
    · exact hfit index other hold hlookup
    · rw [hlength] at hlookup ⊢
      obtain ⟨count, hcount, hroom⟩ := hends hlookup
      rw [hadded] at hcount
      simp only [ImportTable.append, List.length_append] at hcount
      rwa [show other.imports.length = count by omega]

theorem readImports_ends (h : Faithful target content)
    (hpresent : image.importDirectory.1.toNat ≠ 0) :
    Yields (readImports target image) fun _ =>
      image.importDirectory.2.toNat / 20 ≤ maxLibraries + 1 ∧ ∃ parts, Parts image content parts ∧
        descriptorAt image content parts.length = .null ∧ PartsFit image content parts := by
  refine Yields.ite (fun hzero => absurd hzero.1 hpresent) fun _ => ?_
  refine Yields.guard fun _ => ?_
  refine Yields.guard fun hsize => ?_
  refine Yields.after fun _ => ?_
  refine Yields.bind (clippedReader_yields h _ _) ?_
  rintro _ rfl
  refine Yields.bind (Yields.countdown
    (fun _ _ hstate => descriptorRound_ends h hstate) (fun _ _ _ hended => by cases hended) _ _
    ⟨[], rfl, rfl, by simp [Parts], by simp [PartsFit]⟩) fun ended hended => ?_
  cases ended with
  | none => exact Yields.fail _
  | some table => exact Yields.pure ⟨Nat.le_of_not_lt hsize, hended table rfl⟩

theorem Parts.length_le {parts parts' : List ImportTable} (h : Parts image content parts)
    (hnull' : descriptorAt image content parts'.length = .null) :
    parts.length ≤ parts'.length := by
  by_contra hlt
  obtain ⟨hne, -⟩ := h parts'.length _ (List.getElem?_eq_getElem (Nat.lt_of_not_le hlt))
  exact hne hnull'

theorem Listed.length_le {descriptor : Descriptor} {library library' : String}
    {imports imports' : List Import} (h : Listed image content descriptor library imports)
    (h' : Listed image content descriptor library' imports') :
    imports.length ≤ imports'.length := by
  by_contra hlt
  have hthunk := (h.1 imports'.length _
    (List.getElem?_eq_getElem (Nat.lt_of_not_le hlt))).thunk
  exact hthunk h'.2

theorem LibraryFits.accounted {descriptor : Descriptor} {part : ImportTable}
    (h : LibraryFits image content descriptor part) :
    Accounted image content descriptor part := by
  obtain ⟨-, library, hlibrary, hpart⟩ := h
  refine ⟨library, hlibrary.text, ?_⟩
  split at hpart
  · next hbound =>
    rw [if_pos hbound]
    exact hpart.1
  · next hlookup =>
    rw [if_neg hlookup]
    exact ⟨hpart.1, fun index entry hentry => (hpart.2.2.1 index entry hentry).toImportAt,
      hpart.2.2.2.1⟩

theorem Accounted.length_eq {descriptor : Descriptor} {part part' : ImportTable}
    (h : Accounted image content descriptor part)
    (h' : Accounted image content descriptor part') (hlookup : descriptor.lookup ≠ 0) :
    part.imports.length = part'.imports.length := by
  obtain ⟨library, -, hpart⟩ := h
  obtain ⟨library', -, hpart'⟩ := h'
  rw [if_neg hlookup] at hpart hpart'
  exact le_antisymm (hpart.2.length_le hpart'.2) (hpart'.2.length_le hpart.2)

theorem leavesRoom_of_ok (h : Faithful target content) {parts : List ImportTable}
    (hwell : WellFormed image content parts) {w w' : W} {table : ImportTable}
    (hread : readImports target image w = (.ok table, w')) : LeavesRoom image content parts := by
  obtain ⟨hsize, parts', hparts', hnull', hfit⟩ :=
    (readImports_ends h hwell.present).of_ok hread
  have hparts : Parts image content parts := fun index part hpart =>
    ⟨(hwell.libraries index part hpart).ne_null, (hwell.libraries index part hpart).accounted⟩
  have hlength : parts.length ≤ parts'.length := hparts.length_le hnull'
  refine ⟨hsize, fun index part hpart hlookup => ?_⟩
  have hlt : index < parts'.length := (List.getElem?_eq_some_iff.mp hpart).1.trans_le hlength
  have hpart' := List.getElem?_eq_getElem hlt
  rw [(hparts index part hpart).2.length_eq (hparts' index _ hpart').2 hlookup]
  exact hfit index _ hpart' hlookup

end Room

/-- **Holes in unrelated memory cost no import, where the table leaves room.** If the granules that
hold the directory, the lookup tables and the names are readable, the table is answered, exactly, if
and only if each library has fewer imports than the bound, the slot beside each terminator is inside
the image, and the directory is no larger than the libraries allowed take. -/
theorem table_answered_iff {W : Type} (target : Target W) (image : Image) (content : ℕ → UInt8)
    (hole : Set ℕ) (parts : List ImportTable) (hreader : Granular target content hole)
    (hhalt : ∀ w, (target.halt w).1 = false) (hwell : WellFormed image content parts)
    (hreadable : TableReadable image content hole parts) (w : W) :
    (∃ w', readImports target image w = (.ok (joinTables parts), w')) ↔
      LeavesRoom image content parts := by
  constructor
  · rintro ⟨w', hread⟩
    exact leavesRoom_of_ok hreader.faithful hwell hread
  · intro hroom
    exact readImports_answers hreader hhalt hwell hreadable hroom w

/-! ## A table beside holes -/

def smallHole : Set ℕ := {granule | granule ≠ 0x80}

def holedTarget : Target Unit where
  read address len _ :=
    (if (List.range len).all fun offset => (address + offset) / nameReadGranule == 0x80 then
      some (bytesAt smallContent address len) else none, ())
  halt _ := (false, ())

def smallParts : List ImportTable :=
  [⟨[⟨"a.sys", .named "Go", 0x100a0⟩, ⟨"a.sys", .ordinal 7, 0x100a8⟩], []⟩]

theorem holedTarget_granular : Granular holedTarget smallContent smallHole := by
  have hall : ∀ address len, ((List.range len).all fun offset =>
      (address + offset) / nameReadGranule == 0x80) = true ↔
      Readable smallHole address len := by
    intro address len
    simp [Readable, smallHole]
  constructor
  · intro address len w hreadable
    exact if_pos ((hall address len).mpr hreadable)
  · intro address len w hnot
    exact if_neg fun htrue => hnot ((hall address len).mp htrue)

theorem smallContent_descriptor :
    descriptorAt smallImage smallContent 0 = ⟨0x60, 0, 0, 0xb0, 0xa0⟩ := by decide +kernel

theorem smallContent_thunks : thunkAt smallImage smallContent 0x60 0 = 0xc0 ∧
    thunkAt smallImage smallContent 0x60 1 = 0x8000000000000007 ∧
    thunkAt smallImage smallContent 0x60 2 = 0 := by decide +kernel

theorem smallContent_names : NameFits smallImage smallContent 0xb0 "a.sys" ∧
    NameFits smallImage smallContent 0xc2 "Go" :=
  ⟨⟨by decide, ⟨5, by decide +kernel, by decide +kernel, by decide +kernel⟩, by decide, by decide⟩,
    ⟨by decide, ⟨2, by decide +kernel, by decide +kernel, by decide +kernel⟩, by decide, by decide⟩⟩

theorem smallParts_library :
    LibraryFits smallImage smallContent ⟨0x60, 0, 0, 0xb0, 0xa0⟩
      ⟨[⟨"a.sys", .named "Go", 0x100a0⟩, ⟨"a.sys", .ordinal 7, 0x100a8⟩], []⟩ := by
  obtain ⟨hfirst, hsecond, hzero⟩ := smallContent_thunks
  obtain ⟨hlibrary, hgo⟩ := smallContent_names
  refine ⟨by decide, "a.sys", hlibrary, ?_⟩
  rw [if_neg (by decide)]
  refine ⟨rfl, by decide, fun index entry hentry => ?_, hzero, by decide⟩
  rcases index with _ | _ | index
  · obtain rfl := Option.some.inj hentry
    refine ⟨⟨by rw [hfirst]; decide, rfl, ?_, rfl⟩, by decide, fun name hname => ?_⟩
    · rw [hfirst]
      exact ⟨by decide, hgo.text⟩
    · obtain rfl := ImportName.named.inj hname
      rw [hfirst]
      exact hgo
  · obtain rfl := Option.some.inj hentry
    refine ⟨⟨by rw [hsecond]; decide, rfl, ?_, rfl⟩, by decide, fun name hname => ?_⟩
    · rw [hsecond]
      exact ⟨by decide, by decide⟩
    · cases hname
  · cases hentry

theorem smallParts_wellFormed : WellFormed smallImage smallContent smallParts where
  aligned := by decide
  addresses := by decide
  present := by decide
  inside := by decide
  ends := by decide
  null := by decide +kernel
  libraries := by
    intro index part hpart
    rcases index with _ | index
    · obtain rfl := Option.some.inj hpart
      rw [smallContent_descriptor]
      exact smallParts_library
    · cases hpart
  few := by decide
  total := by decide
  distinct := by decide

theorem readable_small {rva len : ℕ} (h : rva + len ≤ 0x200) :
    Readable smallHole (smallImage.base.toNat + rva) len := by
  intro offset hoffset
  have hbase : smallImage.base.toNat = 0x10000 := by decide
  rw [hbase]
  simp only [smallHole, nameReadGranule, Set.mem_ofPred_eq, not_not]
  omega

theorem smallParts_readable : TableReadable smallImage smallContent smallHole smallParts where
  directory := readable_small (by decide)
  names := by
    intro index library hindex hlibrary
    obtain rfl : index = 0 := by
      have hone : smallParts.length = 1 := rfl
      omega
    rw [smallContent_descriptor] at hlibrary ⊢
    obtain ⟨-, hnonzero, -⟩ := hlibrary.bytes
    have hshort : library.toUTF8.size ≤ 5 := by
      by_contra hlong
      refine ne_zero_of_notMem hnonzero (show 5 < library.toUTF8.size by omega) ?_
      decide +kernel
    exact readable_small (by dsimp only; omega)
  thunks := by
    intro index part hpart _
    rcases index with _ | index
    · obtain rfl := Option.some.inj hpart
      rw [smallContent_descriptor]
      exact readable_small (by decide)
    · cases hpart
  imports := by
    intro index part position entry name hpart hentry hname
    rcases index with _ | index
    · obtain rfl := Option.some.inj hpart
      rw [smallContent_descriptor]
      rcases position with _ | _ | position
      · obtain rfl := Option.some.inj hentry
        obtain rfl := ImportName.named.inj hname
        rw [smallContent_thunks.1]
        exact readable_small (by decide)
      · obtain rfl := Option.some.inj hentry
        cases hname
      · cases hentry
    · cases hpart

theorem table_answered_iff_holed :
    readImports holedTarget smallImage () = (.ok (joinTables smallParts), ()) := by
  have hroom : LeavesRoom smallImage smallContent smallParts := by
    refine ⟨by decide, fun index part hpart _ => ?_⟩
    rcases index with _ | index
    · obtain rfl := Option.some.inj hpart
      rw [smallContent_descriptor]
      exact ⟨by decide, by decide⟩
    · cases hpart
  obtain ⟨w', hread⟩ := (table_answered_iff holedTarget smallImage smallContent smallHole
    smallParts holedTarget_granular (fun _ => rfl) smallParts_wellFormed smallParts_readable
    ()).mpr hroom
  exact hread

/-! ## A library as large as the bound -/

def fullImage : Image :=
  { smallImage with base := 0x100000, sizeOfImage := 0x30000, importDirectory := (0x200, 40) }

/-- One descriptor, whose lookup table at `0x1000` names the ordinal one 8192 times. -/
def fullContent (address : ℕ) : UInt8 :=
  let rva := address - 0x100000
  if 0x1000 ≤ rva ∧ rva < 0x11000 then
    if rva % 8 = 7 then 0x80 else if rva % 8 = 0 then 1 else 0
  else
    ([(0x201, 0x10), (0x20d, 0x3), (0x211, 0x20), (0x212, 0x1), (0x300, 0x61)].lookup rva).getD 0

def fullTarget : Target Unit where
  read address len _ := (some (bytesAt fullContent address len), ())
  halt _ := (false, ())

def fullImports (count : ℕ) : List Import :=
  (List.range count).map fun index => ⟨"a", .ordinal 1, 0x112000 + index * 8⟩

def fullParts : List ImportTable := [⟨fullImports maxImportsPerLibrary, []⟩]

theorem length_fullImports (count : ℕ) : (fullImports count).length = count := by
  simp [fullImports]

theorem getElem?_fullImports {count index : ℕ} {entry : Import}
    (h : (fullImports count)[index]? = some entry) :
    index < count ∧ entry = ⟨"a", .ordinal 1, 0x112000 + index * 8⟩ := by
  obtain ⟨hlt, rfl⟩ := List.getElem?_eq_some_iff.mp h
  rw [length_fullImports] at hlt
  exact ⟨hlt, by simp [fullImports]⟩

theorem fullContent_descriptor :
    descriptorAt fullImage fullContent 0 = ⟨0x1000, 0, 0, 0x300, 0x12000⟩ := by decide +kernel

theorem fullContent_thunk {index : ℕ} (h : index < 8192) :
    thunkAt fullImage fullContent 0x1000 index = 2 ^ 63 + 1 := by
  have hbytes : bytesAt fullContent (0x101000 + index * 8) 8 = [1, 0, 0, 0, 0, 0, 0, 0x80] := by
    have hbyte : ∀ i < 8, fullContent (0x101000 + index * 8 + i) =
        if i = 7 then 0x80 else if i = 0 then 1 else 0 := by
      intro i hi
      unfold fullContent
      rw [if_pos (by omega)]
      have hmod : (0x101000 + index * 8 + i - 0x100000) % 8 = i := by omega
      rw [hmod]
    unfold bytesAt
    rw [List.map_congr_left fun i hi => hbyte i (List.mem_range.mp hi)]
    decide
  unfold thunkAt wordAt
  have hbase : fullImage.base.toNat + 0x1000 = 0x101000 := by decide
  have hpointer : fullImage.bitness.pointer = 8 := rfl
  rw [hbase, hpointer, hbytes]
  decide

theorem fullParts_library :
    LibraryFits fullImage fullContent ⟨0x1000, 0, 0, 0x300, 0x12000⟩
      ⟨fullImports maxImportsPerLibrary, []⟩ := by
  have hpointer : fullImage.bitness.pointer = 8 := rfl
  have hsize : fullImage.sizeOfImage.toNat = 0x30000 := by decide
  have hbase : fullImage.base.toNat + 0x12000 = 0x112000 := by decide
  have hmax : maxImportsPerLibrary = 8192 := rfl
  refine ⟨by decide, "a", ⟨by decide, ⟨1, by decide +kernel, by decide +kernel, by decide +kernel⟩,
    by decide, by decide⟩, ?_⟩
  rw [if_neg (by decide)]
  dsimp only
  rw [length_fullImports, hsize, hpointer]
  refine ⟨rfl, le_rfl, fun index entry hentry => ?_, by decide +kernel, by decide⟩
  obtain ⟨hlt, rfl⟩ := getElem?_fullImports hentry
  have hthunk := fullContent_thunk (hmax ▸ hlt)
  refine ⟨⟨?_, rfl, ?_, ?_⟩, ?_, fun name hname => by cases hname⟩
  · rw [hthunk]
    decide
  · rw [hthunk]
    exact ⟨by decide, by decide⟩
  · rw [hbase, hpointer]
  · dsimp only
    rw [hsize, hpointer]
    omega

theorem fullParts_wellFormed : WellFormed fullImage fullContent fullParts where
  aligned := by decide
  addresses := by decide
  present := by decide
  inside := by decide
  ends := by decide
  null := by decide +kernel
  libraries := by
    intro index part hpart
    rcases index with _ | index
    · obtain rfl := Option.some.inj hpart
      rw [fullContent_descriptor]
      exact fullParts_library
    · cases hpart
  few := by decide
  total := by
    simp only [joinTables, fullParts, List.flatMap_cons, List.flatMap_nil, List.append_nil,
      length_fullImports]
    decide
  distinct := by
    simp only [joinTables, fullParts, List.flatMap_cons, List.flatMap_nil, List.append_nil,
      fullImports, List.map_map]
    refine List.Nodup.map (fun a b hab => ?_) List.nodup_range
    simp only [Function.comp_apply] at hab
    omega

/-- **A library of exactly 8192 imports is refused**, though every byte of it can be read. -/
theorem full_library_is_refused :
    WellFormed fullImage fullContent fullParts ∧ Granular fullTarget fullContent ∅ ∧
      TableReadable fullImage fullContent ∅ fullParts ∧
      ∀ table w', readImports fullTarget fullImage () ≠ (.ok table, w') := by
  have hreadable : ∀ address len, Readable ∅ address len :=
    fun _ _ _ _ => Set.notMem_empty _
  have hgranular : Granular fullTarget fullContent ∅ :=
    ⟨fun _ _ _ _ => rfl, fun _ _ _ hnot => absurd (hreadable _ _) hnot⟩
  refine ⟨fullParts_wellFormed, hgranular, ⟨hreadable _ _, fun _ _ _ _ => hreadable _ _,
    fun _ _ _ _ => hreadable _ _, fun _ _ _ _ _ _ _ _ => hreadable _ _⟩, ?_⟩
  intro table w' hread
  have hroom := leavesRoom_of_ok hgranular.faithful fullParts_wellFormed hread
  have hlookup : (descriptorAt fullImage fullContent 0).lookup ≠ 0 := by
    rw [fullContent_descriptor]
    decide
  have hpart : fullParts[0]? = some ⟨fullImports maxImportsPerLibrary, []⟩ := rfl
  obtain ⟨hfew, -⟩ := hroom.terminators 0 _ hpart hlookup
  have hlength := length_fullImports maxImportsPerLibrary
  dsimp only at hfew
  rw [hlength] at hfew
  exact absurd hfew (lt_irrefl _)

end DbgScope.Pe
