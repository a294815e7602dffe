import DbgScope.Pe.Bounds

/-!
# Reads beside unreadable granules

Memory is readable or not a granule of 512 bytes at a time, and a request that touches an
unreadable granule is not answered. A name is read granule by granule up to its terminator, so that
it is read wherever the granules that hold it are readable; and so are the fields and the thunks,
each in one request of its own width.
-/

namespace DbgScope.Pe

open Run

/-! ## Granules -/

section Granules

variable {W : Type}

def Readable (hole : Set ℕ) (address len : ℕ) : Prop :=
  ∀ offset < len, (address + offset) / nameReadGranule ∉ hole

/-- The reader answers exactly the requests that touch no unreadable granule. -/
structure Granular (target : Target W) (content : ℕ → UInt8) (hole : Set ℕ) : Prop where
  answers : ∀ address len w, Readable hole address len →
    (target.read address len w).1 = some (bytesAt content address len)
  refuses : ∀ address len w, ¬Readable hole address len → (target.read address len w).1 = none

theorem Granular.faithful {target : Target W} {content : ℕ → UInt8} {hole : Set ℕ}
    (h : Granular target content hole) : Faithful target content := by
  intro address len w bytes hread
  by_cases hreadable : Readable hole address len
  · rw [h.answers address len w hreadable] at hread
    exact (Option.some.inj hread).symm
  · rw [h.refuses address len w hreadable] at hread
    cases hread

theorem readable_of_granule {hole : Set ℕ} {base rva len : ℕ} (hbase : base % 512 = 0)
    (hfirst : (base + rva) / 512 ∉ hole) (hlen : rva % 512 + len ≤ 512) :
    Readable hole (base + rva) len := by
  intro offset hoffset
  have hsame : (base + rva + offset) / nameReadGranule = (base + rva) / 512 := by
    unfold nameReadGranule
    omega
  rwa [hsame]

end Granules

/-! ## Reads that are answered -/

structure NameFits (image : Image) (content : ℕ → UInt8) (rva : ℕ) (name : String) : Prop where
  present : rva ≠ 0
  text : NameAt content (image.base.toNat + rva) name
  short : name.toUTF8.size + 1 ≤ maxName
  inside : rva + name.toUTF8.size + 1 ≤ image.sizeOfImage.toNat

section Answered

variable {W : Type} {target : Target W} {image : Image} {content : ℕ → UInt8} {hole : Set ℕ}

theorem checkedVa_eq_ok {rva len : ℕ}
    (haddresses : image.base.toNat + image.sizeOfImage.toNat < 2 ^ 64)
    (hstart : rva < image.sizeOfImage.toNat) (hstop : rva + len ≤ image.sizeOfImage.toNat) :
    image.checkedVa rva len = .ok (image.base.toNat + rva) := by
  have hsum : checkedAdd rva len = some (rva + len) := if_pos (by omega)
  have haddress : checkedAdd image.base.toNat rva = some (image.base.toNat + rva) :=
    if_pos (by omega)
  have hend : checkedAdd (image.base.toNat + rva) len = some (image.base.toNat + rva + len) :=
    if_pos (by omega)
  simp only [Image.checkedVa, va, hsum, haddress, hend]
  rw [if_neg (by omega)]

theorem narrow_eq_ok {rva : ℕ} {reason : String} (h : rva < 2 ^ 32) :
    narrow rva reason = .ok rva := if_pos h

theorem fieldAt_eq_ok {width address n offset : ℕ} {reason : String} (h : offset + width ≤ n) :
    fieldAt width reason (bytesAt content address n) offset =
      .ok (wordAt content width (address + offset)) := by
  unfold fieldAt
  rw [length_bytesAt, if_pos h, take_drop_bytesAt h]
  rfl

theorem readAt_answers (h : Granular target content hole) {address len : ℕ}
    (hreadable : Readable hole address len) :
    Answers (readAt target address len) (bytesAt content address len) := by
  intro w
  refine ⟨(target.read address len w).2, ?_⟩
  unfold readAt
  rw [h.answers address len w hreadable]

theorem clippedReader_answers (h : Granular target content hole)
    (haddresses : image.base.toNat + image.sizeOfImage.toNat < 2 ^ 64) (rva len : ℕ)
    (hstart : rva < image.sizeOfImage.toNat)
    (hreadable : Readable hole (image.base.toNat + rva)
      (min len (image.sizeOfImage.toNat - rva))) :
    Answers (clippedReader target image rva len)
      (bytesAt content (image.base.toNat + rva) (min len (image.sizeOfImage.toNat - rva))) :=
  Answers.bind (Answers.lift (checkedVa_eq_ok haddresses hstart (by omega)))
    (readAt_answers h hreadable)

theorem clippedReader_answers_whole (h : Granular target content hole)
    (haddresses : image.base.toNat + image.sizeOfImage.toNat < 2 ^ 64) {rva len : ℕ}
    (hlen : 0 < len) (hstop : rva + len ≤ image.sizeOfImage.toNat)
    (hreadable : Readable hole (image.base.toNat + rva) len) :
    Answers (clippedReader target image rva len)
      (bytesAt content (image.base.toNat + rva) len) := by
  have hmin : min len (image.sizeOfImage.toNat - rva) = len := Nat.min_eq_left (by omega)
  have hanswers := clippedReader_answers h haddresses rva len (by omega) (by rwa [hmin])
  rwa [hmin] at hanswers

theorem checkHalt_answers (hhalt : ∀ w, (target.halt w).1 = false) :
    Answers (checkHalt target) () := by
  intro w
  refine ⟨(target.halt w).2, ?_⟩
  unfold checkHalt
  rw [hhalt w]
  rfl

/-! ### Names -/

theorem fromUTF8?_toUTF8 (name : String) : String.fromUTF8? name.toUTF8 = some name :=
  dif_pos name.isValidUTF8

theorem NameAt.bytes {address : ℕ} {name : String} (h : NameAt content address name) :
    name.toUTF8.data.toList = bytesAt content address name.toUTF8.size ∧
      0 ∉ bytesAt content address name.toUTF8.size ∧
      content (address + name.toUTF8.size) = 0 := by
  obtain ⟨n, hbytes, hzero, hend⟩ := h
  have hlength := congrArg List.length hbytes
  rw [length_bytesAt, Array.length_toList] at hlength
  have hsize : name.toUTF8.size = n := hlength
  rw [hsize]
  exact ⟨hbytes, hzero, hend⟩

/-- How much of a name is read at once: up to the boundary, the budget and the image's end. -/
def chunkLen (image : Image) (rva taken : ℕ) : ℕ :=
  min (min (nameReadGranule - (rva + taken) % nameReadGranule) (maxName - taken))
    (image.sizeOfImage.toNat - (rva + taken))

section Name

variable {rva : ℕ} {name : String}
  (h : Granular target content hole) (haligned : image.base.toNat % nameReadGranule = 0)
  (haddresses : image.base.toNat + image.sizeOfImage.toNat < 2 ^ 64)
  (hname : NameFits image content rva name)
  (hreadable : Readable hole (image.base.toNat + rva) (name.toUTF8.size + 1))

include hname in
theorem chunkLen_pos {taken : ℕ} (htaken : taken ≤ name.toUTF8.size) :
    0 < chunkLen image rva taken := by
  have hshort := hname.short
  have hinside := hname.inside
  have hmod := Nat.mod_lt (rva + taken) (show 0 < nameReadGranule by decide)
  unfold chunkLen
  omega

include h haligned haddresses hname hreadable in
theorem nameChunk_answers {taken : ℕ} (htaken : taken ≤ name.toUTF8.size) :
    Answers (clippedReader target image (rva + taken)
        (min (nameReadGranule - (rva + taken) % nameReadGranule) (maxName - taken)))
      (bytesAt content (image.base.toNat + rva + taken) (chunkLen image rva taken)) := by
  have hinside := hname.inside
  have hfirst := hreadable taken (by omega)
  have hmod := Nat.mod_lt (rva + taken) (show 0 < nameReadGranule by decide)
  have hgranule : nameReadGranule = 512 := rfl
  rw [Nat.add_assoc]
  refine clippedReader_answers h haddresses _ _ (by omega) (readable_of_granule haligned ?_ ?_)
  · rwa [← Nat.add_assoc]
  · rw [hgranule] at hmod ⊢
    omega

theorem ne_zero_of_notMem {address n i : ℕ} (h : 0 ∉ bytesAt content address n) (hi : i < n) :
    content (address + i) ≠ 0 := by
  intro hzero
  refine h ?_
  rw [bytesAt, List.mem_map]
  exact ⟨i, List.mem_range.mpr hi, hzero⟩

theorem findIdx?_chunk {address size taken n : ℕ} (hzero : 0 ∉ bytesAt content address size)
    (hend : content (address + size) = 0) (htaken : taken ≤ size) :
    (bytesAt content (address + taken) n).findIdx? (· == 0) =
      if size < taken + n then some (size - taken) else none := by
  split
  · next hreaches =>
    rw [List.findIdx?_eq_some_iff_getElem]
    refine ⟨by rw [length_bytesAt]; omega, ?_, fun j hj => ?_⟩
    · simp only [bytesAt, List.getElem_map, List.getElem_range, beq_iff_eq]
      rw [show address + taken + (size - taken) = address + size by omega]
      exact hend
    · have hne := ne_zero_of_notMem hzero (show taken + j < size by omega)
      simp only [bytesAt, List.getElem_map, List.getElem_range, beq_iff_eq]
      rwa [Nat.add_assoc]
  · next hgoes =>
    rw [List.findIdx?_eq_none_iff]
    intro byte hbyte
    obtain ⟨j, hj, rfl⟩ := List.mem_map.mp hbyte
    have hne := ne_zero_of_notMem hzero
      (show taken + j < size by have := List.mem_range.mp hj; omega)
    rw [beq_eq_false_iff_ne, Nat.add_assoc]
    exact hne

include h haligned haddresses hname hreadable in
theorem nameRound_answers {taken : ℕ} (htaken : taken ≤ name.toUTF8.size) :
    Answers (nameRound target image rva (bytesAt content (image.base.toNat + rva) taken))
      (if name.toUTF8.size < taken + chunkLen image rva taken then .stop (some name)
        else .again (bytesAt content (image.base.toNat + rva)
          (taken + chunkLen image rva taken))) := by
  obtain ⟨hbytes, hzero, hend⟩ := hname.text.bytes
  have hshort := hname.short
  have hinside := hname.inside
  have hsize := image.sizeOfImage.toNat_lt
  have hmax : maxName = 512 := rfl
  have hpos := chunkLen_pos hname htaken
  have hempty : (bytesAt content (image.base.toNat + rva + taken)
      (chunkLen image rva taken)).isEmpty = false := by
    rw [List.isEmpty_eq_false_iff, ← List.length_pos_iff_ne_nil, length_bytesAt]
    exact hpos
  unfold nameRound
  rw [length_bytesAt, if_neg (by omega)]
  refine Answers.bind (Answers.lift (narrow_eq_ok (by omega))) ?_
  refine Answers.bind (Answers.lift (narrow_eq_ok (by omega))) ?_
  refine Answers.bind (nameChunk_answers h haligned haddresses hname hreadable htaken) ?_
  rw [if_neg (by simp [hempty]), findIdx?_chunk hzero hend htaken]
  by_cases hreaches : name.toUTF8.size < taken + chunkLen image rva taken
  · have htake : bytesAt content (image.base.toNat + rva) taken ++
        (bytesAt content (image.base.toNat + rva + taken) (chunkLen image rva taken)).take
          (name.toUTF8.size - taken) = name.toUTF8.data.toList := by
      have hfront : (bytesAt content (image.base.toNat + rva + taken)
          (chunkLen image rva taken)).take (name.toUTF8.size - taken) =
          bytesAt content (image.base.toNat + rva + taken) (name.toUTF8.size - taken) := by
        have hle : 0 + (name.toUTF8.size - taken) ≤ chunkLen image rva taken := by omega
        exact take_drop_bytesAt hle
      rw [hfront, bytesAt_append, hbytes, Nat.add_sub_cancel' htaken]
    rw [if_pos hreaches, if_pos hreaches]
    dsimp only
    rw [htake, Array.toArray_toList]
    have hvalid : String.fromUTF8? ⟨name.toUTF8.data⟩ = some name := fromUTF8?_toUTF8 name
    rw [hvalid]
    exact Answers.pure _
  · rw [if_neg hreaches, if_neg hreaches, bytesAt_append]
    exact Answers.pure _

include h haligned haddresses hname hreadable in
/-- **A name whose granules are readable is read**, wherever it lies in them. -/
theorem readCString_answers : Answers (readCString target image rva) name := by
  have hloop : ∀ rounds taken, taken ≤ name.toUTF8.size → name.toUTF8.size - taken < rounds →
      Answers (Run.loop (nameRound target image rva) (fun _ => none) rounds
        (bytesAt content (image.base.toNat + rva) taken)) (some name) := by
    intro rounds
    induction rounds with
    | zero => intro taken _ hrounds; omega
    | succ rounds ih =>
      intro taken htaken hrounds
      have hround := nameRound_answers h haligned haddresses hname hreadable htaken
      have hpos := chunkLen_pos hname htaken
      by_cases hreaches : name.toUTF8.size < taken + chunkLen image rva taken
      · rw [if_pos hreaches] at hround
        exact Answers.stop hround
      · rw [if_neg hreaches] at hround
        exact Answers.again hround (ih _ (by omega) (by omega))
  have hshort := hname.short
  unfold readCString
  rw [if_neg hname.present]
  refine Answers.bind (hloop (maxName + 1) 0 (by omega) (by omega)) ?_
  exact Answers.pure name

end Name

/-! ### Thunks -/

theorem flag_add_bits {k ordinal : ℕ} (hk : 16 ≤ k) (hk' : k < 64) (hordinal : ordinal < 2 ^ 16) :
    (2 ^ k + ordinal) &&& 2 ^ k ≠ 0 ∧
      (2 ^ k + ordinal) &&& complement (2 ^ k ||| 0xffff) = 0 ∧
      (2 ^ k + ordinal) &&& 0xffff = ordinal := by
  have hpow : (2 : ℕ) ^ 16 ≤ 2 ^ k := Nat.pow_le_pow_right (by decide) hk
  have hmask : 2 ^ k ||| 0xffff < 2 ^ 64 :=
    Nat.or_lt_two_pow (Nat.pow_lt_pow_right (by decide) hk') (by decide)
  have hsum : 2 ^ k + ordinal = 2 ^ k ||| ordinal := by
    have hor := Nat.two_pow_add_eq_or_of_lt (hordinal.trans_le hpow) 1
    rwa [Nat.mul_one] at hor
  have hlow : ordinal &&& 0xffff = ordinal := by
    rw [show 0xffff = 2 ^ 16 - 1 by decide, Nat.and_two_pow_sub_one_eq_mod]
    exact Nat.mod_eq_of_lt hordinal
  refine ⟨?_, ?_, ?_⟩
  · rw [hsum, Nat.and_two_pow, Nat.testBit_or, Nat.testBit_two_pow_self]
    simp
  · refine Nat.eq_of_testBit_eq fun i => ?_
    rw [Nat.zero_testBit, Nat.testBit_and, testBit_complement hmask, hsum, Nat.testBit_or,
      Nat.testBit_or]
    have hbit : ordinal.testBit i = (ordinal.testBit i && Nat.testBit 0xffff i) := by
      rw [← Nat.testBit_and, hlow]
    cases hk : (2 ^ k).testBit i with
    | true => simp
    | false =>
      rw [hbit]
      cases Nat.testBit 0xffff i <;> simp
  · rw [show 0xffff = 2 ^ 16 - 1 by decide, Nat.and_two_pow_sub_one_eq_mod]
    obtain ⟨m, rfl⟩ : ∃ m, k = 16 + m := ⟨k - 16, by omega⟩
    rw [Nat.pow_add, Nat.mul_add_mod, Nat.mod_eq_of_lt hordinal]

theorem and_ordinalFlag_eq_zero {bitness : Bitness} {value : ℕ}
    (h : value < ordinalFlag bitness) : value &&& ordinalFlag bitness = 0 := by
  cases bitness with
  | bits32 =>
    simp only [ordinalFlag] at h ⊢
    rw [Nat.and_two_pow, Nat.testBit_lt_two_pow h]
    rfl
  | bits64 =>
    simp only [ordinalFlag] at h ⊢
    rw [Nat.and_two_pow, Nat.testBit_lt_two_pow h]
    rfl

theorem ordinalFlag_eq (bitness : Bitness) :
    ∃ k, 16 ≤ k ∧ k < 64 ∧ ordinalFlag bitness = 2 ^ k := by
  cases bitness with
  | bits32 => exact ⟨31, by decide, by decide, rfl⟩
  | bits64 => exact ⟨63, by decide, by decide, rfl⟩

theorem thunkName_answers (h : Granular target content hole)
    (haligned : image.base.toNat % nameReadGranule = 0)
    (haddresses : image.base.toNat + image.sizeOfImage.toNat < 2 ^ 64) {value : ℕ}
    {name : ImportName} (hnames : ThunkNames image content value name)
    (hfits : ∀ text, name = .named text → NameFits image content (value + 2) text)
    (hreadable : ∀ text, name = .named text →
      Readable hole (image.base.toNat + (value + 2)) (text.toUTF8.size + 1)) :
    Answers (thunkName target image value) name := by
  unfold thunkName
  dsimp only
  cases name with
  | ordinal ordinal =>
    obtain ⟨hordinal, rfl⟩ := hnames
    obtain ⟨k, hk, hk', hflag⟩ := ordinalFlag_eq image.bitness
    obtain ⟨hset, hrest, hlow⟩ := flag_add_bits hk hk' hordinal
    rw [hflag, if_pos hset, if_neg (by rw [hrest]; simp), hlow]
    exact Answers.pure _
  | named text =>
    have hname := hfits text rfl
    have hinside := hname.inside
    have hsize := image.sizeOfImage.toNat_lt
    rw [if_neg (by rw [and_ordinalFlag_eq_zero hnames.1]; simp)]
    refine Answers.bind (Answers.lift (narrow_eq_ok (by omega))) ?_
    refine Answers.bind (Answers.lift (narrow_eq_ok (by omega))) ?_
    refine Answers.bind (readCString_answers h haligned haddresses hname (hreadable text rfl)) ?_
    exact Answers.pure _

theorem thunkValue_eq_ok {address : ℕ} :
    thunkValue image (bytesAt content address image.bitness.pointer) =
      .ok (wordAt content image.bitness.pointer address) := by
  unfold thunkValue
  cases image.bitness with
  | bits32 => exact fieldAt_eq_ok (by decide)
  | bits64 => exact fieldAt_eq_ok (by decide)

end Answered

end DbgScope.Pe
