import DbgScope.Pe.Bounds

/-!
# Exports at a set of addresses

`readExportsAt` looks the addresses up first and reads only the names it needs. What it answers is
what a scan of the whole name table finds: for each address, the names whose ordinal leads to it, in
the order of the table. And it answers at all only where everything this takes could be read.
-/

namespace DbgScope.Pe

open Run

/-! ## The tables an image holds -/

section Held

variable (image : Image) (content : ℕ → UInt8)

def exportHeaderAt : ExportHeader :=
  let address := image.base.toNat + image.exportDirectory.1.toNat
  ⟨wordAt content 4 (address + 12), wordAt content 4 (address + 20),
    wordAt content 4 (address + 24), wordAt content 4 (address + 28),
    wordAt content 4 (address + 32), wordAt content 4 (address + 36)⟩

def functionAt (index : ℕ) : ℕ :=
  wordAt content 4 (image.base.toNat + (exportHeaderAt image content).functionsAt + index * 4)

def ordinalAt (index : ℕ) : ℕ :=
  wordAt content 2 (image.base.toNat + (exportHeaderAt image content).ordinalsAt + index * 2)

def nameRvaAt (index : ℕ) : ℕ :=
  wordAt content 4 (image.base.toNat + (exportHeaderAt image content).namesAt + index * 4)

/-- An address in the export directory's own span is that of a forwarder's text. -/
def Forwarded (rva : ℕ) : Prop :=
  image.exportDirectory.1.toNat ≤ rva ∧
    rva < image.exportDirectory.1.toNat + image.exportDirectory.2.toNat

instance (rva : ℕ) : Decidable (Forwarded image rva) := by
  unfold Forwarded
  infer_instance

def Wanted (rvas : Finset ℕ) (index : ℕ) : Prop :=
  index < (exportHeaderAt image content).functions ∧ functionAt image content index ∈ rvas ∧
    ¬Forwarded image (functionAt image content index)

/-- **The full scan**: the positions of the name table whose function is at an address. -/
def namesOf (rva : ℕ) : List ℕ :=
  (List.range (exportHeaderAt image content).named).filter fun index =>
    ordinalAt image content index < (exportHeaderAt image content).functions ∧
      functionAt image content (ordinalAt image content index) = rva ∧ ¬Forwarded image rva

/-- The answer is that of the full scan, at the addresses that are asked about. -/
structure FullScan (rvas : Finset ℕ) (exports : ExportsAt) : Prop where
  library : NameAt content (image.base.toNat + (exportHeaderAt image content).nameRva)
    exports.library
  requested : ∀ rva ∈ rvas, ∃ names,
    List.Forall₂ (fun index name =>
        NameAt content (image.base.toNat + nameRvaAt image content index) name)
      (namesOf image content rva) names ∧
    exports.names[rva]? = if names = [] then none else some names
  other : ∀ rva ∉ rvas, exports.names[rva]? = none

end Held

/-! ## What has been read -/

section Covered

variable {W : Type} (target : Target W) (image : Image) (content : ℕ → UInt8)

def Covered (address len : ℕ) : Prop :=
  ∀ offset < len, ∃ start size w bytes, start ≤ address + offset ∧ address + offset < start + size ∧
    Inside image start size ∧ (target.read start size w).1 = some bytes

/-- A name the reader has answered for, up to its terminator. -/
def NameRead (address : ℕ) (name : String) : Prop :=
  NameAt content address name ∧ Covered target image address (name.toUTF8.size + 1)

/-- **Everything the question needs** could be read, inside the image: the directory and the
library's name; the address table, where there is something to look for; where something is found,
the ordinals, each of which leads into the address table, the name table, and the names that are
asked about. -/
structure Available (rvas : Finset ℕ) : Prop where
  header : Covered target image (image.base.toNat + image.exportDirectory.1.toNat) 40
  library : ∃ name, NameRead target image content
    (image.base.toNat + (exportHeaderAt image content).nameRva) name
  functions : rvas ≠ ∅ → (exportHeaderAt image content).functions ≠ 0 →
    (exportHeaderAt image content).named ≠ 0 →
    Covered target image (image.base.toNat + (exportHeaderAt image content).functionsAt)
      ((exportHeaderAt image content).functions * 4)
  tables : (∃ index, Wanted image content rvas index) →
    (exportHeaderAt image content).named ≠ 0 →
    Covered target image (image.base.toNat + (exportHeaderAt image content).ordinalsAt)
        ((exportHeaderAt image content).named * 2) ∧
      Covered target image (image.base.toNat + (exportHeaderAt image content).namesAt)
        ((exportHeaderAt image content).named * 4) ∧
      ∀ index < (exportHeaderAt image content).named,
        ordinalAt image content index < (exportHeaderAt image content).functions
  names : ∀ index < (exportHeaderAt image content).named,
    Wanted image content rvas (ordinalAt image content index) →
    ∃ name, NameRead target image content
      (image.base.toNat + nameRvaAt image content index) name

end Covered

section Reads

variable {W : Type} {target : Target W} {image : Image} {content : ℕ → UInt8}

variable {index : ℕ} (h : Faithful target content) (rva : ℕ) {address len len' : ℕ}
  {rvas : Finset ℕ}
include h

omit h in
theorem covered_of_read {w : W} {bytes : List UInt8} (hinside : Inside image address len)
    (hread : (target.read address len w).1 = some bytes) : Covered target image address len :=
  fun offset hoffset => ⟨address, len, w, bytes, by omega, by omega, hinside, hread⟩

omit h in
theorem Covered.append (h : Covered target image address len)
    (h' : Covered target image (address + len) len') :
    Covered target image address (len + len') := by
  intro offset hoffset
  by_cases hlt : offset < len
  · exact h offset hlt
  · have hrest := h' (offset - len) (by omega)
    rwa [show address + len + (offset - len) = address + offset by omega] at hrest

omit h in
theorem Covered.mono (h : Covered target image address len) (hle : len' ≤ len) :
    Covered target image address len' :=
  fun offset hoffset => h offset (hoffset.trans_le hle)

theorem readAt_covers (hinside : Inside image address len) :
    Yields (readAt target address len) fun bytes =>
      bytes = bytesAt content address len ∧ Covered target image address len := by
  intro w _
  unfold readAt
  cases hread : (target.read address len w).1 with
  | some bytes => exact ⟨h _ _ _ _ hread, covered_of_read hinside hread⟩
  | none => trivial

theorem clippedReader_covers (len : ℕ) : Yields (clippedReader target image rva len) fun bytes =>
      bytes = bytesAt content (image.base.toNat + rva)
          (min len (image.sizeOfImage.toNat - rva)) ∧
        Covered target image (image.base.toNat + rva)
          (min len (image.sizeOfImage.toNat - rva)) := by
  refine Yields.bind (Yields.lift fun address hok => And.intro (checkedVa_ok hok)
    (checkedVa_inside hok)) ?_
  rintro _ ⟨rfl, hinside⟩
  exact readAt_covers h hinside

theorem readDeclared_covers (len : ℕ) : Yields (readDeclared target image rva len) fun bytes =>
      bytes = bytesAt content (image.base.toNat + rva) len ∧
        Covered target image (image.base.toNat + rva) len := by
  refine Yields.guard fun _ => ?_
  refine Yields.bind (Yields.lift fun address hok => And.intro (checkedVa_ok hok)
    (checkedVa_inside hok)) ?_
  rintro _ ⟨rfl, hinside⟩
  refine Yields.bind (readAt_covers h hinside) fun bytes hbytes => ?_
  exact Yields.ite (fun _ => Yields.pure hbytes) fun _ => Yields.fail _

/-! ### Names -/

def PartRead (target : Target W) (image : Image) (content : ℕ → UInt8) (address : ℕ)
    (raw : List UInt8) : Prop :=
  NamePart content address raw ∧ Covered target image address raw.length

omit h in
theorem PartRead.ends {n stop : ℕ} {raw : List UInt8} {name : String}
    (h : PartRead target image content address raw)
    (hcovered : Covered target image (address + raw.length) n)
    (hstop : (bytesAt content (address + raw.length) n).findIdx? (· == 0) = some stop)
    (hname : String.fromUTF8?
      ⟨(raw ++ (bytesAt content (address + raw.length) n).take stop).toArray⟩ = some name) :
    NameRead target image content address name := by
  have hlt : stop < n := by
    obtain ⟨hlt, -⟩ := List.findIdx?_eq_some_iff_getElem.mp hstop
    rwa [length_bytesAt] at hlt
  refine ⟨h.1.ends hstop hname, ?_⟩
  have hsize : name.toUTF8.size = raw.length + stop := by
    rw [toUTF8_of_fromUTF8? hname]
    simp only [ByteArray.size, List.size_toArray, List.length_append, List.length_take,
      length_bytesAt]
    omega
  rw [hsize]
  exact (h.2.append hcovered).mono (by omega)

theorem nameRound_reads {raw : List UInt8}
    (hraw : PartRead target image content (image.base.toNat + rva) raw) :
    Yields (nameRound target image rva raw)
      (Flow.Holds (PartRead target image content (image.base.toNat + rva)) fun found =>
        ∀ name, found = some name →
          NameRead target image content (image.base.toNat + rva) name) := by
  refine Yields.ite (fun _ => Yields.pure fun _ hnone => by cases hnone) fun _ => ?_
  refine Yields.lift_eq (fun _ hok => (narrow_ok hok).1) ?_
  refine Yields.lift_eq (fun _ hok => (narrow_ok hok).1) ?_
  refine Yields.bind (clippedReader_covers h _ _) ?_
  rw [← Nat.add_assoc]
  rintro _ ⟨rfl, hcovered⟩
  refine Yields.ite (fun _ => Yields.pure fun _ hnone => by cases hnone) fun _ => ?_
  split
  · next stop hstop =>
    split
    · next name hname =>
      refine Yields.pure fun name' hname' => ?_
      rw [← Option.some.inj hname']
      exact hraw.ends hcovered hstop hname
    · exact Yields.fail _
  · next hnone =>
    refine Yields.pure ⟨hraw.1.append fun hmem => ?_, ?_⟩
    · have := List.findIdx?_eq_none_iff.mp hnone 0 hmem
      simp at this
    · rw [List.length_append, length_bytesAt]
      exact hraw.2.append hcovered

/-- **A name that is answered was read up to its terminator.** -/
theorem readCString_reads : Yields (readCString target image rva)
      (NameRead target image content (image.base.toNat + rva)) := by
  refine Yields.guard fun _ => ?_
  refine Yields.bind (Yields.countdown
    (I := fun _ => PartRead target image content (image.base.toNat + rva))
    (fun _ _ hraw => nameRound_reads h rva hraw) (fun _ _ _ hnone => by cases hnone) _ _
    ⟨⟨rfl, List.not_mem_nil⟩, fun _ hoffset => absurd hoffset (Nat.not_lt_zero _)⟩)
    fun found hfound => ?_
  cases found with
  | some name => exact Yields.pure (hfound name rfl)
  | none => exact Yields.fail _

/-! ### The tables -/

omit h in
theorem readExportHeader_yields :
    Yields (readExportHeader (W := W)
        (bytesAt content (image.base.toNat + image.exportDirectory.1.toNat) 40))
      fun header => header = exportHeaderAt image content := by
  refine Yields.lift_eq (fun _ => fieldAt_ok) ?_
  refine Yields.lift_eq (fun _ => fieldAt_ok) ?_
  refine Yields.lift_eq (fun _ => fieldAt_ok) ?_
  refine Yields.lift_eq (fun _ => fieldAt_ok) ?_
  refine Yields.lift_eq (fun _ => fieldAt_ok) ?_
  refine Yields.lift_eq (fun _ => fieldAt_ok) ?_
  exact Yields.pure rfl

omit h in
theorem functions_yields (count : ℕ) :
    Yields (Run.fold (W := W) (functionRound
        (bytesAt content (image.base.toNat + (exportHeaderAt image content).functionsAt)
          (count * 4))) (List.range count) [])
      fun entries => entries =
        (List.range count).map fun index => (index, functionAt image content index) := by
  refine Yields.fold_through (I := fun gone entries => entries =
    gone.map fun index => (index, functionAt image content index)) ?_ rfl
  rintro gone index rest entries - rfl
  refine Yields.lift_eq (fun _ => fieldAt_ok) ?_
  refine Yields.pure ?_
  simp [functionAt]

omit h in
theorem getElem?_ofList_eq_some_iff {entries : List (ℕ × ℕ)} {key value : ℕ}
    (hdistinct : entries.Pairwise fun a b => a.1 ≠ b.1) :
    (Std.TreeMap.ofList entries)[key]? = some value ↔ (key, value) ∈ entries := by
  have hpairwise : entries.Pairwise fun a b => ¬compare a.1 b.1 = .eq :=
    hdistinct.imp fun hne heq => hne (Nat.compare_eq_eq.mp heq)
  have hheld : ∀ entry ∈ entries, (Std.TreeMap.ofList entries)[entry.1]? = some entry.2 :=
    fun entry hentry =>
      Std.TreeMap.getElem?_ofList_of_mem (Nat.compare_eq_eq.mpr rfl) hpairwise hentry
  refine ⟨fun hsome => ?_, fun hmem => hheld _ hmem⟩
  have hkey : (entries.map Prod.fst).contains key = true := by
    by_contra hnot
    rw [Std.TreeMap.getElem?_ofList_of_contains_eq_false (by simpa using hnot)] at hsome
    cases hsome
  obtain ⟨entry, hentry, rfl⟩ := List.mem_map.mp (List.contains_iff_mem.mp hkey)
  rw [hheld entry hentry] at hsome
  rw [← Option.some.inj hsome]
  exact hentry

omit h in
theorem wantedOf_eq_some_iff {count index rva : ℕ}
    (hfits : image.exportDirectory.1.toNat + image.exportDirectory.2.toNat < 2 ^ 32) :
    (wantedOf image rvas
        ((List.range count).map fun index => (index, functionAt image content index)))[index]? =
      some rva ↔
    index < count ∧ functionAt image content index = rva ∧ rva ∈ rvas ∧ ¬Forwarded image rva := by
  unfold wantedOf Forwarded
  dsimp only
  rw [Nat.min_eq_left (by omega), getElem?_ofList_eq_some_iff, List.mem_filter, List.mem_map,
    decide_eq_true_iff]
  · constructor
    · rintro ⟨⟨position, hposition, heq⟩, hrvas⟩
      obtain ⟨rfl, rfl⟩ := Prod.mk.inj heq
      exact ⟨List.mem_range.mp hposition, rfl, hrvas⟩
    · rintro ⟨hposition, hfunction, hrvas⟩
      exact ⟨⟨index, List.mem_range.mpr hposition, Prod.ext rfl hfunction⟩, hrvas⟩
  · refine List.Pairwise.filter _ (List.pairwise_map.mpr (List.pairwise_lt_range.imp ?_))
    exact fun hlt => Nat.ne_of_lt hlt

/-! ### The name table -/

/-- The names read so far: those of the positions gone through that lead to an address, under that
address. -/
structure NamesSoFar (target : Target W) (image : Image) (content : ℕ → UInt8)
    (wanted : Std.TreeMap ℕ ℕ) (library : String) (gone : List ℕ) (exports : ExportsAt) :
    Prop where
  library : exports.library = library
  ordinals : ∀ index ∈ gone,
    ordinalAt image content index < (exportHeaderAt image content).functions
  names : ∀ rva, ∃ names,
    List.Forall₂ (fun index name => NameRead target image content
        (image.base.toNat + nameRvaAt image content index) name)
      (gone.filter fun index => wanted[ordinalAt image content index]? = some rva) names ∧
    exports.names[rva]? = if names = [] then none else some names

variable {wanted : Std.TreeMap ℕ ℕ} {library : String} {gone : List ℕ} {exports : ExportsAt}

omit h in
theorem NamesSoFar.skip (h : NamesSoFar target image content wanted library gone exports)
    (hordinal : ordinalAt image content index < (exportHeaderAt image content).functions)
    (hnone : wanted[ordinalAt image content index]? = none) :
    NamesSoFar target image content wanted library (gone ++ [index]) exports where
  library := h.library
  ordinals := by
    intro other hother
    rcases List.mem_append.mp hother with hold | hnew
    · exact h.ordinals other hold
    · rwa [List.mem_singleton.mp hnew]
  names := by
    intro rva
    obtain ⟨names, hnames, hentry⟩ := h.names rva
    refine ⟨names, ?_, hentry⟩
    rw [List.filter_append, List.filter_cons_of_neg (by simp [hnone]), List.filter_nil,
      List.append_nil]
    exact hnames

omit h in
theorem NamesSoFar.push {name : String}
    (h : NamesSoFar target image content wanted library gone exports)
    (hordinal : ordinalAt image content index < (exportHeaderAt image content).functions)
    (hwanted : wanted[ordinalAt image content index]? = some address)
    (hname : NameRead target image content (image.base.toNat + nameRvaAt image content index) name) :
    NamesSoFar target image content wanted library (gone ++ [index])
      (exports.push address name) where
  library := h.library
  ordinals := by
    intro other hother
    rcases List.mem_append.mp hother with hold | hnew
    · exact h.ordinals other hold
    · rwa [List.mem_singleton.mp hnew]
  names := by
    intro rva
    obtain ⟨names, hnames, hentry⟩ := h.names rva
    rw [List.filter_append]
    by_cases hrva : address = rva
    · subst hrva
      refine ⟨names ++ [name], ?_, ?_⟩
      · rw [List.filter_cons_of_pos (by simp [hwanted]), List.filter_nil]
        exact List.rel_append hnames (.cons hname .nil)
      · have hold : exports.names.getD address [] = names := by
          rw [Std.TreeMap.getD_eq_getD_getElem?, hentry]
          split
          · next hempty => rw [hempty]; rfl
          · rfl
        simp [ExportsAt.push, hold]
    · refine ⟨names, ?_, ?_⟩
      · rw [List.filter_cons_of_neg (by simpa [hwanted] using hrva), List.filter_nil,
          List.append_nil]
        exact hnames
      · rw [← hentry, ExportsAt.push]
        rw [Std.TreeMap.getElem?_insert, if_neg fun heq => hrva (Nat.compare_eq_eq.mp heq)]

theorem nameEntryRound_yields {index : ℕ}
    (hsofar : NamesSoFar target image content wanted library gone exports) :
    Yields (nameEntryRound target image (exportHeaderAt image content) wanted
        (bytesAt content (image.base.toNat + (exportHeaderAt image content).ordinalsAt) len)
        (bytesAt content (image.base.toNat + (exportHeaderAt image content).namesAt) len')
        exports index)
      (NamesSoFar target image content wanted library (gone ++ [index])) := by
  refine Yields.lift_eq (fun _ => fieldAt_ok) ?_
  refine Yields.guard fun hordinal => ?_
  have hlt : ordinalAt image content index < (exportHeaderAt image content).functions :=
    Nat.lt_of_not_le hordinal
  cases hwanted : wanted[ordinalAt image content index]? with
  | none =>
    unfold ordinalAt at hwanted
    simp only [hwanted]
    exact Yields.pure (hsofar.skip hlt hwanted)
  | some address =>
    have hround := hwanted
    unfold ordinalAt at hround
    simp only [hround]
    refine Yields.after fun _ => ?_
    refine Yields.lift_eq (fun _ => fieldAt_ok) ?_
    refine Yields.bind (readCString_reads h _) fun name hname => ?_
    exact Yields.pure (hsofar.push hlt hwanted hname)

/-! ### The answer -/

/-- The names of an answer, and what was read for them. -/
structure Named (target : Target W) (image : Image) (content : ℕ → UInt8) (rvas : Finset ℕ)
    (exports : ExportsAt) : Prop where
  tables : (∃ index, Wanted image content rvas index) →
    (exportHeaderAt image content).named ≠ 0 →
    Covered target image (image.base.toNat + (exportHeaderAt image content).ordinalsAt)
        ((exportHeaderAt image content).named * 2) ∧
      Covered target image (image.base.toNat + (exportHeaderAt image content).namesAt)
        ((exportHeaderAt image content).named * 4) ∧
      ∀ index < (exportHeaderAt image content).named,
        ordinalAt image content index < (exportHeaderAt image content).functions
  requested : ∀ rva ∈ rvas, ∃ names,
    List.Forall₂ (fun index name => NameRead target image content
        (image.base.toNat + nameRvaAt image content index) name)
      (namesOf image content rva) names ∧
    exports.names[rva]? = if names = [] then none else some names
  other : ∀ rva ∉ rvas, exports.names[rva]? = none

omit h in
theorem Named.none
    (h : (∀ index, ¬Wanted image content rvas index) ∨ (exportHeaderAt image content).named = 0) :
    Named target image content rvas ⟨library, {}⟩ where
  tables := by
    rintro ⟨index, hindex⟩ hnamed
    rcases h with hnone | hzero
    · exact absurd hindex (hnone index)
    · exact absurd hzero hnamed
  requested := by
    intro rva hrva
    have hempty : namesOf image content rva = [] := by
      rw [namesOf, List.filter_eq_nil_iff]
      intro index hindex hnamed
      rcases h with hnone | hzero
      · obtain ⟨hordinal, hfunction, hforwarded⟩ := of_decide_eq_true hnamed
        exact hnone _ ⟨hordinal, hfunction ▸ hrva, hfunction ▸ hforwarded⟩
      · rw [hzero] at hindex
        exact absurd hindex List.not_mem_nil
    exact ⟨[], hempty ▸ .nil, by simp⟩
  other := by simp

omit h in
theorem NamesSoFar.named
    (hfits : image.exportDirectory.1.toNat + image.exportDirectory.2.toNat < 2 ^ 32)
    (hordinals : Covered target image
      (image.base.toNat + (exportHeaderAt image content).ordinalsAt)
      ((exportHeaderAt image content).named * 2))
    (hnames : Covered target image (image.base.toNat + (exportHeaderAt image content).namesAt)
      ((exportHeaderAt image content).named * 4))
    (h : NamesSoFar target image content (wantedOf image rvas
        ((List.range (exportHeaderAt image content).functions).map fun index =>
          (index, functionAt image content index)))
      library (List.range (exportHeaderAt image content).named) exports) :
    Named target image content rvas exports where
  tables := fun _ _ => ⟨hordinals, hnames, fun index hindex =>
    h.ordinals index (List.mem_range.mpr hindex)⟩
  requested := by
    intro rva hrva
    obtain ⟨names, hmatch, hentry⟩ := h.names rva
    refine ⟨names, ?_, hentry⟩
    have hsame : (List.range (exportHeaderAt image content).named).filter (fun index =>
        (wantedOf image rvas ((List.range (exportHeaderAt image content).functions).map fun index =>
          (index, functionAt image content index)))[ordinalAt image content index]? =
            some rva) = namesOf image content rva := by
      refine List.filter_congr fun index _ => decide_eq_decide.mpr ?_
      rw [wantedOf_eq_some_iff hfits]
      exact ⟨fun hw => ⟨hw.1, hw.2.1, hw.2.2.2⟩, fun hw => ⟨hw.1, hw.2.1, hrva, hw.2.2⟩⟩
    rwa [hsame] at hmatch
  other := by
    intro rva hrva
    obtain ⟨names, hmatch, hentry⟩ := h.names rva
    have hnone : (List.range (exportHeaderAt image content).named).filter (fun index =>
        (wantedOf image rvas ((List.range (exportHeaderAt image content).functions).map fun index =>
          (index, functionAt image content index)))[ordinalAt image content index]? =
            some rva) = [] := by
      rw [List.filter_eq_nil_iff]
      intro index _ hwanted
      exact hrva ((wantedOf_eq_some_iff hfits).mp (of_decide_eq_true hwanted)).2.2.1
    rw [hnone] at hmatch
    cases hmatch
    rw [hentry, if_pos rfl]

theorem readNames_yields (rvas : Finset ℕ)
    (hfits : image.exportDirectory.1.toNat + image.exportDirectory.2.toNat < 2 ^ 32) :
    Yields (readNames target image rvas (exportHeaderAt image content) ⟨library, {}⟩)
      fun exports => exports.library = library ∧
        Covered target image (image.base.toNat + (exportHeaderAt image content).functionsAt)
          ((exportHeaderAt image content).functions * 4) ∧
        Named target image content rvas exports := by
  refine Yields.after fun _ => ?_
  refine Yields.bind (readDeclared_covers h _ _) ?_
  rintro _ ⟨rfl, hfunctions⟩
  refine Yields.bind (functions_yields _) ?_
  rintro _ rfl
  refine Yields.ite (fun hempty => Yields.pure ⟨rfl, hfunctions, Named.none (.inl ?_)⟩)
    fun _ => ?_
  · rintro index ⟨hindex, hrva, hforwarded⟩
    have hsome := (wantedOf_eq_some_iff hfits).mpr ⟨hindex, rfl, hrva, hforwarded⟩
    rw [Std.TreeMap.getElem?_of_isEmpty hempty] at hsome
    cases hsome
  refine Yields.after fun _ => ?_
  refine Yields.bind (readDeclared_covers h _ _) ?_
  rintro _ ⟨rfl, hordinals⟩
  refine Yields.after fun _ => ?_
  refine Yields.bind (readDeclared_covers h _ _) ?_
  rintro _ ⟨rfl, hnames⟩
  refine Yields.imp (Yields.fold_through
    (fun gone index rest exports _ hsofar => nameEntryRound_yields h hsofar)
    ⟨rfl, by simp, fun rva => ⟨[], .nil, by simp⟩⟩) fun exports hsofar => ?_
  exact ⟨hsofar.library, hfunctions, hsofar.named hfits hordinals hnames⟩

structure Answered (target : Target W) (image : Image) (content : ℕ → UInt8) (rvas : Finset ℕ)
    (exports : ExportsAt) : Prop extends Named target image content rvas exports where
  header : Covered target image (image.base.toNat + image.exportDirectory.1.toNat) 40
  library : NameRead target image content
    (image.base.toNat + (exportHeaderAt image content).nameRva) exports.library
  functions : rvas ≠ ∅ → (exportHeaderAt image content).functions ≠ 0 →
    (exportHeaderAt image content).named ≠ 0 →
    Covered target image (image.base.toNat + (exportHeaderAt image content).functionsAt)
      ((exportHeaderAt image content).functions * 4)

theorem readExportsAt_yields (rvas : Finset ℕ) :
    Yields (readExportsAt target image rvas) fun answer =>
      (answer = none → image.exportDirectory = (0, 0)) ∧
        ∀ exports, answer = some exports → Answered target image content rvas exports := by
  refine Yields.ite (fun hzero => Yields.pure ⟨fun _ => ?_, fun _ hsome => by cases hsome⟩)
    fun _ => ?_
  · exact Prod.ext (UInt32.toNat_inj.mp hzero.1) (UInt32.toNat_inj.mp hzero.2)
  refine Yields.guard fun _ => ?_
  refine Yields.guard fun _ => ?_
  refine Yields.bind (Yields.lift fun _ hok => hok) fun _ hok => ?_
  have hdirectory := image.exportDirectory.1.toNat_lt
  have hsize := image.exportDirectory.2.toNat_lt
  have hfits := declaredFits_ok (by omega) hok
  have himage := image.sizeOfImage.toNat_lt
  refine Yields.bind (readDeclared_covers h _ _) ?_
  rintro _ ⟨rfl, hheader⟩
  refine Yields.bind readExportHeader_yields ?_
  rintro _ rfl
  refine Yields.guard fun _ => ?_
  refine Yields.guard fun _ => ?_
  refine Yields.bind (readCString_reads h _) fun library hlibrary => ?_
  refine Yields.ite (fun hearly => Yields.pure ⟨(fun hnone => by cases hnone), ?_⟩) fun _ => ?_
  · rintro _ hsome
    obtain rfl := Option.some.inj hsome
    refine ⟨Named.none ?_, hheader, hlibrary, fun hrvas hfunctions hnamed => ?_⟩
    · rcases hearly with rfl | hfunctions | hnamed
      · exact .inl fun index hwanted => absurd hwanted.2.1 (Finset.notMem_empty _)
      · exact .inl fun index hwanted => absurd hwanted.1 (by omega)
      · exact .inr hnamed
    · rcases hearly with hempty | hzero | hzero
      · exact absurd hempty hrvas
      · exact absurd hzero hfunctions
      · exact absurd hzero hnamed
  · refine Yields.bind (readNames_yields h rvas (by omega)) ?_
    rintro exports ⟨rfl, hfunctions, hnamed⟩
    refine Yields.pure ⟨(fun hnone => by cases hnone), fun _ hsome => ?_⟩
    obtain rfl := Option.some.inj hsome
    exact ⟨hnamed, hheader, hlibrary, fun _ _ _ => hfunctions⟩

omit h in
theorem Answered.fullScan (h : Answered target image content rvas exports) :
    FullScan image content rvas exports where
  library := h.library.1
  requested := by
    intro rva hrva
    obtain ⟨names, hnames, hentry⟩ := h.requested rva hrva
    exact ⟨names, hnames.imp fun _ _ hname => hname.1, hentry⟩
  other := h.other

omit h in
theorem Answered.available (h : Answered target image content rvas exports) :
    Available target image content rvas where
  header := h.header
  library := ⟨_, h.library⟩
  functions := h.functions
  tables := h.tables
  names := by
    rintro index hindex ⟨hordinal, hrva, hforwarded⟩
    obtain ⟨names, hnames, -⟩ := h.requested _ hrva
    have hmem : index ∈ namesOf image content
        (functionAt image content (ordinalAt image content index)) := by
      rw [namesOf, List.mem_filter]
      exact ⟨List.mem_range.mpr hindex, decide_eq_true ⟨hordinal, rfl, hforwarded⟩⟩
    obtain ⟨position, hposition, hat⟩ := List.getElem_of_mem hmem
    have hname := hnames.get hposition (hnames.length_eq ▸ hposition)
    rw [List.get_eq_getElem, hat] at hname
    exact ⟨_, hname⟩

end Reads

/-- **A selective lookup is a full scan.** What is answered holds, under each address that is asked
about, exactly the names whose ordinal leads to it, in the order of the name table; an address of
the directory's own span has none. Where anything that this takes cannot be read or is out of range,
the answer is an error. -/
theorem exports_are_full_scan {W : Type} (target : Target W) (image : Image) (content : ℕ → UInt8)
    (hfaithful : Faithful target content) (hdirectory : image.exportDirectory ≠ (0, 0))
    (rvas : Finset ℕ) (w : W) :
    (∀ exports w', readExportsAt target image rvas w = (.ok (some exports), w') →
      FullScan image content rvas exports) ∧
    (¬Available target image content rvas →
      ∃ error w', readExportsAt target image rvas w = (.error error, w')) := by
  have hyields : Yields (readExportsAt target image rvas) _ := readExportsAt_yields hfaithful rvas
  constructor
  · intro exports w' hread
    exact ((hyields.of_ok hread).2 exports rfl).fullScan
  · intro hunavailable
    rcases hrun : readExportsAt target image rvas w with ⟨r, w'⟩
    cases r with
    | error error => exact ⟨error, w', rfl⟩
    | ok answer =>
      obtain ⟨hnone, hsome⟩ := hyields.of_ok hrun
      cases answer with
      | none => exact absurd (hnone rfl) hdirectory
      | some exports => exact absurd (hsome exports rfl).available hunavailable

def exportImage : Image :=
  { smallImage with exportDirectory := (0x20, 40), importDirectory := (0, 0) }

/-- Its words: the directory, two functions, two names with their ordinals, and three texts. -/
def exportContent (address : ℕ) : UInt8 :=
  let word := [(0x10028, 0xc000000000), (0x10030, 0x200000000), (0x10038, 0x6000000002),
    (0x10040, 0x8000000070), (0x10060, 0x200000001000), (0x10070, 0xd8000000d0), (0x10080, 0x1),
    (0x100c0, 0x7379732e61), (0x100d0, 0x6f47), (0x100d8, 0x706f7453)].lookup (address / 8 * 8)
  .ofNat (word.getD 0 >>> (address % 8 * 8))

def exportTarget : Target Unit where
  read address len _ := (some (bytesAt exportContent address len), ())
  halt _ := (false, ())

theorem exports_are_full_scan_stop :
    ∃ exports, readExportsAt exportTarget exportImage {0x1000, 0x3000} () =
        (.ok (some exports), ()) ∧
      exports.names[0x1000]? = some ["Stop"] ∧ exports.names[0x3000]? = none ∧
      FullScan exportImage exportContent {0x1000, 0x3000} exports := by
  have hread : readExportsAt exportTarget exportImage {0x1000, 0x3000} () =
      (.ok (some ⟨"a.sys", ({} : Std.TreeMap ℕ (List String)).insert 0x1000 ["Stop"]⟩), ()) := by
    rfl
  have hscan := (exports_are_full_scan exportTarget exportImage exportContent
    (fun _ _ _ _ h => (Option.some.inj h).symm) (by decide) {0x1000, 0x3000} ()).1 _ _ hread
  exact ⟨_, hread, by simp, by simp, hscan⟩

end DbgScope.Pe
