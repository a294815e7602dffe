import DbgScope.Pe.Words

/-!
# The parser stays inside the image

Every address handed to the reader comes through `checkedVa`, so it is one of the image's, with the
whole of the span that is asked for; and so is every slot that is reported. What a request inside
the image keeps, the functions keep: with a reader that writes down the spans it is asked for, that
these are all inside.
-/

namespace DbgScope.Pe

open Run

/-- A span of bytes that the image holds whole, with an end that is a word. -/
def Inside (image : Image) (address len : ℕ) : Prop :=
  image.base.toNat ≤ address ∧ address < image.base.toNat + image.sizeOfImage.toNat ∧
    address + len ≤ image.base.toNat + image.sizeOfImage.toNat ∧ address + len < 2 ^ 64

theorem checkedVa_inside {image : Image} {rva len address : ℕ}
    (h : image.checkedVa rva len = .ok address) : Inside image address len := by
  have haddress := checkedVa_ok h
  have hstop := Words.checkedVa_stop h
  unfold Image.checkedVa checkedAdd at h
  by_cases hsum : rva + len < 2 ^ 64
  · rw [if_pos hsum] at h
    dsimp only at h
    by_cases hout : image.sizeOfImage.toNat ≤ rva ∨ image.sizeOfImage.toNat < rva + len
    · rw [if_pos hout] at h
      cases h
    · exact ⟨by omega, by omega, by omega, hstop⟩
  · rw [if_neg hsum] at h
    cases h

/-! ## What requests inside the image keep -/

section Kept

variable {W : Type} {target : Target W} {image : Image} {I : W → Prop}

structure KeptInside (target : Target W) (image : Image) (I : W → Prop) : Prop where
  read : ∀ address len w, Inside image address len → I w → I (target.read address len w).2
  halt : ∀ w, I w → I (target.halt w).2

/-- The computation keeps `I`, also where it fails. -/
abbrev Stays {α : Type} (I : W → Prop) (m : Run PeError W α) : Prop := Keeps I (fun _ => I) m

variable {α : Type} (h : KeptInside target image I) (rva : ℕ)
include h

omit h in
theorem lift_stays (r : Except PeError α) : Stays I (Run.lift r) :=
  Keeps.lift fun _ _ _ h => h

omit h in
theorem fail_stays (e : PeError) : Stays I (Run.fail e : Run PeError W α) :=
  Keeps.fail fun _ h => h

omit h in
theorem guard_stays {c : Prop} [Decidable c] {e : PeError} {m : Run PeError W α}
    (hm : ¬c → Stays I m) : Stays I (if c then Run.fail e else m) :=
  Keeps.ite (fun _ => fail_stays e) hm

theorem checkHalt_stays : Stays I (checkHalt target) := by
  intro w hw
  unfold checkHalt
  cases (target.halt w).1 with
  | true => exact h.halt w hw
  | false => exact h.halt w hw

theorem readAt_stays {address len : ℕ} (hinside : Inside image address len) :
    Stays I (readAt target address len) := by
  intro w hw
  unfold readAt
  cases (target.read address len w).1 with
  | some bytes => exact h.read address len w hinside hw
  | none => exact h.read address len w hinside hw

omit h in
theorem checkedVa_bind_stays {rva len : ℕ} {f : ℕ → Run PeError W α}
    (hf : ∀ address, Inside image address len → Stays I (f address)) :
    Stays I (Run.lift (image.checkedVa rva len) >>= f) := by
  cases hva : image.checkedVa rva len with
  | ok address => exact hf address (checkedVa_inside hva)
  | error e => exact fail_stays e

theorem clippedReader_stays (len : ℕ) : Stays I (clippedReader target image rva len) :=
  checkedVa_bind_stays fun _ hinside => readAt_stays h hinside

theorem readDeclared_stays (len : ℕ) : Stays I (readDeclared target image rva len) := by
  refine guard_stays fun _ => checkedVa_bind_stays fun address hinside => ?_
  refine Keeps.bind (readAt_stays h hinside) fun bytes => ?_
  exact Keeps.guard fun _ => fail_stays _

theorem nameRound_stays (raw : List UInt8) : Stays I (nameRound target image rva raw) := by
  refine Keeps.guard fun _ => ?_
  refine Keeps.bind (lift_stays _) fun taken => ?_
  refine Keeps.bind (lift_stays _) fun here => ?_
  refine Keeps.bind (clippedReader_stays h _ _) fun chunk => ?_
  refine Keeps.guard fun _ => ?_
  cases chunk.findIdx? (· == 0) with
  | none => exact Keeps.pure _
  | some stop =>
    dsimp only
    cases String.fromUTF8? ⟨(raw ++ chunk.take stop).toArray⟩ with
    | none => exact fail_stays _
    | some name => exact Keeps.pure _

theorem readCString_stays : Stays I (readCString target image rva) := by
  refine guard_stays fun _ => ?_
  refine Keeps.bind (Keeps.loop (nameRound_stays h rva) _ _) fun found => ?_
  cases found with
  | none => exact fail_stays _
  | some name => exact Keeps.pure _

/-! ### Imports -/

theorem thunkName_stays (value : ℕ) : Stays I (thunkName target image value) := by
  refine Keeps.ite (fun _ => guard_stays fun _ => Keeps.pure _) fun _ => ?_
  refine Keeps.bind (lift_stays _) fun _ => ?_
  refine Keeps.bind (lift_stays _) fun _ => ?_
  exact (readCString_stays h _).map

theorem slotRound_stays (library : String) (lookup iat : ℕ) (state : ℕ × Claims) :
    Stays I (slotRound target image library lookup iat state) := by
  refine Keeps.bind (checkHalt_stays h) fun _ => ?_
  refine Keeps.bind (lift_stays _) fun _ => ?_
  refine Keeps.bind (lift_stays _) fun _ => ?_
  refine Keeps.bind (lift_stays _) fun _ => ?_
  refine Keeps.bind (clippedReader_stays h _ _) fun _ => ?_
  refine Keeps.bind (lift_stays _) fun _ => ?_
  refine Keeps.guard fun _ => ?_
  refine Keeps.bind (thunkName_stays h _) fun _ => ?_
  exact (lift_stays _).map

theorem readLibrary_stays (descriptor : Descriptor) (claims : Claims) :
    Stays I (readLibrary target image descriptor claims) := by
  refine guard_stays fun _ => ?_
  refine guard_stays fun _ => ?_
  refine Keeps.bind (readCString_stays h _) fun library => ?_
  refine Keeps.ite (fun _ => (lift_stays _).map) fun _ => ?_
  refine Keeps.bind (Keeps.loop (slotRound_stays h library _ _) _ _) fun ended => ?_
  cases ended with
  | none => exact fail_stays _
  | some claims => exact Keeps.pure _

theorem descriptorRound_stays (descriptors : List UInt8) (state : ℕ × Claims) :
    Stays I (descriptorRound target image descriptors state) := by
  have hfields : Stays I (readDescriptor descriptors (state.1 * 20) : Run PeError W _) := by
    refine Keeps.bind (lift_stays _) fun _ => ?_
    refine Keeps.bind (lift_stays _) fun _ => ?_
    refine Keeps.bind (lift_stays _) fun _ => ?_
    refine Keeps.bind (lift_stays _) fun _ => ?_
    exact (lift_stays _).map
  refine Keeps.bind (checkHalt_stays h) fun _ => Keeps.bind hfields fun descriptor => ?_
  refine Keeps.guard fun _ => ?_
  exact (readLibrary_stays h _ _).map

/-- **`readImports` asks inside the image only.** -/
theorem readImports_stays : Stays I (readImports target image) := by
  refine Keeps.guard fun _ => ?_
  refine guard_stays fun _ => ?_
  refine guard_stays fun _ => ?_
  refine Keeps.bind (lift_stays _) fun _ => ?_
  refine Keeps.bind (clippedReader_stays h _ _) fun descriptors => ?_
  refine Keeps.bind (Keeps.loop (descriptorRound_stays h descriptors) _ _) fun ended => ?_
  cases ended with
  | none => exact fail_stays _
  | some table => exact Keeps.pure _

/-! ### The other tables -/

/-- **`readImportAddressTable` asks inside the image only.** -/
theorem readImportAddressTable_stays : Stays I (readImportAddressTable target image) := by
  refine Keeps.guard fun _ => ?_
  refine guard_stays fun _ => ?_
  refine guard_stays fun _ => ?_
  refine guard_stays fun _ => ?_
  refine Keeps.bind (lift_stays _) fun address => ?_
  refine Keeps.bind (readDeclared_stays h _ _) fun bytes => ?_
  exact Keeps.fold (fun slots index => (lift_stays _).map) _ _

theorem nameEntryRound_stays (header : ExportHeader) (wanted : Std.TreeMap ℕ ℕ)
    (ordinals names : List UInt8) (exports : ExportsAt) (index : ℕ) :
    Stays I (nameEntryRound target image header wanted ordinals names exports index) := by
  refine Keeps.bind (lift_stays _) fun ordinal => ?_
  refine guard_stays fun _ => ?_
  cases wanted[ordinal]? with
  | none => exact Keeps.pure _
  | some address =>
    refine Keeps.bind (checkHalt_stays h) fun _ => ?_
    refine Keeps.bind (lift_stays _) fun _ => ?_
    exact (readCString_stays h _).map

theorem readNames_stays (rvas : Finset ℕ) (header : ExportHeader) (exports : ExportsAt) :
    Stays I (readNames target image rvas header exports) := by
  refine Keeps.bind (checkHalt_stays h) fun _ => ?_
  refine Keeps.bind (readDeclared_stays h _ _) fun addresses => ?_
  refine Keeps.bind (Keeps.fold (fun _ _ => (lift_stays _).map) _ _)
    fun entries => ?_
  refine Keeps.guard fun _ => ?_
  refine Keeps.bind (checkHalt_stays h) fun _ => ?_
  refine Keeps.bind (readDeclared_stays h _ _) fun ordinals => ?_
  refine Keeps.bind (checkHalt_stays h) fun _ => ?_
  refine Keeps.bind (readDeclared_stays h _ _) fun names => ?_
  exact Keeps.fold (nameEntryRound_stays h header _ ordinals names) _ _

omit h in
theorem readExportHeader_stays (bytes : List UInt8) :
    Stays I (readExportHeader bytes : Run PeError W _) := by
  refine Keeps.bind (lift_stays _) fun _ => ?_
  refine Keeps.bind (lift_stays _) fun _ => ?_
  refine Keeps.bind (lift_stays _) fun _ => ?_
  refine Keeps.bind (lift_stays _) fun _ => ?_
  refine Keeps.bind (lift_stays _) fun _ => ?_
  exact (lift_stays _).map

/-- **`readExportsAt` asks inside the image only.** -/
theorem readExportsAt_stays (rvas : Finset ℕ) : Stays I (readExportsAt target image rvas) := by
  refine Keeps.guard fun _ => ?_
  refine guard_stays fun _ => ?_
  refine guard_stays fun _ => ?_
  refine Keeps.bind (lift_stays _) fun _ => ?_
  refine Keeps.bind (readDeclared_stays h _ _) fun bytes => ?_
  refine Keeps.bind (readExportHeader_stays bytes) fun header => ?_
  refine guard_stays fun _ => ?_
  refine guard_stays fun _ => ?_
  refine Keeps.bind (readCString_stays h _) fun library => ?_
  refine Keeps.guard fun _ => ?_
  exact (readNames_stays h rvas header _).map

end Kept

/-! ## What is reported -/

section Reported

variable {W : Type} {target : Target W} {image : Image}

def SlotsInside (image : Image) (table : ImportTable) : Prop :=
  ∀ entry ∈ table.imports, Inside image entry.slot image.bitness.pointer

theorem claim_inside {claims claims' : Claims} {entry : Import}
    (h : SlotsInside image claims.table) (hclaim : claim claims entry = .ok claims')
    (hentry : Inside image entry.slot image.bitness.pointer) :
    SlotsInside image claims'.table := by
  intro other hother
  rw [claim_ok hclaim] at hother
  rcases List.mem_append.mp hother with hold | hnew
  · exact h other hold
  · rw [List.mem_singleton.mp hnew]
    exact hentry

theorem readLibrary_inside (descriptor : Descriptor) {claims : Claims}
    (h : SlotsInside image claims.table) :
    Yields (readLibrary target image descriptor claims) fun claims' =>
      SlotsInside image claims'.table := by
  refine readLibrary_walks descriptor (I := fun _ state => SlotsInside image state.2.table)
    (fun _ _ => h) h fun _ state flow hinside hstep => ?_
  cases hstep with
  | ends hslot =>
    intro claims' hended
    rw [← Option.some.inj hended]
    exact hinside
  | claims hslot hclaim => exact claim_inside hinside hclaim (checkedVa_inside hslot)

theorem descriptorRound_inside (descriptors : List UInt8) {state : ℕ × Claims}
    (h : SlotsInside image state.2.table) :
    Yields (descriptorRound target image descriptors state)
      (Flow.Holds (fun state => SlotsInside image state.2.table) fun ended =>
        ∀ table, ended = some table → SlotsInside image table) := by
  refine Yields.after fun _ => ?_
  refine Yields.after fun descriptor => ?_
  refine Yields.ite (fun _ => Yields.pure ?_) fun _ => ?_
  · intro table hended
    rw [← Option.some.inj hended]
    exact h
  · exact Yields.bind (readLibrary_inside descriptor h) fun _ hclaims => Yields.pure hclaims

theorem readImports_inside : Yields (readImports target image) (SlotsInside image) := by
  have hnone : SlotsInside image {} := fun entry hentry => absurd hentry List.not_mem_nil
  refine Yields.ite (fun _ => Yields.pure hnone) fun _ => ?_
  refine Yields.guard fun _ => ?_
  refine Yields.guard fun _ => ?_
  refine Yields.after fun _ => ?_
  refine Yields.after fun descriptors => ?_
  refine Yields.bind (Yields.countdown
    (I := fun _ (state : ℕ × Claims) => SlotsInside image state.2.table)
    (R := fun ended => ∀ table, ended = some table → SlotsInside image table)
    (fun _ _ hstate => descriptorRound_inside descriptors hstate)
    (fun _ _ _ hended => by cases hended) _ _ hnone) fun ended hended => ?_
  cases ended with
  | none => exact Yields.fail _
  | some table => exact Yields.pure (hended table rfl)

theorem Inside.slot {address len index pointer : ℕ} (h : Inside image address len)
    (hpointer : 0 < pointer) (hindex : index < len / pointer) :
    Inside image (address + index * pointer) pointer := by
  have hnext : (index + 1) * pointer ≤ len :=
    (Nat.mul_le_mul_right _ hindex).trans (Nat.div_mul_le_self _ _)
  rw [Nat.add_mul, Nat.one_mul] at hnext
  obtain ⟨hbase, -, hstop, hword⟩ := h
  exact ⟨by omega, by omega, by omega, by omega⟩

theorem readImportAddressTable_inside :
    Yields (readImportAddressTable target image) fun slots =>
      ∀ slot ∈ slots, Inside image slot.slot image.bitness.pointer := by
  refine Yields.ite (fun _ => Yields.pure (by simp)) fun _ => ?_
  refine Yields.guard fun _ => ?_
  refine Yields.guard fun _ => ?_
  refine Yields.guard fun _ => ?_
  refine Yields.bind (Yields.lift fun _ hok => checkedVa_inside hok) fun address haddress => ?_
  refine Yields.bind (Words.readDeclared_length _ _) fun bytes hlength => ?_
  rw [hlength]
  refine Yields.fold (fun slots index hindex hslots => ?_) (by simp)
  refine Yields.after fun value => Yields.pure ?_
  split
  · intro slot hslot
    rcases List.mem_append.mp hslot with hold | hnew
    · exact hslots slot hold
    · rw [List.mem_singleton.mp hnew]
      exact haddress.slot image.bitness.pointer_pos (List.mem_range.mp hindex)
  · exact hslots

theorem executableRanges_inside {range : ℕ × ℕ} (h : range ∈ image.executableRanges) :
    range.1 < range.2 ∧ Inside image range.1 (range.2 - range.1) := by
  unfold Image.executableRanges at h
  obtain ⟨hmem, hlt⟩ := List.mem_filter.mp h
  obtain ⟨s, -, hs⟩ := List.mem_filterMap.mp hmem
  refine ⟨of_decide_eq_true hlt, ?_⟩
  unfold Image.executableRange at hs
  dsimp only at hs
  split at hs
  · next start hstart =>
    rw [← Option.some.inj hs, Nat.add_sub_cancel_left]
    exact checkedVa_inside hstart
  · cases hs

end Reported

/-! ## The spans a reader is asked for -/

section Recorded

variable {W α : Type} {target : Target W} {image : Image}

/-- The reader, writing down every span it is asked for. -/
def Target.recorded (target : Target W) : Target (W × List (ℕ × ℕ)) where
  read address len state :=
    ((target.read address len state.1).1,
      (target.read address len state.1).2, state.2 ++ [(address, len)])
  halt state := ((target.halt state.1).1, (target.halt state.1).2, state.2)

def StaysInside (image : Image) (run : Run Trap (W × List (ℕ × ℕ)) α) (Q : α → Prop) (w : W) :
    Prop :=
  ∀ r w' spans, run (w, []) = (r, w', spans) →
    r ≠ .error .overflow ∧ (∀ span ∈ spans, Inside image span.1 span.2) ∧
      ∀ answer, r = .ok answer → Q answer

theorem recorded_keptInside : KeptInside target.recorded image
    fun state => ∀ span ∈ state.2, Inside image span.1 span.2 where
  read address len state hinside h := by
    intro span hspan
    rcases List.mem_append.mp hspan with hold | hnew
    · exact h span hold
    · rw [List.mem_singleton.mp hnew]
      exact hinside
  halt _ h := h

theorem staysInside_of {m : Run PeError (W × List (ℕ × ℕ)) α}
    {m' : Run Trap (W × List (ℕ × ℕ)) α} {Q : α → Prop}
    (hexact : Words.Exact (fun _ => True) m m')
    (hstays : Stays (fun state => ∀ span ∈ state.2, Inside image span.1 span.2) m)
    (hyields : Yields m Q) (w : W) : StaysInside image m' Q w := by
  intro r w' spans hrun
  have hsame := hexact (w, [])
  have hspans := (hstays (w, []) (by simp)).anyway
  have hends := hyields (w, []) trivial
  rw [hrun] at hsame
  generalize m (w, []) = run at hsame hspans hends
  cases hsame with
  | ok h =>
    refine ⟨by simp, hspans, fun answer hanswer => ?_⟩
    rw [← Except.ok.inj hanswer, ← h.1]
    exact hends
  | error h =>
    refine ⟨?_, hspans, fun answer hanswer => by cases hanswer⟩
    rw [h]
    simp

/-- **The parser never leaves the image.** For every image and every reader, no operation overflows
over machine words, and every span handed to the reader is one of the image's, as is every slot that
is reported and every range of code. -/
theorem parser_stays_inside {bits : ℕ} (hbits : 32 ≤ bits) (target : Target W)
    (hbuffers : Words.Allocated bits target) (image : Image) (rvas : Finset ℕ) (w : W) :
    StaysInside image (Words.readImports bits target.recorded image) (SlotsInside image) w ∧
      StaysInside image (Words.readExportsAt bits target.recorded image rvas) (fun _ => True) w ∧
      StaysInside image (Words.readImportAddressTable bits target.recorded image)
        (fun slots => ∀ slot ∈ slots, Inside image slot.slot image.bitness.pointer) w ∧
      ∃ ranges, Words.executableRanges image w = (.ok ranges, w) ∧
        ∀ range ∈ ranges, range.1 < range.2 ∧ Inside image range.1 (range.2 - range.1) := by
  have hrecorded : Words.Allocated bits target.recorded :=
    fun address len state bytes h => hbuffers address len state.1 bytes h
  refine ⟨?_, ?_, ?_, image.executableRanges, ?_, fun _ => executableRanges_inside⟩
  · exact staysInside_of (Words.readImports_exact hbits hrecorded)
      (readImports_stays recorded_keptInside) readImports_inside w
  · exact staysInside_of (Words.readExportsAt_exact hbits rvas)
      (readExportsAt_stays recorded_keptInside rvas) (Yields.always _) w
  · exact staysInside_of (Words.readImportAddressTable_exact hbits)
      (readImportAddressTable_stays recorded_keptInside) readImportAddressTable_inside w
  · rw [Words.executableRanges_exact]
    rfl

def pageTarget : Target Unit where
  read address len _ := (if len ≤ 0x1000 then some (bytesAt smallContent address len) else none, ())
  halt _ := (false, ())

theorem parser_stays_inside_small :
    ∃ table spans, Words.readImports 64 pageTarget.recorded smallImage ((), []) =
        (.ok table, (), spans) ∧
      spans = [(0x10020, 40), (0x100b0, 0x50), (0x10060, 8), (0x100c2, 0x3e), (0x10068, 8),
        (0x10070, 8)] ∧
      (∀ span ∈ spans, Inside smallImage span.1 span.2) ∧ SlotsInside smallImage table := by
  have hbuffers : Words.Allocated 64 pageTarget := by
    intro address len w bytes hread
    unfold pageTarget at hread
    dsimp only at hread
    split at hread
    · next hlen =>
      rw [← Option.some.inj hread, length_bytesAt]
      exact hlen.trans_lt (by decide)
    · cases hread
  have hread : Words.readImports 64 pageTarget.recorded smallImage ((), []) =
      (.ok ⟨[⟨"a.sys", .named "Go", 0x100a0⟩, ⟨"a.sys", .ordinal 7, 0x100a8⟩], []⟩, (),
        [(0x10020, 40), (0x100b0, 0x50), (0x10060, 8), (0x100c2, 0x3e), (0x10068, 8),
          (0x10070, 8)]) := by
    rfl
  have hstays := (parser_stays_inside (by decide) pageTarget hbuffers smallImage ∅ ()).1
  obtain ⟨-, hspans, hslots⟩ := hstays _ _ _ hread
  exact ⟨_, _, hread, rfl, hspans, hslots _ rfl⟩

end Recorded

end DbgScope.Pe
