import DbgScope.Object.Namespace
import DbgScope.Tiling

/-!
# Looking objects up in partial memory

What a directory holds is stated over the content of the target: the chains of its buckets, the
name in front of a header, the type its index selects. The memory answers a read with the true
bytes or with nothing. A listing of a well-formed directory then shows entries as they are, and all
of them where nothing was skipped; an entry matches a component exactly where it has that name.
-/

namespace DbgScope.Object

open Run

namespace Namespace

variable {W : Type}

/-! ## The namespace a target holds -/

section Held

variable (ns : Namespace W) (content : ℕ → UInt8)

def pointerIn (address : ℕ) : ℕ := fromLe (bytesAt content address ns.layout.pointer)

def byteIn (address : ℕ) : ℕ := (content address).toNat

def halfIn (address : ℕ) : ℕ := fromLe (bytesAt content address 2)

/-- The units of a counted string, where it is one: within its maximum and the bound, a whole
number of units, and with a buffer unless it is empty. -/
def stringIn (address bound : ℕ) : Option (List ℕ) :=
  let length := halfIn content (address + ns.layout.unicodeLength)
  let maximum := halfIn content (address + (ns.layout.unicodeLength + 2))
  let buffer := ns.pointerIn content (wrappingAdd address ns.layout.unicodeBuffer)
  if maximum < length then none
  else if length = 0 then some []
  else if buffer = 0 ∨ length % 2 ≠ 0 ∨ bound < length then none
  else some (unitsOf (bytesAt content buffer length))

def nameIn (body : ℕ) : Option (Option (List ℕ)) :=
  let header := ns.headerOf body
  let mask := byteIn content (wrappingAdd header ns.layout.headerInfoMask)
  if mask &&& infoMaskName = 0 then some none
  else
    let index := mask &&& (infoMaskName ||| (infoMaskName - 1))
    let distance := byteIn content (wrappingAdd (ns.globals.infoMaskToOffset.getD 0) index)
    if distance < ns.layout.nameInfoSize then none
    else
      (ns.stringIn content (wrappingAdd (wrappingSub header distance) ns.layout.nameInfoName)
        maxNameBytes).map some

def securityIn (body : ℕ) : Option ℕ :=
  let field := ns.pointerIn content (wrappingAdd (ns.headerOf body) ns.layout.headerSecurity)
  let descriptor := field &&& complement (2 * ns.layout.pointer - 1)
  if descriptor = 0 then none else some descriptor

def typeThroughIn (body cookie table : ℕ) : Option String :=
  let header := ns.headerOf body
  let raw := byteIn content (wrappingAdd header ns.layout.headerTypeIndex)
  let index := raw ^^^ byteIn content cookie ^^^ (header / 2 ^ 8 % 2 ^ 8)
  let entry := ns.pointerIn content (wrappingAdd table (index * ns.layout.pointer))
  if entry = 0 then none
  else
    (ns.stringIn content (wrappingAdd entry ns.layout.typeName) maxNameBytes).bind fun units =>
      if Utf16.render units = "" then none else some (Utf16.render units)

def typeIn (body : ℕ) : Option String :=
  match ns.globals.headerCookie, ns.globals.typeIndexTable with
  | some cookie, some table => ns.typeThroughIn content body cookie table
  | _, _ => none

def Chain : ℕ → List ℕ → Prop
  | entry, [] => entry = 0
  | entry, link :: links =>
    entry = link ∧ link ≠ 0 ∧
      Chain (ns.pointerIn content (wrappingAdd link ns.layout.entryChain)) links

def bodiesOf (links : List ℕ) : List ℕ :=
  (links.map fun link => ns.pointerIn content (wrappingAdd link ns.layout.entryObject)).filter
    (· ≠ 0)

def hasName (body : ℕ) : Bool := (ns.nameIn content body).join.isSome

/-- An object's name is `component`, up to the target's fold. -/
def HasName (body : ℕ) (component : String) : Prop :=
  ∃ units, ns.nameIn content body = some (some units) ∧
    ns.upcase.Same content units (Utf16.encode component)

def Differ (a b : ℕ) : Prop :=
  ∀ units units', ns.nameIn content a = some (some units) →
    ns.nameIn content b = some (some units') → ¬ns.upcase.Same content units units'

/-- A well-formed directory and the bodies filed in it: its chains end and are not too long, the
names of its entries are names, and no two of them are the same. -/
structure IsDirectory (directory : ℕ) (bodies : List ℕ) : Prop where
  chains : ∃ links : ℕ → List ℕ,
    (∀ bucket < ns.layout.buckets,
      ns.Chain content (ns.pointerIn content (ns.bucketAddress directory bucket)) (links bucket)) ∧
    ((List.range ns.layout.buckets).flatMap links).length ≤ maxEntries ∧
    bodies = ns.bodiesOf content ((List.range ns.layout.buckets).flatMap links)
  names : ∀ body ∈ bodies, ns.nameIn content body ≠ none
  unique : bodies.Pairwise (ns.Differ content)

/-! ## What a memory may answer -/

/-- A read is answered with the true bytes, or not at all. -/
def Faithful : Prop :=
  ∀ address len w bytes, (ns.memory address len w).1 = some bytes →
    bytes = bytesAt content address len

def Unhalted : Prop := ∀ halt, ns.halt = some halt → ∀ w, (halt w).1 = false

/-- Every read is answered, and every global is resolved. -/
structure Full : Prop where
  read : ∀ address len w, ((ns.memory address len w).1).isSome
  root : ns.globals.root.isSome
  infoMaskToOffset : ns.globals.infoMaskToOffset.isSome
  headerCookie : ns.globals.headerCookie.isSome
  typeIndexTable : ns.globals.typeIndexTable.isSome

def Excused (error : Option ObjectError) : Prop :=
  ¬ns.Full ∧ ((∃ address len, error = some (.unreadable address len)) ∨
    ∃ what, error = some (.unavailable what))

/-- What a computation tells is so, and it fails only where something is missing. -/
def Tells {α : Type} (m : Walk W α) (Q : α → Prop) : Prop :=
  Triple (ns.upcase.Remembers content) m (fun a w => ns.upcase.Remembers content w ∧ Q a)
    (fun error w => ns.upcase.Remembers content w ∧ ns.Excused error)

/-- An object is shown as it is, but for a type that could not be read. -/
structure Shows (body : ℕ) (object : KernelObject) : Prop where
  address : object.address = body
  name : ∃ units, ns.nameIn content body = some (some units) ∧
    (object.name, object.exactName) = utf16 units
  security : object.securityDescriptor = ns.securityIn content body
  type : object.typeName = ns.typeIn content body ∨ object.typeName = none ∧ ¬ns.Full

end Held

/-! ## Reads -/

section Reads

variable {ns : Namespace W} {content : ℕ → UInt8}

theorem Tells.pure {α : Type} {Q : α → Prop} {a : α} (h : Q a) :
    ns.Tells content (Pure.pure a) Q := Triple.pure fun _ hw => ⟨hw, h⟩

theorem Tells.bind {α β : Type} {m : Walk W α} {f : α → Walk W β} {Q : α → Prop} {R : β → Prop}
    (hm : ns.Tells content m Q) (hf : ∀ a, Q a → ns.Tells content (f a) R) :
    ns.Tells content (m >>= f) R := Triple.bind hm fun a => Triple.pull (hf a)

theorem read_tells (h : ns.Faithful content) (address len : ℕ) :
    ns.Tells content (ns.read address len) (· = bytesAt content address len) := by
  intro w hw
  unfold Namespace.read
  have hcall : (callRead ns.memory address len : Walk W _) w =
      (.ok (ns.memory address len w.target).1,
        { w with target := (ns.memory address len w.target).2 }) := rfl
  rw [bind_of_ok hcall]
  cases hread : (ns.memory address len w.target).1 with
  | none =>
    refine ⟨hw, fun hfull => ?_, .inl ⟨address, len, rfl⟩⟩
    have hsome := hfull.read address len w.target
    rw [hread] at hsome
    cases hsome
  | some bytes =>
    have hbytes := h address len w.target bytes hread
    rw [hbytes]
    dsimp only
    rw [length_bytesAt, if_pos (le_refl len)]
    exact ⟨hw, rfl⟩

theorem readByte_tells (h : ns.Faithful content) (address : ℕ) :
    ns.Tells content (ns.readByte address) (· = byteIn content address) := by
  refine Tells.bind (read_tells h address 1) ?_
  rintro _ rfl
  exact Tells.pure rfl

theorem layout_checked (ns : Namespace W) :
    (ns.layout.pointer = 4 ∨ ns.layout.pointer = 8) ∧
      ns.layout.unicodeLength + 4 ≤ ns.layout.unicodeBuffer + ns.layout.pointer := by
  have h := ns.checked
  unfold Layout.check at h
  dsimp only at h
  split at h
  · cases h
  split at h
  · cases h
  split at h
  · cases h
  split at h
  · cases h
  constructor <;> omega

theorem pointerAt_tells (h : ns.Faithful content) (address : ℕ) :
    ns.Tells content (ns.pointerAt address) (· = ns.pointerIn content address) := by
  refine Tells.bind (read_tells h address _) ?_
  rintro _ rfl
  rw [if_pos ns.layout_checked.1]
  refine Tells.pure ?_
  rw [List.take_of_length_le (by simp)]
  rfl

theorem stopped_tells (h : ns.Unhalted) : ns.Tells content ns.stopped (· = false) := by
  intro w hw
  unfold stopped
  cases hhalt : ns.halt with
  | none => exact ⟨hw, rfl⟩
  | some halt => exact ⟨hw, h halt hhalt w.target⟩

theorem fieldAt_tells {address size offset : ℕ} (h : offset + 2 ≤ size) :
    ns.Tells content (fieldAt (bytesAt content address size) offset)
      (· = halfIn content (address + offset)) := by
  unfold fieldAt firstChunk
  rw [if_pos (by simp; omega), take_drop_bytesAt h]
  exact Tells.pure rfl

end Reads

/-! ## An object -/

section Objects

variable {ns : Namespace W} {content : ℕ → UInt8}

theorem unicodeAt_spec (h : ns.Faithful content) (address bound : ℕ) (what : String) :
    Triple (ns.upcase.Remembers content) (ns.unicodeAt address bound what)
      (fun r w => ns.upcase.Remembers content w ∧
        ∃ units, ns.stringIn content address bound = some units ∧ r = utf16 units)
      (fun error w => ns.upcase.Remembers content w ∧
        (ns.Excused error ∨ ns.stringIn content address bound = none ∧ error ≠ none)) := by
  have hlengths := ns.layout_checked.2
  have hexcused {α : Type} {m : Walk W α} {Q : α → Prop} (hm : ns.Tells content m Q) :
      Triple (ns.upcase.Remembers content) m (fun a w => ns.upcase.Remembers content w ∧ Q a)
        (fun error w => ns.upcase.Remembers content w ∧
          (ns.Excused error ∨ ns.stringIn content address bound = none ∧ error ≠ none)) :=
    Triple.imp hm (fun _ hw => hw) (fun _ _ hw => hw) fun _ _ hw => ⟨hw.1, .inl hw.2⟩
  have hrefused {reason : ObjectError} {Q : String × Bool → World W → Prop}
      (hnone : ns.stringIn content address bound = none) :
      Triple (ns.upcase.Remembers content) (Run.fail (some reason) : Walk W (String × Bool)) Q
        (fun error w => ns.upcase.Remembers content w ∧
          (ns.Excused error ∨ ns.stringIn content address bound = none ∧ error ≠ none)) :=
    Triple.fail fun _ hw => ⟨hw, .inr ⟨hnone, by simp⟩⟩
  refine Triple.bind (hexcused (read_tells h _ _)) fun bytes => Triple.pull ?_
  rintro rfl
  refine Triple.bind (hexcused (fieldAt_tells (by omega))) fun length => Triple.pull ?_
  intro hlength
  refine Triple.bind (hexcused (fieldAt_tells (by omega))) fun maximum => Triple.pull ?_
  intro hmaximum
  refine Triple.ite (fun hlong => hrefused ?_) fun hwithin => ?_
  · unfold stringIn
    rw [← hlength, ← hmaximum]
    exact if_pos hlong
  refine Triple.bind (hexcused (pointerAt_tells h _)) fun buffer => Triple.pull ?_
  intro hbuffer
  have hstring : ns.stringIn content address bound =
      if length = 0 then some []
      else if buffer = 0 ∨ length % 2 ≠ 0 ∨ bound < length then none
      else some (unitsOf (bytesAt content buffer length)) := by
    unfold stringIn
    rw [← hlength, ← hmaximum, ← hbuffer]
    exact if_neg hwithin
  refine Triple.ite (fun hempty => ?_) fun hne => ?_
  · refine Triple.pure fun w hw => ⟨hw, [], ?_, rfl⟩
    rw [hstring, if_pos hempty]
  rw [if_neg hne] at hstring
  refine Triple.ite (fun hnull => hrefused ?_) fun hsome => ?_
  · rw [hstring, if_pos (.inl hnull)]
  refine Triple.ite (fun hodd => hrefused ?_) fun heven => ?_
  · rw [hstring, if_pos (.inr (.inl hodd))]
  refine Triple.ite (fun hlong => hrefused ?_) fun hshort => ?_
  · rw [hstring, if_pos (.inr (.inr hlong))]
  rw [if_neg (by rw [not_or, not_or]; exact ⟨hsome, heven, hshort⟩)] at hstring
  refine Triple.bind (hexcused (read_tells h _ _)) fun raw => Triple.pull ?_
  rintro rfl
  refine Triple.pure fun w hw => ⟨hw, _, hstring, ?_⟩
  rw [List.take_of_length_le (by simp)]

theorem needs_tells {global : Option ℕ} {what : String} (h : ns.Full → global.isSome) :
    ns.Tells content (needs global what) (fun address => global = some address) := by
  cases global with
  | some address => exact Tells.pure rfl
  | none =>
    refine Triple.fail fun w hw => ⟨hw, fun hfull => ?_, .inr ⟨what, rfl⟩⟩
    cases h hfull

theorem nameOf_tells (h : ns.Faithful content) {body : ℕ}
    (hbody : ns.nameIn content body ≠ none) :
    ns.Tells content (ns.nameOf body) fun name =>
      ∃ units, ns.nameIn content body = some units ∧ name = units.map utf16 := by
  refine Tells.bind (readByte_tells h _) ?_
  rintro _ rfl
  unfold nameIn at hbody ⊢
  refine Triple.ite (fun hmask => ?_) fun hmask => ?_
  · rw [if_pos hmask]
    exact Tells.pure ⟨none, rfl, rfl⟩
  rw [if_neg hmask] at hbody ⊢
  refine Tells.bind (needs_tells fun hfull => hfull.infoMaskToOffset) fun offsets hoffsets => ?_
  rw [hoffsets, Option.getD_some] at hbody ⊢
  refine Tells.bind (readByte_tells h _) ?_
  rintro _ rfl
  refine Triple.ite (fun hshort => ?_) fun hshort => ?_
  · exact absurd (if_pos hshort) hbody
  rw [if_neg hshort] at hbody ⊢
  have hunicode : ns.Tells content (ns.unicodeAt _ maxNameBytes "an object name") _ :=
    Triple.imp (unicodeAt_spec h _ _ _) (fun _ hw => hw) (fun _ _ hw => hw)
      fun error w hw => ⟨hw.1, hw.2.resolve_right fun hnone => hbody (by rw [hnone.1]; rfl)⟩
  refine Tells.bind hunicode ?_
  rintro _ ⟨units, hunits, rfl⟩
  exact Tells.pure ⟨some units, by rw [hunits]; rfl, rfl⟩

theorem securityOf_tells (h : ns.Faithful content) (body : ℕ) :
    ns.Tells content (ns.securityOf body) (· = ns.securityIn content body) := by
  refine Tells.bind (pointerAt_tells h _) ?_
  rintro _ rfl
  exact Tells.pure rfl

theorem typeThrough_spec (h : ns.Faithful content) (body cookie table : ℕ) :
    Triple (ns.upcase.Remembers content) (ns.typeThrough body cookie table)
      (fun typeName w => ns.upcase.Remembers content w ∧
        typeName = ns.typeThroughIn content body cookie table)
      (fun _ w => ns.upcase.Remembers content w ∧
        (¬ns.Full ∨ ns.typeThroughIn content body cookie table = none)) := by
  have hexcused {α : Type} {m : Walk W α} {Q : α → Prop} (hm : ns.Tells content m Q) :
      Triple (ns.upcase.Remembers content) m (fun a w => ns.upcase.Remembers content w ∧ Q a)
        (fun _ w => ns.upcase.Remembers content w ∧
          (¬ns.Full ∨ ns.typeThroughIn content body cookie table = none)) :=
    Triple.imp hm (fun _ hw => hw) (fun _ _ hw => hw) fun _ _ hw => ⟨hw.1, .inl hw.2.1⟩
  refine Triple.bind (hexcused (readByte_tells h _)) fun _ => Triple.pull ?_
  rintro rfl
  refine Triple.bind (hexcused (readByte_tells h _)) fun _ => Triple.pull ?_
  rintro rfl
  refine Triple.bind (hexcused (pointerAt_tells h _)) fun entry => Triple.pull ?_
  intro hentry
  have htype : ns.typeThroughIn content body cookie table = if entry = 0 then none
      else (ns.stringIn content (wrappingAdd entry ns.layout.typeName) maxNameBytes).bind
        fun units => if Utf16.render units = "" then none else some (Utf16.render units) := by
    rw [hentry]
    rfl
  refine Triple.ite (fun hnull => ?_) fun hne => ?_
  · refine Triple.pure fun w hw => ⟨hw, ?_⟩
    rw [htype, if_pos hnull]
  rw [if_neg hne] at htype
  refine Triple.bind (Triple.imp (unicodeAt_spec h _ _ _) (fun _ hw => hw) (fun _ _ hw => hw)
    fun _ _ hw => ⟨hw.1, hw.2.imp (·.1) fun hnone => ?_⟩) fun name => Triple.pull ?_
  · rw [htype, hnone.1]
    rfl
  · rintro ⟨units, hunits, rfl⟩
    refine Triple.pure fun w hw => ⟨hw, ?_⟩
    rw [htype, hunits]
    rfl

theorem typeOf_spec (h : ns.Faithful content) (body : ℕ)
    {E : Option ObjectError → World W → Prop} :
    Triple (ns.upcase.Remembers content) (ns.typeOf body)
      (fun typeName w => ns.upcase.Remembers content w ∧
        (typeName = ns.typeIn content body ∨ typeName = none ∧ ¬ns.Full)) E := by
  unfold typeOf typeIn
  cases ns.globals.headerCookie with
  | none => exact Triple.pure fun w hw => ⟨hw, .inl rfl⟩
  | some cookie =>
    cases ns.globals.typeIndexTable with
    | none => exact Triple.pure fun w hw => ⟨hw, .inl rfl⟩
    | some table =>
      refine Triple.bind (Q := fun r w => ns.upcase.Remembers content w ∧
        (∀ typeName, r = .ok typeName → typeName = ns.typeThroughIn content body cookie table) ∧
          ∀ error, r = .error error →
            ¬ns.Full ∨ ns.typeThroughIn content body cookie table = none)
        (Triple.attempt ?_) fun r => ?_
      · refine (typeThrough_spec h body cookie table).imp (fun _ hw => hw) (fun typeName _ hw => ?_)
          fun error _ hw => ?_
        · exact ⟨hw.1, fun _ h => Except.ok.inj h ▸ hw.2, fun _ h => by cases h⟩
        · exact ⟨hw.1, (fun _ h => by cases h), fun _ _ => hw.2⟩
      cases r with
      | ok typeName => exact Triple.pure fun w hw => ⟨hw.1, .inl (hw.2.1 typeName rfl)⟩
      | error error =>
        refine Triple.pure fun w hw => ⟨hw.1, ?_⟩
        rcases hw.2.2 error rfl with hpart | hnone
        · exact .inr ⟨rfl, hpart⟩
        · exact .inl hnone.symm

end Objects

/-! ## A directory -/

section Directories

variable {ns : Namespace W} {content : ℕ → UInt8}

/-- What is left of a chain adds up to what the whole of it gives. -/
def Following (ns : Namespace W) (content : ℕ → UInt8) (whole : Gathered) (rounds : ℕ)
    (state : ℕ × Gathered) : Prop :=
  ∃ links, ns.Chain content state.1 links ∧ links.length < rounds ∧
    whole.followed ≤ maxEntries ∧ whole = ⟨state.2.bodies ++ ns.bodiesOf content links,
      state.2.followed + links.length, state.2.halted⟩

theorem bodiesOf_cons (link : ℕ) (links : List ℕ) :
    ns.bodiesOf content (link :: links) =
      (if ns.pointerIn content (wrappingAdd link ns.layout.entryObject) = 0 then []
        else [ns.pointerIn content (wrappingAdd link ns.layout.entryObject)]) ++
        ns.bodiesOf content links := by
  unfold bodiesOf
  rw [List.map_cons, List.filter_cons]
  split <;> simp_all

theorem bodiesOf_append (links links' : List ℕ) :
    ns.bodiesOf content (links ++ links') =
      ns.bodiesOf content links ++ ns.bodiesOf content links' := by
  simp [bodiesOf]

theorem chainRound_tells (h : ns.Faithful content) (hhalt : ns.Unhalted) {whole : Gathered}
    {rounds : ℕ} {state : ℕ × Gathered} (hstate : Following ns content whole (rounds + 1) state) :
    ns.Tells content (ns.chainRound state)
      (Flow.Holds (Following ns content whole rounds) (· = some whole)) := by
  obtain ⟨links, hchain, hlength, hbound, rfl⟩ := hstate
  unfold chainRound
  cases links with
  | nil =>
    have hzero : state.1 = 0 := hchain
    rw [if_pos hzero]
    refine Tells.pure ?_
    simp [Flow.Holds, bodiesOf]
  | cons link links =>
    obtain ⟨hlink, hne, hchain⟩ := hchain
    rw [if_neg (by rw [hlink]; exact hne)]
    refine Tells.bind (stopped_tells hhalt) ?_
    rintro _ rfl
    rw [if_neg Bool.false_ne_true]
    rw [List.length_cons] at hlength hbound
    rw [if_neg (by dsimp only at hbound; omega)]
    refine Tells.bind (pointerAt_tells h _) ?_
    rintro _ rfl
    refine Tells.bind (pointerAt_tells h _) ?_
    rintro _ rfl
    refine Tells.pure ⟨links, hlink ▸ hchain, by omega, by simpa using hbound, ?_⟩
    rw [bodiesOf_cons, hlink, List.length_cons, Nat.add_comm links.length, ← Nat.add_assoc]
    split <;> simp

theorem followChain_tells (h : ns.Faithful content) (hhalt : ns.Unhalted) {entry : ℕ}
    {gathered : Gathered} {links : List ℕ} (hchain : ns.Chain content entry links)
    (hbound : gathered.followed + links.length ≤ maxEntries) :
    ns.Tells content (ns.followChain entry gathered)
      (· = ⟨gathered.bodies ++ ns.bodiesOf content links, gathered.followed + links.length,
        gathered.halted⟩) := by
  set whole : Gathered := ⟨gathered.bodies ++ ns.bodiesOf content links,
    gathered.followed + links.length, gathered.halted⟩ with hwhole
  have hstart : Following ns content whole (maxEntries + 2) (entry, gathered) :=
    ⟨links, hchain, by omega, hbound, rfl⟩
  have hloop : ns.Tells content (Run.loop ns.chainRound (fun _ => none) (maxEntries + 2)
      (entry, gathered)) (· = some whole) := by
    refine Triple.pre (Triple.countdown
      (I := fun rounds state w => ns.upcase.Remembers content w ∧
        Following ns content whole rounds state)
      (fun rounds state => Triple.pull fun hstate => ?_) ?_ _ _) fun w hw => ⟨hw, hstart⟩
    · refine Triple.post (chainRound_tells h hhalt hstate) fun flow w hw => ?_
      cases flow <;> exact hw
    · rintro state w ⟨-, links, -, hlt, -⟩
      omega
  refine Tells.bind hloop ?_
  rintro _ rfl
  exact Tells.pure rfl

theorem entriesOf_tells (h : ns.Faithful content) (hhalt : ns.Unhalted) {directory : ℕ}
    {bodies : List ℕ} (hdirectory : ns.IsDirectory content directory bodies) :
    ns.Tells content (ns.entriesOf directory) fun gathered =>
      gathered.bodies = bodies ∧ gathered.halted = false := by
  obtain ⟨links, hchains, hbound, rfl⟩ := hdirectory.chains
  refine Triple.imp (Triple.fold_through
    (I := fun gone gathered w => ns.upcase.Remembers content w ∧
      gathered = ⟨ns.bodiesOf content (gone.flatMap links), (gone.flatMap links).length, false⟩)
    (fun gone bucket rest gathered hrange => Triple.pull ?_) _)
    (fun w hw => ⟨hw, rfl⟩) (fun gathered w hw => ⟨hw.1, by rw [hw.2]; exact ⟨rfl, rfl⟩⟩)
    (fun _ _ hw => hw)
  rintro rfl
  have hmem : bucket ∈ List.range ns.layout.buckets := by
    rw [hrange]
    simp
  have htotal : (gone.flatMap links).length + (links bucket).length ≤ maxEntries := by
    rw [hrange] at hbound
    simp only [List.flatMap_append, List.flatMap_cons, List.length_append] at hbound
    omega
  unfold bucketRound
  rw [if_neg Bool.false_ne_true]
  refine Tells.bind (stopped_tells hhalt) ?_
  rintro _ rfl
  rw [if_neg Bool.false_ne_true]
  refine Tells.bind (pointerAt_tells h _) ?_
  rintro _ rfl
  refine Triple.post (followChain_tells h hhalt (hchains bucket (List.mem_range.mp hmem)) htotal)
    fun _ w hw => ⟨hw.1, ?_⟩
  rw [hw.2]
  simp [bodiesOf_append]

end Directories

/-! ## A directory, named -/

section Listings

variable {ns : Namespace W} {content : ℕ → UInt8}

/-- What a listing shows of the bodies gone through: some of those that have a name, in order, and
all of them where nothing was skipped. Nothing is skipped where nothing is missing. -/
structure Shown (ns : Namespace W) (content : ℕ → UInt8) (gone : List ℕ) (listing : Listing) :
    Prop where
  halted : listing.halted = false
  objects : ∃ shown, List.Forall₂ (ns.Shows content) shown listing.objects ∧
    shown.Sublist (gone.filter (ns.hasName content)) ∧
    (listing.unreadable + listing.malformed = 0 → shown = gone.filter (ns.hasName content))
  full : ns.Full → listing.unreadable + listing.malformed = 0

theorem Shown.nil : Shown ns content [] {} where
  halted := rfl
  objects := ⟨[], .nil, .slnil, fun _ => rfl⟩
  full _ := rfl

theorem Shown.unnamed {gone : List ℕ} {listing : Listing} {body : ℕ}
    (h : Shown ns content gone listing) (hbody : ns.hasName content body = false) :
    Shown ns content (gone ++ [body]) listing := by
  have hfilter : (gone ++ [body]).filter (ns.hasName content) =
      gone.filter (ns.hasName content) := by
    simp [List.filter_append, hbody]
  exact ⟨h.halted, by rw [hfilter]; exact h.objects, h.full⟩

theorem Shown.counted {gone : List ℕ} {listing listing' : Listing} {body : ℕ}
    (h : Shown ns content gone listing) (hpart : ¬ns.Full)
    (hobjects : listing'.objects = listing.objects) (hhalted : listing'.halted = listing.halted)
    (hskipped : listing'.unreadable + listing'.malformed ≠ 0) :
    Shown ns content (gone ++ [body]) listing' := by
  obtain ⟨halted, ⟨shown, hshows, hsub, -⟩, -⟩ := h
  refine ⟨hhalted.trans halted, ⟨shown, hobjects ▸ hshows, ?_, fun hzero => absurd hzero hskipped⟩,
    fun hfull => absurd hfull hpart⟩
  rw [List.filter_append]
  exact hsub.trans (List.sublist_append_left _ _)

theorem Shown.shown {gone : List ℕ} {listing : Listing} {body : ℕ} {object : KernelObject}
    (h : Shown ns content gone listing) (hobject : ns.Shows content body object) :
    Shown ns content (gone ++ [body])
      { listing with objects := listing.objects ++ [object] } := by
  obtain ⟨halted, ⟨shown, hshows, hsub, hall⟩, hfull⟩ := h
  have hbody : ns.hasName content body = true := by
    obtain ⟨units, hunits, -⟩ := hobject.name
    simp [hasName, hunits]
  have hfilter : (gone ++ [body]).filter (ns.hasName content) =
      gone.filter (ns.hasName content) ++ [body] := by
    simp [List.filter_append, hbody]
  refine ⟨halted, ⟨shown ++ [body], ?_, ?_, fun hzero => ?_⟩, hfull⟩
  · exact List.rel_append hshows (.cons hobject .nil)
  · rw [hfilter]
    exact hsub.append_right [body]
  · rw [hfilter, hall hzero]

theorem counting_shown {gone : List ℕ} {listing : Listing} {body : ℕ}
    {error : Option ObjectError} (h : Shown ns content gone listing)
    (herror : ns.Excused error) :
    ns.Tells content (counting listing error) (Shown ns content (gone ++ [body])) := by
  obtain ⟨hpart, ⟨address, len, rfl⟩ | ⟨what, rfl⟩⟩ := herror
  · refine Tells.pure (h.counted hpart rfl rfl ?_)
    dsimp only
    omega
  · exact Triple.fail fun w hw => ⟨hw, hpart, .inr ⟨what, rfl⟩⟩

theorem attempt_tells {α β : Type} {m : Walk W α} {f : Except (Option ObjectError) α → Walk W β}
    {Q : α → Prop} {R : β → Prop} (hm : ns.Tells content m Q)
    (hok : ∀ a, Q a → ns.Tells content (f (.ok a)) R)
    (herror : ∀ error, ns.Excused error → ns.Tells content (f (.error error)) R) :
    ns.Tells content (Run.attempt m >>= f) R := by
  refine Triple.bind (Q := fun r w => ns.upcase.Remembers content w ∧ match r with
    | .ok a => Q a
    | .error error => ns.Excused error)
    (Triple.attempt (Triple.imp hm (fun _ h => h) (fun _ _ h => h) fun _ _ h => h)) fun r => ?_
  cases r with
  | ok a => exact Triple.pull (hok a)
  | error error => exact Triple.pull (herror error)

theorem entryRound_tells (h : ns.Faithful content) (hhalt : ns.Unhalted) {gone : List ℕ}
    {listing : Listing} {body : ℕ} (hlisting : Shown ns content gone listing)
    (hbody : ns.nameIn content body ≠ none) :
    ns.Tells content (ns.entryRound listing body) (Shown ns content (gone ++ [body])) := by
  unfold entryRound
  rw [if_neg (by simp [hlisting.halted])]
  refine Tells.bind (stopped_tells hhalt) ?_
  rintro _ rfl
  rw [if_neg Bool.false_ne_true]
  refine attempt_tells (nameOf_tells h hbody) ?_ fun error => counting_shown hlisting
  rintro name ⟨units, hunits, rfl⟩
  cases units with
  | none => exact Tells.pure (hlisting.unnamed (by simp [hasName, hunits]))
  | some units =>
    refine attempt_tells (securityOf_tells h body) ?_ fun error => counting_shown hlisting
    rintro _ rfl
    refine Triple.bind (typeOf_spec h body) fun typeName => Triple.pull fun htype => ?_
    have hobject : ns.Shows content body ⟨body, Utf16.render units, Utf16.wellFormed units,
        typeName, ns.securityIn content body⟩ := ⟨rfl, ⟨units, hunits, rfl⟩, rfl, htype⟩
    exact Tells.pure (hlisting.shown hobject)

/-- **What a listing shows.** -/
theorem namedIn_tells (h : ns.Faithful content) (hhalt : ns.Unhalted) {directory : ℕ}
    {bodies : List ℕ} (hdirectory : ns.IsDirectory content directory bodies) :
    ns.Tells content (ns.namedIn directory) (Shown ns content bodies) := by
  refine Tells.bind (entriesOf_tells h hhalt hdirectory) ?_
  rintro gathered ⟨rfl, hhalted⟩
  rw [hhalted]
  refine Triple.pre (Triple.fold_through
    (I := fun gone listing w => ns.upcase.Remembers content w ∧ Shown ns content gone listing)
    (fun gone body rest listing hgone => Triple.pull fun hlisting =>
      entryRound_tells h hhalt hlisting (hdirectory.names body (by simp [hgone]))) _)
    fun w hw => ⟨hw, Shown.nil⟩

end Listings

/-! ## Names -/

section Names

variable {ns : Namespace W} {content : ℕ → UInt8}

theorem unitsOf_lt {bytes : List UInt8} : ∀ unit ∈ unitsOf bytes, unit < 2 ^ 16 := by
  fun_induction unitsOf bytes with
  | case1 low high rest ih =>
    intro unit hunit
    rcases List.mem_cons.mp hunit with rfl | hrest
    · exact lt_of_lt_of_eq (fromLe_lt [low, high]) (by norm_num)
    · exact ih unit hrest
  | case2 bytes hbytes =>
    intro unit hunit
    cases hunit

theorem stringIn_lt {address bound : ℕ} {units : List ℕ}
    (h : ns.stringIn content address bound = some units) : ∀ unit ∈ units, unit < 2 ^ 16 := by
  unfold stringIn at h
  dsimp only at h
  split at h
  · cases h
  split at h
  · rw [← Option.some.inj h]
    simp
  split at h
  · cases h
  · rw [← Option.some.inj h]
    exact unitsOf_lt

theorem nameIn_lt {body : ℕ} {units : List ℕ} (h : ns.nameIn content body = some (some units)) :
    ∀ unit ∈ units, unit < 2 ^ 16 := by
  unfold nameIn at h
  dsimp only at h
  split at h
  · cases h
  split at h
  · cases h
  · obtain ⟨units', hunits, heq⟩ := Option.map_eq_some_iff.mp h
    rw [← Option.some.inj heq]
    exact stringIn_lt hunits

def Comparable (ns : Namespace W) (content : ℕ → UInt8) (units : List ℕ) : Prop :=
  ∀ unit ∈ units, ns.upcase.Foldable content unit ∧
    Utf16.isHigh (ns.upcase.targetFold content unit) = Utf16.isHigh unit ∧
    Utf16.isLow (ns.upcase.targetFold content unit) = Utf16.isLow unit

theorem comparable_of_low {units : List ℕ} (h : ∀ unit ∈ units, unit ≤ 0xbf) :
    ns.Comparable content units := by
  intro unit hunit
  have hlow := h unit hunit
  have hfold : ns.upcase.targetFold content unit ≤ 0xbf := by
    unfold Upcase.targetFold
    by_cases hlower : 0x61 ≤ unit ∧ unit ≤ 0x7a
    · rw [if_pos hlower]
      omega
    · rw [if_neg hlower, if_pos hlow]
      exact hlow
  obtain ⟨hhigh, hlow'⟩ := Utf16.not_surrogate_of_lt (u := unit) (by omega)
  obtain ⟨hhigh', hlow''⟩ := Utf16.not_surrogate_of_lt (u := ns.upcase.targetFold content unit)
    (by omega)
  exact ⟨.inl hlow, hhigh'.trans hhigh.symm, hlow''.trans hlow'.symm⟩

theorem comparable_of_table {units : List ℕ} {target : TargetTable}
    (htable : ns.upcase.TableReadable content target)
    (hkeeps : ns.upcase.KeepsSurrogates content) (h : ∀ unit ∈ units, unit < 2 ^ 16) :
    ns.Comparable content units :=
  fun unit hunit => ⟨.inr ⟨h unit hunit, target, htable⟩, hkeeps unit (h unit hunit)⟩

theorem wellFormed_of_same {units units' : List ℕ} (h : ns.Comparable content units)
    (h' : ns.Comparable content units') (hsame : ns.upcase.Same content units units')
    (hformed : Utf16.wellFormed units' = true) : Utf16.wellFormed units = true := by
  rw [← Utf16.wellFormed_map fun u hu => (h u hu).2, hsame,
    Utf16.wellFormed_map fun u hu => (h' u hu).2]
  exact hformed

def Matches (ns : Namespace W) (content : ℕ → UInt8) (component : String)
    (object : KernelObject) : Prop :=
  object.exactName = true ∧
    ns.upcase.Same content (Utf16.encode object.name) (Utf16.encode component)

theorem Shows.encode {body : ℕ} {object : KernelObject} {units : List ℕ}
    (h : ns.Shows content body object) (hunits : ns.nameIn content body = some (some units))
    (hexact : object.exactName = true) : Utf16.encode object.name = units := by
  obtain ⟨units', hunits', hname⟩ := h.name
  rw [hunits, Option.some.injEq, Option.some.injEq] at hunits'
  subst hunits'
  rw [utf16, Prod.mk.injEq] at hname
  rw [hname.1]
  exact Utf16.encode_render (nameIn_lt hunits) (hname.2 ▸ hexact)

/-- **An object shown matches a component exactly where it has that name.** -/
theorem Shows.matches_iff {body : ℕ} {object : KernelObject} {component : String}
    (h : ns.Shows content body object)
    (hname : ∀ units, ns.nameIn content body = some (some units) → ns.Comparable content units)
    (hcomponent : ns.Comparable content (Utf16.encode component)) :
    Matches ns content component object ↔ ns.HasName content body component := by
  obtain ⟨units, hunits, hshown⟩ := h.name
  constructor
  · rintro ⟨hexact, hsame⟩
    rw [h.encode hunits hexact] at hsame
    exact ⟨units, hunits, hsame⟩
  · rintro ⟨units', hunits', hsame⟩
    rw [hunits, Option.some.injEq, Option.some.injEq] at hunits'
    subst hunits'
    have hformed := wellFormed_of_same (hname units hunits) hcomponent hsame
      (Utf16.wellFormed_encode component)
    rw [utf16, Prod.mk.injEq] at hshown
    have hexact : object.exactName = true := hshown.2.trans hformed
    refine ⟨hexact, ?_⟩
    rw [h.encode hunits hexact]
    exact hsame

theorem findNamed_spec {component : String} {objects : List KernelObject}
    {E : Option ObjectError → World W → Prop}
    (hobjects : ∀ object ∈ objects, object.exactName = true →
      ns.Comparable content (Utf16.encode object.name))
    (hcomponent : ns.Comparable content (Utf16.encode component)) :
    Triple (ns.upcase.Remembers content) (ns.findNamed component objects)
      (fun found w => ns.upcase.Remembers content w ∧
        (found = none ∧ (∀ object ∈ objects, ¬Matches ns content component object) ∨
          ∃ object ∈ objects, found = some object ∧ Matches ns content component object)) E := by
  induction objects with
  | nil => exact Triple.pure fun w hw => ⟨hw, .inl ⟨rfl, by simp⟩⟩
  | cons object objects ih =>
    have hrest := ih fun other hother => hobjects other (by simp [hother])
    have hskip (hnot : ¬Matches ns content component object) :
        Triple (ns.upcase.Remembers content) (ns.findNamed component objects)
          (fun found w => ns.upcase.Remembers content w ∧
            (found = none ∧ (∀ other ∈ object :: objects, ¬Matches ns content component other) ∨
              ∃ other ∈ object :: objects, found = some other ∧
                Matches ns content component other)) E := by
      refine Triple.post hrest fun found w hw => ⟨hw.1, ?_⟩
      rcases hw.2 with ⟨hnone, hall⟩ | ⟨other, hmem, hfound⟩
      · exact .inl ⟨hnone, by simpa using ⟨hnot, hall⟩⟩
      · exact .inr ⟨other, by simp [hmem], hfound⟩
    refine Triple.ite (fun hexact => ?_) fun hexact => hskip fun hmatch => hexact hmatch.1
    refine Triple.bind (Upcase.sameName_target
      (fun u hu => (hobjects object (by simp) hexact u hu).1) fun u hu => (hcomponent u hu).1)
      fun same => Triple.pull fun hsame => ?_
    refine Triple.ite (fun htrue => ?_) fun hfalse => hskip fun hmatch =>
      hfalse (hsame.mpr hmatch.2)
    exact Triple.pure fun w hw =>
      ⟨hw, .inr ⟨object, by simp, rfl, hexact, hsame.mp htrue⟩⟩

end Names

end Namespace

end DbgScope.Object
