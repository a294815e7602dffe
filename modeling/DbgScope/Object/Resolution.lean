import DbgScope.Object.Paths
import DbgScope.Object.Stopping

/-!
# Object lookup is sound and complete

The results about lookups put together, for namespaces whose names can be folded as the target
folds them, and a namespace deeper than a path can spell.
-/

namespace DbgScope.Object

open Run

namespace Namespace

section Results

variable {W : Type}

def NamesFold (ns : Namespace W) (content : ℕ → UInt8) (directories : Set ℕ)
    (holds : ℕ → List ℕ) (components : List String) : Prop :=
  (∃ target, ns.upcase.TableReadable content target ∧ ns.upcase.KeepsSurrogates content) ∨
    (∀ directory ∈ directories, ∀ body ∈ holds directory, ∀ units,
      ns.nameIn content body = some (some units) → ∀ unit ∈ units, unit < 0xC0) ∧
    ∀ component ∈ components, ∀ unit ∈ Utf16.encode component, unit < 0xC0

theorem NamesFold.comparable {ns : Namespace W} {content : ℕ → UInt8} {directories : Set ℕ}
    {holds : ℕ → List ℕ} {components : List String}
    (h : ns.NamesFold content directories holds components) :
    AllComparable ns content directories holds ∧
      ∀ component ∈ components, ns.Comparable content (Utf16.encode component) := by
  rcases h with ⟨target, htable, hkeeps⟩ | ⟨hnames, hcomponents⟩
  · exact ⟨fun _ _ _ _ _ hunits => comparable_of_table htable hkeeps (nameIn_lt hunits),
      fun component _ => comparable_of_table htable hkeeps (Utf16.encode_lt component)⟩
  · constructor
    · intro directory hdirectory body hbody units hunits
      refine comparable_of_low fun unit hunit => ?_
      have := hnames directory hdirectory body hbody units hunits unit hunit
      omega
    · intro component hcomponent
      refine comparable_of_low fun unit hunit => ?_
      have := hcomponents component hcomponent unit hunit
      omega

/-- What the results about lookups ask of a namespace, the memory it is read through, the state a
walk starts in and a path. -/
structure Premises (ns : Namespace W) (content : ℕ → UInt8) (directories : Set ℕ)
    (holds : ℕ → List ℕ) (w : World W) (path : String) (components : List String) : Prop where
  wellFormed : ns.WellFormed content directories holds
  faithful : ns.Faithful content
  unhalted : ns.Unhalted
  remembers : ns.upcase.Remembers content w
  components_eq : componentsOf path = .ok components
  namesFold : ns.NamesFold content directories holds components

variable {ns : Namespace W} {content : ℕ → UInt8} {directories : Set ℕ} {holds : ℕ → List ℕ}
  {w : World W} {path : String} {components : List String}

theorem objectAt_root (h : componentsOf path = .ok []) :
    (ns.objectAt path w).1 =
      .error (some (.badPath path "it names the root directory rather than an object in it")) := by
  unfold objectAt
  rw [h]
  rfl

variable (h : Premises ns content directories holds w path components)
include h

theorem Premises.components_ne {outcome : Except (Option ObjectError) KernelObject}
    (hrun : (ns.objectAt path w).1 = outcome)
    (hother : ∀ reason, outcome ≠ .error (some (.badPath path reason))) : components ≠ [] := by
  rintro rfl
  exact hother _ (hrun.symm.trans (objectAt_root h.components_eq))

theorem Premises.answers {object : KernelObject} (hok : (ns.objectAt path w).1 = .ok object) :
    Answers ns content holds (ns.rootIn content) components object :=
  ((objectAt_spec h.faithful h.unhalted h.wellFormed h.namesFold.comparable.1 h.components_eq
    (h.components_ne hok nofun) h.namesFold.comparable.2).of_ok h.remembers hok).2

theorem Premises.refusal (hne : components ≠ []) {error : Option ObjectError}
    (herror : (ns.objectAt path w).1 = .error error) :
    Refusal ns content holds (ns.rootIn content) "\\" components error :=
  ((objectAt_spec h.faithful h.unhalted h.wellFormed h.namesFold.comparable.1
    h.components_eq hne h.namesFold.comparable.2).of_error h.remembers herror).2

theorem Premises.filed {object : KernelObject} (hok : (ns.objectAt path w).1 = .ok object) :
    ∃ body, ns.Filed content holds components body ∧ ns.Shows content body object := by
  obtain ⟨earlier, last, directory, body, hsplit, hleads, hbody, hname, hshows⟩ := h.answers hok
  exact ⟨body, ⟨earlier, last, directory, hsplit, hleads, hbody, hname⟩, hshows⟩

theorem Premises.not_found {directory component : String}
    (herror : (ns.objectAt path w).1 = .error (some (.notFound directory component))) :
    ∃ earlier rest last, components = earlier ++ component :: rest ∧
      directory = earlier.foldl deeper "\\" ∧
      ns.Leads content holds (ns.rootIn content) earlier last ∧
      ∀ body ∈ holds last, ¬ns.HasName content body component := by
  cases h.refusal (h.components_ne herror nofun) herror with
  | excused hexcused => obtain ⟨-, ⟨_, _, heq⟩ | ⟨_, heq⟩⟩ := hexcused <;> cases heq
  | notFound earlier hcomponents hleads hnone =>
    exact ⟨earlier, _, _, hcomponents, rfl, hleads, hnone⟩

theorem Premises.not_a_directory {component rest : String}
    (herror : (ns.objectAt path w).1 = .error (some (.notADirectory component rest))) :
    ∃ earlier behind last typeName, components = earlier ++ component :: behind ∧
      ns.Leads content holds (ns.rootIn content) earlier last ∧
      ∃ body ∈ holds last, ns.HasName content body component ∧
        ns.typeIn content body = some typeName ∧ typeName ≠ directoryType := by
  cases h.refusal (h.components_ne herror nofun) herror with
  | excused hexcused => obtain ⟨-, ⟨_, _, heq⟩ | ⟨_, heq⟩⟩ := hexcused <;> cases heq
  | notADirectory earlier hcomponents hleads hbody hname hrest htype hother =>
    exact ⟨earlier, _, _, _, hcomponents, hleads, _, hbody, hname, htype, hother⟩

theorem Premises.resolves (hfull : ns.Full) {body : ℕ}
    (hfiled : ns.Filed content holds components body) :
    ∃ object, (ns.objectAt path w).1 = .ok object ∧ ns.Shows content body object := by
  have hne : components ≠ [] := by
    obtain ⟨earlier, last, _, rfl, -⟩ := hfiled
    simp
  cases hrun : (ns.objectAt path w).1 with
  | ok object => exact ⟨object, rfl, (h.answers hrun).eq_of_filed h.wellFormed hfiled⟩
  | error error => exact absurd (h.refusal hne hrun) (hfiled.not_refused h.wellFormed hfull)

theorem Premises.lists {listing : Listing} (hok : (ns.objectsIn path w).1 = .ok listing)
    (hcomplete : listing.isComplete = true) :
    ∃ directory, ns.Leads content holds (ns.rootIn content) components directory ∧
      List.Forall₂ (ns.Shows content) ((holds directory).filter (ns.hasName content))
        listing.objects := by
  obtain ⟨directory, hleads, -, ⟨shown, hshows, -, hall⟩, -⟩ :=
    (objectsIn_spec h.faithful h.unhalted h.wellFormed h.namesFold.comparable.1 h.components_eq
      h.namesFold.comparable.2).of_ok h.remembers hok
  have hzero : listing.unreadable + listing.malformed = 0 := by
    simp only [Listing.isComplete, Bool.and_eq_true, beq_iff_eq] at hcomplete
    exact hcomplete.2
  exact ⟨directory, hleads, hall hzero ▸ hshows⟩

end Results

/-! ## A namespace deeper than a path -/

section Nested

/-- How many directories named `D` lie in one another below the root. -/
def nestedDepth : ℕ := 33

/-- The words outside the directories: the globals, and the type of a directory with its name. -/
def nestedGlobals : List (ℕ × ℕ) :=
  [(0x1000, 0x10100), (0x2000, 0x200000), (0x4008, 0x5000), (0x5010, 0x120012), (0x5018, 0x6000),
    (0x6000, 0x0065007200690044), (0x6008, 0x0072006f00740063), (0x6010, 0x79)]

/-- The words of a directory, which lies in a page of its own: its name, the string that counts
it, the type index and information mask of its header, its bucket, and the entry for the next. -/
def nestedWords (page : ℕ) : List (ℕ × ℕ) :=
  let base := page * 0x10000
  [(0x10, 0x44), (0xb8, 0x20002), (0xc0, base + 0x10), (0xe8, 0x20001),
    (0x100, if page ≤ nestedDepth then base + 0x200 else 0), (0x208, base + 0x10100)]

def nestedContent (address : ℕ) : UInt8 :=
  let words := if address / 0x10000 = 0 then nestedGlobals else nestedWords (address / 0x10000)
  .ofNat (((words.lookup (address % 0x10000 / 8 * 8)).getD 0) >>> (address % 8 * 8))

def nestedBody (page : ℕ) : ℕ := page * 0x10000 + 0x100

def nested : Namespace Unit where
  memory address len _ := (some (bytesAt nestedContent address len), ())
  layout :=
    { pointer := 8, buckets := 1, hashBuckets := 0, entryChain := 0, entryObject := 8,
      headerBody := 0x30, headerTypeIndex := 0x18, headerInfoMask := 0x1a, headerSecurity := 0x28,
      nameInfoName := 8, nameInfoSize := 0x20, unicodeLength := 0, unicodeBuffer := 8,
      linkTarget := 8, linkFlags := 0, typeName := 0x10 }
  globals := ⟨some 0x1000, some 0x2000, some 0x3000, some 0x4000, none⟩
  halt := none
  onHost unit := unit
  checked := by decide

/-- A predicate that says to stop at its second poll, and never again. -/
theorem stop_is_final_once : ∃ what,
    ((nested.halting fun polls => (polls == 1, polls + 1)).objectAt "\\D"
      ⟨((), some 0, []), {}⟩).1 = .error (some (.halted what)) :=
  ((stop_is_final nested _ () 0 {} "\\D").2.2 _ rfl (by decide +kernel)).2

theorem nested_full : nested.Full := ⟨fun _ _ _ => rfl, rfl, rfl, rfl, rfl⟩

theorem nested_unhalted : nested.Unhalted := by
  intro halt h
  cases h

theorem nested_faithful : nested.Faithful nestedContent :=
  fun _ _ _ _ h => (Option.some.inj h).symm

theorem nested_page : ∀ page < 35, 0 < page →
    nested.pointerIn nestedContent (nested.bucketAddress (nestedBody page) 0) =
        (if page ≤ nestedDepth then page * 0x10000 + 0x200 else 0) ∧
      nested.pointerIn nestedContent (page * 0x10000 + 0x200) = 0 ∧
      nested.pointerIn nestedContent (page * 0x10000 + 0x208) = nestedBody (page + 1) ∧
      nested.nameIn nestedContent (nestedBody page) = some (some [0x44]) := by
  decide +kernel

theorem nested_type : ∀ page < 35, 0 < page →
    nested.typeIn nestedContent (nestedBody page) = some directoryType := by
  decide +kernel

def nestedDirectories : Set ℕ := fun body => ∃ page, 0 < page ∧ page < 35 ∧ body = nestedBody page

def nestedHolds (body : ℕ) : List ℕ :=
  if body / 0x10000 ≤ nestedDepth then [nestedBody (body / 0x10000 + 1)] else []

theorem nestedHolds_body (page : ℕ) :
    nestedHolds (nestedBody page) = if page ≤ nestedDepth then [nestedBody (page + 1)] else [] := by
  unfold nestedHolds nestedBody
  rw [show (page * 0x10000 + 0x100) / 0x10000 = page by omega]

theorem nested_isDirectory {page : ℕ} (hpos : 0 < page) (hlt : page < 35) :
    nested.IsDirectory nestedContent (nestedBody page) (nestedHolds (nestedBody page)) := by
  obtain ⟨hbucket, hchain, hobject, -⟩ := nested_page page hlt hpos
  have hentry : wrappingAdd (page * 0x10000 + 0x200) nested.layout.entryObject =
      page * 0x10000 + 0x208 := by
    rw [show nested.layout.entryObject = 8 from rfl]
    unfold wrappingAdd
    omega
  have hnext : wrappingAdd (page * 0x10000 + 0x200) nested.layout.entryChain =
      page * 0x10000 + 0x200 := by
    rw [show nested.layout.entryChain = 0 from rfl]
    unfold wrappingAdd
    omega
  rw [nestedHolds_body]
  by_cases hdeep : page ≤ nestedDepth
  · have hpage : page + 1 < 35 := by
      unfold nestedDepth at hdeep
      omega
    rw [if_pos hdeep] at hbucket ⊢
    refine ⟨⟨fun _ => [page * 0x10000 + 0x200], ?_, ?_, ?_⟩, ?_, List.pairwise_singleton _ _⟩
    · intro bucket hbuckets
      obtain rfl : bucket = 0 := Nat.lt_one_iff.mp hbuckets
      refine ⟨hbucket, by omega, ?_⟩
      rw [hnext]
      exact hchain
    · change 1 ≤ maxEntries
      decide
    · change _ = nested.bodiesOf nestedContent [page * 0x10000 + 0x200]
      rw [bodiesOf_cons, hentry, hobject, if_neg (by unfold nestedBody; omega)]
      rfl
    · intro body hbody
      rw [List.mem_singleton.mp hbody, (nested_page (page + 1) hpage (by omega)).2.2.2]
      simp
  · rw [if_neg hdeep] at hbucket ⊢
    refine ⟨⟨fun _ => [], ?_, ?_, ?_⟩, by simp, List.Pairwise.nil⟩
    · intro bucket hbuckets
      obtain rfl : bucket = 0 := Nat.lt_one_iff.mp hbuckets
      exact hbucket
    · simp
    · simp [bodiesOf]

theorem nested_wellFormed : nested.WellFormed nestedContent nestedDirectories nestedHolds where
  root := ⟨1, by decide, by decide, by decide +kernel⟩
  root_ne_zero := by decide +kernel
  directory := by
    rintro _ ⟨page, hpos, hlt, rfl⟩
    exact nested_isDirectory hpos hlt
  closed := by
    rintro _ ⟨page, hpos, hlt, rfl⟩ body hbody -
    rw [nestedHolds_body] at hbody
    split at hbody
    · next hdeep =>
      unfold nestedDepth at hdeep
      exact ⟨page + 1, by omega, by omega, List.mem_singleton.mp hbody⟩
    · cases hbody

theorem nested_hasName {page : ℕ} (hpos : 0 < page) (hlt : page < 35) :
    nested.HasName nestedContent (nestedBody page) "D" := by
  have hencode : Utf16.encode "D" = [0x44] := by decide
  refine ⟨[0x44], (nested_page page hlt hpos).2.2.2, ?_⟩
  rw [hencode]
  rfl

theorem nested_leads (n : ℕ) : ∀ page : ℕ, 0 < page → page + n < 35 →
    nested.Leads nestedContent nestedHolds (nestedBody page) (List.replicate n "D")
      (nestedBody (page + n)) := by
  induction n with
  | zero =>
    intro page _ _
    rfl
  | succ n ih =>
    intro page hpos hlt
    refine ⟨nestedBody (page + 1), ?_, nested_hasName (by omega) (by omega),
      nested_type (page + 1) (by omega) (by omega), ?_⟩
    · rw [nestedHolds_body, if_pos (by unfold nestedDepth; omega)]
      exact List.mem_singleton_self _
    · have hrest := ih (page + 1) (by omega) (by omega)
      rwa [show page + 1 + n = page + (n + 1) by omega] at hrest

theorem nested_filed {n : ℕ} (hn : n < 33) :
    nested.Filed nestedContent nestedHolds (List.replicate (n + 1) "D") (nestedBody (n + 2)) := by
  have hroot : nested.rootIn nestedContent = nestedBody 1 := by decide +kernel
  refine ⟨List.replicate n "D", "D", nestedBody (1 + n), List.replicate_succ', ?_, ?_, ?_⟩
  · rw [hroot]
    exact nested_leads n 1 (by decide) (by omega)
  · rw [nestedHolds_body, if_pos (by unfold nestedDepth; omega), List.mem_singleton]
    congr 1
    omega
  · exact nested_hasName (by omega) (by omega)

theorem nested_namesFold (n : ℕ) :
    nested.NamesFold nestedContent nestedDirectories nestedHolds (List.replicate n "D") := by
  refine .inr ⟨?_, ?_⟩
  · rintro _ ⟨page, hpos, hlt, rfl⟩ body hbody units hunits unit hunit
    rw [nestedHolds_body] at hbody
    split at hbody
    · next hdeep =>
      unfold nestedDepth at hdeep
      rw [List.mem_singleton.mp hbody, (nested_page (page + 1) (by omega) (by omega)).2.2.2,
        Option.some.injEq, Option.some.injEq] at hunits
      subst hunits
      rw [List.mem_singleton.mp hunit]
      decide
    · cases hbody
  · intro component hcomponent unit hunit
    rw [List.eq_of_mem_replicate hcomponent] at hunit
    revert unit
    decide +kernel

theorem spellable_replicate (n : ℕ) : ∀ c ∈ List.replicate n "D", Spellable c := by
  intro c hc
  rw [List.eq_of_mem_replicate hc]
  exact ⟨by decide, by decide⟩

theorem nested_premises (n : ℕ) (hn : n < 32) :
    Premises nested nestedContent nestedDirectories nestedHolds ⟨(), {}⟩
      (spelled (List.replicate (n + 1) "D")) (List.replicate (n + 1) "D") where
  wellFormed := nested_wellFormed
  faithful := nested_faithful
  unhalted := nested_unhalted
  remembers := Upcase.remembers_fresh _ _ _
  components_eq := by
    rw [componentsOf_spelled (by simp) (spellable_replicate _), if_neg]
    unfold maxComponents
    simp
    omega
  namesFold := nested_namesFold _

end Nested

end Namespace

end DbgScope.Object
