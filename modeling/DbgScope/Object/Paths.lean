import DbgScope.Object.Lookup

/-!
# Resolving paths in partial memory

A well-formed namespace has directories that hold what their content says. Whatever a lookup over
faithful memory says is then so: an object it finds is filed at that path, a name it does not find
is not there, an object it calls no directory has another type. Where everything is readable every
path that can be spelled is resolved.
-/

namespace DbgScope.Object

open Run

namespace Namespace

variable {W : Type}

/-! ## The namespace a target holds -/

section Held

variable (ns : Namespace W) (content : ℕ → UInt8)

def rootIn : ℕ := ns.pointerIn content (ns.globals.root.getD 0)

/-- A well-formed namespace: its directories, and what each of them holds. -/
structure WellFormed (directories : Set ℕ) (holds : ℕ → List ℕ) : Prop where
  root : ns.rootIn content ∈ directories
  root_ne_zero : ns.rootIn content ≠ 0
  directory : ∀ directory ∈ directories, ns.IsDirectory content directory (holds directory)
  closed : ∀ directory ∈ directories, ∀ body ∈ holds directory,
    ns.typeIn content body = some directoryType → body ∈ directories

def Leads (holds : ℕ → List ℕ) : ℕ → List String → ℕ → Prop
  | directory, [], directory' => directory' = directory
  | directory, component :: components, directory' =>
    ∃ body ∈ holds directory, ns.HasName content body component ∧
      ns.typeIn content body = some directoryType ∧ Leads holds body components directory'

def Filed (holds : ℕ → List ℕ) (components : List String) (body : ℕ) : Prop :=
  ∃ earlier last directory, components = earlier ++ [last] ∧
    ns.Leads content holds (ns.rootIn content) earlier directory ∧
    body ∈ holds directory ∧ ns.HasName content body last

end Held

/-! ## Lookups -/

section Lookups

variable {ns : Namespace W} {content : ℕ → UInt8} {directories : Set ℕ} {holds : ℕ → List ℕ}

def AllComparable (ns : Namespace W) (content : ℕ → UInt8) (directories : Set ℕ)
    (holds : ℕ → List ℕ) : Prop :=
  ∀ directory ∈ directories, ∀ body ∈ holds directory, ∀ units,
    ns.nameIn content body = some (some units) → ns.Comparable content units

/-- What a lookup in one directory may fail with. -/
def Missing (ns : Namespace W) (content : ℕ → UInt8) (bodies : List ℕ) (walked component : String)
    (error : Option ObjectError) : Prop :=
  ns.Excused error ∨
    error = some (.notFound walked component) ∧
      (∀ body ∈ bodies, ¬ns.HasName content body component) ∨
    (∃ unreadable malformed,
      error = some (.notFoundInPart walked component unreadable malformed)) ∧ ¬ns.Full

theorem lookupIn_spec (h : ns.Faithful content) (hhalt : ns.Unhalted) {directory : ℕ}
    {bodies : List ℕ} (hdirectory : ns.IsDirectory content directory bodies)
    (hnames : ∀ body ∈ bodies, ∀ units, ns.nameIn content body = some (some units) →
      ns.Comparable content units)
    {component : String} (hcomponent : ns.Comparable content (Utf16.encode component))
    (walked : String) :
    Triple (ns.upcase.Remembers content) (ns.lookupIn directory walked component)
      (fun object w => ns.upcase.Remembers content w ∧
        ∃ body ∈ bodies, ns.HasName content body component ∧ ns.Shows content body object)
      (fun error w => ns.upcase.Remembers content w ∧
        Missing ns content bodies walked component error) := by
  refine Triple.bind (Triple.imp (namedIn_tells h hhalt hdirectory) (fun _ hw => hw)
    (fun _ _ hw => hw) fun _ _ hw => ⟨hw.1, .inl hw.2⟩) fun listing => Triple.pull ?_
  rintro ⟨hhalted, ⟨shown, hshows, hsub, hall⟩, hfull⟩
  rw [if_neg (by simp [hhalted])]
  -- Every object of the listing shows a body of the directory.
  have hbody : ∀ object ∈ listing.objects, ∃ body ∈ shown, ns.Shows content body object :=
    fun object hmem => forall₂_mem_right hshows hmem
  have hshown : ∀ body ∈ shown, body ∈ bodies :=
    fun body hmem => (List.mem_filter.mp (hsub.subset hmem)).1
  have hobjects : ∀ object ∈ listing.objects, object.exactName = true →
      ns.Comparable content (Utf16.encode object.name) := by
    intro object hmem hexact
    obtain ⟨body, hmem', hshow⟩ := hbody object hmem
    obtain ⟨units, hunits, -⟩ := hshow.name
    rw [hshow.encode hunits hexact]
    exact hnames body (hshown body hmem') units hunits
  refine Triple.bind (findNamed_spec hobjects hcomponent) fun found => Triple.pull ?_
  rintro (⟨rfl, hnone⟩ | ⟨object, hmem, rfl, hmatch⟩)
  · refine Triple.ite (fun hzero => ?_) fun hskipped => ?_
    · refine Triple.fail fun w hw => ⟨hw, .inr (.inl ⟨rfl, fun body hmem hname => ?_⟩)⟩
      -- Nothing was skipped, so that an entry of this name would have been shown.
      have hhas : ns.hasName content body = true := by
        obtain ⟨units, hunits, -⟩ := hname
        simp [hasName, hunits]
      have hmem' : body ∈ shown := by
        rw [hall (by omega)]
        exact List.mem_filter.mpr ⟨hmem, hhas⟩
      obtain ⟨object, hobject, hshow⟩ := forall₂_mem_right
        (List.Forall₂.flip (R := flip (ns.Shows content)) hshows) hmem'
      exact hnone object hobject ((hshow.matches_iff (hnames body hmem) hcomponent).mpr hname)
    · refine Triple.fail fun w hw => ⟨hw, .inr (.inr ⟨⟨_, _, rfl⟩, fun hf => hskipped ?_⟩)⟩
      have := hfull hf
      omega
  · obtain ⟨body, hmem', hshow⟩ := hbody object hmem
    refine Triple.pure fun w hw => ⟨hw, body, hshown body hmem', ?_, hshow⟩
    exact (hshow.matches_iff (hnames body (hshown body hmem')) hcomponent).mp hmatch

/-- Why a path is not resolved from a directory: something is missing, a component is not there, or
one with components behind it is not a directory or cannot be told to be one. -/
inductive Refusal (ns : Namespace W) (content : ℕ → UInt8) (holds : ℕ → List ℕ) (directory : ℕ)
    (walked : String) (components : List String) : Option ObjectError → Prop
  | excused {error : Option ObjectError} (h : ns.Excused error) :
    Refusal ns content holds directory walked components error
  | inPart {directory' component : String} {unreadable malformed : ℕ} (h : ¬ns.Full) :
    Refusal ns content holds directory walked components
      (some (.notFoundInPart directory' component unreadable malformed))
  | notFound (earlier : List String) {rest : List String} {component : String} {last : ℕ}
    (hcomponents : components = earlier ++ component :: rest)
    (hleads : ns.Leads content holds directory earlier last)
    (hnone : ∀ body ∈ holds last, ¬ns.HasName content body component) :
    Refusal ns content holds directory walked components
      (some (.notFound (earlier.foldl deeper walked) component))
  | notADirectory (earlier : List String) {rest : List String} {component typeName : String}
    {last body : ℕ}
    (hcomponents : components = earlier ++ component :: rest)
    (hleads : ns.Leads content holds directory earlier last) (hbody : body ∈ holds last)
    (hname : ns.HasName content body component) (hrest : rest ≠ [])
    (htype : ns.typeIn content body = some typeName) (hne : typeName ≠ directoryType) :
    Refusal ns content holds directory walked components
      (some (.notADirectory component ("\\".intercalate rest)))
  | untyped (earlier : List String) {rest : List String} {component : String} {last body : ℕ}
    (hcomponents : components = earlier ++ component :: rest) (hrest : rest ≠ [])
    (hleads : ns.Leads content holds directory earlier last) (hbody : body ∈ holds last)
    (hname : ns.HasName content body component)
    (htype : ns.typeIn content body = none ∨ ¬ns.Full) :
    Refusal ns content holds directory walked components (some (.untyped component))

variable {directory last body : ℕ} {walked : String} {object : KernelObject} {component : String}
  {components : List String}

theorem Missing.refusal {rest : List String} {error : Option ObjectError}
    (h : Missing ns content (holds directory) walked component error) :
    Refusal ns content holds directory walked (component :: rest) error := by
  rcases h with h | ⟨rfl, h⟩ | ⟨⟨unreadable, malformed, rfl⟩, h⟩
  · exact .excused h
  · exact .notFound [] rfl rfl h
  · exact .inPart h

theorem Refusal.deeper {error : Option ObjectError}
    (h : Refusal ns content holds body (deeper walked component) components error)
    (hbody : body ∈ holds directory) (hname : ns.HasName content body component)
    (htype : ns.typeIn content body = some directoryType) :
    Refusal ns content holds directory walked (component :: components) error := by
  cases h with
  | excused h => exact .excused h
  | inPart h => exact .inPart h
  | notFound earlier hcomponents hleads hnone =>
    exact .notFound (component :: earlier) (by rw [hcomponents]; rfl)
      ⟨body, hbody, hname, htype, hleads⟩ hnone
  | notADirectory earlier hcomponents hleads hbody' hname' hrest htype' hne =>
    exact .notADirectory (component :: earlier) (by rw [hcomponents]; rfl)
      ⟨body, hbody, hname, htype, hleads⟩ hbody' hname' hrest htype' hne
  | untyped earlier hcomponents hrest hleads hbody' hname' htype' =>
    exact .untyped (component :: earlier) (by rw [hcomponents]; rfl) hrest
      ⟨body, hbody, hname, htype, hleads⟩ hbody' hname' htype'

def Answers (ns : Namespace W) (content : ℕ → UInt8) (holds : ℕ → List ℕ) (directory : ℕ)
    (components : List String) (object : KernelObject) : Prop :=
  ∃ earlier last directory' body, components = earlier ++ [last] ∧
    ns.Leads content holds directory earlier directory' ∧ body ∈ holds directory' ∧
    ns.HasName content body last ∧ ns.Shows content body object

theorem Shows.type_of_some {typeName : String} (h : ns.Shows content body object)
    (htype : object.typeName = some typeName) : ns.typeIn content body = some typeName := by
  rcases h.type with heq | ⟨hnone, -⟩
  · rw [← heq, htype]
  · rw [hnone] at htype
    cases htype

theorem requireDirectory_spec {rest : String} (h : ns.Shows content body object) :
    Triple (ns.upcase.Remembers content) (requireDirectory object component rest)
      (fun _ w => ns.upcase.Remembers content w ∧
        ns.typeIn content body = some directoryType)
      (fun error w => ns.upcase.Remembers content w ∧
        ((∃ typeName, ns.typeIn content body = some typeName ∧ typeName ≠ directoryType ∧
            error = some (.notADirectory component rest)) ∨
          (ns.typeIn content body = none ∨ ¬ns.Full) ∧ error = some (.untyped component))) := by
  unfold requireDirectory
  cases htype : object.typeName with
  | some typeName =>
    refine Triple.ite (fun heq => Triple.pure fun w hw => ⟨hw, ?_⟩) fun hne =>
      Triple.fail fun w hw => ⟨hw, .inl ⟨typeName, h.type_of_some htype, hne, rfl⟩⟩
    rw [← heq]
    exact h.type_of_some htype
  | none =>
    refine Triple.fail fun w hw => ⟨hw, .inr ⟨?_, rfl⟩⟩
    exact h.type.imp (fun heq => heq.symm.trans htype) (·.2)

theorem descend_spec (h : ns.Faithful content) (hhalt : ns.Unhalted)
    (hdirectories : ∀ directory ∈ directories,
      ns.IsDirectory content directory (holds directory))
    (hclosed : ∀ directory ∈ directories, ∀ body ∈ holds directory,
      ns.typeIn content body = some directoryType → body ∈ directories)
    (hnames : AllComparable ns content directories holds) (rest : List String) :
    ∀ (directory : ℕ) (walked component : String), directory ∈ directories →
      (∀ c ∈ component :: rest, ns.Comparable content (Utf16.encode c)) →
      Triple (ns.upcase.Remembers content) (ns.descend rest directory walked component)
        (fun object w => ns.upcase.Remembers content w ∧
          Answers ns content holds directory (component :: rest) object)
        (fun error w => ns.upcase.Remembers content w ∧
          Refusal ns content holds directory walked (component :: rest) error) := by
  induction rest with
  | nil =>
    intro directory walked component hmem hcomponents
    refine Triple.imp (lookupIn_spec h hhalt (hdirectories directory hmem)
      (hnames directory hmem) (hcomponents component (by simp)) walked) (fun _ hw => hw)
      (fun object w hw => ⟨hw.1, ?_⟩) fun error w hw => ⟨hw.1, hw.2.refusal⟩
    obtain ⟨body, hbody, hname, hshow⟩ := hw.2
    exact ⟨[], component, directory, body, rfl, rfl, hbody, hname, hshow⟩
  | cons next rest ih =>
    intro directory walked component hmem hcomponents
    refine Triple.bind (Triple.imp (lookupIn_spec h hhalt (hdirectories directory hmem)
      (hnames directory hmem) (hcomponents component (by simp)) walked) (fun _ hw => hw)
      (fun _ _ hw => hw) fun error w hw => ⟨hw.1, hw.2.refusal⟩) fun object => Triple.pull ?_
    rintro ⟨body, hbody, hname, hshow⟩
    refine Triple.bind (Triple.imp (requireDirectory_spec hshow) (fun _ hw => hw)
      (fun _ _ hw => hw) fun error w hw => ⟨hw.1, ?_⟩) fun _ => Triple.pull fun htype => ?_
    · rcases hw.2 with ⟨typeName, htype, hne, rfl⟩ | ⟨htype, rfl⟩
      · exact .notADirectory [] rfl rfl hbody hname (by simp) htype hne
      · exact .untyped [] rfl (by simp) rfl hbody hname htype
    · rw [hshow.address]
      refine Triple.imp (ih body (deeper walked component) next
        (hclosed directory hmem body hbody htype) fun c hc => hcomponents c (by simp [hc]))
        (fun _ hw => hw) (fun object w hw => ⟨hw.1, ?_⟩)
        fun error w hw => ⟨hw.1, hw.2.deeper hbody hname htype⟩
      obtain ⟨earlier, last, directory', body', hsplit, hleads, hrest⟩ := hw.2
      exact ⟨component :: earlier, last, directory', body', by rw [hsplit]; rfl,
        ⟨body, hbody, hname, htype, hleads⟩, hrest⟩

theorem rootDirectory_tells (h : ns.Faithful content) :
    ns.Tells content ns.rootDirectory (· = ns.rootIn content) := by
  refine Tells.bind (needs_tells fun hfull => hfull.root) fun root hroot => ?_
  unfold rootIn
  rw [hroot]
  exact pointerAt_tells h root

/-- **What a lookup answers is so.** -/
theorem objectAt_spec (h : ns.Faithful content) (hhalt : ns.Unhalted)
    (hwell : ns.WellFormed content directories holds)
    (hnames : AllComparable ns content directories holds) {path : String}
    {components : List String} (hpath : componentsOf path = .ok components)
    (hne : components ≠ [])
    (hcomponents : ∀ c ∈ components, ns.Comparable content (Utf16.encode c)) :
    Triple (ns.upcase.Remembers content) (ns.objectAt path)
      (fun object w => ns.upcase.Remembers content w ∧
        Answers ns content holds (ns.rootIn content) components object)
      (fun error w => ns.upcase.Remembers content w ∧
        Refusal ns content holds (ns.rootIn content) "\\" components error) := by
  intro w hw
  unfold objectAt
  rw [hpath]
  cases components with
  | nil => exact absurd rfl hne
  | cons component rest =>
    refine Triple.bind (Triple.imp (rootDirectory_tells h) (fun _ hw => hw) (fun _ _ hw => hw)
      fun _ _ hw => ⟨hw.1, .excused hw.2⟩) (fun directory => Triple.pull ?_) w hw
    rintro rfl
    rw [if_neg hwell.root_ne_zero]
    exact descend_spec h hhalt hwell.directory hwell.closed hnames rest _ _ _ hwell.root
      hcomponents

/-! ### Every path that exists is resolved -/

instance : Std.Symm (ns.Differ content) where
  symm _ _ h units units' hunits hunits' hsame := h units' units hunits' hunits hsame.symm

theorem IsDirectory.eq_of_hasName {bodies : List ℕ} (h : ns.IsDirectory content directory bodies)
    {a b : ℕ} {component : String} (ha : a ∈ bodies) (hb : b ∈ bodies)
    (hname : ns.HasName content a component) (hname' : ns.HasName content b component) : a = b := by
  by_contra hne
  obtain ⟨units, hunits, hsame⟩ := hname
  obtain ⟨units', hunits', hsame'⟩ := hname'
  exact h.unique.forall ha hb hne units units' hunits hunits' (hsame.trans hsame'.symm)

theorem Leads.mem (hclosed : ∀ directory ∈ directories, ∀ body ∈ holds directory,
      ns.typeIn content body = some directoryType → body ∈ directories)
    (hmem : directory ∈ directories) (h : ns.Leads content holds directory components last) :
    last ∈ directories := by
  induction components generalizing directory with
  | nil =>
    rw [show last = directory from h]
    exact hmem
  | cons component components ih =>
    obtain ⟨body, hbody, -, htype, hleads⟩ := h
    exact ih (hclosed directory hmem body hbody htype) hleads

theorem Leads.unique (hwell : ns.WellFormed content directories holds) {directory last last' : ℕ}
    {components : List String} (hmem : directory ∈ directories)
    (h : ns.Leads content holds directory components last)
    (h' : ns.Leads content holds directory components last') : last = last' := by
  induction components generalizing directory with
  | nil => exact Eq.trans h (Eq.symm h')
  | cons component components ih =>
    obtain ⟨body, hbody, hname, htype, hleads⟩ := h
    obtain ⟨body', hbody', hname', -, hleads'⟩ := h'
    obtain rfl := (hwell.directory directory hmem).eq_of_hasName hbody hbody' hname hname'
    exact ih (hwell.closed directory hmem body hbody htype) hleads hleads'

theorem leads_append {components' : List String} :
    ns.Leads content holds directory (components ++ components') last ↔
      ∃ middle, ns.Leads content holds directory components middle ∧
        ns.Leads content holds middle components' last := by
  induction components generalizing directory with
  | nil => simp [Leads]
  | cons component components ih =>
    simp only [List.cons_append, Leads, ih]
    constructor
    · rintro ⟨body, hbody, hname, htype, middle, hleads, hleads'⟩
      exact ⟨middle, ⟨body, hbody, hname, htype, hleads⟩, hleads'⟩
    · rintro ⟨middle, ⟨body, hbody, hname, htype, hleads⟩, hleads'⟩
      exact ⟨body, hbody, hname, htype, middle, hleads, hleads'⟩

theorem Filed.split {earlier rest : List String} {component : String} {body : ℕ}
    (h : ns.Filed content holds components body)
    (hcomponents : components = earlier ++ component :: rest) :
    ∃ directory, ns.Leads content holds (ns.rootIn content) earlier directory ∧
      ∃ found ∈ holds directory, ns.HasName content found component ∧
        (rest ≠ [] → ns.typeIn content found = some directoryType) ∧
        (rest = [] → found = body) := by
  obtain ⟨earlier', last, directory, hsplit, hleads, hbody, hname⟩ := h
  rw [hsplit] at hcomponents
  rcases List.eq_nil_or_concat rest with rfl | ⟨front, last', rfl⟩
  · obtain ⟨rfl, hlast⟩ := List.append_inj' hcomponents rfl
    rw [List.cons.injEq] at hlast
    rw [hlast.1] at hname
    exact ⟨directory, hleads, body, hbody, hname, by simp, fun _ => rfl⟩
  · rw [List.concat_eq_append, ← List.cons_append, ← List.append_assoc] at hcomponents
    obtain ⟨rfl, -⟩ := List.append_inj' hcomponents rfl
    obtain ⟨middle, hearlier, found, hfound, hname', htype, -⟩ := leads_append.mp hleads
    exact ⟨middle, hearlier, found, hfound, hname', fun _ => htype, by simp⟩

theorem Filed.not_refused (hwell : ns.WellFormed content directories holds) (hfull : ns.Full)
    {components : List String} {body : ℕ} {walked : String} {error : Option ObjectError}
    (h : ns.Filed content holds components body) :
    ¬Refusal ns content holds (ns.rootIn content) walked components error := by
  intro hrefusal
  cases hrefusal with
  | excused hexcused => exact hexcused.1 hfull
  | inPart hpart => exact hpart hfull
  | notFound earlier hcomponents hleads hnone =>
    obtain ⟨directory, hleads', found, hfound, hname, -⟩ := h.split hcomponents
    rw [hleads.unique hwell hwell.root hleads'] at hnone
    exact hnone found hfound hname
  | notADirectory earlier hcomponents hleads hbody hname hrest htype hne =>
    obtain ⟨directory, hleads', found, hfound, hname', htype', -⟩ := h.split hcomponents
    rw [hleads.unique hwell hwell.root hleads'] at hbody
    have hmem := hleads'.mem hwell.closed hwell.root
    obtain rfl := (hwell.directory directory hmem).eq_of_hasName hbody hfound hname hname'
    rw [htype' hrest, Option.some.injEq] at htype
    exact hne htype.symm
  | untyped earlier hcomponents hrest hleads hbody hname htype =>
    obtain ⟨directory, hleads', found, hfound, hname', htype', -⟩ := h.split hcomponents
    rw [hleads.unique hwell hwell.root hleads'] at hbody
    have hmem := hleads'.mem hwell.closed hwell.root
    obtain rfl := (hwell.directory directory hmem).eq_of_hasName hbody hfound hname hname'
    rcases htype with hnone | hpart
    · rw [htype' hrest] at hnone
      cases hnone
    · exact hpart hfull

theorem Answers.eq_of_filed (hwell : ns.WellFormed content directories holds)
    {components : List String} {body : ℕ} {object : KernelObject}
    (hanswers : Answers ns content holds (ns.rootIn content) components object)
    (h : ns.Filed content holds components body) : ns.Shows content body object := by
  obtain ⟨earlier, last, directory, body', hcomponents, hleads, hbody, hname, hshows⟩ := hanswers
  obtain ⟨directory', hleads', found, hfound, hname', -, heq⟩ := h.split hcomponents
  rw [hleads.unique hwell hwell.root hleads'] at hbody
  have hmem := hleads'.mem hwell.closed hwell.root
  obtain rfl := (hwell.directory directory' hmem).eq_of_hasName hbody hfound hname hname'
  rw [← heq rfl]
  exact hshows

/-! ### Listings -/

theorem objectsIn_spec (h : ns.Faithful content) (hhalt : ns.Unhalted)
    (hwell : ns.WellFormed content directories holds)
    (hnames : AllComparable ns content directories holds) {path : String}
    {components : List String} (hpath : componentsOf path = .ok components)
    (hcomponents : ∀ c ∈ components, ns.Comparable content (Utf16.encode c)) :
    Triple (ns.upcase.Remembers content) (ns.objectsIn path)
      (fun listing _ => ∃ directory,
        ns.Leads content holds (ns.rootIn content) components directory ∧
          Shown ns content (holds directory) listing) (fun _ _ => True) := by
  have hdirectory : Triple (ns.upcase.Remembers content) (ns.directoryAt path components)
      (fun directory w => ns.upcase.Remembers content w ∧
        ns.Leads content holds (ns.rootIn content) components directory)
      (fun _ _ => True) := by
    unfold directoryAt
    by_cases hempty : components = []
    · subst hempty
      exact Triple.imp (rootDirectory_tells h) (fun _ hw => hw) (fun _ _ hw => hw)
        fun _ _ _ => trivial
    · rw [if_neg (by simpa using hempty)]
      refine Triple.bind (Triple.imp (objectAt_spec h hhalt hwell hnames hpath hempty hcomponents)
        (fun _ hw => hw) (fun _ _ hw => hw) fun _ _ _ => trivial) fun object => Triple.pull ?_
      rintro ⟨earlier, last, directory, body, rfl, hleads, hbody, hname, hshows⟩
      refine Triple.bind (Triple.imp (requireDirectory_spec hshows) (fun _ hw => hw)
        (fun _ _ hw => hw) fun _ _ _ => trivial) fun _ => Triple.pull fun htype => ?_
      refine Triple.pure fun w hw => ⟨hw, leads_append.mpr ⟨directory, hleads, ?_⟩⟩
      exact ⟨body, hbody, hname, htype, hshows.address⟩
  intro w hw
  unfold objectsIn
  rw [hpath]
  refine Triple.bind hdirectory (fun directory => Triple.pull fun hleads => ?_) w hw
  have hmem := hleads.mem hwell.closed hwell.root
  exact Triple.imp (namedIn_tells h hhalt (hwell.directory directory hmem)) (fun _ hw => hw)
    (fun listing w hw => ⟨directory, hleads, hw.2⟩) fun _ _ _ => trivial

end Lookups

/-! ## Paths that can be spelled -/

theorem intercalate_ends {α : Type} {x : α} {parts : List (List α)} (hne : parts ≠ [])
    (hparts : ∀ part ∈ parts, part ≠ [] ∧ x ∉ part) :
    [x].intercalate parts ≠ [] ∧ ([x].intercalate parts).getLast? ≠ some x := by
  induction parts with
  | nil => exact absurd rfl hne
  | cons part parts ih =>
    obtain ⟨hpart, hx⟩ := hparts part (by simp)
    cases parts with
    | nil =>
      rw [List.intercalate_singleton]
      exact ⟨hpart, fun hlast => hx (List.mem_of_getLast? hlast)⟩
    | cons next parts =>
      obtain ⟨hrest, hlast⟩ := ih (by simp) fun p hp => hparts p (by simp [hp])
      rw [List.intercalate_cons_cons]
      refine ⟨by simp [hpart], ?_⟩
      rwa [List.getLast?_append_of_ne_nil _ hrest]

def spelled (components : List String) : String := "\\" ++ "\\".intercalate components

/-- A component that can be spelled: there is something in it, and no separator. -/
def Spellable (component : String) : Prop := component ≠ "" ∧ '\\' ∉ component.toList

theorem componentsOf_spelled {components : List String} (hne : components ≠ [])
    (hcomponents : ∀ c ∈ components, Spellable c) :
    componentsOf (spelled components) =
      if maxComponents < components.length then
        .error (.badPath (spelled components) "it has more components than the namespace is deep")
      else .ok components := by
  set parts := components.map String.toList with hparts
  have hnonempty : ∀ part ∈ parts, part ≠ [] ∧ '\\' ∉ part := by
    intro part hpart
    obtain ⟨c, hc, rfl⟩ := List.mem_map.mp hpart
    exact ⟨fun hnil => (hcomponents c hc).1 (String.toList_eq_nil_iff.mp hnil),
      (hcomponents c hc).2⟩
  have hparts_ne : parts ≠ [] := by simpa [hparts] using hne
  obtain ⟨hbody, hlast⟩ := intercalate_ends hparts_ne hnonempty
  have hlist : (spelled components).toList = '\\' :: ['\\'].intercalate parts := by
    rw [spelled, String.toList_append, String.toList_intercalate]
    rfl
  have hlast' : ('\\' :: ['\\'].intercalate parts).getLast? ≠ some '\\' := by
    rwa [← List.singleton_append, List.getLast?_append_of_ne_nil _ hbody]
  have hroot : spelled components ≠ "\\" := by
    intro hroot
    have hchars := congrArg String.toList hroot
    rw [hlist] at hchars
    exact hbody (List.cons.inj hchars).2
  have hempty : ¬parts.any List.isEmpty = true := by
    intro hany
    obtain ⟨part, hpart, hnil⟩ := List.any_eq_true.mp hany
    exact (hnonempty part hpart).1 (List.isEmpty_iff.mp hnil)
  unfold componentsOf
  dsimp only
  rw [if_neg (by rw [hlist]; simp), if_neg hroot, hlist, if_neg hlast', List.drop_one,
    List.tail_cons, List.splitOn_intercalate _ (fun l hl => (hnonempty l hl).2) hparts_ne,
    if_neg hempty, hparts, List.length_map, List.map_map]
  simp

end Namespace

end DbgScope.Object
