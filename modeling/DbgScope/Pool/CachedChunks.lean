import DbgScope.Pool.Evidence
import DbgScope.Pool.VsSubsegments

/-!
# The chunks on the cached lists

A delay-free list links chunks by their headers, a lookaside list by their blocks. Of each entry of
either, discovery keeps every address at which the header of its chunk may be, and the decoder calls
a chunk cached when its header is at one of them. It marks the listed chunks and no others, but for
the chunks that `Traceable` leaves out.
-/

namespace DbgScope.Pool

open PoolSnapshot

/-! ## The candidates of an entry -/

def Candidate (entry header : ℕ) : Prop :=
  entry = header ∨ entry = header + 0x20 ∨
    entry = header + 0x30 ∧ (header + 0x20) % pageSize = 0

theorem mem_insertCachedChunkCandidates {cached : Finset ℕ} {entry header : ℕ} :
    header ∈ insertCachedChunkCandidates cached entry 0x10 0x10 ↔
      header ∈ cached ∨ Candidate entry header := by
  have hmask (n : ℕ) : n &&& (pageSize - 1) = n % pageSize := Nat.and_two_pow_sub_one_eq_mod n 12
  have hoverhead : saturatingAdd 0x10 0x10 = 0x20 := rfl
  have hend : wrappingSub pageSize 0x10 = 0xff0 := rfl
  unfold insertCachedChunkCandidates Candidate checkedSub
  rw [hoverhead, hend]
  unfold pageSize vsUnit at *
  by_cases hle : 0x20 ≤ entry
  · simp only [if_pos hle, hmask]
    split
    · simp only [Finset.mem_insert]
      grind
    · simp only [Finset.mem_insert]
      grind
  · simp only [if_neg hle, Finset.mem_insert]
    grind

theorem mem_insertCachedEntries {layout : PoolLayout} (hpool : sizeOrZero layout .poolHeader = 0x10)
    (hvs : sizeOrZero layout .heapVsChunkHeader = 0x10) {cached : Finset ℕ} {entries : List ℕ}
    {header : ℕ} :
    header ∈ insertCachedEntries layout cached entries ↔
      header ∈ cached ∨ ∃ entry ∈ entries, Candidate entry header := by
  unfold insertCachedEntries
  rw [hpool, hvs]
  induction entries generalizing cached with
  | nil => simp
  | cons entry rest ih =>
    rw [List.foldl_cons, ih, mem_insertCachedChunkCandidates, or_assoc]
    simp only [List.mem_cons, exists_eq_or_imp]

/-! ## Where blocks are -/

section Blocks

variable {region : PoolRegion} {link other : Link}

/-- A chunk of a VS subsegment with sixteen-byte headers. -/
structure SmallHeaders (region : PoolRegion) (link : Link) : Prop where
  pool : region.poolHeader.size = 0x10
  vs : region.vsHeaderSize = 0x10
  placed : Placed region link.address link.chunk.size
  /-- A chunk is measured in units. -/
  units : vsUnit ∣ link.chunk.size

namespace SmallHeaders

theorem header (h : SmallHeaders region link) : 0x20 ≤ link.chunk.size := by
  have hheader := h.placed.header
  unfold PoolRegion.headerBytes at hheader
  rwa [h.pool, h.vs] at hheader

/-- The block of a chunk the big-page table does not name is where one of the candidates says. -/
theorem physical (h : SmallHeaders region link) :
    vsPhysicalHeader region link.address link.chunk.size = link.address + 0x10 ∨
      vsPhysicalHeader region link.address link.chunk.size = link.address + 0x20 ∧
        0x30 ≤ link.chunk.size ∧ (link.address + 0x20) % pageSize = 0 := by
  have hspace := h.placed.space
  have hheader := h.header
  have hmask (n : ℕ) : n &&& (pageSize - 1) = n % pageSize := Nat.and_two_pow_sub_one_eq_mod n 12
  have hfirst : wrappingAdd link.address 0x10 = link.address + 0x10 :=
    wrappingAdd_of_lt (by omega)
  have hnext : saturatingAdd (link.address + 0x10) vsUnit = link.address + 0x20 :=
    saturatingAdd_of_lt (by unfold vsUnit; omega)
  unfold vsPhysicalHeader vsEndsPage PoolRegion.headerBytes
  rw [h.pool, h.vs, hfirst, hnext, hmask]
  split
  · next hmoved =>
    simp only [Bool.and_eq_true, decide_eq_true_iff, beq_iff_eq] at hmoved
    obtain ⟨⟨-, hpage⟩, hroom⟩ := hmoved
    have hmoved : wrappingAdd (link.address + 0x10) vsUnit = link.address + 0x20 :=
      wrappingAdd_of_lt (by unfold vsUnit; omega)
    exact Or.inr ⟨hmoved, hroom, hpage⟩
  · exact Or.inl rfl

theorem usable_of_unnamed (h : SmallHeaders region link)
    (hunnamed : vsBigPool region link.address link.chunk.size = none) :
    link.usable region = vsPhysicalHeader region link.address link.chunk.size + 0x10 := by
  have hhigh := h.placed.physical.2
  have hspace := h.placed.space
  unfold Link.usable
  rw [hunnamed]
  rw [h.pool] at hhigh ⊢
  exact wrappingAdd_of_lt (by omega)

theorem candidate_of_unnamed (h : SmallHeaders region link)
    (hunnamed : vsBigPool region link.address link.chunk.size = none) :
    Candidate (link.usable region) link.address := by
  rw [h.usable_of_unnamed hunnamed]
  rcases h.physical with hplain | ⟨hmoved, -, hpage⟩
  · exact Or.inr (Or.inl (by rw [hplain]))
  · exact Or.inr (Or.inr ⟨by rw [hmoved], hpage⟩)

theorem usable_bounds (h : SmallHeaders region link) :
    link.address ≤ link.usable region ∧ link.usable region ≤ link.stop := by
  cases hnamed : vsBigPool region link.address link.chunk.size with
  | none =>
    obtain ⟨hlow, hhigh⟩ := h.placed.physical
    rw [h.pool] at hhigh
    rw [h.usable_of_unnamed hnamed]
    exact ⟨by omega, hhigh⟩
  | some named =>
    obtain ⟨hlow, hhigh, -⟩ := vsBigPool_some hnamed
    have hspace := h.placed.space
    rw [saturatingAdd_of_lt (by omega)] at hhigh
    unfold Link.usable
    rw [hnamed]
    exact ⟨hlow, hhigh.le⟩

theorem usableSize_of_bare (h : SmallHeaders region link) (hbare : link.chunk.size = 0x20) :
    link.usableSize region = 0 := by
  have hunnamed : vsBigPool region link.address link.chunk.size = none := by
    rw [hbare]
    exact if_neg (by decide)
  have hspace := h.placed.space
  rcases h.physical with hplain | ⟨-, hroom, -⟩
  · unfold Link.usableSize
    rw [hunnamed]
    rw [hplain, h.pool, Nat.add_sub_cancel_left, hbare]
    rfl
  · omega

end SmallHeaders

end Blocks

/-! ## The lists of a subsegment -/

/-- Both headers of the subsegment are sixteen bytes, and its cached chunks are what discovery made
of a delay-free list with the headers of `delayed` on it and a lookaside list with the blocks of
`looked`. -/
structure CachedLists (layout : PoolLayout) (region : PoolRegion)
    (links delayed looked : List Link) : Prop where
  poolHeader : region.poolHeader.size = 0x10 ∧ sizeOrZero layout .poolHeader = 0x10
  vsHeader : region.vsHeaderSize = 0x10 ∧ sizeOrZero layout .heapVsChunkHeader = 0x10
  delayed_subset : delayed ⊆ links
  looked_subset : looked ⊆ links
  cached : region.cachedChunks =
    insertCachedEntries layout (insertCachedEntries layout ∅ (delayed.map Link.address))
      (looked.map fun link => link.usable region)

structure Marked (delayed looked : List Link) (link : Link) (span : PoolSpan) : Prop where
  listed : link ∈ delayed ∨ link ∈ looked → span.state = .cachedFree
  unlisted : link ∉ delayed → link ∉ looked → span.size ≠ 0 → span.state ≠ .cachedFree

/-- A block on the lookaside list starts where the chunk does: its own, or the empty one at the end
of the chunk before. -/
def BlockAt (region : PoolRegion) (looked : List Link) (link : Link) : Prop :=
  ∃ other ∈ looked, other.usable region = link.address

/-- An entry sixteen bytes into a page is the header of the chunk after this one, and this one would
have its block moved there. -/
def PageEndBefore (region : PoolRegion) (delayed looked : List Link) (link : Link) : Prop :=
  (link.address + 0x20) % pageSize = 0 ∧
    ∃ other, (other ∈ delayed ∨ other ∈ looked ∧ other.usable region = other.address) ∧
      other.address = link.address + 0x30

/-- The candidates of the lists tell whether the chunk is listed. -/
structure Traceable (region : PoolRegion) (delayed looked : List Link) (link : Link) : Prop where
  /-- A block the big-page table put on the lookaside list is where a candidate finds it. -/
  named : link ∈ looked → link ∉ delayed →
    ∀ named, vsBigPool region link.address link.chunk.size = some named →
      Candidate named.1 link.address ∨ BlockAt region looked link
  /-- No candidate of another chunk's entry is this header. -/
  unlisted : link ∉ delayed → link ∉ looked → link.usableSize region ≠ 0 →
    ¬ BlockAt region looked link ∧ ¬ PageEndBefore region delayed looked link

theorem decodeVsChunk_units {encoded headerAddress heapKey headerBytes subsegmentEnd : ℕ}
    {chunk : VsChunk}
    (h : decodeVsChunk encoded headerAddress heapKey headerBytes subsegmentEnd = .ok chunk) :
    vsUnit ∣ chunk.size := by
  unfold decodeVsChunk at h
  dsimp only at h
  split at h
  · cases h
  · split at h
    · cases h
    · split at h
      · cases h
      · cases h
        exact Dvd.intro_left _ rfl

theorem Chain.smallHeaders {region : PoolRegion} {content : ℕ → UInt8} {next : ℕ}
    {links : List Link} (h : Chain region content next links) (hspace : region.InSpace)
    (hpool : region.poolHeader.size = 0x10) (hvs : region.vsHeaderSize = 0x10) :
    ∀ link ∈ links, SmallHeaders region link := by
  induction links generalizing next with
  | nil => exact List.forall_mem_nil _
  | cons first rest ih =>
    have hplaced := (h.placed hspace).1
    obtain ⟨rfl, hdecode, hrest⟩ := h
    exact List.forall_mem_cons.mpr ⟨⟨hpool, hvs, hplaced, decodeVsChunk_units hdecode⟩, ih hrest⟩

theorem Chain.apart {region : PoolRegion} {content : ℕ → UInt8} {next : ℕ} {links : List Link}
    (h : Chain region content next links) {link other : Link} (hlink : link ∈ links)
    (hother : other ∈ links) (hne : other ≠ link) :
    link.stop ≤ other.address ∨ other.stop ≤ link.address := by
  have : Std.Symm fun l r : Link => l.stop ≤ r.address ∨ r.stop ≤ l.address := ⟨fun _ _ => Or.symm⟩
  exact List.Pairwise.forall (R := fun l r : Link => l.stop ≤ r.address ∨ r.stop ≤ l.address)
    (h.pairwise.imp fun hlr => Or.inl hlr) hlink hother hne.symm

theorem vsState_cachedFree {region : PoolRegion} {headerAddress : ℕ} {chunk : VsChunk} :
    vsState region headerAddress chunk = .cachedFree ↔ headerAddress ∈ region.cachedChunks := by
  unfold vsState
  constructor
  · intro h
    by_contra hmem
    rw [if_neg hmem] at h
    split at h
    · cases h
    · split at h <;> cases h
  · exact fun hmem => if_pos hmem

namespace CachedLists

variable {layout : PoolLayout} {region : PoolRegion} {content : ℕ → UInt8} {next : ℕ}
  {links delayed looked : List Link} {link : Link}

theorem mem_cached (h : CachedLists layout region links delayed looked) {header : ℕ} :
    header ∈ region.cachedChunks ↔ (∃ other ∈ delayed, Candidate other.address header) ∨
      ∃ other ∈ looked, Candidate (other.usable region) header := by
  rw [h.cached, mem_insertCachedEntries h.poolHeader.2 h.vsHeader.2,
    mem_insertCachedEntries h.poolHeader.2 h.vsHeader.2]
  simp

section Chunk

variable (h : CachedLists layout region links delayed looked)
  (hchain : Chain region content next links) (hspace : region.InSpace) (hlink : link ∈ links)

include h hchain hspace hlink

theorem candidate_address {other : Link} (hother : other ∈ links) (hne : other ≠ link)
    (hroom : 0x30 ≤ link.chunk.size) (hcandidate : Candidate other.address link.address) :
    (link.address + 0x20) % pageSize = 0 ∧ other.address = link.address + 0x30 := by
  have hsmall := hchain.smallHeaders hspace h.poolHeader.1 h.vsHeader.1
  have hheader := (hsmall other hother).header
  have hapart := hchain.apart hlink hother hne
  unfold Link.stop at hapart
  rcases hcandidate with heq | heq | ⟨heq, hpage⟩
  · omega
  · omega
  · exact ⟨hpage, heq⟩

theorem candidate_usable {other : Link} (hother : other ∈ links) (hne : other ≠ link)
    (hroom : 0x30 ≤ link.chunk.size) (hcandidate : Candidate (other.usable region) link.address) :
    other.usable region = link.address ∨ (link.address + 0x20) % pageSize = 0 ∧
      other.usable region = other.address ∧ other.address = link.address + 0x30 := by
  have hsmall := hchain.smallHeaders hspace h.poolHeader.1 h.vsHeader.1
  obtain ⟨hlow, hhigh⟩ := (hsmall other hother).usable_bounds
  have hapart := hchain.apart hlink hother hne
  have hstop : link.stop = link.address + link.chunk.size := rfl
  rcases hcandidate with heq | heq | ⟨heq, hpage⟩
  · exact Or.inl heq
  · omega
  · exact Or.inr ⟨hpage, by omega, by omega⟩

theorem cached_of_unlisted (hdelayed : link ∉ delayed) (hlooked : link ∉ looked)
    (hsize : link.usableSize region ≠ 0) :
    link.address ∈ region.cachedChunks ↔
      BlockAt region looked link ∨ PageEndBefore region delayed looked link := by
  have hsmall := hchain.smallHeaders hspace h.poolHeader.1 h.vsHeader.1 link hlink
  have hroom : 0x30 ≤ link.chunk.size := by
    have hheader := hsmall.header
    have hbare := mt hsmall.usableSize_of_bare hsize
    obtain ⟨units, hunits⟩ := hsmall.units
    unfold vsUnit at hunits
    omega
  rw [h.mem_cached]
  constructor
  · rintro (⟨other, hother, hcandidate⟩ | ⟨other, hother, hcandidate⟩)
    · obtain ⟨hpage, heq⟩ := h.candidate_address hchain hspace hlink (h.delayed_subset hother)
        (ne_of_mem_of_not_mem hother hdelayed) hroom hcandidate
      exact Or.inr ⟨hpage, other, Or.inl hother, heq⟩
    · rcases h.candidate_usable hchain hspace hlink (h.looked_subset hother)
        (ne_of_mem_of_not_mem hother hlooked) hroom hcandidate with heq | ⟨hpage, hstart, heq⟩
      · exact Or.inl ⟨other, hother, heq⟩
      · exact Or.inr ⟨hpage, other, Or.inr ⟨hother, hstart⟩, heq⟩
  · rintro (⟨other, hother, heq⟩ | ⟨hpage, other, hother | ⟨hother, hstart⟩, heq⟩)
    · exact Or.inr ⟨other, hother, Or.inl heq⟩
    · exact Or.inl ⟨other, hother, Or.inr (Or.inr ⟨heq, hpage⟩)⟩
    · exact Or.inr ⟨other, hother, Or.inr (Or.inr ⟨hstart.trans heq, hpage⟩)⟩

theorem cached_of_looked (hdelayed : link ∉ delayed) (hlooked : link ∈ looked) :
    link.address ∈ region.cachedChunks ↔
      ∀ named, vsBigPool region link.address link.chunk.size = some named →
        Candidate named.1 link.address ∨ BlockAt region looked link := by
  have hsmall := hchain.smallHeaders hspace h.poolHeader.1 h.vsHeader.1 link hlink
  rw [h.mem_cached]
  cases hnamed : vsBigPool region link.address link.chunk.size with
  | none =>
    exact iff_of_true (Or.inr ⟨link, hlooked, hsmall.candidate_of_unnamed hnamed⟩) nofun
  | some named =>
    have husable : link.usable region = named.1 := by
      unfold Link.usable
      rw [hnamed]
    have hbig : 0xff0 < link.chunk.size := by
      by_contra hsmaller
      unfold vsBigPool maxPoolHeaderChunk at hnamed
      rw [if_neg hsmaller] at hnamed
      cases hnamed
    have hsmall := hchain.smallHeaders hspace h.poolHeader.1 h.vsHeader.1
    constructor
    · rintro (⟨other, hother, hcandidate⟩ | ⟨other, hother, hcandidate⟩) found hfound
      · have hne := ne_of_mem_of_not_mem hother hdelayed
        obtain ⟨-, heq⟩ := h.candidate_address hchain hspace hlink (h.delayed_subset hother) hne
          (by omega) hcandidate
        have hheader := (hsmall other (h.delayed_subset hother)).header
        have hapart := hchain.apart hlink (h.delayed_subset hother) hne
        unfold Link.stop at hapart
        omega
      · obtain rfl := Option.some.inj hfound
        by_cases hne : other = link
        · rw [hne, husable] at hcandidate
          exact Or.inl hcandidate
        · rcases h.candidate_usable hchain hspace hlink (h.looked_subset hother) hne (by omega)
            hcandidate with heq | ⟨-, -, heq⟩
          · exact Or.inr ⟨other, hother, heq⟩
          · have hheader := (hsmall other (h.looked_subset hother)).header
            have hapart := hchain.apart hlink (h.looked_subset hother) hne
            unfold Link.stop at hapart
            omega
    · intro hfound
      rcases hfound named rfl with hcandidate | ⟨other, hother, heq⟩
      · exact Or.inr ⟨link, hlooked, husable.symm ▸ hcandidate⟩
      · exact Or.inr ⟨other, hother, Or.inl heq⟩

theorem marked_iff {span : PoolSpan} (hspan : ChunkSpan region link span)
    (hreported : Reported region link span) :
    Marked delayed looked link span ↔ Traceable region delayed looked link := by
  have hstate : span.state = .cachedFree ↔ link.address ∈ region.cachedChunks := by
    rw [hspan.state, vsState_cachedFree]
  constructor
  · rintro ⟨hlisted, hunlisted⟩
    refine ⟨fun hl hd => ?_, fun hd hl hsize => ?_⟩
    · exact (h.cached_of_looked hchain hspace hlink hd hl).mp (hstate.mp (hlisted (Or.inr hl)))
    · rw [← not_or, ← h.cached_of_unlisted hchain hspace hlink hd hl hsize, ← hstate]
      exact hunlisted hd hl (hreported.size ▸ hsize)
  · rintro ⟨hnamed, hunlisted⟩
    refine ⟨fun hlisted => hstate.mpr ?_, fun hd hl hsize => ?_⟩
    · by_cases hd : link ∈ delayed
      · exact h.mem_cached.mpr (Or.inl ⟨link, hd, Or.inl rfl⟩)
      · have hl := hlisted.resolve_left hd
        exact (h.cached_of_looked hchain hspace hlink hd hl).mpr (hnamed hl hd)
    · rw [hreported.size] at hsize
      rw [ne_eq, hstate, h.cached_of_unlisted hchain hspace hlink hd hl hsize, not_or]
      exact hunlisted hd hl hsize

end Chunk

end CachedLists

/-- What holds of a pair in two relations iff it holds of its first member. -/
theorem forall₂_iff_forall_mem {α β : Type} {R S P : α → β → Prop} {Q : α → Prop} {as : List α}
    {bs : List β} (hr : List.Forall₂ R as bs) (hs : List.Forall₂ S as bs)
    (h : ∀ a ∈ as, ∀ b, R a b → S a b → (P a b ↔ Q a)) :
    List.Forall₂ P as bs ↔ ∀ a ∈ as, Q a := by
  induction hr with
  | nil => simp
  | cons hab _ ih =>
    obtain ⟨hab', hs⟩ := List.forall₂_cons.mp hs
    rw [List.forall₂_cons, List.forall_mem_cons, h _ List.mem_cons_self _ hab hab',
      ih hs fun a ha => h a (List.mem_cons_of_mem _ ha)]

/-- **The cached lists mark their chunks.** In every run the chunks that are filed are marked as the
lists have them, if and only if the candidates tell it of each. -/
theorem cached_chunks_are_marked {memory : PoolMemory} {layout : PoolLayout} {region : PoolRegion}
    {content : ℕ → UInt8} {headers : List ChunkHeader} {delayed looked : List Link} (limit : ℕ)
    (hr : VsRegion region) (hsizes : region.vsSizesOffset + 8 ≤ region.vsHeaderSize)
    (hwritten : Written region content region.address headers) (htruth : Truthful memory content)
    (hlists : CachedLists layout region (linksFrom region.address headers) delayed looked)
    {w₀ : World PoolSnapshot} (hw₀ : w₀.state.matchLimit = none ∧
      w₀.state.stoppedAfterMatches = none) :
    ∃ filed, filed.Sublist (linksFrom region.address headers) ∧
      List.Forall₂ (fun link span => ChunkSpan region link span ∧ Reported region link span) filed
        ((filedSince w₀ (walkRegion memory limit region w₀).2).filter fun s => s.state.isChunk) ∧
      (List.Forall₂ (Marked delayed looked) filed
        ((filedSince w₀ (walkRegion memory limit region w₀).2).filter fun s => s.state.isChunk) ↔
        ∀ link ∈ filed, Traceable region delayed looked link) := by
  have hpos : 0 < region.headerBytes := by
    unfold PoolRegion.headerBytes
    omega
  have hchain := hwritten.chain hr.space hpos
  have hi : (Subsegment.mk region content (linksFrom region.address headers)).Intact :=
    ⟨hr, hsizes, hchain⟩
  have hrun := walkRegion_chained (fun _ => True) limit hi htruth hw₀
  obtain ⟨new, filed, done, rest, next, h⟩ :=
    (hrun.imp (fun _ _ hend => hend.cutShort) (fun _ _ hcut => hcut)).anyway
  refine ⟨filed, h.sublist, ?_, ?_⟩
  · rw [h.filedSince_eq]
    exact h.filed.mp (fun _ _ hspan hreported => ⟨hspan, hreported⟩) h.reported
  · rw [h.filedSince_eq]
    exact forall₂_iff_forall_mem h.filed h.reported fun link hlink span =>
      hlists.marked_iff hchain hr.space (h.sublist.subset hlink)

/-! ## A chunk before a page end -/

def sixteenLayout : PoolLayout where
  globals _ := none
  types
    | .poolHeader | .heapVsChunkHeader => some { size := 0x10, fields := fun _ => none }
    | _ => none

/-- Three allocated chunks in two pages: the second ends sixteen bytes into the second page. -/
def pageEndHeaders : List ChunkHeader :=
  [.ofFields 0xfe#16 0#16 true, .ofFields 3#16 0xfe#16 true, .ofFields 0xff#16 3#16 true]

def pageEndChunks : ℕ → ℕ
  | 0x1000 => 0x0001000000fe1000
  | 0x1fe0 => 0x000100fe00031fe0
  | 0x2010 => 0x0001000300ff2010
  | _ => 0

/-- The last of the chunks, alone on the delay-free list. -/
def delayedChunk : Link :=
  { address := 0x2010, chunk := { size := 0xff0, previousSize := 0x30, allocated := true } }

/-- Their subsegment. Blocks are not moved off the end of a page. -/
def pageEndRegion : PoolRegion :=
  { twoPages with
    poolHeader := { size := 0x10, previousSize := 0, poolIndex := 0, blockSize := 2, poolType := 2,
                    tag := 4 }
    cachedChunks := insertCachedEntries sixteenLayout ∅ [0x2010] }

theorem pageEndRegion_lists :
    CachedLists sixteenLayout pageEndRegion (linksFrom 0x1000 pageEndHeaders) [delayedChunk]
      [] where
  poolHeader := ⟨rfl, rfl⟩
  vsHeader := ⟨rfl, rfl⟩
  delayed_subset := by decide
  looked_subset := List.nil_subset _
  cached := rfl

theorem pageEndRegion_written :
    Written pageEndRegion (wordBytes pageEndChunks) 0x1000 pageEndHeaders :=
  ⟨by decide, by decide, by decide, by decide, by decide, by decide, rfl⟩

theorem cached_chunks_are_marked_pageEnd :
    ∃ filed, filed.Sublist (linksFrom 0x1000 pageEndHeaders) ∧
      (List.Forall₂ (Marked [delayedChunk] []) filed
        ((filedSince emptySnapshot (walkRegion (smallTarget pageEndChunks none) 8 pageEndRegion
          emptySnapshot).2).filter fun s => s.state.isChunk) ↔
        ∀ link ∈ filed, Traceable pageEndRegion [delayedChunk] [] link) := by
  have hregion : VsRegion pageEndRegion := ⟨rfl, rfl, by unfold PoolRegion.InSpace; decide⟩
  have htruth : Truthful (smallTarget pageEndChunks none) (wordBytes pageEndChunks) :=
    fun _ _ _ _ h => (Except.ok.inj h).symm
  have hunlimited : emptySnapshot.state.matchLimit = none ∧
      emptySnapshot.state.stoppedAfterMatches = none := ⟨rfl, rfl⟩
  obtain ⟨filed, hsublist, -, hmarked⟩ := cached_chunks_are_marked 8 hregion (by decide)
    pageEndRegion_written htruth pageEndRegion_lists hunlimited
  exact ⟨filed, hsublist, hmarked⟩

/-- The second chunk is on no list and has a block of sixteen bytes, and it is called cached for the
header of the third. -/
theorem unlisted_chunk_is_cached :
    Written pageEndRegion (wordBytes pageEndChunks) 0x1000 pageEndHeaders ∧
    CachedLists sixteenLayout pageEndRegion (linksFrom 0x1000 pageEndHeaders) [delayedChunk] [] ∧
    ((filedSince emptySnapshot (walkRegion (smallTarget pageEndChunks none) 8 pageEndRegion
        emptySnapshot).2).filter fun s => s.state.isChunk).map
        (fun span => (span.usableAddress, span.size, span.state)) =
      [(0x1020, 0xfc0, .allocated), (0x2000, 0x10, .cachedFree), (0x2030, 0xfd0, .cachedFree)] ∧
    ¬ List.Forall₂ (Marked [delayedChunk] []) (linksFrom 0x1000 pageEndHeaders)
      ((filedSince emptySnapshot (walkRegion (smallTarget pageEndChunks none) 8 pageEndRegion
        emptySnapshot).2).filter fun s => s.state.isChunk) := by
  have hspans : ((filedSince emptySnapshot (walkRegion (smallTarget pageEndChunks none) 8
      pageEndRegion emptySnapshot).2).filter fun s => s.state.isChunk).map
        (fun span => (span.usableAddress, span.size, span.state)) =
      [(0x1020, 0xfc0, .allocated), (0x2000, 0x10, .cachedFree), (0x2030, 0xfd0, .cachedFree)] := by
    decide +kernel
  refine ⟨pageEndRegion_written, pageEndRegion_lists, hspans, fun hmarked => ?_⟩
  generalize (filedSince emptySnapshot (walkRegion (smallTarget pageEndChunks none) 8 pageEndRegion
    emptySnapshot).2).filter (fun s => s.state.isChunk) = spans at hspans hmarked
  obtain ⟨first, rest, rfl, -, hrest⟩ := List.map_eq_cons_iff.mp hspans
  obtain ⟨second, last, rfl, hsecond, -⟩ := List.map_eq_cons_iff.mp hrest
  simp only [Prod.mk.injEq] at hsecond
  obtain ⟨-, hsize, hstate⟩ := hsecond
  obtain ⟨-, hunmarked⟩ := (List.forall₂_cons.mp (List.forall₂_cons.mp hmarked).2).1
  exact hunmarked (by decide) (by decide) (by rw [hsize]; decide) hstate

end DbgScope.Pool
