import DbgScope.Probing
import DbgScope.Pool.BigPages
import DbgScope.Pool.Frozen

/-!
# The big-page table against the kernel's discipline

The kernel adds an allocation at the first free slot from its hash on, and frees one by setting bit
0 of its slot's `Va`. `Kept` is every table that discipline can have written, with the allocations
live in it, and `lookup` answers for the live ones and no others, whatever was looked up before.
-/

namespace DbgScope.Pool

open Run (Keeps Triple)
open Probing

/-! ## The kernel's own discipline -/

structure BigPageSlot where
  va : ℕ
  tag : ℕ
  size : ℕ
  deriving DecidableEq

def BigPageSlot.Free (slot : BigPageSlot) : Prop := slot.va % 2 = 1

def BigPageSlot.Unused (slot : BigPageSlot) : Prop := slot.va = 1

def BigPageSlot.entry (slot : BigPageSlot) : BigPageEntry := { tag := slot.tag, size := slot.size }

/-- `nt!ExpAddTagForBigPages`: claim the first free slot from the hash on. -/
def claimSlot (count : ℕ) (slots : ℕ → BigPageSlot) (slot : BigPageSlot) :
    Option (ℕ → BigPageSlot) := do
  let hash ← bigPageHash slot.va count
  let d ← (List.range count).find? fun d => (slots (slotAt count hash d)).va % 2 == 1
  some (Function.update slots (slotAt count hash d) slot)

/-- `nt!ExpRemoveTagForBigPages`: set bit 0 of a slot whose `Va` is the address exactly. -/
def releaseSlot (address : ℕ) (slot : BigPageSlot) : BigPageSlot :=
  if slot.va = address then { slot with va := address ||| 1 } else slot

/-- The tables the kernel can have written, and the allocations live in them. -/
inductive Kept (count : ℕ) : (ℕ → BigPageSlot) → (ℕ → Option BigPageEntry) → Prop
  | opened {slots : ℕ → BigPageSlot} (h : ∀ i, (slots i).va = 1) : Kept count slots fun _ => none
  | added {slots slots' : ℕ → BigPageSlot} {live : ℕ → Option BigPageEntry} (slot : BigPageSlot)
      (h : Kept count slots live) (haligned : slot.va % pageSize = 0) (hnonzero : slot.va ≠ 0)
      (hdead : live slot.va = none) (hclaim : claimSlot count slots slot = some slots') :
      Kept count slots' (Function.update live slot.va (some slot.entry))
  | removed {slots : ℕ → BigPageSlot} {live : ℕ → Option BigPageEntry} (address : ℕ)
      (h : Kept count slots live) :
      Kept count (fun i => releaseSlot address (slots i)) (Function.update live address none)

/-! ## What the discipline keeps -/

def hashSlot (count address : ℕ) : ℕ := (bigPageHash address count).getD 0

section

variable {count : ℕ} (hcount : isPowerOfTwo count = true) (address : ℕ) {slots : ℕ → BigPageSlot}
  {live : ℕ → Option BigPageEntry}
include hcount

theorem bigPageHash_eq : bigPageHash address count = some (hashSlot count address) := by
  unfold hashSlot bigPageHash
  simp [hcount]

theorem hashSlot_lt : hashSlot count address < count := by
  have hpos := isPowerOfTwo_pos hcount
  have hle : hashSlot count address ≤ count - 1 := by
    unfold hashSlot bigPageHash
    simp only [hcount, Bool.not_true, Bool.false_eq_true, if_false, Option.getD_some]
    exact Nat.and_le_right
  omega

/-- A table with its entries where a search finds them, and the allocations they stand for. -/
structure Represents (count : ℕ) (slots : ℕ → BigPageSlot) (live : ℕ → Option BigPageEntry) :
    Prop where
  sound : Sound (hashSlot count) count BigPageSlot.Unused BigPageSlot.Free BigPageSlot.va slots
  nonzero : ∀ i, (slots i).va ≠ 0
  live_iff : ∀ address entry, live address = some entry ↔
    address % 2 = 0 ∧ ∃ i < count, (slots i).va = address ∧ (slots i).entry = entry

theorem claimSlot_eq {slots' : ℕ → BigPageSlot} {slot : BigPageSlot}
    (h : claimSlot count slots slot = some slots') :
    ∃ d < count, (slots (slotAt count (hashSlot count slot.va) d)).Free ∧
      (∀ e < d, ¬ (slots (slotAt count (hashSlot count slot.va) e)).Free) ∧
      slots' = Function.update slots (slotAt count (hashSlot count slot.va) d) slot := by
  unfold claimSlot at h
  rw [bigPageHash_eq hcount, Option.bind_eq_bind, Option.bind_some] at h
  obtain ⟨d, hfind, heq⟩ := Option.bind_eq_some_iff.mp h
  obtain ⟨hfree, hmem, hfirst⟩ := List.find?_range_eq_some.mp hfind
  refine ⟨d, List.mem_range.mp hmem, beq_iff_eq.mp hfree, fun e he hbusy => ?_,
    (Option.some.inj heq).symm⟩
  have hnot := hfirst e he
  simp only [Bool.not_eq_true', beq_eq_false_iff_ne] at hnot
  exact hnot hbusy

theorem Represents.added {slots' : ℕ → BigPageSlot} {live : ℕ → Option BigPageEntry}
    {slot : BigPageSlot} (h : Represents count slots live) (heven : slot.va % 2 = 0)
    (hnonzero : slot.va ≠ 0) (hdead : live slot.va = none)
    (hclaim : claimSlot count slots slot = some slots') :
    Represents count slots' (Function.update live slot.va (some slot.entry)) := by
  obtain ⟨d, hd, hfree, hfirst, rfl⟩ := claimSlot_eq hcount hclaim
  set p := slotAt count (hashSlot count slot.va) d with hp
  have hnew : ∀ i < count, (slots i).va ≠ slot.va := by
    intro i hi hva
    have hlive := (h.live_iff slot.va (slots i).entry).mpr ⟨heven, i, hi, hva, rfl⟩
    rw [hdead] at hlive
    cases hlive
  refine ⟨?_, fun i => ?_, fun address entry => ?_⟩
  · refine h.sound.claim hd hfirst (fun i hbusy hunused => hbusy ?_) (fun hunused => ?_)
      fun i hi _ => hnew i hi
    · unfold BigPageSlot.Free
      rw [hunused]
    · unfold BigPageSlot.Unused at hunused
      omega
  · by_cases hip : i = p
    · rwa [hip, Function.update_self]
    · rw [Function.update_of_ne hip]
      exact h.nonzero i
  · by_cases haddress : address = slot.va
    · rw [haddress, Function.update_self]
      constructor
      · intro hentry
        exact ⟨heven, p, slotAt_lt (by omega) _ _, by rw [Function.update_self],
          by rw [Function.update_self]; exact Option.some.inj hentry⟩
      · rintro ⟨-, i, hi, hva, hentry⟩
        by_cases hip : i = p
        · rw [hip, Function.update_self] at hentry
          rw [hentry]
        · rw [Function.update_of_ne hip] at hva
          exact absurd hva (hnew i hi)
    · rw [Function.update_of_ne haddress, h.live_iff]
      -- the claimed slot stood for no live address before, and stands for another one now
      refine and_congr_right fun heven' => exists_congr fun i => and_congr_right fun _ => ?_
      by_cases hip : i = p
      · rw [hip, Function.update_self]
        have hodd : (slots p).va % 2 = 1 := hfree
        constructor
        · rintro ⟨hva, -⟩; omega
        · rintro ⟨hva, -⟩; exact absurd hva.symm haddress
      · rw [Function.update_of_ne hip]

omit hcount in
theorem lor_one (a : ℕ) : a ||| 1 = a / 2 * 2 + 1 := by
  have hbit : (a ||| 1) % 2 = 1 := Nat.or_mod_two_eq_one.mpr (Or.inr rfl)
  have hrest : (a ||| 1) / 2 = a / 2 := by
    rw [Nat.or_div_two]
    exact Nat.or_zero _
  omega

omit hcount in
theorem releaseSlot_cases (slot : BigPageSlot) :
    releaseSlot address slot = slot ∧ (slot.va = address → address % 2 = 1) ∨
    (slot.va = address ∧ address % 2 = 0 ∧ (releaseSlot address slot).va = address + 1) := by
  unfold releaseSlot
  by_cases hva : slot.va = address
  · rw [if_pos hva, lor_one]
    rcases Nat.mod_two_eq_zero_or_one address with heven | hodd
    · exact Or.inr ⟨hva, heven, by show address / 2 * 2 + 1 = _; omega⟩
    · refine Or.inl ⟨?_, fun _ => hodd⟩
      rw [show address / 2 * 2 + 1 = slot.va by omega]
  · rw [if_neg hva]
    exact Or.inl ⟨rfl, fun h => absurd h hva⟩

omit hcount in
theorem Represents.removed (h : Represents count slots live) (address : ℕ) :
    Represents count (fun i => releaseSlot address (slots i))
      (Function.update live address none) := by
  have hcases := fun i => releaseSlot_cases address (slots i)
  refine ⟨h.sound.release fun i => ?_, fun i => ?_, fun other entry => ?_⟩
  · rcases hcases i with ⟨heq, -⟩ | ⟨hva, heven, heq⟩
    · exact Or.inl heq
    · have hnonzero := h.nonzero i
      refine Or.inr ⟨?_, fun hunused => ?_⟩
      · show (releaseSlot address (slots i)).va % 2 = 1
        omega
      · unfold BigPageSlot.Unused at hunused
        omega
  · rcases hcases i with ⟨heq, -⟩ | ⟨-, -, heq⟩
    · rw [heq]
      exact h.nonzero i
    · rw [heq]
      omega
  · by_cases hother : other = address
    · rw [hother, Function.update_self]
      refine ⟨fun hnone => (by cases hnone), ?_⟩
      rintro ⟨heven, i, -, hva, -⟩
      rcases hcases i with ⟨heq, hodd⟩ | ⟨-, -, heq⟩
      · rw [heq] at hva
        have := hodd hva
        omega
      · omega
    · rw [Function.update_of_ne hother, h.live_iff]
      refine and_congr_right fun heven => exists_congr fun i => and_congr_right fun _ => ?_
      rcases hcases i with ⟨heq, -⟩ | ⟨hva, heven', heq⟩
      · rw [heq]
      · constructor
        · rintro ⟨hva', -⟩
          exact absurd (hva'.symm.trans hva) hother
        · rintro ⟨hva', -⟩
          omega

/-- **The discipline keeps every entry where a search finds it.** -/
theorem Kept.represents (h : Kept count slots live) : Represents count slots live := by
  induction h with
  | opened h =>
    refine ⟨sound_of_free fun i _ => ?_, fun i => ?_, fun address entry => ?_⟩
    · show _ % 2 = 1
      rw [h i]
    · rw [h i]
      decide
    · refine ⟨fun hnone => (by cases hnone), ?_⟩
      rintro ⟨heven, i, -, hva, -⟩
      rw [h i] at hva
      omega
  | added slot _ haligned hnonzero hdead hclaim ih =>
    have heven : slot.va % 2 = 0 := by
      unfold pageSize at haligned
      omega
    exact ih.added hcount heven hnonzero hdead hclaim
  | removed address _ ih => exact ih.removed address

end

/-! ## The batches a lookup keeps -/

namespace BigPageTable

/-- A table whose fields lie in their entry and whose entries lie in the address space. -/
structure Fits (table : BigPageTable) : Prop where
  count : isPowerOfTwo table.count = true
  va : table.vaOffset + 8 ≤ table.entrySize
  tag : table.tagOffset + 4 ≤ table.entrySize
  size : table.sizeOffset + 8 ≤ table.entrySize
  base : table.base ≠ 0
  space : table.base + table.count * table.entrySize ≤ 2 ^ 64

structure Holds (table : BigPageTable) (content : ℕ → UInt8) (slots : ℕ → BigPageSlot) :
    Prop where
  va : ∀ i < table.count, fromLe (bytesAt content
    (table.base + i * table.entrySize + table.vaOffset) 8) = (slots i).va
  tag : ∀ i < table.count, fromLe (bytesAt content
    (table.base + i * table.entrySize + table.tagOffset) 4) = (slots i).tag
  size : ∀ i < table.count, fromLe (bytesAt content
    (table.base + i * table.entrySize + table.sizeOffset) 8) = (slots i).size

def batchBytes (table : BigPageTable) (content : ℕ → UInt8) (index : ℕ) : List UInt8 :=
  bytesAt content (table.base + index * bigPageBatch * table.entrySize)
    (table.entrySize * min bigPageBatch (table.count - index * bigPageBatch))

/-- A state of the table whose kept batches are the target's own bytes. -/
structure Cached (table : BigPageTable) (content : ℕ → UInt8) (messages : List String)
    (state : BigPageTable × List String) : Prop where
  table : ∃ batches, state = ({ table with batches }, messages) ∧
    batches.length = divCeil table.count bigPageBatch ∧
    ∀ index bytes, batches[index]? = some (some bytes) → bytes = table.batchBytes content index

variable {memory : PoolMemory} {content : ℕ → UInt8} {table : BigPageTable}
  {messages : List String} {E : SnapshotError → World (BigPageTable × List String) → Prop}

variable (h : Readable memory content) (hfits : table.Fits) {slots : ℕ → BigPageSlot}
  {address index : ℕ}
include h hfits

omit hfits in
theorem readBatch_readable (address size : ℕ) (say : SnapshotError → String)
    (state : BigPageTable × List String) : Triple (fun w => w.state = state)
      (onMessages (reported (guardedRead memory address size) say))
      (fun read w => read = some (bytesAt content address size) ∧ w.state = state) E := by
  intro w hw
  have hread := guardedRead_readable h address size (P := fun said => said = state.2)
    (E := fun _ _ => False) { history := w.history, state := w.state.2 } (by rw [hw])
  unfold onMessages focus reported
  rw [Run.zoom_apply, Run.attempt_bind_apply]
  rcases hr : guardedRead memory address size
      ({ history := w.history, state := w.state.2 } : World (List String)) with ⟨r, v⟩
  rw [hr] at hread
  cases r with
  | error e => exact hread.elim
  | ok bytes =>
    refine ⟨congrArg some hread.1, ?_⟩
    show (w.state.1, v.state) = state
    rw [hread.2, hw]

omit h in
theorem Fits.batch (hindex : index * bigPageBatch < table.count) :
    checkedMul table.entrySize (min bigPageBatch (table.count - index * bigPageBatch)) =
        some (table.entrySize * min bigPageBatch (table.count - index * bigPageBatch)) ∧
      checkedAdd table.base (wrappingMul (index * bigPageBatch) table.entrySize) =
        some (table.base + index * bigPageBatch * table.entrySize) := by
  have hva := hfits.va
  have hbase := hfits.base
  have hspace := hfits.space
  have hfirst : (index * bigPageBatch + 1) * table.entrySize ≤ table.count * table.entrySize :=
    Nat.mul_le_mul_right _ hindex
  have hlength : table.entrySize * min bigPageBatch (table.count - index * bigPageBatch) ≤
      table.count * table.entrySize := by
    rw [Nat.mul_comm]
    exact Nat.mul_le_mul_right _ (by omega)
  rw [Nat.add_mul, Nat.one_mul] at hfirst
  have hwrap : wrappingMul (index * bigPageBatch) table.entrySize =
      index * bigPageBatch * table.entrySize := Nat.mod_eq_of_lt (by omega)
  refine ⟨if_pos (by omega), ?_⟩
  rw [hwrap]
  exact if_pos (by omega)

omit h hfits in
theorem Cached.keep {state : BigPageTable × List String}
    (h : table.Cached content messages state) (index : ℕ) :
    table.Cached content messages
      (BigPageTable.keep index (table.batchBytes content index) state.1, state.2) := by
  obtain ⟨batches, hstate, hlength, hcached⟩ := h.table
  refine ⟨batches.set index (some (table.batchBytes content index)), ?_, ?_, ?_⟩
  · rw [hstate]
    rfl
  · rw [List.length_set, hlength]
  · intro other bytes hbytes
    rw [List.getElem?_set] at hbytes
    split at hbytes
    · next hsame =>
      split at hbytes
      · rw [← hsame]
        exact (Option.some.inj (Option.some.inj hbytes)).symm
      · cases hbytes
    · exact hcached other bytes hbytes

theorem batch_readable (hindex : index * bigPageBatch < table.count) :
    Triple (fun w => table.Cached content messages w.state) (batch memory index)
      (fun bytes w => bytes = some (table.batchBytes content index) ∧
        table.Cached content messages w.state) E := by
  intro w hw
  obtain ⟨batches, hstate, hlength, hcached⟩ := hw.table
  have hlt : index < batches.length := by
    rw [hlength]
    unfold divCeil bigPageBatch at *
    omega
  unfold batch
  rw [Run.read_bind_apply, hstate]
  cases hslot : batches[index]? with
  | none => rw [List.getElem?_eq_none_iff] at hslot; omega
  | some kept =>
    cases kept with
    | some bytes => exact ⟨congrArg some (hcached index bytes hslot), hw⟩
    | none =>
      obtain ⟨hlen, haddress⟩ := hfits.batch hindex
      dsimp only
      rw [hlen, haddress]
      refine Triple.bind (checkBudget_readable h (P := fun state => state = _)) (fun _ => ?_)
        w hstate
      refine Triple.bind (readBatch_readable h _ _ _ _) fun read => ?_
      refine Triple.bind (Q := fun _ w => read = some (table.batchBytes content index) ∧
        table.Cached content messages w.state) (Triple.modify fun v hv => ?_) fun _ => ?_
      · refine ⟨hv.1, ?_⟩
        have hkept := hw.keep index
        rw [hstate, ← hv.2] at hkept
        rw [hv.1]
        exact hkept
      · refine Triple.pure fun v hv => ⟨?_, hv.2⟩
        rw [hv.1]
        rfl

/-- What a lookup decides at a slot. -/
def verdict (table : BigPageTable) (slots : ℕ → BigPageSlot) (address index : ℕ) :
    Flow ℕ (Option BigPageEntry) :=
  if (slots index).va ≤ 1 then .stop none
  else if (slots index).va = address then .stop (some (slots index).entry)
  else .again ((index + 1) % table.count)

omit h hfits in
theorem batch_field {table : BigPageTable} {index offset width : ℕ}
    (hindex : index < table.count) (hwidth : offset + width ≤ table.entrySize) :
    range (table.batchBytes content (index / bigPageBatch))
        (index % bigPageBatch * table.entrySize + offset) width =
      some (bytesAt content (table.base + index * table.entrySize + offset) width) := by
  have hsplit : index / bigPageBatch * bigPageBatch + index % bigPageBatch = index :=
    Nat.div_add_mod' index bigPageBatch
  have hlt : index % bigPageBatch < bigPageBatch := Nat.mod_lt _ (by decide)
  have hroom : (index % bigPageBatch + 1) * table.entrySize ≤
      min bigPageBatch (table.count - index / bigPageBatch * bigPageBatch) * table.entrySize :=
    Nat.mul_le_mul_right _ (by omega)
  have haddress : index / bigPageBatch * bigPageBatch * table.entrySize +
      index % bigPageBatch * table.entrySize = index * table.entrySize := by
    rw [← Nat.add_mul, hsplit]
  rw [Nat.add_mul, Nat.one_mul] at hroom
  unfold batchBytes
  rw [Nat.mul_comm table.entrySize, range_bytesAt (by omega)]
  congr 2
  omega

theorem lookupStep_readable (hholds : table.Holds content slots) (address : ℕ) {index : ℕ}
    (hindex : index < table.count) :
    Triple (fun w => table.Cached content messages w.state) (lookupStep memory address index)
      (fun flow w => flow = table.verdict slots address index ∧
        table.Cached content messages w.state) E := by
  intro w hw
  obtain ⟨batches, hstate, -⟩ := hw.table
  have hva : readU64 (table.batchBytes content (index / bigPageBatch))
      (index % bigPageBatch * table.entrySize + table.vaOffset) = some (slots index).va := by
    unfold readU64
    rw [batch_field hindex hfits.va, Option.map_some, hholds.va index hindex]
  have htag : readU32 (table.batchBytes content (index / bigPageBatch))
      (index % bigPageBatch * table.entrySize + table.tagOffset) = some (slots index).tag := by
    unfold readU32
    rw [batch_field hindex hfits.tag, Option.map_some, hholds.tag index hindex]
  have hsize : readU64 (table.batchBytes content (index / bigPageBatch))
      (index % bigPageBatch * table.entrySize + table.sizeOffset) = some (slots index).size := by
    unfold readU64
    rw [batch_field hindex hfits.size, Option.map_some, hholds.size index hindex]
  unfold lookupStep
  rw [Run.read_bind_apply]
  have hbatch : index / bigPageBatch * bigPageBatch < table.count :=
    lt_of_le_of_lt (Nat.div_mul_le_self _ _) hindex
  refine Triple.bind (batch_readable h hfits hbatch) (fun bytes => ?_) w hw
  refine fun v hv => ?_
  rw [hv.1, hstate]
  dsimp only
  rw [hva]
  dsimp only
  unfold verdict
  by_cases hunused : (slots index).va ≤ 1
  · rw [if_pos hunused, if_pos hunused]
    exact ⟨rfl, hv.2⟩
  · rw [if_neg hunused, if_neg hunused]
    by_cases hmatch : (slots index).va = address
    · rw [if_pos hmatch, if_pos hmatch, htag, hsize]
      exact ⟨rfl, hv.2⟩
    · rw [if_neg hmatch, if_neg hmatch]
      exact ⟨rfl, hv.2⟩

/-! ## Searches -/

def search (table : BigPageTable) (slots : ℕ → BigPageSlot) (address : ℕ) :
    ℕ → ℕ → Option BigPageEntry
  | 0, _ => none
  | rounds + 1, index =>
    match table.verdict slots address index with
    | .again index' => search table slots address rounds index'
    | .stop entry => entry

theorem lookup_readable (hholds : table.Holds content slots) (address : ℕ) :
    Triple (fun w => table.Cached content messages w.state) (lookup memory address)
      (fun entry w => entry =
          table.search slots address table.count (hashSlot table.count address) ∧
        table.Cached content messages w.state) E := by
  intro w hw
  obtain ⟨batches, hstate, -⟩ := hw.table
  unfold lookup
  rw [Run.read_bind_apply, hstate]
  rw [bigPageHash_eq hfits.count]
  -- the rounds that are left find what all of them do
  refine Triple.countdown (I := fun rounds index w => index < table.count ∧
      table.search slots address rounds index =
        table.search slots address table.count (hashSlot table.count address) ∧
      table.Cached content messages w.state) (fun rounds index => ?_) ?_ _ _ w
    ⟨hashSlot_lt hfits.count address, rfl, hw⟩
  · intro v hv
    obtain ⟨hindex, hsearch, hcached⟩ := hv
    refine (lookupStep_readable h hfits hholds address hindex v hcached).imp ?_ fun _ _ he => he
    rintro flow u ⟨hverdict, hkept⟩
    cases flow with
    | stop entry =>
      rw [search, ← hverdict] at hsearch
      exact ⟨hsearch, hkept⟩
    | again index' =>
      rw [search, ← hverdict] at hsearch
      refine ⟨?_, hsearch, hkept⟩
      unfold verdict at hverdict
      split at hverdict
      · cases hverdict
      · split at hverdict
        · cases hverdict
        · cases hverdict
          exact Nat.mod_lt _ (isPowerOfTwo_pos hfits.count)
  · rintro index v ⟨-, hsearch, hcached⟩
    exact ⟨hsearch, hcached⟩

omit h hfits in
theorem verdict_again (hused : ¬ (slots index).va ≤ 1) (hother : (slots index).va ≠ address) :
    table.verdict slots address index = .again ((index + 1) % table.count) := by
  unfold verdict
  rw [if_neg hused, if_neg hother]

omit h hfits in
theorem search_skip {hash d : ℕ} (hskip : ∀ e < d, ¬ (slots (slotAt table.count hash e)).va ≤ 1 ∧
      (slots (slotAt table.count hash e)).va ≠ address) (rounds : ℕ) :
    table.search slots address (d + rounds) (slotAt table.count hash 0) =
      table.search slots address rounds (slotAt table.count hash d) := by
  induction d generalizing rounds with
  | zero => rw [Nat.zero_add]
  | succ d ih =>
    have hlast := hskip d (by omega)
    rw [Nat.add_right_comm, Nat.add_assoc, ih (fun e he => hskip e (by omega)), search,
      verdict_again hlast.1 hlast.2, slotAt_succ]

omit h hfits in
theorem search_absent (habsent : ∀ i < table.count, (slots i).va ≠ address) (rounds : ℕ) {index : ℕ}
    (hindex : index < table.count) : table.search slots address rounds index = none := by
  induction rounds generalizing index with
  | zero => rfl
  | succ rounds ih =>
    unfold search verdict
    by_cases hunused : (slots index).va ≤ 1
    · rw [if_pos hunused]
    · rw [if_neg hunused, if_neg (habsent index hindex)]
      exact ih (Nat.mod_lt _ (by omega))

end BigPageTable

open BigPageTable

/-- A search finds the live entries, and nothing for the other addresses with bit 0 clear. -/
theorem Represents.search_eq {table : BigPageTable} (hcount : isPowerOfTwo table.count = true)
    {slots : ℕ → BigPageSlot} {live : ℕ → Option BigPageEntry}
    (h : Represents table.count slots live) {address : ℕ} (heven : address % 2 = 0) :
    table.search slots address table.count (hashSlot table.count address) = live address := by
  have hhash := hashSlot_lt hcount address
  cases hlive : live address with
  | none =>
    refine search_absent (fun i hi hva => ?_) _ hhash
    have hsome := (h.live_iff address (slots i).entry).mpr ⟨heven, i, hi, hva, rfl⟩
    rw [hlive] at hsome
    cases hsome
  | some entry =>
    obtain ⟨-, i, hi, hva, hentry⟩ := (h.live_iff address entry).mp hlive
    have hbusy : ¬ (slots i).Free := by
      unfold BigPageSlot.Free
      omega
    obtain ⟨d, hd, hpath, hpassed⟩ := h.sound.path hi hbusy
    rw [hva] at hpath hpassed
    have hskip : ∀ e < d, ¬ (slots (slotAt table.count (hashSlot table.count address) e)).va ≤ 1 ∧
        (slots (slotAt table.count (hashSlot table.count address) e)).va ≠ address := by
      intro e he
      obtain ⟨hused, hother⟩ := hpassed e he
      have hnonzero := h.nonzero (slotAt table.count (hashSlot table.count address) e)
      unfold BigPageSlot.Unused at hused
      unfold BigPageSlot.Free at hother
      exact ⟨by omega, fun hsame => hother (by omega) hsame⟩
    obtain ⟨rounds, hrounds⟩ : ∃ rounds, table.count = d + (rounds + 1) :=
      ⟨table.count - d - 1, by omega⟩
    have hfound : table.verdict slots address i = .stop (some entry) := by
      have hnonzero := h.nonzero i
      unfold verdict
      rw [if_neg (by omega), if_pos hva, hentry]
    calc table.search slots address table.count (hashSlot table.count address)
        = table.search slots address (d + (rounds + 1))
            (slotAt table.count (hashSlot table.count address) 0) := by
          rw [slotAt_zero hhash, ← hrounds]
      _ = table.search slots address (rounds + 1) i := by rw [search_skip hskip, hpath]
      _ = some entry := by rw [search, hfound]

/-! ## The table against the discipline -/

def lookups (memory : PoolMemory) (addresses : List ℕ) :
    Walk (BigPageTable × List String) Unit :=
  Run.fold (fun _ address => do let _ ← lookup memory address; pure ()) addresses ()

theorem lookups_readable {memory : PoolMemory} {content : ℕ → UInt8} {table : BigPageTable}
    {messages : List String} (h : Readable memory content) (hfits : table.Fits)
    {slots : ℕ → BigPageSlot} (hholds : table.Holds content slots) (addresses : List ℕ) :
    Triple (fun w => table.Cached content messages w.state) (lookups memory addresses)
      (fun _ w => table.Cached content messages w.state) (fun _ _ => False) := by
  refine Keeps.fold (fun _ address => ?_) addresses ()
  refine Triple.bind (lookup_readable h hfits hholds address) fun _ => ?_
  exact Triple.pure fun _ hw => hw.2

/-- **A lookup agrees with the kernel's discipline.** After any lookups, the lookup of an address
with bit 0 clear answers with its live entry, or with nothing where it has none, and says nothing.
-/
theorem lookup_agrees (memory : PoolMemory) (content : ℕ → UInt8) (table : BigPageTable)
    (slots : ℕ → BigPageSlot) (live : ℕ → Option BigPageEntry) (earlier : List ℕ)
    (address : ℕ) (h : History) (messages : List String) (hreadable : Readable memory content)
    (hfits : table.Fits) (hholds : table.Holds content slots) (hkept : Kept table.count slots live)
    (hfresh : table.batches = List.replicate (divCeil table.count bigPageBatch) none)
    (heven : address % 2 = 0) :
    ∃ w, lookups memory earlier { history := h, state := (table, messages) } = (.ok (), w) ∧
      (lookup memory address w).1 = .ok (live address) ∧
      (lookup memory address w).2.state.2 = messages := by
  have hcached : table.Cached content messages (table, messages) := by
    refine ⟨table.batches, rfl, by rw [hfresh, List.length_replicate], fun index bytes hbytes => ?_⟩
    rw [hfresh, List.getElem?_replicate] at hbytes
    split at hbytes <;> cases hbytes
  have hearlier := lookups_readable hreadable hfits hholds earlier
    { history := h, state := (table, messages) } hcached
  rcases hrun : lookups memory earlier { history := h, state := (table, messages) } with ⟨r, w⟩
  rw [hrun] at hearlier
  cases r with
  | error e => exact hearlier.elim
  | ok _ =>
    refine ⟨w, rfl, ?_⟩
    have hlookup := lookup_readable (E := fun _ _ => False) hreadable hfits hholds address w
      hearlier
    rcases hlast : lookup memory address w with ⟨r, w'⟩
    rw [hlast] at hlookup
    cases r with
    | error e => exact hlookup.elim
    | ok entry =>
      obtain ⟨hentry, hcached⟩ := hlookup
      rw [(hkept.represents hfits.count).search_eq hfits.count heven] at hentry
      obtain ⟨batches, hstate, -⟩ := hcached.table
      exact ⟨congrArg Except.ok hentry, by rw [hstate]⟩

def oneSlotTable : BigPageTable :=
  { base := 0x100, count := 1, entrySize := 24, vaOffset := 0, tagOffset := 8, sizeOffset := 16,
    batches := [none] }

def oneSlotContent (slot : BigPageSlot) (address : ℕ) : UInt8 :=
  let bytes := toLe 8 slot.va ++ toLe 8 slot.tag ++ toLe 8 slot.size
  bytes.getD (address - 0x100) 0

theorem oneSlotTable_fits : oneSlotTable.Fits :=
  ⟨by decide, by decide, by decide, by decide, by decide, by decide⟩

def neverUsed : ℕ → BigPageSlot := fun _ => ⟨1, 0, 0⟩

def oneSlot : ℕ → BigPageSlot := Function.update neverUsed 0 ⟨0x1000, 7, 0x2000⟩

theorem oneSlot_kept :
    Kept 1 oneSlot (Function.update (fun _ => none) 0x1000 (some ⟨7, 0x2000⟩)) := by
  have hopened : Kept 1 neverUsed fun _ => none := Kept.opened fun _ => rfl
  have hclaim : claimSlot 1 neverUsed ⟨0x1000, 7, 0x2000⟩ = some oneSlot := rfl
  exact Kept.added _ hopened (by decide) (by decide) rfl hclaim

theorem oneSlot_holds : oneSlotTable.Holds (oneSlotContent (oneSlot 0)) oneSlot :=
  ⟨by decide +kernel, by decide +kernel, by decide +kernel⟩

theorem lookup_agrees_oneSlot :
    ∃ w, lookups (frozenTarget (oneSlotContent (oneSlot 0))) [0x1000, 0x2000]
        { history := [], state := (oneSlotTable, []) } = (.ok (), w) ∧
      (lookup (frozenTarget (oneSlotContent (oneSlot 0))) 0x1000 w).1 =
        .ok (some ⟨7, 0x2000⟩) := by
  obtain ⟨w, hearlier, hlookup, -⟩ := lookup_agrees _ _ oneSlotTable _ _ [0x1000, 0x2000] 0x1000 []
    [] (frozenTarget_readable (oneSlotContent (oneSlot 0))) oneSlotTable_fits oneSlot_holds
    oneSlot_kept rfl (by decide)
  exact ⟨w, hearlier, hlookup⟩

def freedSlot : ℕ → BigPageSlot := fun i => releaseSlot 0x1000 (oneSlot i)

/-- Nothing is live in it, and the slot still answers for the odd address it holds. -/
theorem lookup_of_freed_odd :
    (∃ live, Kept 1 freedSlot live ∧ ∀ address, live address = none) ∧
      oneSlotTable.Fits ∧ oneSlotTable.Holds (oneSlotContent (freedSlot 0)) freedSlot ∧
      (lookup (frozenTarget (oneSlotContent (freedSlot 0))) 0x1001
        { history := [], state := (oneSlotTable, []) }).1.toOption =
          some (some ⟨7, 0x2000⟩) := by
  refine ⟨⟨_, Kept.removed 0x1000 oneSlot_kept, fun address => ?_⟩, oneSlotTable_fits,
    ⟨by decide +kernel, by decide +kernel, by decide +kernel⟩, by decide +kernel⟩
  rw [Function.update_idem]
  by_cases haddress : address = 0x1000
  · rw [haddress, Function.update_self]
  · rw [Function.update_of_ne haddress]

end DbgScope.Pool
