import DbgScope.Pool.Memory

/-!
# A target that stands still

The best target a walk can have: it holds the same bytes throughout, answers every query in full,
and never ends the walk. What the reads give there is the content, and all they leave behind is in
the history.
-/

namespace DbgScope.Pool

/-- The target holds `content`, answers every query in full and never ends the walk. -/
structure Readable (memory : PoolMemory) (content : ℕ → UInt8) : Prop where
  read : ∀ h address size, memory.readExact h address size = .ok (bytesAt content address size)
  valid : ∀ h address size, ∃ validSize, size ≤ validSize ∧
    memory.validRegion h address size = .ok (address, validSize)
  poll : ∀ h, pollOutcome memory h = .ok ()

/-- The target holds `content` and never ends the walk; it says so a run of whole pages at a time,
or more. -/
structure Mapped (memory : PoolMemory) (content : ℕ → UInt8) : Prop where
  read : ∀ h address size, memory.readExact h address size = .ok (bytesAt content address size)
  valid : ∀ h address size, 0 < size → ∃ validSize, 0 < validSize ∧
    memory.validRegion h address size = .ok (address, validSize) ∧
    (size ≤ validSize ∨ (address + validSize) % pageSize = 0)
  poll : ∀ h, pollOutcome memory h = .ok ()

theorem Readable.mapped {memory : PoolMemory} {content : ℕ → UInt8} (h : Readable memory content) :
    Mapped memory content where
  read := h.read
  valid history address size hsize := by
    obtain ⟨validSize, hle, hvalid⟩ := h.valid history address size
    exact ⟨validSize, by omega, hvalid, Or.inl hle⟩
  poll := h.poll

def frozenTarget (content : ℕ → UInt8) : PoolMemory where
  readExact _ address size := .ok (bytesAt content address size)
  validRegion _ address size := .ok (address, size)
  interrupted _ := .ok false
  outOfBudget _ := false
  committedRun _ _ := none

theorem frozenTarget_readable (content : ℕ → UInt8) :
    Readable (frozenTarget content) content where
  read _ _ _ := rfl
  valid _ _ size := ⟨size, le_refl size, rfl⟩
  poll _ := rfl

/-! ## Fields of the content -/

theorem range_bytesAt {content : ℕ → UInt8} {address n offset size : ℕ} (h : offset + size ≤ n) :
    range (bytesAt content address n) offset size =
      some (bytesAt content (address + offset) size) := by
  unfold range
  rw [if_pos (by rwa [length_bytesAt]), take_drop_bytesAt h]

theorem readU64_bytesAt {content : ℕ → UInt8} {address n offset : ℕ} (h : offset + 8 ≤ n) :
    readU64 (bytesAt content address n) offset =
      some (fromLe (bytesAt content (address + offset) 8)) := by
  unfold readU64
  rw [range_bytesAt h]
  rfl

theorem readU32_bytesAt {content : ℕ → UInt8} {address n offset : ℕ} (h : offset + 4 ≤ n) :
    readU32 (bytesAt content address n) offset =
      some (fromLe (bytesAt content (address + offset) 4)) := by
  unfold readU32
  rw [range_bytesAt h]
  rfl

/-! ## Reads -/

section Reads

variable {memory : PoolMemory} {content : ℕ → UInt8} {S : Type} {P : S → Prop}
  {E : SnapshotError → World S → Prop}

theorem checkBudget_readable (h : Readable memory content) :
    Run.Triple (fun w : World S => P w.state) (checkBudget memory) (fun _ w => P w.state) E := by
  intro w hw
  unfold checkBudget
  rw [h.poll]
  exact hw

theorem guardedRead_readable (h : Readable memory content) (address size : ℕ) :
    Run.Triple (fun w : World S => P w.state) (guardedRead memory address size)
      (fun bytes w => bytes = bytesAt content address size ∧ P w.state) E := by
  intro w hw
  unfold guardedRead observed guardedBytes
  by_cases hsize : size = 0
  · rw [if_pos hsize, hsize]
    exact ⟨rfl, hw⟩
  · rw [if_neg hsize]
    obtain ⟨validSize, hle, hvalid⟩ := h.valid w.history address size
    have hcall : (callValidRegion memory address size : Walk S (ℕ × ℕ)) w =
        (.ok (address, validSize), w.note (.validRegion address size none)) := by
      unfold callValidRegion
      rw [hvalid]
      rfl
    rw [Run.bind_of_ok hcall]
    dsimp only
    rw [if_neg (by omega)]
    unfold callReadExact
    rw [h.read]
    exact ⟨rfl, hw⟩

end Reads

end DbgScope.Pool
