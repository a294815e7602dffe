import DbgScope.Arm64.Operand

/-!
# Control flow of one A64 word

`flow` reads a word by masks, one encoding class after another. `Class` names those classes by the
fields that select them, and `flow_of_class` says what each answers.
-/

namespace DbgScope.Arm64

open Bits

inductive Flow
  | fallthrough
  | call (destination : Option Address)
  | jmp (destination : Option Address)
  | branch (destination : Option Address)
  | ret
  | trap
  | unknown
  | unreadable
  deriving DecidableEq, Repr

def Flow.target : Flow → Option Address
  | .call target | .jmp target | .branch target => target
  | _ => none

def instructionBytes : ℕ := 4

/-- A branch destination: `address` plus a sign-extended displacement in instructions. -/
def relative (address : Address) (immediate bits : ℕ) : Address :=
  let shift := 32 - bits
  let displacement := ((BitVec.ofNat 32 immediate <<< shift).sshiftRight shift).toInt
  address + BitVec.ofInt 64 (displacement * instructionBytes)

def flow (word : Word) (address : Address) : Flow :=
  -- Unconditional branch (immediate), `b` and `bl`.
  if word &&& 0x7c000000#32 = 0x14000000#32 then
    let target := relative address (word &&& 0x03ffffff#32).toNat 26
    if word &&& 0x80000000#32 = 0#32 then .jmp (some target) else .call (some target)
  -- Conditional branch (immediate); `al` and `nv` are unconditional.
  else if word &&& 0xfe000000#32 = 0x54000000#32 then
    if word &&& 0x01000000#32 ≠ 0#32 then
      .trap
    else
      let target := relative address ((word >>> 5) &&& 0x0007ffff#32).toNat 19
      if word &&& 0xe#32 = 0xe#32 then .jmp (some target) else .branch (some target)
  -- Compare and branch.
  else if word &&& 0x7e000000#32 = 0x34000000#32 then
    .branch (some (relative address ((word >>> 5) &&& 0x0007ffff#32).toNat 19))
  -- Test and branch.
  else if word &&& 0x7e000000#32 = 0x36000000#32 then
    .branch (some (relative address ((word >>> 5) &&& 0x00003fff#32).toNat 14))
  -- Unconditional branch (register).
  else if word &&& 0xfe000000#32 = 0xd6000000#32 then
    let op2 := ((word >>> 16) &&& 0x1f#32).toNat
    let op3 := ((word >>> 10) &&& 0x3f#32).toNat
    if op2 ≠ 0b11111 ∨ ¬ (op3 = 0b000000 ∨ op3 = 0b000010 ∨ op3 = 0b000011) then
      .trap
    else
      match ((word >>> 21) &&& 0xf#32).toNat with
      | 0b0000 | 0b1000 => .jmp none
      | 0b0001 | 0b1001 => .call none
      | 0b0010 | 0b0100 | 0b0101 => .ret
      | _ => .trap
  -- Exception generation: only the system-call family continues.
  else if word &&& 0xff000000#32 = 0xd4000000#32 then
    let opc := ((word >>> 21) &&& 0x7#32).toNat
    let op2 := ((word >>> 2) &&& 0x7#32).toNat
    let ll := (word &&& 0x3#32).toNat
    if opc = 0b000 ∧ op2 = 0b000 ∧ (ll = 0b01 ∨ ll = 0b10 ∨ ll = 0b11) then .fallthrough else .trap
  -- The reserved space.
  else if (word >>> 25) &&& 0xf#32 = 0#32 then
    .trap
  else
    .fallthrough

/-! ## The classes by their fields -/

/-- The encoding classes whose words transfer control. -/
inductive BranchKind
  | immediate
  | conditional
  | compare
  | test
  | register
  deriving DecidableEq, Repr

def branchKind (word : Word) : Option BranchKind :=
  if bitField word 26 5 = 0b00101 then some .immediate
  else if bitField word 25 7 = 0b0101010 then some .conditional
  else if bitField word 25 6 = 0b011010 then some .compare
  else if bitField word 25 6 = 0b011011 then some .test
  else if bitField word 25 7 = 0b1101011 then some .register
  else none

section Masks

variable (word : Word)

/-! Every mask `flow` tests is one field. -/

theorem mask_immediate : word &&& 0x7c000000#32 = 0x14000000#32 ↔ bitField word 26 5 = 0b00101 :=
  and_mask_eq_iff word 26 5 0b00101 (by decide) (by decide)

theorem mask_link : word &&& 0x80000000#32 = 0#32 ↔ bitField word 31 1 = 0 :=
  and_mask_eq_iff word 31 1 0 (by decide) (by decide)

theorem mask_conditional :
    word &&& 0xfe000000#32 = 0x54000000#32 ↔ bitField word 25 7 = 0b0101010 :=
  and_mask_eq_iff word 25 7 0b0101010 (by decide) (by decide)

theorem mask_unallocated : word &&& 0x01000000#32 = 0#32 ↔ bitField word 24 1 = 0 :=
  and_mask_eq_iff word 24 1 0 (by decide) (by decide)

theorem mask_always : word &&& 0xe#32 = 0xe#32 ↔ bitField word 1 3 = 0b111 :=
  and_mask_eq_iff word 1 3 0b111 (by decide) (by decide)

theorem mask_compare : word &&& 0x7e000000#32 = 0x34000000#32 ↔ bitField word 25 6 = 0b011010 :=
  and_mask_eq_iff word 25 6 0b011010 (by decide) (by decide)

theorem mask_test : word &&& 0x7e000000#32 = 0x36000000#32 ↔ bitField word 25 6 = 0b011011 :=
  and_mask_eq_iff word 25 6 0b011011 (by decide) (by decide)

theorem mask_register : word &&& 0xfe000000#32 = 0xd6000000#32 ↔ bitField word 25 7 = 0b1101011 :=
  and_mask_eq_iff word 25 7 0b1101011 (by decide) (by decide)

theorem low_immediate : (word &&& 0x03ffffff#32).toNat = field word 0 26 := by
  rw [field_eq word (by decide)]
  simpa using toNat_shiftRight_and word 0 (show 26 < 32 by decide)

end Masks

def branchFlow (word : Word) (address : Address) : BranchKind → Flow
  | .immediate =>
    let target := relative address (field word 0 26) 26
    if bitField word 31 1 = 0 then .jmp (some target) else .call (some target)
  | .conditional =>
    let target := relative address (field word 5 19) 19
    if bitField word 24 1 ≠ 0 then .trap
    else if bitField word 1 3 = 0b111 then .jmp (some target)
    else .branch (some target)
  | .compare => .branch (some (relative address (field word 5 19) 19))
  | .test => .branch (some (relative address (field word 5 14) 14))
  | .register =>
    if field word 16 5 ≠ 0b11111 ∨
        ¬ (field word 10 6 = 0b000000 ∨ field word 10 6 = 0b000010 ∨
          field word 10 6 = 0b000011) then
      .trap
    else
      match field word 21 4 with
      | 0b0000 | 0b1000 => .jmp none
      | 0b0001 | 0b1001 => .call none
      | 0b0010 | 0b0100 | 0b0101 => .ret
      | _ => .trap

/-- **`flow` is decided by the class of the word**; outside the classes control falls through or
stops. -/
theorem flow_eq (word : Word) (address : Address) :
    (∃ kind, branchKind word = some kind ∧ flow word address = branchFlow word address kind) ∨
    branchKind word = none ∧ (flow word address = .fallthrough ∨ flow word address = .trap) := by
  have hread : ∀ lo width, width < 32 →
      ((word >>> lo) &&& BitVec.ofNat 32 (2 ^ width - 1)).toNat = field word lo width := by
    intro lo width h
    rw [field_eq word h.le, toNat_shiftRight_and word lo h]
  have h5 : ((word >>> 5) &&& 0x0007ffff#32).toNat = field word 5 19 :=
    hread 5 19 (by decide)
  have h14 : ((word >>> 5) &&& 0x00003fff#32).toNat = field word 5 14 :=
    hread 5 14 (by decide)
  have h16 : ((word >>> 16) &&& 0x1f#32).toNat = field word 16 5 :=
    hread 16 5 (by decide)
  have h10 : ((word >>> 10) &&& 0x3f#32).toNat = field word 10 6 :=
    hread 10 6 (by decide)
  have h21 : ((word >>> 21) &&& 0xf#32).toNat = field word 21 4 :=
    hread 21 4 (by decide)
  unfold branchKind flow
  simp only [mask_immediate, mask_link, mask_conditional, mask_unallocated, mask_always,
    mask_compare, mask_test, mask_register, low_immediate, h5, h14, h16, h10, h21, ne_eq]
  by_cases himm : bitField word 26 5 = 0b00101
  · exact .inl ⟨.immediate, by simp [himm], by simp [himm, branchFlow]⟩
  by_cases hcond : bitField word 25 7 = 0b0101010
  · exact .inl ⟨.conditional, by simp [himm, hcond], by simp [himm, hcond, branchFlow]⟩
  by_cases hcmp : bitField word 25 6 = 0b011010
  · exact .inl ⟨.compare, by simp [himm, hcond, hcmp], by simp [himm, hcond, hcmp, branchFlow]⟩
  by_cases htest : bitField word 25 6 = 0b011011
  · exact .inl ⟨.test, by simp [himm, hcond, htest], by simp [himm, hcond, htest, branchFlow]⟩
  by_cases hreg : bitField word 25 7 = 0b1101011
  · refine .inl ⟨.register, by simp [himm, hcmp, htest, hreg], ?_⟩
    rw [if_neg himm, if_neg hcond, if_neg hcmp, if_neg htest, if_pos hreg]
    rfl
  · refine .inr ⟨by simp [himm, hcond, hcmp, htest, hreg], ?_⟩
    simp only [himm, hcond, hcmp, htest, hreg, if_false]
    split_ifs <;> simp

end DbgScope.Arm64
