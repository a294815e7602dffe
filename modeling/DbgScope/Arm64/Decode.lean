import DbgScope.Arm64.Branches
import DbgScope.Arm64.LoadStore
import DbgScope.Arm64.Register

/-!
# The two decoders of an A64 word agree

`decode` reads a word by the architecture's nested tables and `flow` by a list of masks. Both are
decided by the class of the word (`branchKind`): `flow_eq` says what `flow` answers for each class
and `decodeOut_of_kind`, `decodeOut_straight` what the operand decoder reads there. The agreement
is then one comparison per class.
-/

namespace DbgScope.Arm64

open Bits

structure Decoded where
  mnemonic : String
  operands : List Operand
  flow : Flow
  privileged : Bool
  privilege : Option Privilege
  effect : Effect
  condition : Option Condition
  writesFlags : Bool
  writes : List RegisterOperand
  reads : List RegisterOperand
  length : Option ℕ
  deriving DecidableEq, Repr

def decodeOut (word : Word) (address : Address) : Out :=
  match field word 25 4 with
  | 0b0000 =>
    if word &&& 0xffff0000#32 = 0#32 then Out.new "udf" |>.imm ((word &&& 0xffff#32).setWidth 64)
    else .undecoded "reserved"
  | 0b0001 | 0b0011 => .undecoded "unallocated"
  | 0b0010 => .undecoded "sve"
  | 0b1000 | 0b1001 => dataProcessingImmediate word address
  | 0b1010 | 0b1011 => branchExceptionSystem word address
  | op0 =>
    if op0 &&& 0b0101 = 0b0100 then loadsAndStores word address
    else if op0 &&& 0b0111 = 0b0101 then dataProcessingRegister word
    else simdAndFloatingPoint word

def decode (word : Word) (address : Address) : Decoded :=
  let out := decodeOut word address
  { mnemonic := out.mnemonic
    operands := out.operands
    flow := flow word address
    privileged := out.privilege.isSome
    privilege := out.privilege
    effect := out.effect
    condition := out.condition
    writesFlags := out.writesFlags
    writes := out.writes
    reads := out.reads
    length := some instructionBytes }

/-! ## The operand decoder by classes -/

/-- What the operand decoder reads in a word of each class. -/
def branchOut (word : Word) (address : Address) : BranchKind → Out
  | .immediate => branchImmediate word address
  | .conditional => conditionalBranch word address
  | .compare => compareAndBranch word address
  | .test => testAndBranch word address
  | .register => branchRegister word

theorem and_eight_eq_zero {n : ℕ} (h : n < 16) : n &&& 0b1000 = 0 ↔ n < 8 := by
  revert h n
  decide

theorem and_twelve_eq_zero {n : ℕ} (h : n < 16) : n &&& 0b1100 = 0 ↔ n < 4 := by
  revert h n
  decide

variable {out : Out} (word : Word) (address : Address)

theorem selectors :
    field word 29 3 = bitField word 25 7 / 16 ∧ field word 25 4 = bitField word 25 7 % 16 ∧
    bitField word 26 5 = bitField word 25 7 / 2 % 32 ∧
    bitField word 25 6 = bitField word 25 7 % 64 ∧
    field word 22 4 / 8 = bitField word 25 7 % 2 := by
  rw [field_eq word (by decide), field_eq word (by decide), field_eq word (by decide)]
  have hlt := word.isLt
  unfold bitField
  refine ⟨?_, ?_, ?_, ?_, ?_⟩ <;> omega

/-- The branch group's table is the table of classes, with the exception and system spaces and the
unallocated rest outside it. -/
theorem branchExceptionSystem_eq (h : field word 25 4 = 0b1010 ∨ field word 25 4 = 0b1011) :
    (∃ kind, branchKind word = some kind ∧
      branchExceptionSystem word address = branchOut word address kind) ∨
    branchKind word = none ∧ (branchExceptionSystem word address).Straight := by
  obtain ⟨h29, h25, b26, b25, h22⟩ := selectors word
  have hq : bitField word 25 7 < 2 ^ 7 := bitField_lt word 25 7
  have hlt : field word 22 4 < 16 := by omega
  have hmod : field word 29 3 &&& 0b011 = field word 29 3 % 4 :=
    Nat.and_two_pow_sub_one_eq_mod _ 2
  unfold branchExceptionSystem branchKind
  simp only [ne_eq, and_eight_eq_zero hlt, and_twelve_eq_zero hlt, hmod]
  by_cases hcond : field word 29 3 = 0b010 ∧ field word 22 4 < 8
  · exact .inl ⟨.conditional, by rw [if_neg (by omega), if_pos (by omega)], if_pos hcond⟩
  rw [if_neg hcond]
  by_cases hexc : field word 29 3 = 0b110 ∧ field word 22 4 < 4
  · rw [if_pos hexc]
    refine .inr ⟨?_, exception_straight word⟩
    rw [if_neg (by omega), if_neg (by omega), if_neg (by omega), if_neg (by omega),
      if_neg (by omega)]
  rw [if_neg hexc]
  by_cases hsys : field word 29 3 = 0b110 ∧ field word 22 4 = 0b0100
  · rw [if_pos hsys]
    refine .inr ⟨?_, system_straight word⟩
    rw [if_neg (by omega), if_neg (by omega), if_neg (by omega), if_neg (by omega),
      if_neg (by omega)]
  rw [if_neg hsys]
  by_cases hreg : field word 29 3 = 0b110 ∧ ¬ field word 22 4 < 8
  · refine .inl ⟨.register, ?_, if_pos hreg⟩
    rw [if_neg (by omega), if_neg (by omega), if_neg (by omega), if_neg (by omega),
      if_pos (by omega)]
  rw [if_neg hreg]
  by_cases himm : field word 29 3 % 4 = 0
  · clear hcond hexc hsys hreg
    exact .inl ⟨.immediate, by rw [if_pos (by omega)], if_pos himm⟩
  rw [if_neg himm]
  by_cases hcmp : field word 29 3 % 4 = 0b001 ∧ field word 22 4 < 8
  · clear hcond hexc hsys hreg
    refine .inl ⟨.compare, ?_, if_pos hcmp⟩
    rw [if_neg (by omega), if_neg (by omega), if_pos (by omega)]
  rw [if_neg hcmp]
  by_cases htest : field word 29 3 % 4 = 0b001
  · clear hcond hexc hsys hreg
    refine .inl ⟨.test, ?_, if_pos htest⟩
    rw [if_neg (by omega), if_neg (by omega), if_neg (by omega), if_pos (by omega)]
  · rw [if_neg htest]
    refine .inr ⟨?_, Out.straight_undecoded⟩
    rw [if_neg (by omega), if_neg (by omega), if_neg (by omega), if_neg (by omega),
      if_neg (by omega)]

theorem group_of_branchKind {word : Word} {kind : BranchKind} (h : branchKind word = some kind) :
    field word 25 4 = 0b1010 ∨ field word 25 4 = 0b1011 := by
  obtain ⟨-, h25, b26, b25, -⟩ := selectors word
  unfold branchKind at h
  split_ifs at h <;> omega

/-- **The operand decoder is decided by the class too**; outside the classes it reports no
destination and no conditional branch. -/
theorem decodeOut_eq : (∃ kind, branchKind word = some kind ∧
      decodeOut word address = branchOut word address kind) ∨
    branchKind word = none ∧ (decodeOut word address).Straight := by
  by_cases hgroup : field word 25 4 = 0b1010 ∨ field word 25 4 = 0b1011
  · have hout : decodeOut word address = branchExceptionSystem word address := by
      unfold decodeOut
      rcases hgroup with h | h <;> simp [h]
    rw [hout]
    exact branchExceptionSystem_eq word address hgroup
  · have hnone : branchKind word = none := by
      cases h : branchKind word with
      | none => rfl
      | some kind => exact absurd (group_of_branchKind h) hgroup
    refine .inr ⟨hnone, ?_⟩
    unfold decodeOut
    split
    case h_1 => simp
    case h_5 => exact dataProcessingImmediate_straight word address
    case h_6 => exact dataProcessingImmediate_straight word address
    case h_7 h => exact absurd (.inl h) hgroup
    case h_8 h => exact absurd (.inr h) hgroup
    case h_9 =>
      simp [loadsAndStores_straight, dataProcessingRegister_straight, simdAndFloatingPoint_straight]
    all_goals exact Out.straight_undecoded

/-! ## Agreement -/

def Conditional (mnemonic : String) : Prop :=
  ∃ stem ∈ ["b", "bc"], ∃ code, mnemonic = stem ++ "." ++ conditionSuffix code

theorem not_conditional_of_dotless {mnemonic : String} (h : Dotless mnemonic) :
    ¬ Conditional mnemonic := by
  rintro ⟨stem, -, code, rfl⟩
  exact h (by simp)

/-- What the operands of a word must say given its flow. -/
structure Agrees (out : Out) (flow : Flow) : Prop where
  /-- The destinations are the flow's destination, once. -/
  destinations : out.destinations = flow.target.toList
  /-- A call that was read writes the link register. -/
  call_links : out.Shaped → ∀ target, flow = .call target → linkRegister ∈ out.writes
  /-- Other transfers leave it alone. -/
  keeps_link : ∀ target, flow = .jmp target ∨ flow = .branch target →
    ∀ register ∈ out.writes, register.full ≠ linkRegister.full
  /-- A conditional mnemonic carries a condition when the branch may fall through. -/
  condition : Conditional out.mnemonic →
    (out.condition.isSome ↔ ∃ target, flow = .branch target)

theorem Agrees.of_straight {flow : Flow} (h : out.Straight)
    (hflow : flow = .fallthrough ∨ flow = .trap ∨ flow = .ret) : Agrees out flow where
  destinations := by
    rw [h.destinations]
    rcases hflow with rfl | rfl | rfl <;> rfl
  call_links := by
    intro _ target hcall
    rcases hflow with rfl | rfl | rfl <;> cases hcall
  keeps_link := by
    intro target hjump
    rcases hflow with rfl | rfl | rfl <;> rcases hjump with hjump | hjump <;> cases hjump
  condition := by
    intro hcond
    exact absurd hcond (not_conditional_of_dotless h.dotless)

theorem whole_linkRegister : whole linkRegister = linkRegister := by decide

theorem Out.mem_writes_link (out : Out) : linkRegister ∈ (out.writesOnly linkRegister).writes := by
  have h : linkRegister.full ≠ zeroRegister := by decide
  simp [Out.writesOnly, Out.recordWrite, h, whole_linkRegister]

theorem Agrees.of_target {flow : Flow} (target : Address) (hdest : out.destinations = [target])
    (hwrites : out.writes = []) (hflow : flow = .jmp (some target) ∨ flow = .branch (some target))
    (hcond : Conditional out.mnemonic → (out.condition.isSome ↔ ∃ target, flow = .branch target)) :
    Agrees out flow where
  destinations := by
    rw [hdest]
    rcases hflow with rfl | rfl <;> rfl
  call_links := by
    intro _ target hcall
    rcases hflow with rfl | rfl <;> cases hcall
  keeps_link := by simp [hwrites]
  condition := hcond

theorem branchImmediate_agrees :
    Agrees (branchImmediate word address) (branchFlow word address .immediate) := by
  have hlink := mask_link word
  unfold branchImmediate branchFlow
  by_cases hbit : bitField word 31 1 = 0
  · rw [if_pos hbit]
    have hmask := hlink.mpr hbit
    apply Agrees.of_target (relative address (field word 0 26) 26)
    · simp [hmask, Out.target, Operand.destination]
    · simp [hmask, Out.target]
    · exact .inl rfl
    · intro hcond
      refine absurd hcond (not_conditional_of_dotless ?_)
      simp [hmask, Out.target]
  · have hmask : ¬ word &&& 0x80000000#32 = 0#32 := fun h => hbit (hlink.mp h)
    simp only [hbit, hmask, ne_eq, not_false_eq_true, decide_true, if_true, if_false]
    constructor
    · simp [Out.target, Out.writesOnly, Operand.destination, Flow.target]
    · intro _ _ _
      exact Out.mem_writes_link _
    · simp
    · intro hcond
      refine absurd hcond (not_conditional_of_dotless ?_)
      simp [Out.target, Out.writesOnly]

theorem conditionalBranch_agrees :
    Agrees (conditionalBranch word address) (branchFlow word address .conditional) := by
  have h24 : field word 24 1 = bitField word 24 1 := field_eq word (by decide)
  have h0 : field word 0 4 = word.toNat / 2 ^ 0 % 2 ^ 4 := field_eq word (by decide)
  have b1 : bitField word 1 3 = word.toNat / 2 ^ 1 % 2 ^ 3 := rfl
  simp only [conditionalBranch, branchFlow]
  rw [h24]
  by_cases hbit : bitField word 24 1 ≠ 0
  · rw [if_pos hbit, if_pos hbit]
    exact Agrees.of_straight Out.straight_undecoded (.inr (.inl rfl))
  · rw [if_neg hbit, if_neg hbit]
    apply Agrees.of_target (relative address (field word 5 19) 19)
    · simp [Out.target, Operand.destination]
    · simp [Out.target]
    · split
      · exact .inl rfl
      · exact .inr rfl
    · intro _
      show (condition (field word 0 4)).isSome ↔ _
      rw [condition_isSome]
      by_cases halways : bitField word 1 3 = 0b111
      · rw [if_pos halways]
        simp
        omega
      · rw [if_neg halways]
        simp
        omega

theorem compareAndBranch_agrees :
    Agrees (compareAndBranch word address) (branchFlow word address .compare) := by
  apply Agrees.of_target (relative address (field word 5 19) 19)
  · simp [compareAndBranch, Out.target, Out.inReg, Operand.destination]
  · simp [compareAndBranch, Out.target, Out.inReg]
  · exact .inr rfl
  · intro hcond
    refine absurd hcond (not_conditional_of_dotless ?_)
    simp only [compareAndBranch, Out.target, Out.inReg, Out.mnemonic_push, Out.mnemonic_recordRead,
      Out.mnemonic_new]
    split <;> simp

theorem testAndBranch_agrees :
    Agrees (testAndBranch word address) (branchFlow word address .test) := by
  apply Agrees.of_target (relative address (field word 5 14) 14)
  · simp [testAndBranch, Out.target, Out.inReg, Out.imm, Operand.destination]
  · simp [testAndBranch, Out.target, Out.inReg, Out.imm]
  · exact .inr rfl
  · intro hcond
    refine absurd hcond (not_conditional_of_dotless ?_)
    simp only [testAndBranch, Out.target, Out.inReg, Out.imm, Out.mnemonic_push,
      Out.mnemonic_recordRead, Out.mnemonic_new]
    split <;> simp

theorem branchThroughRegister_writes {word : Word} {plain key : String} {op4Fixed : ℕ}
    {modifier : Bool} {out : Out}
    (h : branchThroughRegister word plain key op4Fixed modifier = some out) : out.writes = [] := by
  unfold branchThroughRegister at h
  dsimp only at h
  split at h
  · cases h
  · cases h
    split <;> simp [Out.inReg]

def CallsRegister (word : Word) : Prop := field word 21 4 = 0b0001 ∨ field word 21 4 = 0b1001

theorem branchRegister_cases : branchRegister word = .undecoded "unallocated" ∨
    CallsRegister word ∧ (∃ out : Out, branchRegister word = out.writesOnly linkRegister) ∨
    ¬ CallsRegister word ∧ (branchRegister word).writes = [] := by
  unfold branchRegister CallsRegister
  dsimp only
  split
  · exact .inl rfl
  split
  · exact .inl rfl
  split
  · exact .inl rfl
  split
  case h_1 hop =>
    split
    · exact .inl rfl
    · next h => exact .inr (.inr ⟨by omega, branchThroughRegister_writes h⟩)
  case h_2 hop =>
    split
    · exact .inl rfl
    · next h => exact .inr (.inr ⟨by omega, branchThroughRegister_writes h⟩)
  case h_3 hop =>
    split
    · exact .inl rfl
    · exact .inr (.inl ⟨.inl hop, _, rfl⟩)
  case h_4 hop =>
    split
    · exact .inl rfl
    · exact .inr (.inl ⟨.inr hop, _, rfl⟩)
  case h_5 hop => split_ifs <;> simp [hop, Out.readsOnly, Out.inReg]
  case h_6 hop => split_ifs <;> simp [hop, Out.readsOnly]
  case h_7 hop => split <;> simp [hop]
  case h_8 => exact .inl rfl

theorem branchRegister_agrees :
    Agrees (branchRegister word) (branchFlow word address .register) := by
  have hstraight := branchRegister_straight word
  have hdotless := not_conditional_of_dotless hstraight.dotless
  -- The destination is in a register, so neither side names one.
  have hjump : ¬ CallsRegister word → Agrees (branchRegister word) (.jmp none) := by
    intro hop
    refine ⟨hstraight.destinations, by simp, ?_, fun hcond => absurd hcond hdotless⟩
    rcases branchRegister_cases word with h | ⟨hcall, -⟩ | ⟨-, h⟩
    · simp [h, Out.undecoded]
    · exact absurd hcall hop
    · simp [h]
  have hcall : CallsRegister word → Agrees (branchRegister word) (.call none) := by
    intro hop
    refine ⟨hstraight.destinations, ?_, by simp, fun hcond => absurd hcond hdotless⟩
    intro hshaped _ _
    rcases branchRegister_cases word with h | ⟨-, out, h⟩ | ⟨hnot, -⟩
    · rw [h] at hshaped
      exact absurd hshaped Out.not_shaped_undecoded
    · rw [h]
      exact Out.mem_writes_link out
    · exact absurd hop hnot
  simp only [branchFlow]
  split
  · exact Agrees.of_straight hstraight (.inr (.inl rfl))
  split
  case h_1 hop => exact hjump (by unfold CallsRegister; omega)
  case h_2 hop => exact hjump (by unfold CallsRegister; omega)
  case h_3 hop => exact hcall (.inl hop)
  case h_4 hop => exact hcall (.inr hop)
  case h_8 => exact Agrees.of_straight hstraight (.inr (.inl rfl))
  all_goals exact Agrees.of_straight hstraight (.inr (.inr rfl))

theorem decodeOut_agrees : Agrees (decodeOut word address) (flow word address) := by
  rcases decodeOut_eq word address with ⟨kind, hkind, hout⟩ | ⟨hkind, hstraight⟩
  · rcases flow_eq word address with ⟨kind', hkind', hflow⟩ | ⟨hnone, -⟩
    · cases hkind.symm.trans hkind'
      rw [hout, hflow]
      cases kind with
      | immediate => exact branchImmediate_agrees word address
      | conditional => exact conditionalBranch_agrees word address
      | compare => exact compareAndBranch_agrees word address
      | test => exact testAndBranch_agrees word address
      | register => exact branchRegister_agrees word address
    · cases hkind.symm.trans hnone
  · rcases flow_eq word address with ⟨kind', hkind', -⟩ | ⟨-, hflow⟩
    · cases hkind.symm.trans hkind'
    · exact Agrees.of_straight hstraight (hflow.imp_right .inl)

def Decoded.Shaped (decoded : Decoded) : Prop := ∀ space, .undecoded space ∉ decoded.operands

/-- **The two decoders agree on every word at every address**: on the destination, on the link
register of a call, and on which words are conditional branches. -/
theorem decoders_agree (word : Word) (address : Address) :
    ((∃ target, .target target ∈ (decode word address).operands) ↔
      ∃ target, flow word address = .jmp (some target) ∨ flow word address = .call (some target) ∨
        flow word address = .branch (some target)) ∧
    (∀ target, (flow word address = .jmp (some target) ∨ flow word address = .call (some target) ∨
        flow word address = .branch (some target)) →
      (decode word address).operands.filterMap Operand.destination = [target]) ∧
    ((decode word address).Shaped →
      (∀ target, flow word address = .call target → linkRegister ∈ (decode word address).writes) ∧
      ∀ target, (flow word address = .jmp target ∨ flow word address = .branch target) →
        ∀ register ∈ (decode word address).writes, register.full ≠ linkRegister.full) ∧
    (Conditional (decode word address).mnemonic →
      ((decode word address).condition.isSome ↔ ∃ target, flow word address = .branch target) ∧
      ((∃ target, flow word address = .jmp target) → (decode word address).condition = none)) := by
  have h := decodeOut_agrees word address
  have htarget : ∀ target, (flow word address = .jmp (some target) ∨
      flow word address = .call (some target) ∨ flow word address = .branch (some target)) ↔
      (flow word address).target = some target := by
    intro target
    cases flow word address <;> simp [Flow.target]
  have hmem : ∀ target, .target target ∈ (decode word address).operands ↔
      target ∈ (decodeOut word address).destinations := by
    intro target
    simp [decode, Out.destinations, List.mem_filterMap, Operand.destination_eq_some]
  simp only [htarget]
  refine ⟨?_, ?_, ?_, ?_⟩
  · simp only [hmem, h.destinations, Option.mem_toList]
  · intro target htarget
    show (decodeOut word address).destinations = [target]
    rw [h.destinations, htarget]
    rfl
  · intro hshaped
    exact ⟨h.call_links hshaped, h.keeps_link⟩
  · intro hcond
    have hiff := h.condition hcond
    refine ⟨hiff, ?_⟩
    rintro ⟨target, hjump⟩
    rw [← Option.not_isSome_iff_eq_none]
    intro hsome
    obtain ⟨target', hbranch⟩ := hiff.mp hsome
    cases hjump.symm.trans hbranch

end DbgScope.Arm64
