import DbgScope.A64
import DbgScope.Arm64.Decode

/-!
# What a decoded instruction says it does

A decoded instruction names an effect and its operands, and a consumer computes with them: `add` of
two sources is their sum. `Report.written` and `Report.flags` are that computation on a machine
state, each source read at the width it is reported with and the result cut to the width of the
destination, and `Report.Holds` compares it with what the architecture does.
-/

namespace DbgScope.Arm64

open Bits
open A64 (State Outcome Register Flags datasize)

/-! ## What a report says -/

/-- What a decoded instruction says it does to its operands. -/
structure Report where
  mnemonic : String
  effect : Effect
  operands : List Operand
  deriving DecidableEq, Repr

def Out.report (out : Out) : Report := ⟨out.mnemonic, out.effect, out.operands⟩

def Decoded.report (decoded : Decoded) : Report :=
  ⟨decoded.mnemonic, decoded.effect, decoded.operands⟩

def registerNamed (name : String) : Option Register :=
  if name = gprName 31 true true then some .stack
  else if name = gprName 31 true false then some .zero
  else
    ((List.finRange 31).find? fun number : Fin 31 => gprName number true false = name).map .general

def extended {w : ℕ} (signed : Bool) (value : BitVec w) : BitVec 64 :=
  if signed then value.signExtend 64 else value.setWidth 64

/-- What a source operand carries: a register is read at the width it is reported with. -/
def carried (s : State) (signed : Bool) : Operand → Option (BitVec 64)
  | .register register =>
    (registerNamed register.full).map fun named =>
      extended signed (s.read (8 * register.width) named)
  | .immediate value => some value
  | _ => none

def Report.result (report : Report) (s : State) (sources : List Operand) : Option (BitVec 64) :=
  match report.effect, sources with
  | .move, [source] => carried s false source
  | .moveSigned, [source] => carried s true source
  | .add, [left, right] => return (← carried s false left) + (← carried s false right)
  | .subtract, [left, right] => return (← carried s false left) - (← carried s false right)
  | .bitAnd, [left, right] => return (← carried s false left) &&& (← carried s false right)
  | .bitOr, [left, right] => return (← carried s false left) ||| (← carried s false right)
  | .bitXor, [left, right] => return (← carried s false left) ^^^ (← carried s false right)
  | .shiftLeft, [left, right] =>
    return (← carried s false left) <<< (← carried s false right).toNat
  | .shiftRight, [left, right] =>
    -- The mnemonic says whether the shift repeats the sign.
    if report.mnemonic = "asr" then
      return (← carried s true left).sshiftRight (← carried s false right).toNat
    else
      return (← carried s false left) >>> (← carried s false right).toNat
  | _, _ => none

def Report.written (report : Report) (s : State) : Option (Register × BitVec 64) :=
  match report.operands with
  | .register destination :: sources => do
    let named ← registerNamed destination.full
    let value ← report.result s sources
    return (named, (value.setWidth (8 * destination.width)).setWidth 64)
  | _ => none

/-- The flags a comparison or a test says it writes, at the width of its first operand. -/
def Report.flags (report : Report) (s : State) : Option Flags :=
  match report.operands with
  | [.register left, right] => do
    let x ← carried s false (.register left)
    let y ← carried s false right
    let w := 8 * left.width
    return if report.effect = .compare then A64.subtractFlags (x.setWidth w) (y.setWidth w)
      else A64.logicFlags ((x &&& y).setWidth w)
  | _ => none

/-- What the architecture does is what the report says, as far as its effect says anything. -/
def Report.Holds (report : Report) (s : State) (outcome : Option Outcome) : Prop :=
  match report.effect with
  | .move | .moveSigned | .add | .subtract | .bitAnd | .bitOr | .bitXor | .shiftLeft
  | .shiftRight => ∃ o, outcome = some o ∧ report.written s = some (o.destination, o.value)
  | .compare | .test =>
    ∃ o, outcome = some o ∧ o.flags.isSome ∧ report.flags s = o.flags
  | _ => True

/-! ## Reading the operands back -/

theorem registerNamed_full (n : BitVec 5) (wide sp : Bool) :
    registerNamed (gpr n.toNat wide sp).full = some (.coded n sp) := by
  revert n sp
  show ∀ n : BitVec 5, ∀ sp, registerNamed (gprName n.toNat true sp) = some (.coded n sp)
  decide +kernel

theorem gpr_width (n : ℕ) (wide sp : Bool) : 8 * (gpr n wide sp).width = datasize wide := by
  cases wide <;> rfl

theorem carried_gpr (s : State) (signed : Bool) (n : BitVec 5) (wide sp : Bool) :
    carried s signed (.register (gpr n.toNat wide sp)) =
      some (extended signed (s.read (datasize wide) (.coded n sp))) := by
  rw [carried, registerNamed_full, gpr_width, Option.map_some]

@[simp] theorem carried_immediate (s : State) (signed : Bool) (value : BitVec 64) :
    carried s signed (.immediate value) = some value := rfl

section Widths

variable {wide : Bool} (x y : BitVec (datasize wide))

@[simp] theorem setWidth_setWidth_datasize : (x.setWidth 64).setWidth (datasize wide) = x := by
  rw [BitVec.setWidth_setWidth_of_le _ (A64.datasize_le wide), BitVec.setWidth_eq]

theorem setWidth_setWidth_of_fits (wide : Bool) {k : ℕ} (z : BitVec k) (hk : k ≤ 32) :
    (z.setWidth (datasize wide)).setWidth 64 = z.setWidth 64 := by
  have hw : k ≤ datasize wide := by cases wide <;> simp [datasize] <;> omega
  apply BitVec.eq_of_toNat_eq
  rw [BitVec.toNat_setWidth, BitVec.toNat_setWidth, BitVec.toNat_setWidth,
    Nat.mod_eq_of_lt (lt_of_lt_of_le z.isLt (Nat.pow_le_pow_right (by decide) hw))]

theorem setWidth_64_inj {x y : BitVec (datasize wide)} :
    x.setWidth 64 = y.setWidth 64 ↔ x = y := by
  refine ⟨fun h => ?_, fun h => by rw [h]⟩
  rw [← setWidth_setWidth_datasize x, h, setWidth_setWidth_datasize]

theorem setWidth_add_datasize :
    (x.setWidth 64 + y.setWidth 64).setWidth (datasize wide) = x + y := by
  rw [BitVec.setWidth_add _ _ (A64.datasize_le wide), setWidth_setWidth_datasize,
    setWidth_setWidth_datasize]

theorem setWidth_sub_datasize :
    (x.setWidth 64 - y.setWidth 64).setWidth (datasize wide) = x - y := by
  have hle := A64.datasize_le wide
  rw [BitVec.sub_eq_add_neg, BitVec.setWidth_add _ _ hle, BitVec.setWidth_neg_of_le hle,
    setWidth_setWidth_datasize, setWidth_setWidth_datasize, BitVec.sub_eq_add_neg]

end Widths

section Reports

variable {s : State} {mnemonic : String} {effect : Effect} {wide sp sp' : Bool} {rd rn : BitVec 5}
  {a b : Operand} {x y z : BitVec (datasize wide)}

def Effect.writesValue : Effect → Bool
  | .move | .moveSigned | .add | .subtract | .bitAnd | .bitOr | .bitXor | .shiftLeft
  | .shiftRight => true
  | _ => false

/-- **A report about a register holds exactly when the result reported is the one written.** -/
theorem holds_iff_of_result {sources : List Operand} {flags : Option Flags} (value : BitVec 64)
    (heffect : effect.writesValue = true)
    (hvalue : (Report.mk mnemonic effect (.register (gpr rd.toNat wide sp) :: sources)).result s
      sources = some value) :
    (Report.mk mnemonic effect (.register (gpr rd.toNat wide sp) :: sources)).Holds s
        (some ⟨.coded rd sp, z.setWidth 64, flags⟩) ↔ value.setWidth (datasize wide) = z := by
  have hwritten : (Report.mk mnemonic effect (.register (gpr rd.toNat wide sp) :: sources)).written
      s = some (.coded rd sp, (value.setWidth (datasize wide)).setWidth 64) := by
    simp only [Report.written, registerNamed_full, hvalue, Option.bind_eq_bind, Option.bind_some,
      Option.pure_def]
    rw [gpr_width]
  have hholds : (Report.mk mnemonic effect (.register (gpr rd.toNat wide sp) :: sources)).Holds s
      (some ⟨.coded rd sp, z.setWidth 64, flags⟩) ↔
        (Register.coded rd sp, (value.setWidth (datasize wide)).setWidth 64) =
          (Register.coded rd sp, z.setWidth 64) := by
    cases effect <;> simp_all [Report.Holds, Effect.writesValue]
  rw [hholds, Prod.mk.injEq, setWidth_64_inj]
  exact and_iff_right rfl

/-- **A sum or a difference is the one reported exactly when the carry put in is the one of an
addition or subtraction of two operands.** -/
theorem holds_addSubtract_iff (subtract setsFlags carry : Bool)
    (ha : carried s false a = some (x.setWidth 64))
    (hb : carried s false b = some (y.setWidth 64)) :
    (Report.mk mnemonic (if subtract then .subtract else .add)
        [.register (gpr rd.toNat wide sp), a, b]).Holds s
      (some (A64.addSubtract subtract setsFlags carry (.coded rd sp) x y)) ↔ carry = subtract := by
  have hw := A64.datasize_pos wide
  rw [A64.addSubtract]
  cases subtract with
  | false =>
    rw [holds_iff_of_result (x.setWidth 64 + y.setWidth 64) rfl
      (by simp [Report.result, ha, hb]), setWidth_add_datasize, eq_comm]
    exact A64.addWithCarry_fst_eq_add_iff hw x y carry
  | true =>
    rw [holds_iff_of_result (x.setWidth 64 - y.setWidth 64) rfl
      (by simp [Report.result, ha, hb]), setWidth_sub_datasize, eq_comm]
    exact A64.addWithCarry_not_fst_eq_sub_iff hw x y carry

theorem holds_compare {destination : Register}
    (ha : carried s false (.register (gpr rn.toNat wide sp)) = some (x.setWidth 64))
    (hb : carried s false b = some (y.setWidth 64)) :
    (Report.mk mnemonic .compare [.register (gpr rn.toNat wide sp), b]).Holds s
      (some (A64.addSubtract true true true destination x y)) := by
  refine ⟨_, rfl, rfl, ?_⟩
  simp only [Report.flags, ha, hb, Option.bind_eq_bind, Option.bind_some, Option.pure_def]
  rw [gpr_width, setWidth_setWidth_datasize, setWidth_setWidth_datasize]
  exact congrArg some (A64.addWithCarry_not_snd (A64.datasize_pos wide) x y).symm

def logicEffect (opc : ℕ) : Effect :=
  match opc with
  | 0b00 | 0b11 => .bitAnd
  | 0b01 => .bitOr
  | _ => .bitXor

theorem opc_cases (opc : BitVec 2) : opc = 0#2 ∨ opc = 1#2 ∨ opc = 2#2 ∨ opc = 3#2 := by
  revert opc
  decide

theorem holds_logic {opc : BitVec 2} (heffect : effect = logicEffect opc.toNat)
    (ha : carried s false a = some (x.setWidth 64))
    (hb : carried s false b = some (y.setWidth 64)) :
    (Report.mk mnemonic effect [.register (gpr rd.toNat wide sp), a, b]).Holds s
      (some (A64.logic opc (.coded rd sp) x y)) := by
  subst heffect
  unfold A64.logic
  obtain rfl | rfl | rfl | rfl := opc_cases opc
  · exact (holds_iff_of_result (x.setWidth 64 &&& y.setWidth 64) rfl
      (by simp [Report.result, logicEffect, ha, hb])).mpr (by simp [BitVec.setWidth_and])
  · exact (holds_iff_of_result (x.setWidth 64 ||| y.setWidth 64) rfl
      (by simp [Report.result, logicEffect, ha, hb])).mpr (by simp [BitVec.setWidth_or])
  · exact (holds_iff_of_result (x.setWidth 64 ^^^ y.setWidth 64) rfl
      (by simp [Report.result, logicEffect, ha, hb])).mpr (by simp [BitVec.setWidth_xor])
  · exact (holds_iff_of_result (x.setWidth 64 &&& y.setWidth 64) rfl
      (by simp [Report.result, logicEffect, ha, hb])).mpr (by simp [BitVec.setWidth_and])

theorem holds_test {destination : Register}
    (ha : carried s false (.register (gpr rn.toNat wide sp)) = some (x.setWidth 64))
    (hb : carried s false b = some (y.setWidth 64)) :
    (Report.mk mnemonic .test [.register (gpr rn.toNat wide sp), b]).Holds s
      (some (A64.logic 0b11#2 destination x y)) := by
  refine ⟨_, rfl, rfl, ?_⟩
  simp only [Report.flags, ha, hb, Option.bind_eq_bind, Option.bind_some, Option.pure_def]
  rw [gpr_width, BitVec.setWidth_and, setWidth_setWidth_datasize, setWidth_setWidth_datasize]
  rfl

theorem holds_move (flags : Option Flags) (ha : carried s false a = some (x.setWidth 64)) :
    (Report.mk mnemonic .move [.register (gpr rd.toNat wide sp), a]).Holds s
      (some ⟨.coded rd sp, x.setWidth 64, flags⟩) :=
  (holds_iff_of_result (x.setWidth 64) rfl (by simpa [Report.result] using ha)).mpr
    (setWidth_setWidth_datasize x)

theorem holds_other {operands : List Operand} {outcome : Option Outcome} :
    (Report.mk mnemonic .other operands).Holds s outcome := trivial

end Reports

/-! ## What the builder reports -/

namespace Out

variable (out : Out) (register : RegisterOperand)

@[simp] theorem report_new (m : String) : (new m).report = ⟨m, .other, []⟩ := rfl
@[simp] theorem report_undecoded (space : String) :
    (undecoded space).report = ⟨"", .other, [.undecoded space]⟩ := rfl
@[simp] theorem report_push (o : Operand) :
    (out.push o).report = { out.report with operands := out.report.operands ++ [o] } := rfl
@[simp] theorem report_withEffect (e : Effect) :
    (out.withEffect e).report = { out.report with effect := e } := rfl
@[simp] theorem report_flags : out.flags.report = out.report := rfl
@[simp] theorem report_recordWrite : (out.recordWrite register).report = out.report := by
  unfold recordWrite
  split <;> rfl
@[simp] theorem report_recordRead : (out.recordRead register).report = out.report := by
  unfold recordRead
  split <;> rfl

@[simp] theorem report_outReg : (out.outReg register).report =
    { out.report with operands := out.report.operands ++ [.register register] } := by
  simp [outReg]
@[simp] theorem report_inReg : (out.inReg register).report =
    { out.report with operands := out.report.operands ++ [.register register] } := by
  simp [inReg]
@[simp] theorem report_inoutReg : (out.inoutReg register).report =
    { out.report with operands := out.report.operands ++ [.register register] } := by
  simp [inoutReg]
@[simp] theorem report_imm (v : BitVec 64) : (out.imm v).report =
    { out.report with operands := out.report.operands ++ [.immediate v] } := rfl
@[simp] theorem report_other (text : String) : (out.other text).report =
    { out.report with operands := out.report.operands ++ [.other text] } := rfl
@[simp] theorem report_ite_flags (setsFlags : Prop) [Decidable setsFlags] :
    (if setsFlags then out.flags else out).report = out.report := by
  split <;> rfl

end Out

/-! ## Fields of a word -/

section Fields

variable (word : Word)

theorem field_extractLsb {lo width : ℕ} (h : width ≤ 32) :
    field word lo width = (word.extractLsb' lo width).toNat := by
  rw [field_eq word h, bitField, BitVec.extractLsb'_toNat, Nat.shiftRight_eq_div_pow]

theorem and_bit_ne_zero (i : ℕ) (hi : i < 32) :
    decide (word &&& BitVec.twoPow 32 i ≠ 0#32) = word.getLsbD i := by
  rw [BitVec.and_twoPow]
  cases word.getLsbD i with
  | false => simp
  | true =>
    have hne : BitVec.twoPow 32 i ≠ 0#32 := by
      intro h
      have := congrArg (·.getLsbD i) h
      simp [hi] at this
    simp [hne]

theorem wide_bit : decide (word &&& 0x80000000#32 ≠ 0#32) = word.getLsbD 31 :=
  and_bit_ne_zero word 31 (by decide)

theorem subtract_bit : decide (word &&& 0x40000000#32 ≠ 0#32) = word.getLsbD 30 :=
  and_bit_ne_zero word 30 (by decide)

theorem setsFlags_bit : decide (word &&& 0x20000000#32 ≠ 0#32) = word.getLsbD 29 :=
  and_bit_ne_zero word 29 (by decide)

end Fields

end DbgScope.Arm64
