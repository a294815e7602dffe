import DbgScope.Arm64.Bitmask
import DbgScope.Arm64.Reports

/-!
# An effect claims what the operands carry

For each class of integer data processing, the report of a word against what the architecture
defines for it. Seven of the eight classes report nothing but the truth
(`addSubtractImmediate_holds` to `bitfield_holds`). The eighth is addition and subtraction with
carry: the carry flag is an operand that no list names, so a report of that class holds exactly in
the states whose carry is the one of the plain operation (`addSubtractWithCarry_holds_iff`). Over
all the classes, that is `effect_holds_iff`.
-/

namespace DbgScope.Arm64

open Bits
open A64 (State Outcome Register Flags datasize)

/-! ## Addition and subtraction -/

section AddSubtract

variable (word : Word) (s : State)

theorem shiftedImmediate_eq (wide : Bool) (hshift : (word.extractLsb' 22 2).toNat ≤ 1) :
    BitVec.ofNat 64 (word.extractLsb' 10 12).toNat <<< ((word.extractLsb' 22 2).toNat * 12) =
      (if word.getLsbD 22 then (word.extractLsb' 10 12 ++ 0#12).setWidth (datasize wide)
        else (word.extractLsb' 10 12).setWidth (datasize wide)).setWidth 64 := by
  have hbit : word.getLsbD 22 = (word.extractLsb' 22 2).getLsbD 0 := by simp
  rw [hbit]
  generalize word.extractLsb' 22 2 = shift at hshift ⊢
  generalize word.extractLsb' 10 12 = imm
  obtain rfl | rfl | rfl | rfl := opc_cases shift
  · simpa using (setWidth_setWidth_of_fits wide imm (by omega)).symm
  · have hshifted : imm.setWidth 64 <<< 12 = (imm ++ 0#12).setWidth 64 := by
      apply BitVec.eq_of_getLsbD_eq
      intro i hi
      rw [BitVec.getLsbD_shiftLeft, BitVec.getLsbD_setWidth, BitVec.getLsbD_setWidth,
        BitVec.getLsbD_append]
      by_cases h : i < 12
      · simp [h]
      · simp [h, hi, show i - 12 < 64 by omega]
    simpa [hshifted] using (setWidth_setWidth_of_fits wide (imm ++ 0#12) (by omega)).symm
  · exact absurd hshift (by decide)
  · exact absurd hshift (by decide)

theorem addSubtractImmediate_holds :
    (addSubtractImmediate word).report.Holds s (A64.addSubtractImmediate word s) := by
  unfold addSubtractImmediate A64.addSubtractImmediate
  simp (disch := decide) only [field_extractLsb word, wide_bit, subtract_bit, setsFlags_bit]
  split
  · exact holds_other
  next hshift =>
  rw [shiftedImmediate_eq word (word.getLsbD 31) (by omega)]
  generalize word.getLsbD 31 = wide
  generalize word.getLsbD 30 = subtract
  generalize word.getLsbD 29 = setsFlags
  generalize word.extractLsb' 0 5 = rd
  generalize word.extractLsb' 5 5 = rn
  generalize (if word.getLsbD 22 then (word.extractLsb' 10 12 ++ 0#12).setWidth (datasize wide)
    else (word.extractLsb' 10 12).setWidth (datasize wide)) = y
  have hleft := carried_gpr s false rn wide true
  have hright : carried s false (.immediate (y.setWidth 64)) = some (y.setWidth 64) := rfl
  split
  next hcmp =>
    obtain ⟨rfl, rfl, -⟩ := hcmp
    simpa using holds_compare hleft hright
  next =>
  split
  next => simpa using holds_other
  next =>
  split
  next hmov =>
    obtain ⟨hflags, hsubtract, hzero, -⟩ := hmov
    simp only [Bool.not_eq_true] at hflags hsubtract
    subst hflags hsubtract
    have hy : y = 0#_ := setWidth_64_inj.mp (by simpa using hzero)
    subst hy
    have hsum := (A64.addWithCarry_fst_eq_add_iff (A64.datasize_pos wide)
      (s.read (datasize wide) (.coded rn true)) 0#_ false).mpr rfl
    rw [BitVec.add_zero] at hsum
    simpa [A64.addSubtract, hsum] using holds_move none hleft
  next =>
    simpa using (holds_addSubtract_iff subtract setsFlags subtract hleft hright).mpr rfl

theorem finishModifier_holds {out : Out} {modifier : Option String} {effect : Effect}
    {outcome : Option Outcome} (hout : out.report.effect = .other)
    (h : modifier = none → (out.withEffect effect).report.Holds s outcome) :
    (finishModifier out modifier effect).report.Holds s outcome := by
  cases modifier with
  | none => exact h rfl
  | some text =>
    have heffect : (finishModifier out (some text) effect).report.effect = .other := hout
    rw [Report.Holds, heffect]
    trivial

theorem shiftRegister_of_unmodified {w kind : ℕ} {shift : A64.Shift} {amount : ℕ} (x : BitVec w)
    (h : shiftModifier kind amount = none) : A64.shiftRegister x shift amount = x := by
  have hamount : amount = 0 := by simpa [shiftModifier] using h
  rw [hamount, A64.shiftRegister_zero]

theorem getLsbD_five (amount : BitVec 6) : amount.getLsbD 5 = true ↔ amount.toNat ≥ 32 := by
  revert amount
  decide

theorem addSubtractShiftedRegister_holds :
    (addSubtractShiftedRegister word).report.Holds s (A64.addSubtractShifted word s) := by
  unfold addSubtractShiftedRegister A64.addSubtractShifted
  simp (disch := decide) only [field_extractLsb word, wide_bit, subtract_bit, setsFlags_bit]
  generalize word.getLsbD 31 = wide
  generalize word.getLsbD 30 = subtract
  generalize word.getLsbD 29 = setsFlags
  generalize word.extractLsb' 0 5 = rd
  generalize word.extractLsb' 5 5 = rn
  generalize word.extractLsb' 16 5 = rm
  generalize word.extractLsb' 22 2 = shift
  generalize word.extractLsb' 10 6 = amount
  split
  · exact holds_other
  next hallocated =>
  have hdefined : ¬ (shift = 0b11#2 ∨ (¬ wide = true ∧ amount.getLsbD 5 = true)) := by
    rw [getLsbD_five, ← BitVec.toNat_inj]
    exact hallocated
  rw [Out.report_ite_flags, if_neg hdefined]
  have hleft := carried_gpr s false rn wide false
  have hright := carried_gpr s false rm wide false
  split
  next hcmp =>
    obtain ⟨rfl, rfl, -⟩ := hcmp
    refine finishModifier_holds s (by simp) fun hnone => ?_
    simpa [shiftRegister_of_unmodified _ hnone] using holds_compare hleft hright
  next =>
  split
  next => exact finishModifier_holds s (by simp) fun _ => by simpa using holds_other
  next =>
  split
  next => exact finishModifier_holds s (by simp) fun _ => by simpa using holds_other
  next =>
    refine finishModifier_holds s (by simp) fun hnone => ?_
    simpa [shiftRegister_of_unmodified _ hnone] using
      (holds_addSubtract_iff subtract setsFlags subtract hleft hright).mpr rfl

theorem setWidth_read {w v : ℕ} (h : w ≤ v) (register : Register) :
    (s.read v register).setWidth w = s.read w register := by
  cases register <;> simp [A64.State.read, BitVec.setWidth_setWidth_of_le _ h]

theorem extendRegister_plain (wide : Bool) (option : BitVec 3) (rm : BitVec 5)
    (hplain : option = 0b010#3 ∨ option = 0b011#3) :
    carried s false (.register
        (gpr rm.toNat (wide && decide (option.toNat &&& 0b011 = 0b011)) false)) =
      some ((A64.extendRegister (s.read (datasize wide) (.coded rm false))
        (.coded option) 0).setWidth 64) := by
  rw [carried_gpr]
  have hw : A64.Extension.coded 0b010#3 = ⟨32, false⟩ := by decide
  have hx : A64.Extension.coded 0b011#3 = ⟨64, false⟩ := by decide
  obtain rfl | rfl := hplain
  · rw [hw]
    cases wide with
    | false =>
      rw [A64.extendRegister_whole _ (show datasize false ≤ 32 by decide)]
      rfl
    | true =>
      rw [A64.extendRegister_unsigned_zero]
      show some ((s.read 32 (.coded rm false)).setWidth 64) =
        some ((((s.read 64 (.coded rm false)).setWidth 32).setWidth 64).setWidth 64)
      rw [setWidth_read s (show 32 ≤ 64 by decide), BitVec.setWidth_eq]
  · rw [hx, A64.extendRegister_whole _ (A64.datasize_le wide)]
    cases wide <;> rfl

theorem addSubtractExtendedRegister_holds :
    (addSubtractExtendedRegister word).report.Holds s (A64.addSubtractExtended word s) := by
  unfold addSubtractExtendedRegister A64.addSubtractExtended
  simp (disch := decide) only [field_extractLsb word, wide_bit, subtract_bit, setsFlags_bit]
  generalize word.getLsbD 31 = wide
  generalize word.getLsbD 30 = subtract
  generalize word.getLsbD 29 = setsFlags
  generalize word.extractLsb' 0 5 = rd
  generalize word.extractLsb' 5 5 = rn
  generalize word.extractLsb' 16 5 = rm
  generalize word.extractLsb' 22 2 = opt
  generalize word.extractLsb' 10 3 = amount
  generalize word.extractLsb' 13 3 = option
  split
  · exact holds_other
  next hallocated =>
  have hdefined : ¬ (opt ≠ 0b00#2 ∨ amount.toNat > 4) := by
    rw [ne_eq, ← BitVec.toNat_inj]
    exact hallocated
  rw [Out.report_ite_flags, if_neg hdefined]
  have hleft := carried_gpr s false rn wide true
  have hright : (if decide (amount.toNat = 0 ∧ (option.toNat = 2 ∨ option.toNat = 3)) = true then
        none else some (extensionName option.toNat ++ " #" ++ hex amount.toNat)) = none →
      carried s false (.register
          (gpr rm.toNat (wide && decide (option.toNat &&& 3 = 3)) false)) =
        some ((A64.extendRegister (s.read (datasize wide) (.coded rm false)) (.coded option)
          amount.toNat).setWidth 64) := by
    intro hnone
    split at hnone
    next hplain =>
      obtain ⟨hamount, hoption⟩ := of_decide_eq_true hplain
      rw [hamount]
      exact extendRegister_plain s wide option rm
        (hoption.imp (fun h => BitVec.toNat_inj.mp h) fun h => BitVec.toNat_inj.mp h)
    next => cases hnone
  split
  next hcmp =>
    obtain ⟨rfl, rfl, -⟩ := hcmp
    refine finishModifier_holds s (by simp) fun hnone => ?_
    simpa using holds_compare hleft (hright hnone)
  next =>
  split
  next => exact finishModifier_holds s (by simp) fun _ => by simpa using holds_other
  next =>
    refine finishModifier_holds s (by simp) fun hnone => ?_
    simpa using (holds_addSubtract_iff subtract setsFlags subtract hleft (hright hnone)).mpr rfl

theorem addSubtractWithCarry_holds_iff :
    (addSubtractWithCarry word).report.Holds s (A64.addSubtractCarry word s) ↔
      ((word.getLsbD 30 = true → word.extractLsb' 5 5 ≠ 31#5) → s.flags.c = word.getLsbD 30) := by
  unfold addSubtractWithCarry A64.addSubtractCarry
  simp (disch := decide) only [field_extractLsb word, wide_bit, subtract_bit, setsFlags_bit]
  generalize word.getLsbD 31 = wide
  generalize word.getLsbD 30 = subtract
  generalize word.getLsbD 29 = setsFlags
  generalize word.extractLsb' 0 5 = rd
  generalize word.extractLsb' 5 5 = rn
  generalize word.extractLsb' 16 5 = rm
  rw [Out.report_ite_flags]
  have hleft := carried_gpr s false rn wide false
  have hright := carried_gpr s false rm wide false
  split
  next hneg =>
    obtain ⟨rfl, hrn⟩ := hneg
    have hrn : rn = 31#5 := BitVec.toNat_inj.mp hrn
    simp [hrn, Report.Holds]
  next hnot =>
    have hgiven : subtract = true → rn ≠ 31#5 := fun hs hr => hnot ⟨hs, by rw [hr]; rfl⟩
    rw [imp_iff_right hgiven]
    simpa using holds_addSubtract_iff subtract setsFlags s.flags.c hleft hright

end AddSubtract

/-! ## Logic -/

section Logic

variable (word : Word) (s : State)

theorem logicalShiftedRegister_holds :
    (logicalShiftedRegister word).report.Holds s (A64.logicalShifted word s) := by
  have hnegated : decide ((word.extractLsb' 21 1).toNat ≠ 0) = word.getLsbD 21 := by
    have hbit : word.getLsbD 21 = (word.extractLsb' 21 1).getLsbD 0 := by simp
    rw [hbit]
    generalize word.extractLsb' 21 1 = bit
    revert bit
    decide
  unfold logicalShiftedRegister A64.logicalShifted
  simp (disch := decide) only [field_extractLsb word, hnegated, wide_bit]
  generalize word.getLsbD 31 = wide
  generalize word.getLsbD 21 = negated
  generalize word.extractLsb' 0 5 = rd
  generalize word.extractLsb' 5 5 = rn
  generalize word.extractLsb' 16 5 = rm
  generalize word.extractLsb' 22 2 = shift
  generalize word.extractLsb' 10 6 = amount
  generalize word.extractLsb' 29 2 = opc
  split
  · exact holds_other
  next hallocated =>
  have hdefined : ¬ (¬ wide = true ∧ amount.getLsbD 5 = true) := by
    rw [getLsbD_five]
    exact hallocated
  rw [if_neg hdefined]
  have hleft := carried_gpr s false rn wide false
  have hright := carried_gpr s false rm wide false
  split
  next hmov =>
    obtain ⟨hopc, hnegated, hrn, -, hnone⟩ := hmov
    obtain rfl : opc = 0b01#2 := BitVec.toNat_inj.mp hopc
    obtain rfl : rn = 31#5 := BitVec.toNat_inj.mp hrn
    obtain rfl : negated = false := by simpa using hnegated
    have hzero : s.read (datasize wide) (.coded 31#5 false) = 0#_ := rfl
    rw [shiftRegister_of_unmodified _ (Option.isNone_iff_eq_none.mp hnone), hzero]
    simpa [A64.logic] using holds_move none hright
  next =>
  split
  next => exact finishModifier_holds s (by simp) fun _ => by simpa using holds_other
  next =>
  split
  next htst =>
    obtain ⟨hopc, hnegated, -⟩ := htst
    obtain rfl : opc = 0b11#2 := BitVec.toNat_inj.mp hopc
    obtain rfl : negated = false := by simpa using hnegated
    rw [Out.report_flags]
    refine finishModifier_holds s (by simp) fun hnone => ?_
    simpa [shiftRegister_of_unmodified _ hnone] using holds_test hleft hright
  next =>
    rw [Out.report_ite_flags]
    refine finishModifier_holds s (by simp) fun hnone => ?_
    cases negated with
    | true => simpa using holds_other
    | false =>
      rw [shiftRegister_of_unmodified _ hnone]
      simp only [Out.report_withEffect, Out.report_inReg, Out.report_outReg, Out.report_new]
      refine holds_logic ?_ hleft hright
      obtain rfl | rfl | rfl | rfl := opc_cases opc <;> rfl

theorem logicalImmediate_holds :
    (logicalImmediate word).report.Holds s (A64.logicalImmediate word s) := by
  unfold logicalImmediate A64.logicalImmediate
  simp (disch := decide) only [field_extractLsb word, wide_bit, bitmaskImmediate_eq]
  generalize word.getLsbD 31 = wide
  generalize word.extractLsb' 0 5 = rd
  generalize word.extractLsb' 5 5 = rn
  generalize word.extractLsb' 29 2 = opc
  generalize word.extractLsb' 22 1 = immN
  split
  next => exact holds_other
  next value hvalue =>
  obtain ⟨hdefined, masks, hmasks, rfl⟩ : ¬ (¬ wide = true ∧ immN ≠ 0#1) ∧
      ∃ masks, A64.decodeBitMasks (datasize wide) immN (word.extractLsb' 10 6)
        (word.extractLsb' 16 6) true = some masks ∧ masks.1.setWidth 64 = value := by
    split at hvalue
    next => cases hvalue
    next h => exact ⟨h, Option.map_eq_some_iff.mp hvalue⟩
  rw [if_neg hdefined, hmasks, Option.map_some]
  generalize masks.1 = y
  have hleft := carried_gpr s false rn wide false
  have hright : carried s false (.immediate (y.setWidth 64)) = some (y.setWidth 64) := rfl
  split
  next hmov =>
    obtain ⟨hopc, hrn⟩ := hmov
    obtain rfl : opc = 0b01#2 := BitVec.toNat_inj.mp hopc
    obtain rfl : rn = 31#5 := BitVec.toNat_inj.mp hrn
    have hzero : s.read (datasize wide) (.coded 31#5 false) = 0#_ := rfl
    rw [hzero]
    simpa [A64.logic] using holds_move none hright
  next =>
  split
  next htst =>
    obtain ⟨hopc, -⟩ := htst
    obtain rfl : opc = 0b11#2 := BitVec.toNat_inj.mp hopc
    simpa using holds_test hleft hright
  next =>
    have hsp : decide (opc.toNat ≠ 3) = decide (opc ≠ 0b11#2) := by
      obtain rfl | rfl | rfl | rfl := opc_cases opc <;> rfl
    rw [Out.report_ite_flags, hsp]
    simp only [Out.report_withEffect, Out.report_inReg, Out.report_outReg, Out.report_imm,
      Out.report_new]
    refine holds_logic ?_ hleft hright
    obtain rfl | rfl | rfl | rfl := opc_cases opc <;> rfl

end Logic

/-! ## Wide moves -/

section MoveWide

variable (word : Word) (s : State)

theorem setWidth_shiftLeft_of_fits {w k pos : ℕ} (hw : w ≤ 64) (imm : BitVec k)
    (hfits : pos + k ≤ w) : (imm.setWidth w <<< pos).setWidth 64 = imm.setWidth 64 <<< pos := by
  apply BitVec.eq_of_getLsbD_eq
  intro i hi
  simp only [BitVec.getLsbD_setWidth, BitVec.getLsbD_shiftLeft]
  by_cases h : i < pos + k
  · simp [hi, show i < w by omega, show i - pos < w by omega, show i - pos < 64 by omega]
  · simp [BitVec.getLsbD_of_ge imm (i - pos) (by omega)]

theorem not_and_maskOf {w : ℕ} (z : BitVec w) :
    ~~~(z.setWidth 64) &&& maskOf w = (~~~z).setWidth 64 := by
  apply BitVec.eq_of_getLsbD_eq
  intro i hi
  simp only [BitVec.getLsbD_and, BitVec.getLsbD_not, BitVec.getLsbD_setWidth, getLsbD_maskOf]
  by_cases h : i < w <;> simp [h, hi]

theorem halfword_position (hw : BitVec 2) :
    (hw ++ 0#4).toNat = hw.toNat * 16 ∧ (hw.getLsbD 1 = true ↔ hw.toNat * 16 ≥ 32) := by
  revert hw
  decide

theorem moveWideImmediate_holds :
    (moveWideImmediate word).report.Holds s (A64.moveWide word s) := by
  unfold moveWideImmediate A64.moveWide
  simp (disch := decide) only [field_extractLsb word, wide_bit]
  generalize word.getLsbD 31 = wide
  generalize word.extractLsb' 0 5 = rd
  generalize word.extractLsb' 5 16 = imm
  generalize word.extractLsb' 21 2 = hw
  generalize word.extractLsb' 29 2 = opc
  split
  · exact holds_other
  next hallocated =>
  obtain ⟨hpos, hhigh⟩ := halfword_position hw
  have hdefined : ¬ (opc = 0b01#2 ∨ (¬ wide = true ∧ hw.getLsbD 1 = true)) := by
    rw [hhigh, ← BitVec.toNat_inj]
    exact hallocated
  have hfits : hw.toNat * 16 + 16 ≤ datasize wide := by
    have := hw.isLt
    cases wide <;> simp [datasize] at hallocated ⊢ <;> omega
  have hsize : (if wide = true then 64 else 32) = datasize wide := rfl
  rw [if_neg hdefined, hpos, hsize, BitVec.ofNat_toNat,
    ← setWidth_shiftLeft_of_fits (A64.datasize_le wide) imm hfits]
  generalize imm.setWidth (datasize wide) <<< (hw.toNat * 16) = z
  have hvalue : ∀ v : BitVec (datasize wide),
      carried s false (.immediate (v.setWidth 64)) = some (v.setWidth 64) := fun _ => rfl
  obtain rfl | rfl | rfl | rfl := opc_cases opc
  · simpa [not_and_maskOf] using holds_move none (hvalue (~~~z))
  · exact absurd (.inl rfl) hdefined
  · simpa using holds_move none (hvalue z)
  · simpa using holds_other

end MoveWide

/-! ## Bit fields -/

section Bitfield

variable (word : Word) (s : State) {mnemonic : String} {wide : Bool} {rd rn : BitVec 5}

theorem toNat_amount {amount : ℕ} (h : amount < 64) : (BitVec.ofNat 64 amount).toNat = amount := by
  rw [BitVec.toNat_ofNat, Nat.mod_eq_of_lt (by omega)]

section Shifts

variable {x : BitVec (datasize wide)} {a : Operand} {amount : ℕ}

theorem holds_shiftLeft (hamount : amount < 64) (ha : carried s false a = some (x.setWidth 64)) :
    (Report.mk mnemonic .shiftLeft
        [.register (gpr rd.toNat wide false), a, .immediate (BitVec.ofNat 64 amount)]).Holds s
      (some ⟨.coded rd false, (x <<< amount).setWidth 64, none⟩) := by
  have hle := A64.datasize_le wide
  refine (holds_iff_of_result (x.setWidth 64 <<< amount) rfl ?_).mpr ?_
  · simp [Report.result, ha, toNat_amount hamount]
  · apply BitVec.eq_of_getLsbD_eq
    intro i hi
    simp only [BitVec.getLsbD_setWidth, BitVec.getLsbD_shiftLeft]
    simp [hi, show i < 64 by omega, show i - amount < 64 by omega]

theorem holds_shiftRight (hamount : amount < 64) (ha : carried s false a = some (x.setWidth 64)) :
    (Report.mk "lsr" .shiftRight
        [.register (gpr rd.toNat wide false), a, .immediate (BitVec.ofNat 64 amount)]).Holds s
      (some ⟨.coded rd false, (x >>> amount).setWidth 64, none⟩) := by
  have hle := A64.datasize_le wide
  refine (holds_iff_of_result (x.setWidth 64 >>> amount) rfl ?_).mpr ?_
  · simp [Report.result, ha, toNat_amount hamount]
  · apply BitVec.eq_of_getLsbD_eq
    intro i hi
    simp only [BitVec.getLsbD_setWidth, BitVec.getLsbD_ushiftRight]
    by_cases h : amount + i < datasize wide
    · simp [hi, show amount + i < 64 by omega]
    · simp [BitVec.getLsbD_of_ge x (amount + i) (by omega)]

theorem holds_shiftRight_signed (hamount : amount < 64)
    (ha : carried s true a = some (x.signExtend 64)) :
    (Report.mk "asr" .shiftRight
        [.register (gpr rd.toNat wide false), a, .immediate (BitVec.ofNat 64 amount)]).Holds s
      (some ⟨.coded rd false, (x.sshiftRight amount).setWidth 64, none⟩) := by
  have hle := A64.datasize_le wide
  have hmsb : (x.signExtend 64).msb = x.msb := by
    rw [BitVec.msb_eq_getLsbD_last, BitVec.getLsbD_signExtend, BitVec.msb_eq_getLsbD_last x]
    split
    next h => simp [show datasize wide = 64 by omega]
    next h => simp
  refine (holds_iff_of_result ((x.signExtend 64).sshiftRight amount) rfl ?_).mpr ?_
  · simp [Report.result, ha, toNat_amount hamount]
  · apply BitVec.eq_of_getLsbD_eq
    intro i hi
    simp only [BitVec.getLsbD_setWidth, BitVec.getLsbD_sshiftRight, BitVec.getLsbD_signExtend, hmsb]
    by_cases h : amount + i < datasize wide
    · simp [hi, h, show amount + i < 64 by omega, show ¬ 64 ≤ i by omega]
    · by_cases h' : amount + i < 64 <;>
        simp [hi, h, h', show ¬ 64 ≤ i by omega, show ¬ datasize wide ≤ i by omega]

end Shifts

theorem holds_wordExtension (signed : Bool) {wmask tmask destination : BitVec (datasize true)}
    (masks : A64.FieldMasks 0 31 wmask tmask) :
    (Report.mk mnemonic (if signed then .moveSigned else .move)
        [.register (gpr rd.toNat true false), .register (gpr rn.toNat false false)]).Holds s
      (some ⟨.coded rd false, (A64.bitfieldMove (if signed then 0b00#2 else 0b10#2) 0 31 wmask tmask
        (s.read (datasize true) (.coded rn false)) destination).setWidth 64, none⟩) := by
  have hword : (s.read (datasize true) (.coded rn false)).setWidth (31 + 1) =
      s.read (datasize false) (.coded rn false) := setWidth_read s (by decide) _
  refine (holds_iff_of_result (extended signed (s.read (datasize false) (.coded rn false))) ?_
    ?_).mpr ?_
  · cases signed <;> rfl
  · cases signed <;> exact carried_gpr s _ rn false false
  · rw [A64.bitfieldMove_extend masks (by decide), hword]
    cases signed <;> exact BitVec.setWidth_eq _

theorem bitfield_defined {opc : BitVec 2} {immN : BitVec 1} {immr imms : BitVec 6}
    (h : ¬ (immN.toNat ≠ wide.toNat ∨ opc.toNat = 3)) (hr : immr.toNat < datasize wide)
    (hs : imms.toNat < datasize wide) :
    ¬ (opc = 0b11#2 ∨ immN ≠ BitVec.ofBool wide ∨
      (¬ wide = true ∧ (immr.getLsbD 5 = true ∨ imms.getLsbD 5 = true))) := by
  rw [getLsbD_five, getLsbD_five]
  rintro (rfl | hN | ⟨hnarrow, hbig⟩)
  · exact h (.inr rfl)
  · refine h (.inl fun heq => hN ?_)
    apply BitVec.eq_of_toNat_eq
    rw [heq, BitVec.toNat_ofBool]
  · obtain rfl : wide = false := by simpa using hnarrow
    have hsize : datasize false = 32 := rfl
    omega

theorem bitfield_holds : (bitfield word).report.Holds s (A64.bitfield word s) := by
  unfold bitfield A64.bitfield
  simp only [field_extractLsb word (show 1 ≤ 32 by decide),
    field_extractLsb word (show 2 ≤ 32 by decide), field_extractLsb word (show 6 ≤ 32 by decide),
    field_extractLsb word (show 5 ≤ 32 by decide), wide_bit]
  generalize word.getLsbD 31 = wide
  generalize word.extractLsb' 0 5 = rd
  generalize word.extractLsb' 5 5 = rn
  generalize word.extractLsb' 29 2 = opc
  generalize word.extractLsb' 22 1 = immN
  generalize word.extractLsb' 16 6 = immr
  generalize word.extractLsb' 10 6 = imms
  have hsize : (if wide = true then 64 else 32) = datasize wide := rfl
  rw [hsize]
  split
  · exact holds_other
  next hfirst =>
  split
  · exact holds_other
  next hsecond =>
  obtain ⟨hr, hs⟩ : immr.toNat < datasize wide ∧ imms.toNat < datasize wide := by
    rw [not_or, not_le, not_le] at hsecond
    exact hsecond
  have hdefined := bitfield_defined hfirst hr hs
  obtain rfl : immN = BitVec.ofBool wide := by
    by_contra h
    exact hdefined (.inr (.inl h))
  obtain ⟨masks, hmasks, hfields⟩ := A64.decodeBitMasks_field wide hs hr
  rw [if_neg hdefined, hmasks, Option.map_some]
  have hle := A64.datasize_le wide
  have hr64 : immr.toNat < 64 := by omega
  have hsource := carried_gpr s false rn wide false
  have hsigned := carried_gpr s true rn wide false
  obtain rfl | rfl | rfl | rfl := opc_cases opc
  -- `sbfm`: the byte and half-word extensions claim nothing, the word's and `asr` do.
  · simp only [BitVec.toNat_ofNat, Nat.reducePow, Nat.zero_mod]
    split
    next => simpa using holds_other
    next =>
    split
    next => simpa using holds_other
    next =>
    split
    next hword =>
      obtain ⟨hr0, hs31, rfl⟩ := hword
      rw [hr0, hs31] at hfields ⊢
      simpa using holds_wordExtension s true hfields
    next =>
    split
    next htop =>
      rw [htop] at hfields ⊢
      rw [A64.bitfieldMove_asr hfields hr]
      simpa using holds_shiftRight_signed s hr64 hsigned
    next =>
    split
    next => simpa using holds_other
    next => simpa using holds_other
  -- `bfm` keeps bits of the destination, and no form of it claims an effect.
  · simp only [BitVec.toNat_ofNat, Nat.reducePow, Nat.reduceMod]
    split
    next =>
      split
      next => simpa using holds_other
      next => simpa using holds_other
    next => simpa using holds_other
  -- `ubfm`, which is `lsl` where the field ends at the rotation.
  · simp only [BitVec.toNat_ofNat, Nat.reducePow, Nat.reduceMod]
    split
    next => simpa using holds_other
    next =>
    split
    next => simpa using holds_other
    next =>
    split
    next hword =>
      obtain ⟨hr0, hs31, rfl⟩ := hword
      rw [hr0, hs31] at hfields ⊢
      simpa using holds_wordExtension s false hfields
    next =>
    split
    next htop =>
      rw [htop] at hfields ⊢
      rw [A64.bitfieldMove_lsr hfields hr]
      simpa using holds_shiftRight s hr64 hsource
    next =>
    split
    next hup =>
      have hamount : datasize wide - (imms.toNat + 1) < 64 := by omega
      rw [← hup] at hfields ⊢
      rw [A64.bitfieldMove_lsl hfields (by omega)]
      simpa using holds_shiftLeft s hamount hsource
    next =>
    split
    next => simpa using holds_other
    next => simpa using holds_other
  · exact absurd (.inr rfl) hfirst

end Bitfield

/-! ## Every word of the classes -/

section Classes

variable (word : Word) (address : Address)

def integerOut (word : Word) : A64.Class → Out
  | .addSubtractImmediate => addSubtractImmediate word
  | .logicalImmediate => logicalImmediate word
  | .moveWide => moveWideImmediate word
  | .bitfield => bitfield word
  | .logicalShifted => logicalShiftedRegister word
  | .addSubtractShifted => addSubtractShiftedRegister word
  | .addSubtractExtended => addSubtractExtendedRegister word
  | .addSubtractCarry => addSubtractWithCarry word

theorem bitField_of_extractLsb {lo width value : ℕ}
    (h : word.extractLsb' lo width = BitVec.ofNat width value) :
    word.toNat / 2 ^ lo % 2 ^ width = value % 2 ^ width := by
  rw [← Nat.shiftRight_eq_div_pow, ← BitVec.extractLsb'_toNat, h, BitVec.toNat_ofNat]

theorem decodeOut_of_immediate {table : ℕ} {out : Out} (htable : table < 8)
    (h : word.extractLsb' 23 6 = BitVec.ofNat 6 (0b100000 + table))
    (hout : field word 23 3 = table → dataProcessingImmediate word address = out) :
    decodeOut word address = out := by
  have hbits := bitField_of_extractLsb word h
  have hgroup : field word 25 4 = 0b1000 ∨ field word 25 4 = 0b1001 := by
    rw [field_eq word (by decide), bitField]
    omega
  have hfield : field word 23 3 = table := by
    rw [field_eq word (by decide), bitField]
    omega
  rw [← hout hfield]
  unfold decodeOut
  obtain hgroup | hgroup := hgroup <;> rw [hgroup] <;> rfl

theorem decodeOut_of_register (h : word.toNat / 2 ^ 25 % 2 ^ 3 = 0b101) :
    decodeOut word address = dataProcessingRegister word := by
  have hgroup : field word 25 4 = 0b0101 ∨ field word 25 4 = 0b1101 := by
    rw [field_eq word (by decide), bitField]
    omega
  unfold decodeOut
  obtain hgroup | hgroup := hgroup <;> rw [hgroup] <;> rfl

theorem decodeOut_of_integerClass {c : A64.Class} (h : A64.integerClass word = some c) :
    decodeOut word address = integerOut word c := by
  unfold A64.integerClass at h
  split at h
  next hbits =>
    cases h
    refine decodeOut_of_immediate word address (show 2 < 8 by decide) hbits fun htable => ?_
    rw [dataProcessingImmediate, htable]
    rfl
  next =>
  split at h
  next hbits =>
    cases h
    refine decodeOut_of_immediate word address (show 4 < 8 by decide) hbits fun htable => ?_
    rw [dataProcessingImmediate, htable]
    rfl
  next =>
  split at h
  next hbits =>
    cases h
    refine decodeOut_of_immediate word address (show 5 < 8 by decide) hbits fun htable => ?_
    rw [dataProcessingImmediate, htable]
    rfl
  next =>
  split at h
  next hbits =>
    cases h
    refine decodeOut_of_immediate word address (show 6 < 8 by decide) hbits fun htable => ?_
    rw [dataProcessingImmediate, htable]
    rfl
  next =>
  split at h
  next hbits =>
    cases h
    have hvalue := bitField_of_extractLsb word hbits
    have hlow : ∀ op2 < 8, op2 &&& 0b1000 = 0 := by decide
    have hop2 : field word 21 4 < 8 := by
      rw [field_eq word (by decide), bitField]
      omega
    have hbit : field word 28 1 = 0 := by
      rw [field_eq word (by decide), bitField]
      omega
    rw [decodeOut_of_register word address (by omega), dataProcessingRegister]
    simp only [hbit, if_true, hlow _ hop2]
    rfl
  next =>
  split at h
  next hbits =>
    cases h
    have hvalue := bitField_of_extractLsb word hbits
    have hhigh : ∀ op2 < 16, 8 ≤ op2 → op2 &&& 0b1000 ≠ 0 := by decide
    have hop2 : field word 21 4 < 16 ∧ 8 ≤ field word 21 4 := by
      rw [field_eq word (by decide), bitField]
      omega
    have hbit : field word 28 1 = 0 := by
      rw [field_eq word (by decide), bitField]
      omega
    rw [decodeOut_of_register word address (by omega), dataProcessingRegister]
    have hlow : ∀ op2 : BitVec 4, op2.toNat &&& 1 = 0 ↔ op2.getLsbD 0 = false := by decide
    have hextended : word.getLsbD 21 = (word.extractLsb' 21 4).getLsbD 0 := by simp
    simp only [hbit, if_true, if_neg (hhigh _ hop2.1 hop2.2)]
    rw [field_extractLsb word (by decide), hextended]
    cases hx : (word.extractLsb' 21 4).getLsbD 0 with
    | false =>
      rw [if_pos ((hlow _).mpr hx)]
      rfl
    | true =>
      rw [if_neg (by rw [hlow, hx]; decide)]
      rfl
  next =>
  split at h
  next hbits =>
    cases h
    obtain ⟨hselect, hzero⟩ := hbits
    have hvalue := bitField_of_extractLsb word hselect
    have hbit : field word 28 1 = 1 := by
      rw [field_eq word (by decide), bitField]
      omega
    have hop2 : field word 21 4 = 0 := by
      rw [field_eq word (by decide), bitField]
      omega
    have hop3 : field word 10 6 = 0 := by
      rw [field_extractLsb word (by decide), hzero]
      rfl
    rw [decodeOut_of_register word address (by omega), dataProcessingRegister]
    simp only [hbit, hop2, hop3]
    rfl
  next => cases h

def CarryNeutral (word : Word) (s : State) : Prop :=
  A64.integerClass word = some .addSubtractCarry →
    (word.getLsbD 30 = true → word.extractLsb' 5 5 ≠ 31#5) → s.flags.c = word.getLsbD 30

/-- **An effect claims what its operands carry, except for the carry flag.** -/
theorem effect_holds_iff {c : A64.Class} (h : A64.integerClass word = some c) (s : State) :
    (decode word address).report.Holds s (A64.execute word s c) ↔ CarryNeutral word s := by
  have hreport : (decode word address).report = (integerOut word c).report := by
    rw [← decodeOut_of_integerClass word address h]
    rfl
  have hneutral : c ≠ .addSubtractCarry → CarryNeutral word s := fun hc hcarry =>
    absurd (Option.some.inj (h.symm.trans hcarry)) hc
  rw [hreport]
  cases c with
  | addSubtractImmediate =>
    exact iff_of_true (addSubtractImmediate_holds word s) (hneutral (by decide))
  | logicalImmediate => exact iff_of_true (logicalImmediate_holds word s) (hneutral (by decide))
  | moveWide => exact iff_of_true (moveWideImmediate_holds word s) (hneutral (by decide))
  | bitfield => exact iff_of_true (bitfield_holds word s) (hneutral (by decide))
  | logicalShifted =>
    exact iff_of_true (logicalShiftedRegister_holds word s) (hneutral (by decide))
  | addSubtractShifted =>
    exact iff_of_true (addSubtractShiftedRegister_holds word s) (hneutral (by decide))
  | addSubtractExtended =>
    exact iff_of_true (addSubtractExtendedRegister_holds word s) (hneutral (by decide))
  | addSubtractCarry =>
    exact (addSubtractWithCarry_holds_iff word s).trans (imp_iff_right h).symm

def carryState (carry : Bool) : State where
  general := fun _ => 0#64
  stack := 0#64
  flags := ⟨false, false, carry, false⟩

theorem effect_holds_iff_adc :
    A64.integerClass 0x9a020020#32 = some .addSubtractCarry ∧
      (decode 0x9a020020#32 0#64).report.Holds (carryState false)
        (A64.execute 0x9a020020#32 (carryState false) .addSubtractCarry) :=
  ⟨by decide, (effect_holds_iff 0x9a020020#32 0#64 (by decide) (carryState false)).mpr
    (fun _ _ => by decide)⟩

/-- `adc x0,x1,x2` with the carry set is reported as an addition of `x1` and `x2`, and writes one
more. -/
theorem adc_adds_the_carry :
    A64.integerClass 0x9a020020#32 = some .addSubtractCarry ∧
      (decode 0x9a020020#32 0#64).report =
        ⟨"adc", .add, [.register (gpr 0 true false), .register (gpr 1 true false),
          .register (gpr 2 true false)]⟩ ∧
      (decode 0x9a020020#32 0#64).report.written (carryState true) =
        some (.general 0, 0#64) ∧
      A64.execute 0x9a020020#32 (carryState true) .addSubtractCarry =
        some ⟨.general 0, 1#64, none⟩ ∧
      ¬ (decode 0x9a020020#32 0#64).report.Holds (carryState true)
        (A64.execute 0x9a020020#32 (carryState true) .addSubtractCarry) := by
  have hwritten : (decode 0x9a020020#32 0#64).report.written (carryState true) =
      some (.general 0, 0#64) := by decide +kernel
  have hexecute : A64.execute 0x9a020020#32 (carryState true) .addSubtractCarry =
      some ⟨.general 0, 1#64, none⟩ := by decide +kernel
  refine ⟨by decide, by decide +kernel, hwritten, hexecute, ?_⟩
  rintro ⟨o, ho, hsame⟩
  cases hexecute.symm.trans ho
  exact absurd (hwritten.symm.trans hsame) (by decide)

end Classes

end DbgScope.Arm64
