import DbgScope.Bits

/-!
# The A64 integer instructions

What the architecture defines for eight classes of integer data processing: addition and subtraction
(immediate, shifted, extended and with carry), logic (immediate and shifted), wide moves and bit
fields. An instruction is given by its effect on one state: the register it writes, the value
written, and the flags if it sets them. A word the architecture leaves undefined has no outcome.
-/

namespace A64

/-! ## States -/

structure Flags where
  n : Bool
  z : Bool
  c : Bool
  v : Bool
  deriving DecidableEq, Repr

/-- A register as an operand field codes it: 31 is the stack pointer or zero by position. -/
inductive Register
  | general (number : Fin 31)
  | stack
  | zero
  deriving DecidableEq, Repr

def Register.coded (number : BitVec 5) (sp : Bool) : Register :=
  if h : number.toNat < 31 then .general ⟨number.toNat, h⟩ else if sp then .stack else .zero

structure State where
  general : Fin 31 → BitVec 64
  stack : BitVec 64
  flags : Flags

def State.read (s : State) (w : ℕ) : Register → BitVec w
  | .general number => (s.general number).setWidth w
  | .stack => s.stack.setWidth w
  | .zero => 0#w

/-- What one instruction does: a narrow result is written with its upper half clear, and the zero
register drops the value written to it. -/
structure Outcome where
  destination : Register
  value : BitVec 64
  flags : Option Flags
  deriving DecidableEq, Repr

def datasize (sf : Bool) : ℕ := if sf then 64 else 32

theorem datasize_pos (sf : Bool) : 0 < datasize sf := by
  cases sf <;> decide

theorem datasize_le (sf : Bool) : datasize sf ≤ 64 := by
  cases sf <;> decide

/-! ## Addition and its flags -/

section Arithmetic

variable {w : ℕ}

def addWithCarry (x y : BitVec w) (carry : Bool) : BitVec w × Flags :=
  let unsignedSum := x.toNat + y.toNat + carry.toNat
  let signedSum := x.toInt + y.toInt + carry.toNat
  let result := BitVec.ofNat w unsignedSum
  (result,
    { n := result.msb
      z := result = 0#w
      c := result.toNat ≠ unsignedSum
      v := result.toInt ≠ signedSum })

def subtractFlags (x y : BitVec w) : Flags where
  n := (x - y).msb
  z := x = y
  c := y.toNat ≤ x.toNat
  v := x.ssubOverflow y

def logicFlags (result : BitVec w) : Flags where
  n := result.msb
  z := result = 0#w
  c := false
  v := false

theorem addWithCarry_fst (x y : BitVec w) (carry : Bool) :
    (addWithCarry x y carry).1 = x + y + BitVec.ofNat w carry.toNat := by
  simp [addWithCarry, BitVec.ofNat_add]

theorem addWithCarry_not_fst (x y : BitVec w) : (addWithCarry x (~~~y) true).1 = x - y := by
  rw [addWithCarry_fst, BitVec.sub_eq_add_neg, BitVec.neg_eq_not_add, BitVec.add_assoc]
  rfl

theorem addWithCarry_fst_eq_add_iff (hw : 0 < w) (x y : BitVec w) (carry : Bool) :
    (addWithCarry x y carry).1 = x + y ↔ carry = false := by
  have hone : 1#w ≠ 0#w := by simp [hw.ne']
  rw [addWithCarry_fst]
  cases carry <;> simp [hone]

theorem addWithCarry_not_fst_eq_sub_iff (hw : 0 < w) (x y : BitVec w) (carry : Bool) :
    (addWithCarry x (~~~y) carry).1 = x - y ↔ carry = true := by
  cases carry with
  | true => exact iff_of_true (addWithCarry_not_fst x y) rfl
  | false =>
    have hone : 1#w ≠ 0#w := by simp [hw.ne']
    rw [addWithCarry_fst, BitVec.sub_eq_add_neg, BitVec.neg_eq_not_add, ← BitVec.add_assoc]
    simp [hone]

theorem toInt_not (hw : 0 < w) (y : BitVec w) : (~~~y).toInt = -y.toInt - 1 := by
  obtain ⟨w, rfl⟩ := Nat.exists_eq_succ_of_ne_zero hw.ne'
  have hy := y.isLt
  have hpow : 2 ^ (w + 1) = 2 * 2 ^ w := Nat.pow_succ'
  rw [BitVec.toInt_eq_toNat_cond, BitVec.toInt_eq_toNat_cond, BitVec.toNat_not]
  rw [Nat.succ_eq_add_one, hpow] at *
  split <;> split <;> omega

/-- A subtraction overflows exactly when the difference is not the difference. -/
theorem toInt_sub_eq_iff (x y : BitVec w) :
    (x - y).toInt = x.toInt - y.toInt ↔ x.ssubOverflow y = false := by
  refine ⟨fun h => ?_, fun h => BitVec.toInt_sub_of_not_ssubOverflow (by simp [h])⟩
  have hlt := (x - y).toInt_lt
  have hle := (x - y).le_toInt
  rw [h] at hlt hle
  simp [BitVec.ssubOverflow]
  omega

/-- **Adding the complement and one sets the flags of the difference.** -/
theorem addWithCarry_not_snd (hw : 0 < w) (x y : BitVec w) :
    (addWithCarry x (~~~y) true).2 = subtractFlags x y := by
  have hresult := addWithCarry_not_fst x y
  have hx := x.isLt
  have hy := y.isLt
  have hnot : (~~~y).toNat = 2 ^ w - 1 - y.toNat := BitVec.toNat_not
  simp only [addWithCarry] at hresult ⊢
  rw [hresult, subtractFlags, Flags.mk.injEq]
  refine ⟨rfl, ?_, ?_, ?_⟩
  · exact decide_eq_decide.mpr (by rw [BitVec.sub_eq_iff_eq_add, BitVec.zero_add])
  · rw [decide_eq_decide, hnot, BitVec.toNat_sub]
    rw [Bool.toNat_true]
    by_cases h : y.toNat ≤ x.toNat
    · have : 2 ^ w - y.toNat + x.toNat = x.toNat - y.toNat + 2 ^ w := by omega
      rw [this, Nat.add_mod_right, Nat.mod_eq_of_lt (by omega)]
      omega
    · rw [Nat.mod_eq_of_lt (by omega)]
      omega
  · have hsum : x.toInt + (~~~y).toInt + (true.toNat : ℤ) = x.toInt - y.toInt := by
      rw [toInt_not hw, Bool.toNat_true]
      push_cast
      omega
    rw [hsum]
    have hover := toInt_sub_eq_iff x y
    cases h : x.ssubOverflow y with
    | false => simpa using hover.mpr h
    | true => simpa [h] using hover

end Arithmetic

/-! ## Bit masks -/

section Masks

variable {w e : ℕ}

def ones (e count : ℕ) : BitVec e := (BitVec.allOnes count).setWidth e

def replicated (w : ℕ) (element : BitVec e) : BitVec w := (element.replicate (w / e)).setWidth w

/-- The masks `N:immr:imms` stands for: a run of ones rotated within its element and repeated, and
the run of the bits a bit field covers. -/
def decodeBitMasks (w : ℕ) (immN : BitVec 1) (imms immr : BitVec 6) (immediate : Bool) :
    Option (BitVec w × BitVec w) :=
  let len := (immN ++ ~~~imms).toNat.log2
  if len < 1 then
    none
  else
    let levels := 2 ^ len - 1
    let s := imms.toNat &&& levels
    let r := immr.toNat &&& levels
    if immediate ∧ s = levels then
      none
    else
      let esize := 2 ^ len
      let d := (s + esize - r) % esize
      some (replicated w ((ones esize (s + 1)).rotateRight r), replicated w (ones esize (d + 1)))

theorem getLsbD_ones (count i : ℕ) : (ones e count).getLsbD i = decide (i < e ∧ i < count) := by
  simp [ones]

theorem getLsbD_rotateRight_mod (x : BitVec e) {r i : ℕ} (hr : r < e) (hi : i < e) :
    (x.rotateRight r).getLsbD i = x.getLsbD ((i + r) % e) := by
  rw [BitVec.getLsbD_rotateRight_of_lt hr]
  by_cases h : i < e - r
  · rw [Nat.mod_eq_of_lt (by omega), Nat.add_comm i r]
    simp [h]
  · have hmod : (i + r) % e = i - (e - r) := by
      rw [Nat.mod_eq_sub_mod (by omega), Nat.mod_eq_of_lt (by omega)]
      omega
    simp [h, hi, hmod]

theorem getLsbD_replicated (element : BitVec e) (he : e ∣ w) {i : ℕ} (hi : i < w) :
    (replicated w element).getLsbD i = element.getLsbD (i % e) := by
  rw [replicated, BitVec.getLsbD_setWidth, BitVec.getLsbD_replicate, Nat.mul_div_cancel' he]
  simp [hi]

end Masks

/-! ## Operands that are shifted or extended -/

section Operands

variable {w : ℕ}

inductive Shift
  | lsl
  | lsr
  | asr
  | ror
  deriving DecidableEq, Repr

def Shift.coded (code : BitVec 2) : Shift :=
  match code with
  | 0b00#2 => .lsl
  | 0b01#2 => .lsr
  | 0b10#2 => .asr
  | _ => .ror

def shiftRegister (x : BitVec w) (shift : Shift) (amount : ℕ) : BitVec w :=
  match shift with
  | .lsl => x <<< amount
  | .lsr => x >>> amount
  | .asr => x.sshiftRight amount
  | .ror => x.rotateRight amount

@[simp] theorem shiftRegister_zero (x : BitVec w) (shift : Shift) :
    shiftRegister x shift 0 = x := by
  cases shift with
  | ror =>
    apply BitVec.eq_of_getLsbD_eq
    intro i hi
    rw [shiftRegister, getLsbD_rotateRight_mod x (by omega) hi, Nat.add_zero, Nat.mod_eq_of_lt hi]
  | _ => simp [shiftRegister]

/-- The bits an extension reads, and whether it reads them as signed. -/
structure Extension where
  length : ℕ
  signed : Bool
  deriving DecidableEq, Repr

def Extension.coded (option : BitVec 3) : Extension where
  length := 8 <<< (option.extractLsb' 0 2).toNat
  signed := option.getLsbD 2

/-- The low bits of a word, moved up by `shift` and extended to the whole word. -/
def extendRegister (x : BitVec w) (extension : Extension) (shift : ℕ) : BitVec w :=
  let kept := x.setWidth (min extension.length (w - shift)) ++ (0 : BitVec shift)
  if extension.signed then kept.signExtend w else kept.setWidth w

theorem extendRegister_unsigned_zero (x : BitVec w) (length : ℕ) :
    extendRegister x ⟨length, false⟩ 0 = (x.setWidth (min length w)).setWidth w :=
  congrArg (BitVec.setWidth w) (BitVec.append_zero_width _ _)

theorem extendRegister_whole (x : BitVec w) {length : ℕ} (h : w ≤ length) :
    extendRegister x ⟨length, false⟩ 0 = x := by
  rw [extendRegister_unsigned_zero, min_eq_right h, BitVec.setWidth_eq, BitVec.setWidth_eq]

end Operands

/-! ## The instructions -/

section Instructions

variable {w : ℕ} (word : BitVec 32) (s : State)

/-- The sum or difference all four forms of addition and subtraction write: a difference is a sum
with the complement. -/
def addSubtract (subtract setsFlags carry : Bool) (destination : Register) (x y : BitVec w) :
    Outcome :=
  let sum := addWithCarry x (if subtract then ~~~y else y) carry
  { destination := destination
    value := sum.1.setWidth 64
    flags := if setsFlags then some sum.2 else none }

def addSubtractImmediate : Option Outcome :=
  let w := datasize (word.getLsbD 31)
  let subtract := word.getLsbD 30
  let setsFlags := word.getLsbD 29
  let imm12 := word.extractLsb' 10 12
  let imm : BitVec w := if word.getLsbD 22 then (imm12 ++ 0#12).setWidth w else imm12.setWidth w
  some (addSubtract subtract setsFlags subtract (.coded (word.extractLsb' 0 5) (!setsFlags))
    (s.read w (.coded (word.extractLsb' 5 5) true)) imm)

def addSubtractShifted : Option Outcome :=
  let sf := word.getLsbD 31
  let w := datasize sf
  let subtract := word.getLsbD 30
  let shift := word.extractLsb' 22 2
  let imm6 := word.extractLsb' 10 6
  if shift = 0b11#2 ∨ (¬ sf ∧ imm6.getLsbD 5) then
    none
  else
    let y := shiftRegister (s.read w (.coded (word.extractLsb' 16 5) false)) (.coded shift)
      imm6.toNat
    some (addSubtract subtract (word.getLsbD 29) subtract (.coded (word.extractLsb' 0 5) false)
      (s.read w (.coded (word.extractLsb' 5 5) false)) y)

def addSubtractExtended : Option Outcome :=
  let w := datasize (word.getLsbD 31)
  let subtract := word.getLsbD 30
  let setsFlags := word.getLsbD 29
  let imm3 := word.extractLsb' 10 3
  if word.extractLsb' 22 2 ≠ 0b00#2 ∨ imm3.toNat > 4 then
    none
  else
    let y := extendRegister (s.read w (.coded (word.extractLsb' 16 5) false))
      (.coded (word.extractLsb' 13 3)) imm3.toNat
    some (addSubtract subtract setsFlags subtract
      (.coded (word.extractLsb' 0 5) (!setsFlags))
      (s.read w (.coded (word.extractLsb' 5 5) true)) y)

def addSubtractCarry : Option Outcome :=
  let w := datasize (word.getLsbD 31)
  some (addSubtract (word.getLsbD 30) (word.getLsbD 29) s.flags.c
    (.coded (word.extractLsb' 0 5) false)
    (s.read w (.coded (word.extractLsb' 5 5) false))
    (s.read w (.coded (word.extractLsb' 16 5) false)))

/-- The bitwise result both forms of logic write; only the fourth operation sets flags. -/
def logic (opc : BitVec 2) (destination : Register) (x y : BitVec w) : Outcome :=
  let result := match opc with
    | 0b01#2 => x ||| y
    | 0b10#2 => x ^^^ y
    | _ => x &&& y
  { destination := destination
    value := result.setWidth 64
    flags := if opc = 0b11#2 then some (logicFlags result) else none }

def logicalImmediate : Option Outcome :=
  let sf := word.getLsbD 31
  let w := datasize sf
  let opc := word.extractLsb' 29 2
  let immN := word.extractLsb' 22 1
  if ¬ sf ∧ immN ≠ 0#1 then
    none
  else
    (decodeBitMasks w immN (word.extractLsb' 10 6) (word.extractLsb' 16 6) true).map fun masks =>
      logic opc (.coded (word.extractLsb' 0 5) (opc ≠ 0b11#2))
        (s.read w (.coded (word.extractLsb' 5 5) false)) masks.1

def logicalShifted : Option Outcome :=
  let sf := word.getLsbD 31
  let w := datasize sf
  let imm6 := word.extractLsb' 10 6
  if ¬ sf ∧ imm6.getLsbD 5 then
    none
  else
    let y := shiftRegister (s.read w (.coded (word.extractLsb' 16 5) false))
      (.coded (word.extractLsb' 22 2)) imm6.toNat
    some (logic (word.extractLsb' 29 2) (.coded (word.extractLsb' 0 5) false)
      (s.read w (.coded (word.extractLsb' 5 5) false)) (if word.getLsbD 21 then ~~~y else y))

def moveWide : Option Outcome :=
  let sf := word.getLsbD 31
  let w := datasize sf
  let opc := word.extractLsb' 29 2
  let hw := word.extractLsb' 21 2
  if opc = 0b01#2 ∨ (¬ sf ∧ hw.getLsbD 1) then
    none
  else
    let destination := Register.coded (word.extractLsb' 0 5) false
    let pos := (hw ++ 0#4).toNat
    let kept := if opc = 0b11#2 then s.read w destination else 0#w
    let inserted := (kept &&& ~~~(ones w 16 <<< pos)) |||
      ((word.extractLsb' 5 16).setWidth w <<< pos)
    some
      { destination := destination
        value := (if opc = 0b00#2 then ~~~inserted else inserted).setWidth 64
        flags := none }

/-- A bit field moved between two words: `opc` says whether the bits around it are clear or kept,
and whether the bits above it repeat its sign. -/
def bitfieldMove (opc : BitVec 2) (r s : ℕ) (wmask tmask source destination : BitVec w) :
    BitVec w :=
  let kept := if opc = 0b01#2 then destination else 0#w
  let bottom := (kept &&& ~~~wmask) ||| (source.rotateRight r &&& wmask)
  let top := if opc = 0b00#2 then (if source.getLsbD s then BitVec.allOnes w else 0#w) else kept
  (top &&& ~~~tmask) ||| (bottom &&& tmask)

def bitfield : Option Outcome :=
  let sf := word.getLsbD 31
  let w := datasize sf
  let opc := word.extractLsb' 29 2
  let immN := word.extractLsb' 22 1
  let immr := word.extractLsb' 16 6
  let imms := word.extractLsb' 10 6
  if opc = 0b11#2 ∨ immN ≠ BitVec.ofBool sf ∨ (¬ sf ∧ (immr.getLsbD 5 ∨ imms.getLsbD 5)) then
    none
  else
    let destination := Register.coded (word.extractLsb' 0 5) false
    (decodeBitMasks w immN imms immr false).map fun masks =>
      { destination := destination
        value := (bitfieldMove opc immr.toNat imms.toNat masks.1 masks.2
          (s.read w (.coded (word.extractLsb' 5 5) false)) (s.read w destination)).setWidth 64
        flags := none }

end Instructions

/-! ## Bit fields that are shifts and extensions -/

section Bitfields

variable {w r s : ℕ} {wmask tmask : BitVec w}

structure FieldMasks (r s : ℕ) (wmask tmask : BitVec w) : Prop where
  moved : ∀ i < w, wmask.getLsbD i = decide ((i + r) % w ≤ s)
  covered : ∀ i < w, tmask.getLsbD i = decide (i ≤ (s + w - r) % w)

theorem field_element_size (sf : Bool) {imms : BitVec 6} (hs : imms.toNat < datasize sf) :
    1 ≤ (BitVec.ofBool sf ++ ~~~imms).toNat.log2 ∧
      2 ^ (BitVec.ofBool sf ++ ~~~imms).toNat.log2 = datasize sf := by
  revert sf imms
  decide +kernel

/-- **A bit field is read with the masks of its word.** -/
theorem decodeBitMasks_field (sf : Bool) {imms immr : BitVec 6}
    (hs : imms.toNat < datasize sf) (hr : immr.toNat < datasize sf) :
    ∃ masks, decodeBitMasks (datasize sf) (BitVec.ofBool sf) imms immr false = some masks ∧
      FieldMasks immr.toNat imms.toNat masks.1 masks.2 := by
  obtain ⟨hpos, hesize⟩ := field_element_size sf hs
  unfold decodeBitMasks
  generalize (BitVec.ofBool sf ++ ~~~imms).toNat.log2 = len at *
  have hand : ∀ n < datasize sf, n &&& (2 ^ len - 1) = n := fun n hn => by
    rw [Nat.and_two_pow_sub_one_eq_mod, Nat.mod_eq_of_lt (by omega)]
  simp only [if_neg (show ¬ len < 1 by omega), hand _ hs, hand _ hr,
    Bool.false_eq_true, false_and, if_false, Option.some.injEq, exists_eq_left']
  have hdvd : 2 ^ len ∣ datasize sf := dvd_of_eq hesize
  have hmod : ∀ i < datasize sf, i % 2 ^ len = i := fun i hi => Nat.mod_eq_of_lt (by omega)
  have hwrap : ∀ n, n % 2 ^ len < 2 ^ len := fun n => Nat.mod_lt _ (by omega)
  constructor
  · intro i hi
    have hturn := hwrap (i + immr.toNat)
    rw [getLsbD_replicated _ hdvd hi, hmod i hi,
      getLsbD_rotateRight_mod _ (by omega) (by omega), getLsbD_ones, decide_eq_decide, ← hesize]
    omega
  · intro i hi
    rw [getLsbD_replicated _ hdvd hi, hmod i hi, getLsbD_ones, decide_eq_decide, hesize]
    omega

theorem getLsbD_bitfieldMove (masks : FieldMasks r s wmask tmask) (hr : r < w)
    {opc : BitVec 2} (hopc : opc ≠ 0b01#2) (source destination : BitVec w) {i : ℕ} (hi : i < w) :
    (bitfieldMove opc r s wmask tmask source destination).getLsbD i =
      if i ≤ (s + w - r) % w then (source.getLsbD ((i + r) % w) && decide ((i + r) % w ≤ s))
      else decide (opc = 0b00#2) && source.getLsbD s := by
  simp only [bitfieldMove, if_neg hopc, BitVec.getLsbD_or, BitVec.getLsbD_and, BitVec.getLsbD_not,
    masks.moved i hi, masks.covered i hi, getLsbD_rotateRight_mod source hr hi]
  by_cases hsigned : opc = 0b00#2 <;> by_cases hcovered : i ≤ (s + w - r) % w <;>
    cases hsign : source.getLsbD s <;> simp [hi, hsigned, hcovered]

theorem field_length (hr : r < w) : (w - 1 + w - r) % w = w - 1 - r := by
  rw [Nat.mod_eq_sub_mod (by omega), Nat.mod_eq_of_lt (by omega)]
  omega

theorem bitfieldMove_lsr (masks : FieldMasks r (w - 1) wmask tmask) (hr : r < w)
    (source destination : BitVec w) :
    bitfieldMove 0b10#2 r (w - 1) wmask tmask source destination = source >>> r := by
  apply BitVec.eq_of_getLsbD_eq
  intro i hi
  rw [getLsbD_bitfieldMove masks hr (by decide) source destination hi, field_length hr,
    BitVec.getLsbD_ushiftRight]
  split
  next h =>
    rw [Nat.mod_eq_of_lt (by omega), decide_eq_true (by omega), Bool.and_true, Nat.add_comm i r]
  next h =>
    rw [BitVec.getLsbD_of_ge source (r + i) (by omega)]
    rfl

theorem bitfieldMove_asr (masks : FieldMasks r (w - 1) wmask tmask) (hr : r < w)
    (source destination : BitVec w) :
    bitfieldMove 0b00#2 r (w - 1) wmask tmask source destination = source.sshiftRight r := by
  apply BitVec.eq_of_getLsbD_eq
  intro i hi
  rw [getLsbD_bitfieldMove masks hr (by decide) source destination hi, field_length hr,
    BitVec.getLsbD_sshiftRight]
  split
  next h =>
    rw [Nat.mod_eq_of_lt (by omega), decide_eq_true (by omega), if_pos (by omega), Nat.add_comm i r]
    simp [hi]
  next h =>
    rw [if_neg (by omega), BitVec.msb_eq_getLsbD_last]
    simp [hi]

theorem bitfieldMove_lsl (masks : FieldMasks (s + 1) s wmask tmask) (hr : s + 1 < w)
    (source destination : BitVec w) :
    bitfieldMove 0b10#2 (s + 1) s wmask tmask source destination = source <<< (w - (s + 1)) := by
  apply BitVec.eq_of_getLsbD_eq
  intro i hi
  have hd : (s + w - (s + 1)) % w = w - 1 := by
    rw [Nat.mod_eq_of_lt (by omega)]
    omega
  rw [getLsbD_bitfieldMove masks hr (by decide) source destination hi, hd, if_pos (by omega),
    BitVec.getLsbD_shiftLeft]
  by_cases h : i < w - (s + 1)
  · rw [Nat.mod_eq_of_lt (by omega), decide_eq_false (by omega)]
    simp [h]
  · have hmod : (i + (s + 1)) % w = i - (w - (s + 1)) := by
      rw [Nat.mod_eq_sub_mod (by omega), Nat.mod_eq_of_lt (by omega)]
      omega
    rw [hmod, decide_eq_true (by omega)]
    simp [hi, h]

theorem bitfieldMove_extend (masks : FieldMasks 0 s wmask tmask) (hs : s < w) (signed : Bool)
    (source destination : BitVec w) :
    bitfieldMove (if signed then 0b00#2 else 0b10#2) 0 s wmask tmask source destination =
      if signed then (source.setWidth (s + 1)).signExtend w
      else (source.setWidth (s + 1)).setWidth w := by
  apply BitVec.eq_of_getLsbD_eq
  intro i hi
  rw [getLsbD_bitfieldMove masks (by omega) (by cases signed <;> decide) source destination hi,
    Nat.sub_zero, Nat.add_mod_right, Nat.mod_eq_of_lt hs, Nat.add_zero, Nat.mod_eq_of_lt hi]
  cases signed with
  | true =>
    rw [if_pos rfl, if_pos rfl, BitVec.getLsbD_signExtend, BitVec.msb_eq_getLsbD_last]
    by_cases h : i ≤ s
    · simp [h, hi, Nat.lt_succ_of_le h]
    · simp [h, hi, show ¬ i < s + 1 by omega]
  | false =>
    by_cases h : i ≤ s
    · simp [h, hi, Nat.lt_succ_of_le h]
    · simp [h, show ¬ i < s + 1 by omega]

end Bitfields

/-! ## The classes -/

inductive Class
  | addSubtractImmediate
  | logicalImmediate
  | moveWide
  | bitfield
  | logicalShifted
  | addSubtractShifted
  | addSubtractExtended
  | addSubtractCarry
  deriving DecidableEq, Repr

def integerClass (word : BitVec 32) : Option Class :=
  if word.extractLsb' 23 6 = 0b100010#6 then some .addSubtractImmediate
  else if word.extractLsb' 23 6 = 0b100100#6 then some .logicalImmediate
  else if word.extractLsb' 23 6 = 0b100101#6 then some .moveWide
  else if word.extractLsb' 23 6 = 0b100110#6 then some .bitfield
  else if word.extractLsb' 24 5 = 0b01010#5 then some .logicalShifted
  else if word.extractLsb' 24 5 = 0b01011#5 then
    some (if word.getLsbD 21 then .addSubtractExtended else .addSubtractShifted)
  else if word.extractLsb' 21 8 = 0b11010000#8 ∧ word.extractLsb' 10 6 = 0#6 then
    some .addSubtractCarry
  else none

def execute (word : BitVec 32) (s : State) : Class → Option Outcome
  | .addSubtractImmediate => addSubtractImmediate word s
  | .logicalImmediate => logicalImmediate word s
  | .moveWide => moveWide word s
  | .bitfield => bitfield word s
  | .logicalShifted => logicalShifted word s
  | .addSubtractShifted => addSubtractShifted word s
  | .addSubtractExtended => addSubtractExtended word s
  | .addSubtractCarry => addSubtractCarry word s

end A64
