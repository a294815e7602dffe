import DbgScope.Bits
import DbgScope.Machine

/-!
# Operands of one A64 word

The records a decoded instruction is made of, the builder the decoder fills one in with (`Out`),
and the readings every encoding class shares: bit fields, sign extension, register names, the
condition field and the logical bitmask immediate. A word is a `BitVec 32` and an address or an
immediate a `BitVec 64`; what a field of a word holds is a number.
-/

namespace DbgScope.Arm64

open Bits

abbrev Word := BitVec 32

abbrev Address := BitVec 64

/-- A register as an instruction names it, the whole register it is part of, and its bytes. -/
structure RegisterOperand where
  name : String
  full : String
  width : ℕ
  deriving DecidableEq, Repr

structure MemoryOperand where
  size : Option ℕ := none
  segment : Option String := none
  base : Option RegisterOperand := none
  index : Option RegisterOperand := none
  scale : ℕ := 0
  displacement : ℤ := 0
  address : Option Address := none
  deriving DecidableEq, Repr

inductive Condition
  | equal
  | notEqual
  | unsignedAbove
  | unsignedAboveOrEqual
  | unsignedBelow
  | unsignedBelowOrEqual
  | signedGreater
  | signedGreaterOrEqual
  | signedLess
  | signedLessOrEqual
  | negative
  | notNegative
  | overflow
  | notOverflow
  | parity
  | notParity
  deriving DecidableEq, Repr

/-- What an instruction does, in the classes an analysis branches on. -/
inductive Effect
  | move
  | moveSigned
  | loadAddress
  | compare
  | test
  | add
  | subtract
  | shiftLeft
  | shiftRight
  | bitAnd
  | bitOr
  | bitXor
  | push
  | pop
  | other
  deriving DecidableEq, Repr

/-- The family of machine state a privileged instruction reaches. -/
inductive Privilege
  | portIo
  | modelSpecificRegister
  | controlRegister
  | descriptorTable
  | interruptFlag
  | cacheOrTlb
  | virtualization
  | other
  deriving DecidableEq, Repr

inductive Operand
  | register (register : RegisterOperand)
  | immediate (value : BitVec 64)
  | memory (memory : MemoryOperand)
  | target (address : Address)
  | other (text : String)
  | undecoded (space : String)
  deriving DecidableEq, Repr

def Operand.destination : Operand → Option Address
  | .target address => some address
  | _ => none

theorem Operand.destination_eq_some {operand : Operand} {address : Address} :
    operand.destination = some address ↔ operand = .target address := by
  cases operand <;> simp [Operand.destination]

/-! ## Names of registers -/

/-- The name of a general register; 31 is the stack pointer or zero by position. -/
def gprName (number : ℕ) (wide sp : Bool) : String :=
  match number, sp with
  | 31, true => if wide then "sp" else "wsp"
  | 31, false => if wide then "xzr" else "wzr"
  | 16, _ => if wide then "xip0" else "wip0"
  | 17, _ => if wide then "xip1" else "wip1"
  | 18, _ => if wide then "xpr" else "wpr"
  | 29, _ => if wide then "fp" else "wfp"
  | 30, _ => if wide then "lr" else "wlr"
  | n, _ => (if wide then "x" else "w") ++ toString n

def gpr (number : ℕ) (wide sp : Bool) : RegisterOperand where
  name := gprName number wide sp
  full := gprName number true sp
  width := if wide then 8 else 4

def linkRegister : RegisterOperand := gpr 30 true false

def stackPointer : RegisterOperand := gpr 31 true true

def vreg (number bytes : ℕ) : RegisterOperand where
  name := (match bytes with
    | 1 => "b"
    | 2 => "h"
    | 4 => "s"
    | 8 => "d"
    | _ => "q") ++ toString number
  full := "v" ++ toString number
  width := bytes

def vregWhole (number : ℕ) : RegisterOperand where
  name := "v" ++ toString number
  full := "v" ++ toString number
  width := 16

def zeroRegister : String := "xzr"

def whole (register : RegisterOperand) : RegisterOperand where
  name := register.full
  full := register.full
  width := if register.full.toList.head? = some 'v' then 16 else 8

/-! ## Mnemonics

Only a conditional branch spells its condition, after a dot. -/

def Dotless (text : String) : Prop := '.' ∉ text.toList

@[simp low] theorem dotless_def {text : String} : Dotless text ↔ '.' ∉ text.toList := Iff.rfl

@[simp] theorem dotless_ite {c : Prop} [Decidable c] {a b : String} :
    Dotless (if c then a else b) ↔ (c → Dotless a) ∧ (¬ c → Dotless b) := by
  split <;> simp [*]

@[simp] theorem dotless_append {a b : String} : Dotless (a ++ b) ↔ Dotless a ∧ Dotless b := by
  simp

@[simp] theorem dotless_repr (n : ℕ) : Dotless n.repr := by
  intro h
  have h' : '.' ∈ Nat.toDigits 10 n := by simpa [Nat.repr] using h
  exact absurd (Nat.isDigit_of_mem_toDigits (by decide) (by decide) h') (by decide)

/-! ## The builder -/

/-- One decoded word, everything but its flow. -/
structure Out where
  mnemonic : String
  operands : List Operand := []
  effect : Effect := .other
  condition : Option Condition := none
  writesFlags : Bool := false
  privilege : Option Privilege := none
  writes : List RegisterOperand := []
  reads : List RegisterOperand := []
  deriving DecidableEq, Repr

namespace Out

def new (mnemonic : String) : Out := { mnemonic := mnemonic }

/-- A word of an encoding space that is not read: the whole operand list is its name. -/
def undecoded (space : String) : Out := { mnemonic := "", operands := [.undecoded space] }

def push (out : Out) (operand : Operand) : Out := { out with operands := out.operands ++ [operand] }

/-- Writing the zero register writes nothing. -/
def recordWrite (out : Out) (register : RegisterOperand) : Out :=
  if register.full ≠ zeroRegister then { out with writes := out.writes ++ [whole register] }
  else out

def recordRead (out : Out) (register : RegisterOperand) : Out :=
  if register.full ≠ zeroRegister then { out with reads := out.reads ++ [register] } else out

def withEffect (out : Out) (effect : Effect) : Out := { out with effect := effect }

def flags (out : Out) : Out := { out with writesFlags := true }

def cond (out : Out) (condition : Option Condition) : Out := { out with condition := condition }

def privileged (out : Out) (family : Privilege) : Out := { out with privilege := some family }

def outReg (out : Out) (register : RegisterOperand) : Out :=
  (out.recordWrite register).push (.register register)

def inReg (out : Out) (register : RegisterOperand) : Out :=
  (out.recordRead register).push (.register register)

def inoutReg (out : Out) (register : RegisterOperand) : Out :=
  ((out.recordRead register).recordWrite register).push (.register register)

def writesOnly (out : Out) (register : RegisterOperand) : Out := out.recordWrite register

def readsOnly (out : Out) (register : RegisterOperand) : Out := out.recordRead register

def imm (out : Out) (value : BitVec 64) : Out := out.push (.immediate value)

def target (out : Out) (address : Address) : Out := out.push (.target address)

def other (out : Out) (text : String) : Out := out.push (.other text)

def mem (out : Out) (memory : MemoryOperand) : Out :=
  let out := match memory.base with
    | some base => out.recordRead base
    | none => out
  let out := match memory.index with
    | some index => out.recordRead index
    | none => out
  out.push (.memory memory)

def destinations (out : Out) : List Address := out.operands.filterMap Operand.destination

/-! What each builder step does to the mnemonic, the destinations, the condition and the registers
written. -/

section Steps

variable (out : Out) (register : RegisterOperand)

@[simp] theorem mnemonic_new (m : String) : (new m).mnemonic = m := rfl
@[simp] theorem mnemonic_undecoded (s : String) : (undecoded s).mnemonic = "" := rfl
@[simp] theorem mnemonic_push (o : Operand) : (out.push o).mnemonic = out.mnemonic := rfl
@[simp] theorem mnemonic_withEffect (e : Effect) :
    (out.withEffect e).mnemonic = out.mnemonic := rfl
@[simp] theorem mnemonic_flags : out.flags.mnemonic = out.mnemonic := rfl
@[simp] theorem mnemonic_cond (c : Option Condition) : (out.cond c).mnemonic = out.mnemonic := rfl
@[simp] theorem mnemonic_privileged (p : Privilege) :
    (out.privileged p).mnemonic = out.mnemonic := rfl
@[simp] theorem mnemonic_recordWrite : (out.recordWrite register).mnemonic = out.mnemonic := by
  unfold recordWrite
  split <;> rfl
@[simp] theorem mnemonic_recordRead : (out.recordRead register).mnemonic = out.mnemonic := by
  unfold recordRead
  split <;> rfl

@[simp] theorem writes_new (m : String) : (new m).writes = [] := rfl
@[simp] theorem writes_push (o : Operand) : (out.push o).writes = out.writes := rfl
@[simp] theorem writes_cond (c : Option Condition) : (out.cond c).writes = out.writes := rfl
@[simp] theorem writes_privileged (p : Privilege) : (out.privileged p).writes = out.writes := rfl
@[simp] theorem writes_recordRead : (out.recordRead register).writes = out.writes := by
  unfold recordRead
  split <;> rfl

@[simp] theorem destinations_new (m : String) : (new m).destinations = [] := rfl
@[simp] theorem destinations_undecoded (s : String) : (undecoded s).destinations = [] := rfl
@[simp] theorem destinations_push (o : Operand) :
    (out.push o).destinations = out.destinations ++ o.destination.toList := by
  unfold destinations push
  cases o <;> simp [Operand.destination]
@[simp] theorem destinations_withEffect (e : Effect) :
    (out.withEffect e).destinations = out.destinations := rfl
@[simp] theorem destinations_flags : out.flags.destinations = out.destinations := rfl
@[simp] theorem destinations_cond (c : Option Condition) :
    (out.cond c).destinations = out.destinations := rfl
@[simp] theorem destinations_privileged (p : Privilege) :
    (out.privileged p).destinations = out.destinations := rfl
@[simp] theorem destinations_recordWrite :
    (out.recordWrite register).destinations = out.destinations := by
  unfold recordWrite
  split <;> rfl
@[simp] theorem destinations_recordRead :
    (out.recordRead register).destinations = out.destinations := by
  unfold recordRead
  split <;> rfl

end Steps

/-- The word was read: its operands are not the name of an encoding space. -/
def Shaped (out : Out) : Prop := ∀ space, .undecoded space ∉ out.operands

theorem not_shaped_undecoded {space : String} : ¬ (undecoded space).Shaped := by
  intro h
  exact h space (List.mem_singleton.mpr rfl)

/-- A word with no destination among its operands whose mnemonic carries no condition suffix. -/
structure Straight (out : Out) : Prop where
  destinations : out.destinations = []
  dotless : Dotless out.mnemonic

section Straight

variable {out : Out} {register : RegisterOperand}

@[simp] theorem straight_new {m : String} : (new m).Straight ↔ Dotless m :=
  ⟨fun h => h.dotless, fun h => ⟨rfl, h⟩⟩

@[simp] theorem straight_undecoded {s : String} : (undecoded s).Straight := ⟨rfl, by simp⟩

@[simp] theorem straight_ite {c : Prop} [Decidable c] {out' : Out} :
    (if c then out else out').Straight ↔ (c → out.Straight) ∧ (¬ c → out'.Straight) := by
  split <;> simp [*]

theorem straight_congr {out' : Out} (hm : out'.mnemonic = out.mnemonic)
    (hd : out'.destinations = out.destinations) : out'.Straight ↔ out.Straight := by
  constructor
  · rintro ⟨h, h'⟩
    exact ⟨hd ▸ h, hm ▸ h'⟩
  · rintro ⟨h, h'⟩
    exact ⟨hd.trans h, hm ▸ h'⟩

@[simp] theorem straight_withEffect {e : Effect} : (out.withEffect e).Straight ↔ out.Straight :=
  straight_congr rfl rfl
@[simp] theorem straight_flags : out.flags.Straight ↔ out.Straight := straight_congr rfl rfl
@[simp] theorem straight_cond {c : Option Condition} : (out.cond c).Straight ↔ out.Straight :=
  straight_congr rfl rfl
@[simp] theorem straight_privileged {p : Privilege} :
    (out.privileged p).Straight ↔ out.Straight := straight_congr rfl rfl
@[simp] theorem straight_outReg : (out.outReg register).Straight ↔ out.Straight :=
  straight_congr (by simp [outReg]) (by simp [outReg, Operand.destination])
@[simp] theorem straight_inReg : (out.inReg register).Straight ↔ out.Straight :=
  straight_congr (by simp [inReg]) (by simp [inReg, Operand.destination])
@[simp] theorem straight_inoutReg : (out.inoutReg register).Straight ↔ out.Straight :=
  straight_congr (by simp [inoutReg]) (by simp [inoutReg, Operand.destination])
@[simp] theorem straight_writesOnly : (out.writesOnly register).Straight ↔ out.Straight :=
  straight_congr (by simp [writesOnly]) (by simp [writesOnly])
@[simp] theorem straight_readsOnly : (out.readsOnly register).Straight ↔ out.Straight :=
  straight_congr (by simp [readsOnly]) (by simp [readsOnly])
@[simp] theorem straight_imm {v : BitVec 64} : (out.imm v).Straight ↔ out.Straight :=
  straight_congr (by simp [imm]) (by simp [imm, Operand.destination])
@[simp] theorem straight_other {text : String} : (out.other text).Straight ↔ out.Straight :=
  straight_congr (by simp [other]) (by simp [other, Operand.destination])
@[simp] theorem straight_mem {memory : MemoryOperand} :
    (out.mem memory).Straight ↔ out.Straight := by
  apply straight_congr
  · unfold mem
    cases memory.base <;> cases memory.index <;> simp
  · unfold mem
    cases memory.base <;> cases memory.index <;> simp [Operand.destination]

end Straight

end Out

/-! ## Readings of a word -/

def field (word : Word) (lo width : ℕ) : ℕ :=
  ((word >>> lo) &&& (BitVec.allOnes 32 >>> (32 - width))).toNat

theorem field_eq (word : Word) {lo width : ℕ} (h : width ≤ 32) :
    field word lo width = bitField word lo width := by
  unfold field
  rw [BitVec.toNat_and, BitVec.toNat_ushiftRight, BitVec.toNat_ushiftRight, BitVec.toNat_allOnes,
    ← shiftRight_and_eq]
  have hmask : ∀ k ≤ 32, (2 ^ 32 - 1) >>> (32 - k) = 2 ^ k - 1 := by decide
  rw [hmask width h]

def signExtend (value bits : ℕ) : ℤ :=
  let shift := 32 - bits
  ((BitVec.ofNat 32 value <<< shift).sshiftRight shift).toInt

/-- What a four-bit condition field requires of the flags; `al` and `nv` require nothing. -/
def condition (code : ℕ) : Option Condition :=
  match code with
  | 0b0000 => some .equal
  | 0b0001 => some .notEqual
  | 0b0010 => some .unsignedAboveOrEqual
  | 0b0011 => some .unsignedBelow
  | 0b0100 => some .negative
  | 0b0101 => some .notNegative
  | 0b0110 => some .overflow
  | 0b0111 => some .notOverflow
  | 0b1000 => some .unsignedAbove
  | 0b1001 => some .unsignedBelowOrEqual
  | 0b1010 => some .signedGreaterOrEqual
  | 0b1011 => some .signedLess
  | 0b1100 => some .signedGreater
  | 0b1101 => some .signedLessOrEqual
  | _ => none

theorem condition_isSome (code : ℕ) : (condition code).isSome ↔ code < 14 := by
  unfold condition
  split
  case h_15 => simp; grind
  all_goals simp

def conditionSuffix (code : ℕ) : String :=
  match code with
  | 0b0000 => "eq"
  | 0b0001 => "ne"
  | 0b0010 => "hs"
  | 0b0011 => "lo"
  | 0b0100 => "mi"
  | 0b0101 => "pl"
  | 0b0110 => "vs"
  | 0b0111 => "vc"
  | 0b1000 => "hi"
  | 0b1001 => "ls"
  | 0b1010 => "ge"
  | 0b1011 => "lt"
  | 0b1100 => "gt"
  | 0b1101 => "le"
  | 0b1110 => "al"
  | _ => "nv"

/-- The condition with its sense inverted. -/
def invert (code : ℕ) : ℕ := code ^^^ 1

def maskOf (bits : ℕ) : BitVec 64 :=
  if bits ≥ 64 then BitVec.allOnes 64 else (1#64 <<< bits) - 1#64

def leadingZeros (n : ℕ) : ℕ := if n = 0 then 32 else 31 - n.log2

def trailingZeros (n : ℕ) : ℕ := ((List.range 32).find? (n.testBit ·)).getD 32

def bitmaskImmediate (n immr imms : ℕ) (wide : Bool) : Option (BitVec 64) :=
  let datasize := if wide then 64 else 32
  let combined := (n <<< 6) ||| ((2 ^ 32 - 1 - imms) &&& 0x3f)
  let len : ℤ := 31 - leadingZeros combined
  if len < 1 ∨ (¬ wide ∧ n = 1) then
    none
  else
    let esize := 1 <<< len.toNat
    let levels := esize - 1
    let s := imms &&& levels
    let r := immr &&& levels
    if s = levels then
      none
    else
      let element : BitVec 64 :=
        if s + 1 ≥ 64 then BitVec.allOnes 64 else (1#64 <<< (s + 1)) - 1#64
      -- Rotate right by `r` within the element, then repeat it up to the data size.
      let element :=
        if r ≠ 0 then ((element >>> r) ||| (element <<< (esize - r))) &&& maskOf esize else element
      let repeats := (datasize + esize - 1) / esize
      let value := (List.range repeats).foldl
        (fun value i => value ||| (element <<< (i * esize))) 0#64
      some (value &&& maskOf datasize)

def postIndexAmount (displacement : ℤ) : String :=
  if displacement < 0 then "#-" ++ hex (-displacement).toNat else "#" ++ hex displacement.toNat

end DbgScope.Arm64
