import DbgScope.Arm64.Immediate

/-!
# Data processing on registers, and the floating-point forms that are read

Shifted, extended and carrying arithmetic, conditional compare and select, the one-, two- and
three-source classes; then the conversions, comparisons and lane copies of the vector space.
None of these words transfers control.
-/

namespace DbgScope.Arm64

/-! ## Arithmetic and logic -/

def shiftModifier (kind amount : ℕ) : Option String :=
  if amount = 0 then
    none
  else
    let name := match kind with
      | 0b00 => "lsl"
      | 0b01 => "lsr"
      | 0b10 => "asr"
      | _ => "ror"
    some (name ++ " #" ++ hex amount)

/-- An operand under a modifier is no longer the operand, so the effect is claimed without one
only. -/
def finishModifier (out : Out) (modifier : Option String) (effect : Effect) : Out :=
  match modifier with
  | some text => out.other text
  | none => out.withEffect effect

def logicalShiftedName (opc : ℕ) (negated : Bool) : String :=
  match opc, negated with
  | 0b00, false => "and"
  | 0b00, true => "bic"
  | 0b01, false => "orr"
  | 0b01, true => "orn"
  | 0b10, false => "eor"
  | 0b10, true => "eon"
  | _, false => "ands"
  | _, true => "bics"

def logicalShiftedRegister (word : Word) : Out :=
  let wide : Bool := word &&& 0x80000000#32 ≠ 0#32
  let opc := field word 29 2
  let negated : Bool := field word 21 1 ≠ 0
  let amount := field word 10 6
  if ¬ wide ∧ amount ≥ 32 then
    .undecoded "unallocated"
  else
    let modifier := shiftModifier (field word 22 2) amount
    let rd := field word 0 5
    let rn := field word 5 5
    let rm := field word 16 5
    let destination := gpr rd wide false
    let left := gpr rn wide false
    let right := gpr rm wide false
    if opc = 0b01 ∧ ¬ negated ∧ rn = 31 ∧ field word 22 2 = 0b00 ∧ modifier.isNone then
      Out.new "mov" |>.outReg destination |>.inReg right |>.withEffect .move
    else if opc = 0b01 ∧ negated ∧ rn = 31 then
      finishModifier (Out.new "mvn" |>.outReg destination |>.inReg right) modifier .other
    else if opc = 0b11 ∧ ¬ negated ∧ rd = 31 then
      finishModifier (Out.new "tst" |>.inReg left |>.inReg right) modifier .test |>.flags
    else
      let effect : Effect :=
        if negated then .other
        else match opc with
          | 0b00 | 0b11 => .bitAnd
          | 0b01 => .bitOr
          | _ => .bitXor
      let out := finishModifier
        (Out.new (logicalShiftedName opc negated)
          |>.outReg destination |>.inReg left |>.inReg right)
        modifier effect
      if opc = 0b11 then out.flags else out

def addSubtractShiftedRegister (word : Word) : Out :=
  let wide : Bool := word &&& 0x80000000#32 ≠ 0#32
  let subtract : Bool := word &&& 0x40000000#32 ≠ 0#32
  let setsFlags : Bool := word &&& 0x20000000#32 ≠ 0#32
  let shift := field word 22 2
  let amount := field word 10 6
  if shift = 0b11 ∨ (¬ wide ∧ amount ≥ 32) then
    .undecoded "unallocated"
  else
    let modifier := shiftModifier shift amount
    let rd := field word 0 5
    let rn := field word 5 5
    let destination := gpr rd wide false
    let left := gpr rn wide false
    let right := gpr (field word 16 5) wide false
    let out :=
      if setsFlags ∧ subtract ∧ rd = 31 then
        finishModifier (Out.new "cmp" |>.inReg left |>.inReg right) modifier .compare
      else if setsFlags ∧ ¬ subtract ∧ rd = 31 then
        finishModifier (Out.new "cmn" |>.inReg left |>.inReg right) modifier .other
      else if subtract ∧ rn = 31 then
        finishModifier
          (Out.new (if setsFlags then "negs" else "neg") |>.outReg destination |>.inReg right)
          modifier .other
      else
        finishModifier
          (Out.new (addSubtractName subtract setsFlags)
            |>.outReg destination |>.inReg left |>.inReg right)
          modifier (if subtract then .subtract else .add)
    if setsFlags then out.flags else out

def extensionName (option : ℕ) : String :=
  match option with
  | 0 => "uxtb"
  | 1 => "uxth"
  | 2 => "uxtw"
  | 3 => "uxtx"
  | 4 => "sxtb"
  | 5 => "sxth"
  | 6 => "sxtw"
  | _ => "sxtx"

def addSubtractExtendedRegister (word : Word) : Out :=
  let wide : Bool := word &&& 0x80000000#32 ≠ 0#32
  let subtract : Bool := word &&& 0x40000000#32 ≠ 0#32
  let setsFlags : Bool := word &&& 0x20000000#32 ≠ 0#32
  let amount := field word 10 3
  if field word 22 2 ≠ 0 ∨ amount > 4 then
    .undecoded "unallocated"
  else
    let option := field word 13 3
    let rd := field word 0 5
    let rn := field word 5 5
    let destination := gpr rd wide (!setsFlags)
    let left := gpr rn wide true
    let right := gpr (field word 16 5) (wide && option &&& 0b011 = 0b011) false
    let plain : Bool := amount = 0 ∧ (option = 0b010 ∨ option = 0b011)
    let modifier := if plain then none else some (extensionName option ++ " #" ++ hex amount)
    let out :=
      if setsFlags ∧ subtract ∧ rd = 31 then
        finishModifier (Out.new "cmp" |>.inReg left |>.inReg right) modifier .compare
      else if setsFlags ∧ ¬ subtract ∧ rd = 31 then
        finishModifier (Out.new "cmn" |>.inReg left |>.inReg right) modifier .other
      else
        finishModifier
          (Out.new (addSubtractName subtract setsFlags)
            |>.outReg destination |>.inReg left |>.inReg right)
          modifier (if subtract then .subtract else .add)
    if setsFlags then out.flags else out

def carryName (subtract setsFlags : Bool) : String :=
  match subtract, setsFlags with
  | false, false => "adc"
  | false, true => "adcs"
  | true, false => "sbc"
  | true, true => "sbcs"

def addSubtractWithCarry (word : Word) : Out :=
  let wide : Bool := word &&& 0x80000000#32 ≠ 0#32
  let subtract : Bool := word &&& 0x40000000#32 ≠ 0#32
  let setsFlags : Bool := word &&& 0x20000000#32 ≠ 0#32
  let rn := field word 5 5
  let destination := gpr (field word 0 5) wide false
  let right := gpr (field word 16 5) wide false
  let out :=
    if subtract ∧ rn = 31 then
      Out.new (if setsFlags then "ngcs" else "ngc") |>.outReg destination |>.inReg right
    else
      Out.new (carryName subtract setsFlags)
        |>.outReg destination |>.inReg (gpr rn wide false) |>.inReg right
        |>.withEffect (if subtract then .subtract else .add)
  if setsFlags then out.flags else out

/-! ## Conditional forms -/

def conditionalCompare (word : Word) : Out :=
  let wide : Bool := word &&& 0x80000000#32 ≠ 0#32
  let setsFlags : Bool := word &&& 0x20000000#32 ≠ 0#32
  if ¬ setsFlags ∨ field word 10 1 ≠ 0 ∨ field word 4 1 ≠ 0 then
    .undecoded "unallocated"
  else
    let code := field word 12 4
    let immediate : Bool := field word 11 1 ≠ 0
    let out := Out.new (if word &&& 0x40000000#32 = 0#32 then "ccmn" else "ccmp")
      |>.inReg (gpr (field word 5 5) wide false)
    let out :=
      if immediate then out.imm (BitVec.ofNat 64 (field word 16 5))
      else out.inReg (gpr (field word 16 5) wide false)
    out.imm (BitVec.ofNat 64 (field word 0 4)) |>.cond (condition code) |>.flags

/-- The base mnemonic of a conditional select and its aliases on no and on one source. -/
def selectNames (op op2 : ℕ) : String × String × String :=
  match op, op2 with
  | 0, 0 => ("csel", "", "")
  | 0, _ => ("csinc", "cset", "cinc")
  | _, 0 => ("csinv", "csetm", "cinv")
  | _, _ => ("csneg", "", "cneg")

def conditionalSelect (word : Word) : Out :=
  let wide : Bool := word &&& 0x80000000#32 ≠ 0#32
  let op := field word 30 1
  let op2 := field word 10 2
  if field word 29 1 ≠ 0 ∨ op2 &&& 0b10 ≠ 0 then
    .undecoded "unallocated"
  else
    let code := field word 12 4
    let rd := field word 0 5
    let rn := field word 5 5
    let rm := field word 16 5
    let destination := gpr rd wide false
    let aliasable : Bool := code &&& 0b1110 ≠ 0b1110
    let names := selectNames op op2
    if aliasable ∧ names.2.1 ≠ "" ∧ rn = 31 ∧ rm = 31 then
      Out.new names.2.1 |>.outReg destination |>.cond (condition (invert code))
    else if aliasable ∧ names.2.2 ≠ "" ∧ rn = rm then
      Out.new names.2.2 |>.outReg destination |>.inReg (gpr rn wide false)
        |>.cond (condition (invert code))
    else
      Out.new names.1 |>.outReg destination |>.inReg (gpr rn wide false)
        |>.inReg (gpr rm wide false) |>.cond (condition code)

/-! ## One, two and three sources -/

def twoSourceName (opcode : ℕ) : Option (String × Effect) :=
  match opcode with
  | 0b000010 => some ("udiv", .other)
  | 0b000011 => some ("sdiv", .other)
  | 0b001000 => some ("lsl", .shiftLeft)
  | 0b001001 => some ("lsr", .shiftRight)
  | 0b001010 => some ("asr", .shiftRight)
  | 0b001011 => some ("ror", .other)
  | 0b000000 => some ("subp", .other)
  | 0b000100 => some ("irg", .other)
  | 0b000101 => some ("gmi", .other)
  | 0b001100 => some ("pacga", .other)
  | 0b010000 => some ("crc32b", .other)
  | 0b010001 => some ("crc32h", .other)
  | 0b010010 => some ("crc32w", .other)
  | 0b010011 => some ("crc32x", .other)
  | 0b010100 => some ("crc32cb", .other)
  | 0b010101 => some ("crc32ch", .other)
  | 0b010110 => some ("crc32cw", .other)
  | 0b010111 => some ("crc32cx", .other)
  | 0b011000 => some ("smax", .other)
  | 0b011001 => some ("umax", .other)
  | 0b011010 => some ("smin", .other)
  | 0b011011 => some ("umin", .other)
  | _ => none

def dataProcessingTwoSource (word : Word) : Out :=
  let wide : Bool := word &&& 0x80000000#32 ≠ 0#32
  let setsFlags : Bool := word &&& 0x20000000#32 ≠ 0#32
  if setsFlags ∧ ¬ (wide ∧ field word 10 6 = 0b000000) then
    .undecoded "unallocated"
  else match twoSourceName (field word 10 6) with
  | none => .undecoded "unallocated"
  | some (mnemonic, effect) =>
    let rd := field word 0 5
    let rn := field word 5 5
    let rm := field word 16 5
    let destination := gpr rd wide (mnemonic = "irg")
    let left := gpr rn wide (mnemonic ∈ ["irg", "gmi", "subp"])
    let right := gpr rm wide (mnemonic ∈ ["subp", "pacga"])
    let crc := "crc32".toList.isPrefixOf mnemonic.toList
    if setsFlags then
      Out.new "subps" |>.outReg (gpr rd wide false) |>.inReg (gpr rn wide true)
        |>.inReg (gpr rm wide true) |>.flags
    else if crc then
      Out.new mnemonic |>.outReg (gpr rd false false) |>.inReg (gpr rn false false)
        |>.inReg (gpr rm (mnemonic.toList.getLast? = some 'x') false)
    else
      Out.new mnemonic |>.outReg destination |>.inReg left |>.inReg right |>.withEffect effect

def bitReverseName (opcode : ℕ) (wide : Bool) : Option String :=
  match opcode, wide with
  | 0b000000, _ => some "rbit"
  | 0b000001, _ => some "rev16"
  | 0b000010, false => some "rev"
  | 0b000010, true => some "rev32"
  | 0b000011, true => some "rev"
  | 0b000100, _ => some "clz"
  | 0b000101, _ => some "cls"
  | 0b000110, _ => some "ctz"
  | 0b000111, _ => some "cnt"
  | 0b001000, _ => some "abs"
  | _, _ => none

def authenticateName (opcode : ℕ) : Option String :=
  match opcode with
  | 0b000000 => some "pacia"
  | 0b000001 => some "pacib"
  | 0b000010 => some "pacda"
  | 0b000011 => some "pacdb"
  | 0b000100 => some "autia"
  | 0b000101 => some "autib"
  | 0b000110 => some "autda"
  | 0b000111 => some "autdb"
  | 0b001000 => some "paciza"
  | 0b001001 => some "pacizb"
  | 0b001010 => some "pacdza"
  | 0b001011 => some "pacdzb"
  | 0b001100 => some "autiza"
  | 0b001101 => some "autizb"
  | 0b001110 => some "autdza"
  | 0b001111 => some "autdzb"
  | 0b010000 => some "xpaci"
  | 0b010001 => some "xpacd"
  | _ => none

def dataProcessingOneSource (word : Word) : Out :=
  let wide : Bool := word &&& 0x80000000#32 ≠ 0#32
  if word &&& 0x20000000#32 ≠ 0#32 then
    .undecoded "unallocated"
  else
    let rd := field word 0 5
    let rn := field word 5 5
    let opcode := field word 10 6
    if field word 16 5 = 0b00000 then
      match bitReverseName opcode wide with
      | none => .undecoded "unallocated"
      | some mnemonic =>
        Out.new mnemonic |>.outReg (gpr rd wide false) |>.inReg (gpr rn wide false)
    else if field word 16 5 = 0b00001 ∧ wide then
      match authenticateName opcode with
      | none => .undecoded "unallocated"
      | some mnemonic =>
        let out := Out.new mnemonic |>.inoutReg (gpr rd true false)
        if opcode ≥ 0b001000 then out else out.inReg (gpr rn true true)
    else
      .undecoded "unallocated"

/-- Whether a three-source form widens its sources, reads them as signed, and keeps the high
half. -/
def threeSourceForm (op31 : ℕ) (subtract : Bool) : Option (Bool × Bool × Bool) :=
  match op31, subtract with
  | 0b000, _ => some (false, false, false)
  | 0b001, _ => some (true, true, false)
  | 0b010, false => some (true, true, true)
  | 0b101, _ => some (true, false, false)
  | 0b110, false => some (true, false, true)
  | _, _ => none

def multiplyName (widening signed subtract : Bool) (plain negated : String) : String :=
  let stem := if widening then (if signed then "s" else "u") else ""
  stem ++ (if subtract then negated else plain) ++ (if widening then "l" else "")

def dataProcessingThreeSource (word : Word) : Out :=
  let wide : Bool := word &&& 0x80000000#32 ≠ 0#32
  if word &&& 0x60000000#32 ≠ 0#32 then
    .undecoded "unallocated"
  else
    let subtract : Bool := field word 15 1 ≠ 0
    let rd := field word 0 5
    let rn := field word 5 5
    let rm := field word 16 5
    let ra := field word 10 5
    match threeSourceForm (field word 21 3) subtract with
    | none => .undecoded "unallocated"
    | some (widening, signed, high) =>
      if (widening ∨ high) ∧ ¬ wide then
        .undecoded "unallocated"
      else if high then
        Out.new (if signed then "smulh" else "umulh") |>.outReg (gpr rd true false)
          |>.inReg (gpr rn true false) |>.inReg (gpr rm true false)
      else
        let destination := gpr rd wide false
        let accumulator := gpr ra wide false
        let source (number : ℕ) := gpr number (wide && !widening) false
        if ra = 31 then
          Out.new (multiplyName widening signed subtract "mul" "mneg")
            |>.outReg destination |>.inReg (source rn) |>.inReg (source rm)
        else
          Out.new (multiplyName widening signed subtract "madd" "msub")
            |>.outReg destination |>.inReg (source rn) |>.inReg (source rm)
            |>.inReg accumulator

def dataProcessingRegister (word : Word) : Out :=
  let op2 := field word 21 4
  if field word 28 1 = 0 then
    if op2 &&& 0b1000 = 0 then logicalShiftedRegister word
    else if op2 &&& 1 = 0 then addSubtractShiftedRegister word
    else addSubtractExtendedRegister word
  else match op2 with
  | 0b0000 =>
    let op3 := field word 10 6
    if op3 = 0b000000 then
      addSubtractWithCarry word
    else if op3 &&& 0b011111 = 0b000001 then
      Out.new "rmif" |>.inReg (gpr (field word 5 5) true false)
        |>.imm (BitVec.ofNat 64 (field word 15 6)) |>.imm (BitVec.ofNat 64 (field word 0 4))
        |>.flags
    else if op3 &&& 0b001111 = 0b000010 then
      Out.new (if field word 14 1 = 0 then "setf8" else "setf16")
        |>.inReg (gpr (field word 5 5) false false) |>.flags
    else
      .undecoded "unallocated"
  | 0b0010 => conditionalCompare word
  | 0b0100 => conditionalSelect word
  | 0b0110 =>
    if field word 30 1 = 0 then dataProcessingTwoSource word else dataProcessingOneSource word
  | op2 =>
    if op2 &&& 0b1000 ≠ 0 then dataProcessingThreeSource word else .undecoded "unallocated"

/-! ## Floating point and lane copies -/

def floatWidth (kind : ℕ) : Option ℕ :=
  match kind with
  | 0b00 => some 4
  | 0b01 => some 8
  | 0b11 => some 2
  | _ => none

def conversionName (rmode opcode kind : ℕ) (wide : Bool) : Option String :=
  match rmode, opcode with
  | 0b00, 0b000 => some "fcvtns"
  | 0b00, 0b001 => some "fcvtnu"
  | 0b00, 0b010 => some "scvtf"
  | 0b00, 0b011 => some "ucvtf"
  | 0b00, 0b100 => some "fcvtas"
  | 0b00, 0b101 => some "fcvtau"
  | 0b00, 0b110 => some "fmov"
  | 0b00, 0b111 => some "fmov"
  | 0b01, 0b000 => some "fcvtps"
  | 0b01, 0b001 => some "fcvtpu"
  | 0b10, 0b000 => some "fcvtms"
  | 0b10, 0b001 => some "fcvtmu"
  | 0b11, 0b000 => some "fcvtzs"
  | 0b11, 0b001 => some "fcvtzu"
  | 0b11, 0b110 => if kind = 0b01 ∧ ¬ wide then some "fjcvtzs" else none
  | _, _ => none

def floatIntegerConversion (word : Word) : Out :=
  let wide : Bool := word &&& 0x80000000#32 ≠ 0#32
  if word &&& 0x20000000#32 ≠ 0#32 then
    .undecoded "unallocated"
  else
    let kind := field word 22 2
    let rmode := field word 19 2
    let opcode := field word 16 3
    let rd := field word 0 5
    let rn := field word 5 5
    if kind = 0b10 then
      if rmode ≠ 0b01 ∨ ¬ wide ∨ ¬ (opcode = 0b110 ∨ opcode = 0b111) then
        .undecoded "unallocated"
      else if opcode = 0b110 then
        Out.new "fmov" |>.outReg (gpr rd true false) |>.other ("v" ++ toString rn ++ ".d[1]")
          |>.readsOnly (vregWhole rn) |>.withEffect .move
      else
        Out.new "fmov" |>.other ("v" ++ toString rd ++ ".d[1]") |>.inReg (gpr rn true false)
          |>.writesOnly (vregWhole rd) |>.readsOnly (vregWhole rd)
    else match floatWidth kind, conversionName rmode opcode kind wide with
    | some bytes, some mnemonic =>
      let out :=
        if opcode = 0b010 ∨ opcode = 0b011 ∨ opcode = 0b111 then
          Out.new mnemonic |>.outReg (vreg rd bytes) |>.inReg (gpr rn wide false)
        else
          Out.new mnemonic |>.outReg (gpr rd wide false) |>.inReg (vreg rn bytes)
      let out := if mnemonic = "fmov" then out.withEffect .move else out
      if mnemonic = "fjcvtzs" then out.flags else out
    | _, _ => .undecoded "unallocated"

def fixedConversionName (rmode opcode : ℕ) : Option String :=
  match rmode, opcode with
  | 0b00, 0b010 => some "scvtf"
  | 0b00, 0b011 => some "ucvtf"
  | 0b11, 0b000 => some "fcvtzs"
  | 0b11, 0b001 => some "fcvtzu"
  | _, _ => none

def floatFixedConversion (word : Word) : Out :=
  let wide : Bool := word &&& 0x80000000#32 ≠ 0#32
  if word &&& 0x20000000#32 ≠ 0#32 then
    .undecoded "unallocated"
  else
    let scale := field word 10 6
    match floatWidth (field word 22 2), fixedConversionName (field word 19 2) (field word 16 3) with
    | some bytes, some mnemonic =>
      if ¬ wide ∧ scale < 32 then
        .undecoded "unallocated"
      else
        let rd := field word 0 5
        let rn := field word 5 5
        let fraction := BitVec.ofNat 64 (64 - scale)
        if "fcvt".toList.isPrefixOf mnemonic.toList then
          Out.new mnemonic |>.outReg (gpr rd wide false) |>.inReg (vreg rn bytes) |>.imm fraction
        else
          Out.new mnemonic |>.outReg (vreg rd bytes) |>.inReg (gpr rn wide false) |>.imm fraction
    | _, _ => .undecoded "unallocated"

def floatCompare (word : Word) : Out :=
  if word &&& 0xa0000000#32 ≠ 0#32 then
    .undecoded "unallocated"
  else match floatWidth (field word 22 2) with
  | none => .undecoded "unallocated"
  | some bytes =>
    let opcode2 := field word 0 5
    if opcode2 &&& 0b00111 ≠ 0 then
      .undecoded "unallocated"
    else
      let againstZero : Bool := opcode2 &&& 0b01000 ≠ 0
      let out := Out.new (if opcode2 &&& 0b10000 = 0 then "fcmp" else "fcmpe")
        |>.inReg (vreg (field word 5 5) bytes)
      let out :=
        if againstZero then out.other "#0.0" else out.inReg (vreg (field word 16 5) bytes)
      out.flags

def floatConditionalCompare (word : Word) : Out :=
  if word &&& 0xa0000000#32 ≠ 0#32 then
    .undecoded "unallocated"
  else match floatWidth (field word 22 2) with
  | none => .undecoded "unallocated"
  | some bytes =>
    Out.new (if field word 4 1 = 0 then "fccmp" else "fccmpe")
      |>.inReg (vreg (field word 5 5) bytes) |>.inReg (vreg (field word 16 5) bytes)
      |>.imm (BitVec.ofNat 64 (field word 0 4)) |>.cond (condition (field word 12 4)) |>.flags

/-- The element size and index a lane copy names. -/
def laneOf (imm5 : ℕ) : Option (String × ℕ) :=
  match trailingZeros imm5 with
  | 0 => some ("b", imm5 >>> 1)
  | 1 => some ("h", imm5 >>> 2)
  | 2 => some ("s", imm5 >>> 3)
  | 3 => some ("d", imm5 >>> 4)
  | _ => none

def vectorCopy (word : Word) : Out :=
  let q : Bool := field word 30 1 ≠ 0
  match laneOf (field word 16 5) with
  | none => .undecoded "unallocated"
  | some (element, index) =>
    let rd := field word 0 5
    let rn := field word 5 5
    let lane (number : ℕ) :=
      "v" ++ toString number ++ "." ++ element ++ "[" ++ toString index ++ "]"
    match field word 11 4 with
    | 0b0000 => Out.new "dup" |>.other ("v" ++ toString rd) |>.other (lane rn)
        |>.writesOnly (vregWhole rd) |>.readsOnly (vregWhole rn)
    | 0b0001 => Out.new "dup" |>.other ("v" ++ toString rd) |>.inReg (gpr rn (element = "d") false)
        |>.writesOnly (vregWhole rd)
    | 0b0011 => Out.new "ins" |>.other (lane rd) |>.inReg (gpr rn (element = "d") false)
        |>.writesOnly (vregWhole rd) |>.readsOnly (vregWhole rd)
    | 0b0101 => Out.new "smov" |>.outReg (gpr rd q false) |>.other (lane rn)
        |>.readsOnly (vregWhole rn) |>.withEffect .moveSigned
    | 0b0111 => Out.new "umov" |>.outReg (gpr rd (element = "d") false) |>.other (lane rn)
        |>.readsOnly (vregWhole rn) |>.withEffect .move
    | _ => .undecoded "advanced-simd"

def simdAndFloatingPoint (word : Word) : Out :=
  if word &&& 0xbfe08400#32 = 0x0e000400#32 then
    vectorCopy word
  else if word &&& 0x5f000000#32 = 0x1e000000#32 then
    if field word 21 1 = 0 then
      floatFixedConversion word
    else
      let op3 := field word 10 6
      if op3 = 0b000000 then floatIntegerConversion word
      else if op3 &&& 0b001111 = 0b001000 ∧ field word 14 2 = 0 then floatCompare word
      else if op3 &&& 0b000011 = 0b000001 then floatConditionalCompare word
      else .undecoded "floating-point"
  else if word &&& 0x5e000000#32 = 0x1e000000#32 then
    .undecoded "floating-point"
  else
    .undecoded "advanced-simd"

/-! ## No word of these groups transfers control -/

section Straight

variable {out : Out}

@[simp] theorem straight_finishModifier {modifier : Option String} {effect : Effect} :
    (finishModifier out modifier effect).Straight ↔ out.Straight := by
  cases modifier <;> simp [finishModifier]

@[simp] theorem logicalShiftedName_dotless (opc : ℕ) (negated : Bool) :
    Dotless (logicalShiftedName opc negated) := by
  unfold logicalShiftedName
  split <;> simp

variable {opcode : ℕ} (word : Word)

theorem logicalShiftedRegister_straight : (logicalShiftedRegister word).Straight := by
  simp [logicalShiftedRegister]

theorem addSubtractShiftedRegister_straight : (addSubtractShiftedRegister word).Straight := by
  simp [addSubtractShiftedRegister]

theorem addSubtractExtendedRegister_straight : (addSubtractExtendedRegister word).Straight := by
  simp [addSubtractExtendedRegister]

@[simp] theorem carryName_dotless (subtract setsFlags : Bool) :
    Dotless (carryName subtract setsFlags) := by
  unfold carryName
  split <;> simp

theorem addSubtractWithCarry_straight : (addSubtractWithCarry word).Straight := by
  simp [addSubtractWithCarry]

theorem conditionalCompare_straight : (conditionalCompare word).Straight := by
  simp [conditionalCompare]

theorem selectNames_dotless (op op2 : ℕ) :
    Dotless (selectNames op op2).1 ∧ Dotless (selectNames op op2).2.1 ∧
      Dotless (selectNames op op2).2.2 := by
  unfold selectNames
  split <;> simp

theorem conditionalSelect_straight : (conditionalSelect word).Straight := by
  simp [conditionalSelect, selectNames_dotless]

theorem twoSourceName_dotless {named : String × Effect} (h : twoSourceName opcode = some named) :
    Dotless named.1 := by
  unfold twoSourceName at h
  split at h
  all_goals first | (cases h; simp) | cases h

theorem dataProcessingTwoSource_straight : (dataProcessingTwoSource word).Straight := by
  unfold dataProcessingTwoSource
  simp only [Out.straight_ite, Out.straight_undecoded, implies_true, true_and]
  intro _
  split
  · simp
  · next mnemonic effect h =>
    have hd : Dotless mnemonic := twoSourceName_dotless h
    simp [hd]

theorem bitReverseName_dotless {wide : Bool} {name : String}
    (h : bitReverseName opcode wide = some name) : Dotless name := by
  unfold bitReverseName at h
  split at h
  all_goals first | (cases h; simp) | cases h

theorem authenticateName_dotless {name : String} (h : authenticateName opcode = some name) :
    Dotless name := by
  unfold authenticateName at h
  split at h
  all_goals first | (cases h; simp) | cases h

theorem dataProcessingOneSource_straight : (dataProcessingOneSource word).Straight := by
  unfold dataProcessingOneSource
  simp only [Out.straight_ite, Out.straight_undecoded, implies_true, true_and, and_true]
  intro _
  constructor
  · intro _
    split
    · simp
    · next name h => simp [bitReverseName_dotless h]
  · intro _ _
    split
    · simp
    · next name h => simp [authenticateName_dotless h]

@[simp] theorem multiplyName_dotless {widening signed subtract : Bool} {plain negated : String}
    (hplain : Dotless plain) (hnegated : Dotless negated) :
    Dotless (multiplyName widening signed subtract plain negated) := by
  simp [multiplyName, hplain, hnegated]

theorem dataProcessingThreeSource_straight : (dataProcessingThreeSource word).Straight := by
  unfold dataProcessingThreeSource
  simp only [Out.straight_ite, Out.straight_undecoded, implies_true, true_and]
  intro _
  split <;> simp

theorem dataProcessingRegister_straight : (dataProcessingRegister word).Straight := by
  unfold dataProcessingRegister
  simp only [Out.straight_ite, logicalShiftedRegister_straight,
    addSubtractShiftedRegister_straight, addSubtractExtendedRegister_straight, implies_true,
    true_and]
  intro _
  split
  · simp [addSubtractWithCarry_straight]
  · exact conditionalCompare_straight word
  · exact conditionalSelect_straight word
  · simp [dataProcessingTwoSource_straight, dataProcessingOneSource_straight]
  · simp [dataProcessingThreeSource_straight]

theorem conversionName_dotless {rmode opcode kind : ℕ} {wide : Bool} {name : String}
    (h : conversionName rmode opcode kind wide = some name) : Dotless name := by
  unfold conversionName at h
  split at h
  case h_15 =>
    split at h
    · cases h
      simp
    · cases h
  all_goals first | (cases h; simp) | cases h

theorem floatIntegerConversion_straight : (floatIntegerConversion word).Straight := by
  unfold floatIntegerConversion
  simp only [Out.straight_ite, Out.straight_undecoded, implies_true, true_and]
  intro _
  constructor
  · simp
  · intro _
    split
    · next h => simp [conversionName_dotless h]
    · simp

theorem fixedConversionName_dotless {rmode opcode : ℕ} {name : String}
    (h : fixedConversionName rmode opcode = some name) : Dotless name := by
  unfold fixedConversionName at h
  split at h
  all_goals first | (cases h; simp) | cases h

theorem floatFixedConversion_straight : (floatFixedConversion word).Straight := by
  unfold floatFixedConversion
  simp only [Out.straight_ite, Out.straight_undecoded, implies_true, true_and]
  intro _
  split
  · next h => simp [fixedConversionName_dotless h]
  · simp

theorem floatCompare_straight : (floatCompare word).Straight := by
  unfold floatCompare
  simp only [Out.straight_ite, Out.straight_undecoded, implies_true, true_and]
  intro _
  split <;> simp

theorem floatConditionalCompare_straight : (floatConditionalCompare word).Straight := by
  unfold floatConditionalCompare
  simp only [Out.straight_ite, Out.straight_undecoded, implies_true, true_and]
  intro _
  split <;> simp

theorem vectorCopy_straight : (vectorCopy word).Straight := by
  unfold vectorCopy
  split
  · simp
  · split <;> simp

theorem simdAndFloatingPoint_straight : (simdAndFloatingPoint word).Straight := by
  simp [simdAndFloatingPoint, vectorCopy_straight, floatFixedConversion_straight,
    floatIntegerConversion_straight, floatCompare_straight, floatConditionalCompare_straight]

end Straight

end DbgScope.Arm64
