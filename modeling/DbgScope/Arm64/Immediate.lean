import DbgScope.Arm64.Operand

/-!
# Data processing with an immediate

Address computation, addition and subtraction, the tagged and minimum/maximum forms, logical and
wide moves, bit fields and extraction. None of these words transfers control.
-/

namespace DbgScope.Arm64

def pcRelative (word : Word) (address : Address) : Out :=
  let immediate := (field word 5 19 <<< 2) ||| field word 29 2
  let page : Bool := word &&& 0x80000000#32 ≠ 0#32
  let target :=
    if page then (address &&& ~~~0xfff#64) + BitVec.ofInt 64 (signExtend immediate 21 * 4096)
    else address + BitVec.ofInt 64 (signExtend immediate 21)
  Out.new (if page then "adrp" else "adr")
    |>.outReg (gpr (field word 0 5) true false)
    |>.mem { address := some target }
    |>.withEffect .loadAddress

/-- The mnemonic of an addition or subtraction that keeps its result. -/
def addSubtractName (subtract setsFlags : Bool) : String :=
  match subtract, setsFlags with
  | false, false => "add"
  | false, true => "adds"
  | true, false => "sub"
  | true, true => "subs"

def addSubtractImmediate (word : Word) : Out :=
  let wide : Bool := word &&& 0x80000000#32 ≠ 0#32
  let subtract : Bool := word &&& 0x40000000#32 ≠ 0#32
  let setsFlags : Bool := word &&& 0x20000000#32 ≠ 0#32
  let shift := field word 22 2
  if shift > 1 then
    .undecoded "unallocated"
  else
    let value := BitVec.ofNat 64 (field word 10 12) <<< (shift * 12)
    let rd := field word 0 5
    let rn := field word 5 5
    let destination := gpr rd wide (!setsFlags)
    let source := gpr rn wide true
    if setsFlags ∧ subtract ∧ rd = 31 then
      Out.new "cmp" |>.inReg source |>.imm value |>.withEffect .compare |>.flags
    -- A comparison with the negation, so not a comparison with `value`.
    else if setsFlags ∧ ¬ subtract ∧ rd = 31 then
      Out.new "cmn" |>.inReg source |>.imm value |>.flags
    else if ¬ setsFlags ∧ ¬ subtract ∧ value = 0#64 ∧ shift = 0 ∧ (rd = 31 ∨ rn = 31) then
      Out.new "mov" |>.outReg destination |>.inReg source |>.withEffect .move
    else
      let out := Out.new (addSubtractName subtract setsFlags)
        |>.outReg destination |>.inReg source |>.imm value
        |>.withEffect (if subtract then .subtract else .add)
      if setsFlags then out.flags else out

/-- The minimum and maximum forms, and whether each reads its literal as signed. -/
def minMaxImmediate (opc : ℕ) : String × Bool :=
  match opc with
  | 0b00 => ("smax", true)
  | 0b01 => ("umax", false)
  | 0b10 => ("smin", true)
  | _ => ("umin", false)

/-- Two families share this space: minimum and maximum against a literal, and the tagged
addition and subtraction. -/
def addSubtractImmediateTags (word : Word) : Out :=
  if word &&& 0x00400000#32 ≠ 0#32 then
    let wide : Bool := word &&& 0x80000000#32 ≠ 0#32
    if word &&& 0x60000000#32 ≠ 0#32 then
      .undecoded "unallocated"
    else
      let named := minMaxImmediate (field word 18 2)
      let literal := field word 10 8
      Out.new named.1
        |>.outReg (gpr (field word 0 5) wide false)
        |>.inReg (gpr (field word 5 5) wide false)
        |>.imm (if named.2 then BitVec.ofInt 64 (signExtend literal 8) else BitVec.ofNat 64 literal)
  else if word &&& 0x80000000#32 = 0#32 then
    .undecoded "unallocated"
  else
    Out.new (if word &&& 0x40000000#32 = 0#32 then "addg" else "subg")
      |>.outReg (gpr (field word 0 5) true true)
      |>.inReg (gpr (field word 5 5) true true)
      |>.imm (BitVec.ofNat 64 (field word 16 6) * 16#64)
      |>.imm (BitVec.ofNat 64 (field word 10 4))

def logicalImmediateName (opc : ℕ) : String :=
  match opc with
  | 0b00 => "and"
  | 0b01 => "orr"
  | 0b10 => "eor"
  | _ => "ands"

def logicalImmediate (word : Word) : Out :=
  let wide : Bool := word &&& 0x80000000#32 ≠ 0#32
  let opc := field word 29 2
  match bitmaskImmediate (field word 22 1) (field word 16 6) (field word 10 6) wide with
  | none => .undecoded "unallocated"
  | some value =>
    let rd := field word 0 5
    let rn := field word 5 5
    let source := gpr rn wide false
    let destination := gpr rd wide (opc ≠ 0b11)
    if opc = 0b01 ∧ rn = 31 then
      Out.new "mov" |>.outReg destination |>.imm value |>.withEffect .move
    else if opc = 0b11 ∧ rd = 31 then
      Out.new "tst" |>.inReg source |>.imm value |>.withEffect .test |>.flags
    else
      let effect := match opc with
        | 0b00 | 0b11 => Effect.bitAnd
        | 0b01 => .bitOr
        | _ => .bitXor
      let out := Out.new (logicalImmediateName opc)
        |>.outReg destination |>.inReg source |>.imm value |>.withEffect effect
      if opc = 0b11 then out.flags else out

def moveWideImmediate (word : Word) : Out :=
  let wide : Bool := word &&& 0x80000000#32 ≠ 0#32
  let opc := field word 29 2
  let shift := field word 21 2 * 16
  if opc = 0b01 ∨ (¬ wide ∧ shift ≥ 32) then
    .undecoded "unallocated"
  else
    let immediate := BitVec.ofNat 64 (field word 5 16) <<< shift
    let destination := gpr (field word 0 5) wide false
    match opc with
    | 0b00 => Out.new "mov" |>.outReg destination
        |>.imm (~~~immediate &&& maskOf (if wide then 64 else 32)) |>.withEffect .move
    | 0b10 => Out.new "mov" |>.outReg destination |>.imm immediate |>.withEffect .move
    | _ => Out.new "movk" |>.inoutReg destination |>.imm immediate

def bitfield (word : Word) : Out :=
  let wide : Bool := word &&& 0x80000000#32 ≠ 0#32
  let opc := field word 29 2
  if field word 22 1 ≠ wide.toNat ∨ opc = 0b11 then
    .undecoded "unallocated"
  else
    let immr := field word 16 6
    let imms := field word 10 6
    let datasize := if wide then 64 else 32
    if immr ≥ datasize ∨ imms ≥ datasize then
      .undecoded "unallocated"
    else
      let destination := gpr (field word 0 5) wide false
      let source := gpr (field word 5 5) wide false
      let narrowSource := gpr (field word 5 5) false false
      match opc with
      | 0b00 =>
        if immr = 0 ∧ imms = 7 then
          Out.new "sxtb" |>.outReg destination |>.inReg narrowSource
        else if immr = 0 ∧ imms = 15 then
          Out.new "sxth" |>.outReg destination |>.inReg narrowSource
        else if immr = 0 ∧ imms = 31 ∧ wide then
          Out.new "sxtw" |>.outReg destination |>.inReg narrowSource |>.withEffect .moveSigned
        else if imms = datasize - 1 then
          Out.new "asr" |>.outReg destination |>.inReg source |>.imm (BitVec.ofNat 64 immr)
            |>.withEffect .shiftRight
        else if imms < immr then
          Out.new "sbfiz" |>.outReg destination |>.inReg source
            |>.imm (BitVec.ofNat 64 ((datasize - immr) % datasize))
            |>.imm (BitVec.ofNat 64 (imms + 1))
        else
          Out.new "sbfx" |>.outReg destination |>.inReg source |>.imm (BitVec.ofNat 64 immr)
            |>.imm (BitVec.ofNat 64 (imms - immr + 1))
      | 0b01 =>
        if imms < immr then
          if field word 5 5 = 31 then
            Out.new "bfc" |>.inoutReg destination
              |>.imm (BitVec.ofNat 64 ((datasize - immr) % datasize))
              |>.imm (BitVec.ofNat 64 (imms + 1))
          else
            Out.new "bfi" |>.inoutReg destination |>.inReg source
              |>.imm (BitVec.ofNat 64 ((datasize - immr) % datasize))
              |>.imm (BitVec.ofNat 64 (imms + 1))
        else
          Out.new "bfxil" |>.inoutReg destination |>.inReg source |>.imm (BitVec.ofNat 64 immr)
            |>.imm (BitVec.ofNat 64 (imms - immr + 1))
      | _ =>
        if immr = 0 ∧ imms = 7 then
          Out.new "uxtb" |>.outReg destination |>.inReg narrowSource
        else if immr = 0 ∧ imms = 15 then
          Out.new "uxth" |>.outReg destination |>.inReg narrowSource
        else if immr = 0 ∧ imms = 31 ∧ wide then
          Out.new "uxtw" |>.outReg destination |>.inReg narrowSource |>.withEffect .move
        else if imms = datasize - 1 then
          Out.new "lsr" |>.outReg destination |>.inReg source |>.imm (BitVec.ofNat 64 immr)
            |>.withEffect .shiftRight
        else if imms + 1 = immr then
          Out.new "lsl" |>.outReg destination |>.inReg source
            |>.imm (BitVec.ofNat 64 (datasize - immr)) |>.withEffect .shiftLeft
        else if imms < immr then
          Out.new "ubfiz" |>.outReg destination |>.inReg source
            |>.imm (BitVec.ofNat 64 ((datasize - immr) % datasize))
            |>.imm (BitVec.ofNat 64 (imms + 1))
        else
          Out.new "ubfx" |>.outReg destination |>.inReg source |>.imm (BitVec.ofNat 64 immr)
            |>.imm (BitVec.ofNat 64 (imms - immr + 1))

def extract (word : Word) : Out :=
  let wide : Bool := word &&& 0x80000000#32 ≠ 0#32
  let imms := field word 10 6
  if field word 29 2 ≠ 0 ∨ field word 21 1 ≠ 0 ∨ field word 22 1 ≠ wide.toNat ∨
      (¬ wide ∧ imms ≥ 32) then
    .undecoded "unallocated"
  else
    let rn := field word 5 5
    let rm := field word 16 5
    let out := Out.new (if rn = rm then "ror" else "extr")
      |>.outReg (gpr (field word 0 5) wide false) |>.inReg (gpr rn wide false)
    if rn = rm then out.imm (BitVec.ofNat 64 imms)
    else out.inReg (gpr rm wide false) |>.imm (BitVec.ofNat 64 imms)

def dataProcessingImmediate (word : Word) (address : Address) : Out :=
  match field word 23 3 with
  | 0b000 | 0b001 => pcRelative word address
  | 0b010 => addSubtractImmediate word
  | 0b011 => addSubtractImmediateTags word
  | 0b100 => logicalImmediate word
  | 0b101 => moveWideImmediate word
  | 0b110 => bitfield word
  | _ => extract word

/-! ## No word of this group transfers control -/

theorem pcRelative_straight (word : Word) (address : Address) :
    (pcRelative word address).Straight := by
  simp [pcRelative]

@[simp] theorem addSubtractName_dotless (subtract setsFlags : Bool) :
    Dotless (addSubtractName subtract setsFlags) := by
  cases subtract <;> cases setsFlags <;> simp [addSubtractName]

theorem addSubtractImmediate_straight (word : Word) : (addSubtractImmediate word).Straight := by
  simp [addSubtractImmediate]

@[simp] theorem minMaxImmediate_dotless (opc : ℕ) : Dotless (minMaxImmediate opc).1 := by
  unfold minMaxImmediate
  split <;> simp

theorem addSubtractImmediateTags_straight (word : Word) :
    (addSubtractImmediateTags word).Straight := by
  simp [addSubtractImmediateTags]

@[simp] theorem logicalImmediateName_dotless (opc : ℕ) : Dotless (logicalImmediateName opc) := by
  unfold logicalImmediateName
  split <;> simp

theorem logicalImmediate_straight (word : Word) : (logicalImmediate word).Straight := by
  unfold logicalImmediate
  dsimp only
  split <;> simp

theorem moveWideImmediate_straight (word : Word) : (moveWideImmediate word).Straight := by
  unfold moveWideImmediate
  simp only [Out.straight_ite, Out.straight_undecoded, implies_true, true_and]
  intro _
  split <;> simp

theorem bitfield_straight (word : Word) : (bitfield word).Straight := by
  unfold bitfield
  simp only [Out.straight_ite, Out.straight_undecoded, implies_true, true_and]
  intro _ _
  split <;> simp

theorem extract_straight (word : Word) : (extract word).Straight := by
  simp [extract]

theorem dataProcessingImmediate_straight (word : Word) (address : Address) :
    (dataProcessingImmediate word address).Straight := by
  unfold dataProcessingImmediate
  split
  · exact pcRelative_straight word address
  · exact pcRelative_straight word address
  · exact addSubtractImmediate_straight word
  · exact addSubtractImmediateTags_straight word
  · exact logicalImmediate_straight word
  · exact moveWideImmediate_straight word
  · exact bitfield_straight word
  · exact extract_straight word

end DbgScope.Arm64
