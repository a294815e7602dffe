import DbgScope.Arm64.Operand

/-!
# Loads and stores

Literal loads, pairs, single registers in every addressing form, atomics, exclusives, the memory
copy and tag operations, and vector structures. None of these words transfers control.
-/

namespace DbgScope.Arm64

structure Access where
  stem : String
  suffix : String
  register : ℕ
  bytes : ℕ
  load : Bool
  prefetch : Bool
  vector : Bool
  deriving DecidableEq, Repr

def generalAccess (size opc : ℕ) : Option (String × String × ℕ × Bool × Bool) :=
  match size, opc with
  | 0, 0b00 => some ("str", "b", 4, false, false)
  | 1, 0b00 => some ("str", "h", 4, false, false)
  | 2, 0b00 => some ("str", "", 4, false, false)
  | 0, 0b01 => some ("ldr", "b", 4, true, false)
  | 1, 0b01 => some ("ldr", "h", 4, true, false)
  | 2, 0b01 => some ("ldr", "", 4, true, false)
  | 0, 0b10 => some ("ldr", "sb", 8, true, false)
  | 1, 0b10 => some ("ldr", "sh", 8, true, false)
  | 0, 0b11 => some ("ldr", "sb", 4, true, false)
  | 1, 0b11 => some ("ldr", "sh", 4, true, false)
  | 2, 0b10 => some ("ldr", "sw", 8, true, false)
  | 3, 0b00 => some ("str", "", 8, false, false)
  | 3, 0b01 => some ("ldr", "", 8, true, false)
  | 3, 0b10 => some ("prfm", "", 8, false, true)
  | _, _ => none

def accessOf (size opc : ℕ) (vector : Bool) : Option Access :=
  if vector then
    let scale := ((opc &&& 0b10) <<< 1) ||| size
    if scale > 4 then
      none
    else
      some { stem := if opc &&& 1 = 1 then "ldr" else "str", suffix := "", register := 1 <<< scale,
             bytes := 1 <<< scale, load := opc &&& 1 = 1, prefetch := false, vector := true }
  else
    match generalAccess size opc with
    | none => none
    | some (stem, suffix, register, load, prefetch) =>
      some { stem, suffix, register, bytes := 1 <<< size, load, prefetch, vector := false }

def prefetchOperation (rt : ℕ) : String :=
  let word := BitVec.ofNat 32 rt
  let kind := match field word 3 2 with
    | 0b00 => some "PLD"
    | 0b01 => some "PLI"
    | 0b10 => some "PST"
    | _ => none
  let level := match field word 1 2 with
    | 0b00 => some "L1"
    | 0b01 => some "L2"
    | 0b10 => some "L3"
    | _ => none
  let policy := match rt &&& 1 with
    | 0 => "KEEP"
    | _ => "STRM"
  match kind, level with
  | some kind, some level => kind ++ level ++ policy
  | _, _ => "#" ++ toString rt

def transfer (number : ℕ) (access : Access) : RegisterOperand :=
  if access.vector then vreg number access.register else gpr number (access.register = 8) false

def transferOperands (out : Out) (rt : ℕ) (access : Access) (memory : MemoryOperand) : Out :=
  let out :=
    if access.prefetch then out.other (prefetchOperation rt)
    else if access.load then out.outReg (transfer rt access)
    else out.inReg (transfer rt access)
  let memory := if access.prefetch then { memory with size := none } else memory
  out.mem memory |>.withEffect
    (if access.prefetch then .other
    else if access.suffix ∈ ["sb", "sh", "sw"] then .moveSigned
    else .move)

def through (register : RegisterOperand) (size : Option ℕ) (displacement : ℤ) : MemoryOperand :=
  { size := size, base := some register, scale := 1, displacement := displacement }

def unscaledAcquire (word : Word) : Out :=
  match (accessOf (field word 30 2) (field word 22 2) false).filter (!·.prefetch) with
  | none => .undecoded "unallocated"
  | some access =>
    if field word 10 2 ≠ 0 then
      .undecoded "unallocated"
    else
      let memory := through (gpr (field word 5 5) true true) (some access.bytes)
        (signExtend (field word 12 9) 9)
      transferOperands (Out.new ((if access.load then "ldapur" else "stlur") ++ access.suffix))
        (field word 0 5) access memory

def stage (number : ℕ) : Option String :=
  match number with
  | 0 => some "p"
  | 1 => some "m"
  | 2 => some "e"
  | _ => none

def optionSuffix (first second both : String) (option : ℕ) : String :=
  match option with
  | 0 => ""
  | 1 => first
  | 2 => second
  | _ => both

def memoryOperations (word : Word) : Out :=
  let tagged : Bool := field word 26 1 ≠ 0
  let op1 := field word 22 2
  let op2 := field word 12 4
  let other := field word 16 5
  let rn := field word 5 5
  let rd := field word 0 5
  let at_ (number : ℕ) := through (gpr number true false) none 0
  if op1 = 0b11 then
    match stage (op2 >>> 2) with
    | none => .undecoded "unallocated"
    | some which =>
      let suffix := optionSuffix "t" "n" "tn" (op2 &&& 0b11)
      let out := Out.new ("set" ++ (if tagged then "g" else "") ++ which ++ suffix)
        |>.mem (at_ rd) |>.writesOnly (gpr rd true false)
        |>.inoutReg (gpr rn true false) |>.inReg (gpr other true false)
      if which = "p" then out.flags else out
  else
    let which := (stage op1).getD ""
    let read := optionSuffix "wt" "rt" "t" (op2 &&& 0b11)
    let write := optionSuffix "wn" "rn" "n" (op2 >>> 2)
    let out := Out.new ("cpy" ++ (if tagged then "" else "f") ++ which ++ read ++ write)
      |>.mem (at_ rd) |>.writesOnly (gpr rd true false)
      |>.mem (at_ other) |>.writesOnly (gpr other true false)
      |>.inoutReg (gpr rn true false)
    if op1 = 0b00 then out.flags else out

def memoryTagName (opc : ℕ) (atIndexZero : Bool) : String :=
  match opc, atIndexZero with
  | 0b00, true => "stzgm"
  | 0b00, false => "stg"
  | 0b01, true => "ldg"
  | 0b01, false => "stzg"
  | 0b10, true => "stgm"
  | 0b10, false => "st2g"
  | 0b11, true => "ldgm"
  | _, _ => "stz2g"

def baseMoved (out : Out) (base : RegisterOperand) (displacement : ℤ) (post moved : Bool) : Out :=
  let out := if post then out.other (postIndexAmount displacement) else out
  if moved then out.writesOnly base else out

def memoryTags (word : Word) : Out :=
  if field word 30 2 ≠ 0b11 then
    .undecoded "unallocated"
  else
    let opc := field word 22 2
    let index := field word 10 2
    let rn := field word 5 5
    let rt := field word 0 5
    let displacement := signExtend (field word 12 9) 9 * 16
    let mnemonic := memoryTagName opc (index = 0b00)
    let granule : Bool := mnemonic ∈ ["stzgm", "stgm", "ldgm"]
    if granule ∧ displacement ≠ 0 then
      .undecoded "unallocated"
    else
      let loads : Bool := mnemonic ∈ ["ldg", "ldgm"]
      let tagged := gpr rt true (!loads && !granule)
      let out := Out.new mnemonic
      let out :=
        if loads then
          if mnemonic = "ldg" then out.inoutReg tagged else out.outReg tagged
        else
          out.inReg tagged
      let size :=
        if granule then none else if mnemonic ∈ ["st2g", "stz2g"] then some 32 else some 16
      let out := out.mem
        (through (gpr rn true true) size (if index = 0b01 then 0 else displacement))
      baseMoved out (gpr rn true true) displacement (index = 0b01) (index = 0b01 ∨ index = 0b11)

def literalLoad (vector : Bool) (opc rt : ℕ) : Option (Out × ℕ) :=
  match vector, opc with
  | false, 0b00 => some (Out.new "ldr" |>.outReg (gpr rt false false), 4)
  | false, 0b01 => some (Out.new "ldr" |>.outReg (gpr rt true false), 8)
  | false, 0b10 => some (Out.new "ldrsw" |>.outReg (gpr rt true false), 4)
  | false, _ => some (Out.new "prfm" |>.other (prefetchOperation rt), 0)
  | true, 0b00 => some (Out.new "ldr" |>.outReg (vreg rt 4), 4)
  | true, 0b01 => some (Out.new "ldr" |>.outReg (vreg rt 8), 8)
  | true, 0b10 => some (Out.new "ldr" |>.outReg (vreg rt 16), 16)
  | true, _ => none

def loadLiteral (word : Word) (address : Address) : Out :=
  let vector : Bool := field word 26 1 ≠ 0
  let opc := field word 30 2
  let displacement := signExtend (field word 5 19) 19 * 4
  let target := address + BitVec.ofInt 64 displacement
  let rt := field word 0 5
  match literalLoad vector opc rt with
  | none => .undecoded "unallocated"
  | some (out, bytes) =>
    let effect : Effect :=
      if opc = 0b10 ∧ ¬ vector then .moveSigned
      else if opc = 0b11 ∧ ¬ vector then .other
      else .move
    out.mem { size := if bytes ≠ 0 then some bytes else none, displacement := displacement,
              address := some target }
      |>.withEffect effect

/-- How a pair scales its displacement, the bytes of each register, and whether it sign-extends. -/
def pairScale (vector : Bool) (opc : ℕ) (load : Bool) (index : ℕ) : Option (ℕ × ℕ × Bool) :=
  match vector, opc, load with
  | false, 0b00, _ => some (2, 4, false)
  | false, 0b01, load =>
    if index = 0b000 then none else if load then some (2, 8, true) else some (4, 8, false)
  | false, 0b10, _ => some (3, 8, false)
  | true, 0b00, _ => some (2, 4, false)
  | true, 0b01, _ => some (3, 8, false)
  | true, 0b10, _ => some (4, 16, false)
  | _, _, _ => none

def pairName (index : ℕ) (signed load vector : Bool) (opc : ℕ) : String :=
  if index = 0b000 then (if load then "ldnp" else "stnp")
  else if signed then "ldpsw"
  else if ¬ load ∧ ¬ vector ∧ opc = 0b01 then "stgp"
  else if load then "ldp"
  else "stp"

def loadStorePair (word : Word) : Out :=
  let vector : Bool := field word 26 1 ≠ 0
  let opc := field word 30 2
  let index := field word 23 3
  let load : Bool := field word 22 1 ≠ 0
  let rt := field word 0 5
  let rt2 := field word 10 5
  let rn := field word 5 5
  match pairScale vector opc load index with
  | none => .undecoded "unallocated"
  | some (scale, register, signed) =>
    let displacement := signExtend (field word 15 7) 7 * 2 ^ scale
    let one (number : ℕ) :=
      if vector then vreg number register else gpr number (register = 8) false
    let out := Out.new (pairName index signed load vector opc)
    let out :=
      if load then out.outReg (one rt) |>.outReg (one rt2)
      else out.inReg (one rt) |>.inReg (one rt2)
    let out := out.mem (through (gpr rn true true) (some (if signed then 8 else register * 2))
      (if index = 0b001 then 0 else displacement))
    baseMoved out (gpr rn true true) displacement (index = 0b001) (index = 0b001 ∨ index = 0b011)

def atomicOperation (o3 opc : ℕ) : Option String :=
  match o3, opc with
  | 0, 0b000 => some "ldadd"
  | 0, 0b001 => some "ldclr"
  | 0, 0b010 => some "ldeor"
  | 0, 0b011 => some "ldset"
  | 0, 0b100 => some "ldsmax"
  | 0, 0b101 => some "ldsmin"
  | 0, 0b110 => some "ldumax"
  | 0, 0b111 => some "ldumin"
  | _, 0b000 => some "swp"
  | _, _ => none

def storeForm (operation : String) : String := "st" ++ String.ofList (operation.toList.drop 2)

def widthSuffix (size : ℕ) : String :=
  match size with
  | 0b00 => "b"
  | 0b01 => "h"
  | _ => ""

def orderingSuffix (acquire release : ℕ) : String :=
  match acquire, release with
  | 0, 0 => ""
  | 0, _ => "l"
  | _, 0 => "a"
  | _, _ => "al"

def atomicMemoryOperation (word : Word) : Out :=
  let size := field word 30 2
  let acquire := field word 23 1
  let release := field word 22 1
  let rs := field word 16 5
  let rn := field word 5 5
  let rt := field word 0 5
  let o3 := field word 15 1
  let opc := field word 12 3
  let wide : Bool := size = 0b11
  let width := widthSuffix size
  let ordering := orderingSuffix acquire release
  let memory := through (gpr rn true true) (some (1 <<< size)) 0
  if o3 = 1 ∧ opc = 0b100 ∧ rs = 0b11111 ∧ acquire = 1 ∧ release = 0 then
    Out.new ("ldapr" ++ width) |>.outReg (gpr rt wide false) |>.mem memory |>.withEffect .move
  else match atomicOperation o3 opc with
  | none => .undecoded "unallocated"
  | some operation =>
    -- A result nobody reads makes the load a store, except that a swap still swaps.
    if rt = 0b11111 ∧ acquire = 0 ∧ operation ≠ "swp" then
      Out.new (storeForm operation ++ ordering ++ width) |>.inReg (gpr rs wide false) |>.mem memory
    else
      Out.new (operation ++ ordering ++ width) |>.inReg (gpr rs wide false)
        |>.outReg (gpr rt wide false) |>.mem memory

def unscaledStem (mode : ℕ) (prefetch : Bool) (stem : String) : String :=
  match mode, prefetch with
  | 0b00, true => "prfum"
  | 0b00, false => String.ofList stem.toList.dropLast ++ "ur"
  | 0b10, _ => if stem = "ldr" then "ldtr" else "sttr"
  | _, _ => stem

def loadStoreRegister (word : Word) : Out :=
  let vector : Bool := field word 26 1 ≠ 0
  let size := field word 30 2
  let opc := field word 22 2
  let rn := field word 5 5
  let rt := field word 0 5
  let base := gpr rn true true
  if field word 24 2 = 0b01 then
    match accessOf size opc vector with
    | none => .undecoded "unallocated"
    | some access =>
      let scale := trailingZeros access.bytes
      let memory := through base (some access.bytes) (field word 10 12 <<< scale : ℕ)
      transferOperands (Out.new (access.stem ++ access.suffix)) rt access memory
  else
    let mode := field word 10 2
    if field word 21 1 = 1 ∧ mode = 0b00 ∧ ¬ vector then
      atomicMemoryOperation word
    else if field word 21 1 = 1 ∧ mode = 0b10 then
      match accessOf size opc vector with
      | none => .undecoded "unallocated"
      | some access =>
        let option := field word 13 3
        if option &&& 0b010 = 0 then
          .undecoded "unallocated"
        else
          let shift := match field word 12 1 with
            | 1 => trailingZeros access.bytes
            | _ => 0
          let memory : MemoryOperand :=
            { size := some access.bytes, base := some base,
              index := some (gpr (field word 16 5) (option &&& 1 = 1) false),
              scale := 1 <<< shift }
          transferOperands (Out.new (access.stem ++ access.suffix)) rt access memory
    else if field word 21 1 = 1 ∧ mode &&& 1 = 1 then
      if vector ∨ size ≠ 0b11 then
        .undecoded "unallocated"
      else
        let displacement := signExtend ((field word 22 1 <<< 9) ||| field word 12 9) 10 * 8
        let out := Out.new (match field word 23 1 with
            | 0 => "ldraa"
            | _ => "ldrab")
          |>.outReg (gpr rt true false)
          |>.mem (through base (some 8) displacement)
          |>.withEffect .move
        match mode &&& 0b10 with
        | 0b10 => out.writesOnly base
        | _ => out
    else if field word 21 1 = 0 then
      match accessOf size opc vector with
      | none => .undecoded "unallocated"
      | some access =>
        if (access.prefetch ∧ mode ≠ 0b00) ∨ (mode = 0b10 ∧ vector) then
          .undecoded "unallocated"
        else
          let displacement := signExtend (field word 12 9) 9
          let memory := through base (some access.bytes) (if mode = 0b01 then 0 else displacement)
          let mnemonic := unscaledStem mode access.prefetch access.stem ++ access.suffix
          let out := transferOperands (Out.new mnemonic) rt access memory
          baseMoved out base displacement (mode = 0b01) (mode = 0b01 ∨ mode = 0b11)
    else
      .undecoded "unallocated"

def loadStoreExclusive (word : Word) : Out :=
  let size := field word 30 2
  let o2 := field word 23 1
  let load : Bool := field word 22 1 ≠ 0
  let o1 := field word 21 1
  let o0 := field word 15 1
  let rs := field word 16 5
  let rt2 := field word 10 5
  let rn := field word 5 5
  let rt := field word 0 5
  let width := widthSuffix size
  let wide : Bool := size = 0b11
  let bytes := 1 <<< size
  let memory (bytes : ℕ) := through (gpr rn true true) (some bytes) 0
  if o2 = 0 ∧ o1 = 0 then
    if load then
      Out.new ("ld" ++ (if o0 = 1 then "a" else "") ++ "xr" ++ width)
        |>.outReg (gpr rt wide false) |>.mem (memory bytes) |>.withEffect .move
    else
      Out.new ("st" ++ (if o0 = 1 then "l" else "") ++ "xr" ++ width)
        |>.outReg (gpr rs false false) |>.inReg (gpr rt wide false) |>.mem (memory bytes)
  else if o2 = 0 ∧ o1 = 1 ∧ size &&& 0b10 ≠ 0 then
    if load then
      Out.new ("ld" ++ (if o0 = 1 then "a" else "") ++ "xp")
        |>.outReg (gpr rt wide false) |>.outReg (gpr rt2 wide false) |>.mem (memory (bytes * 2))
    else
      Out.new ("st" ++ (if o0 = 1 then "l" else "") ++ "xp")
        |>.outReg (gpr rs false false) |>.inReg (gpr rt wide false)
        |>.inReg (gpr rt2 wide false) |>.mem (memory (bytes * 2))
  else if o2 = 0 then
    if rs &&& 1 ≠ 0 ∨ rt &&& 1 ≠ 0 then
      .undecoded "unallocated"
    else
      let pairWide : Bool := size &&& 1 ≠ 0
      let element := if pairWide then 8 else 4
      Out.new ("casp" ++ (if load then "a" else "") ++ (if o0 = 1 then "l" else ""))
        |>.inoutReg (gpr rs pairWide false) |>.inoutReg (gpr (rs ||| 1) pairWide false)
        |>.inReg (gpr rt pairWide false) |>.inReg (gpr (rt ||| 1) pairWide false)
        |>.mem (memory (element * 2))
  else if o1 = 0 then
    if load then
      Out.new ("ld" ++ (if o0 = 1 then "a" else "la") ++ "r" ++ width)
        |>.outReg (gpr rt wide false) |>.mem (memory bytes) |>.withEffect .move
    else
      Out.new ("st" ++ (if o0 = 1 then "l" else "ll") ++ "r" ++ width)
        |>.inReg (gpr rt wide false) |>.mem (memory bytes) |>.withEffect .move
  else
    Out.new ("cas" ++ (if load then "a" else "") ++ (if o0 = 1 then "l" else "") ++ width)
      |>.inoutReg (gpr rs wide false) |>.inReg (gpr rt wide false) |>.mem (memory bytes)

def structureElement (word : Word) (single : Bool) (replicate : String) : ℕ :=
  if ¬ single then
    8 <<< field word 30 1
  else if replicate ≠ "" then
    1 <<< field word 10 2
  else
    match field word 14 2 with
    | 0b00 => 1
    | 0b01 => 2
    | _ => 4 <<< field word 10 1

/-- How many registers a vector structure spans, and the number its mnemonic carries. -/
def structureCount (word : Word) (single : Bool) : Option (ℕ × String) :=
  match single, field word 12 4 with
  | false, 0b0000 => some (4, "4")
  | false, 0b0010 => some (4, "1")
  | false, 0b0100 => some (3, "3")
  | false, 0b0110 => some (3, "1")
  | false, 0b0111 => some (1, "1")
  | false, 0b1000 => some (2, "2")
  | false, 0b1010 => some (2, "1")
  | false, _ => none
  | true, _ => some (((field word 13 1 <<< 1) ||| field word 21 1) + 1, "")

def structureRegister (first : ℕ) (merges load : Bool) (out : Out) (step : ℕ) : Out :=
  let register := vregWhole ((first + step) % 32)
  let out := if merges ∨ ¬ load then out.readsOnly register else out
  if load then out.writesOnly register else out

def vectorStructures (word : Word) : Out :=
  let postIndex : Bool := field word 23 1 ≠ 0
  if ¬ postIndex ∧ field word 16 5 ≠ 0 then
    .undecoded "unallocated"
  else
    let load : Bool := field word 22 1 ≠ 0
    let single : Bool := word &&& 0x3f000000#32 = 0x0d000000#32
    let rn := field word 5 5
    match structureCount word single with
    | none => .undecoded "unallocated"
    | some (count, stem) =>
      let replicate := if single ∧ field word 14 2 = 0b11 then "r" else ""
      let mnemonic := (if load then "ld" else "st") ++
        (if stem = "" then toString count ++ replicate else stem)
      let first := field word 0 5
      let listed := (List.range count).map fun step => "v" ++ toString ((first + step) % 32)
      let out := Out.new mnemonic |>.other ("\x7b" ++ ", ".intercalate listed ++ "\x7d")
      let merges : Bool := load ∧ single ∧ replicate = ""
      let out := (List.range count).foldl (structureRegister first merges load) out
      let transferred := count * structureElement word single replicate
      let out := out.mem (through (gpr rn true true) (some transferred) 0)
      let rm := field word 16 5
      let out :=
        if postIndex then
          if rm = 0b11111 then out.other (postIndexAmount transferred)
          else out.inReg (gpr rm true false)
        else
          out
      if postIndex then out.writesOnly (gpr rn true true) else out

def loadsAndStores (word : Word) (address : Address) : Out :=
  let group := word &&& 0x3f000000#32
  if group = 0x08000000#32 then
    loadStoreExclusive word
  else if group = 0x0c000000#32 ∨ group = 0x0d000000#32 then
    vectorStructures word
  else if word &&& 0x3b000000#32 = 0x18000000#32 then
    loadLiteral word address
  else if (group = 0x19000000#32 ∨ group = 0x1d000000#32) ∧ field word 30 2 = 0 ∧
      field word 21 1 = 0 ∧ field word 10 2 = 0b01 then
    memoryOperations word
  else if group = 0x19000000#32 then
    match field word 21 1 with
    | 0 => unscaledAcquire word
    | _ => memoryTags word
  else if word &&& 0x38000000#32 = 0x28000000#32 then
    loadStorePair word
  else if word &&& 0x38000000#32 = 0x38000000#32 then
    loadStoreRegister word
  else
    .undecoded "unallocated"

/-! ## No word of this group transfers control -/

section Straight

variable {out : Out} {word : Word}

theorem generalAccess_dotless {size opc : ℕ} {named : String × String × ℕ × Bool × Bool}
    (h : generalAccess size opc = some named) : Dotless named.1 ∧ Dotless named.2.1 := by
  unfold generalAccess at h
  split at h
  all_goals first | (cases h; simp) | cases h

theorem accessOf_dotless {size opc : ℕ} {vector : Bool} {access : Access}
    (h : accessOf size opc vector = some access) :
    Dotless access.stem ∧ Dotless access.suffix := by
  unfold accessOf at h
  split at h
  · dsimp only at h
    split at h
    · cases h
    · cases h
      simp
  · split at h
    · cases h
    · next heq =>
      cases h
      exact generalAccess_dotless heq

@[simp] theorem straight_transferOperands {rt : ℕ} {access : Access} {memory : MemoryOperand} :
    (transferOperands out rt access memory).Straight ↔ out.Straight := by
  unfold transferOperands
  simp only [Out.straight_withEffect, Out.straight_mem, Out.straight_ite, Out.straight_other,
    Out.straight_outReg, Out.straight_inReg]
  tauto

@[simp] theorem straight_baseMoved {base : RegisterOperand} {displacement : ℤ} {post moved : Bool} :
    (baseMoved out base displacement post moved).Straight ↔ out.Straight := by
  unfold baseMoved
  simp only [Out.straight_ite, Out.straight_writesOnly, Out.straight_other]
  tauto

theorem unscaledAcquire_straight (word : Word) : (unscaledAcquire word).Straight := by
  unfold unscaledAcquire
  split
  · simp
  · next access h =>
    have hd := accessOf_dotless (Option.eq_some_of_filter_eq_some h)
    simp only [Out.straight_ite, Out.straight_undecoded, straight_transferOperands,
      Out.straight_new, dotless_append, hd.2]
    simp

theorem stage_dotless {number : ℕ} {which : String} (h : stage number = some which) :
    Dotless which := by
  unfold stage at h
  split at h
  all_goals first | (cases h; simp) | cases h

@[simp] theorem stage_getD_dotless (number : ℕ) : Dotless ((stage number).getD "") := by
  cases h : stage number with
  | none => simp
  | some which => exact stage_dotless h

@[simp] theorem dotless_optionSuffix {first second both : String} {option : ℕ}
    (h₁ : Dotless first) (h₂ : Dotless second) (h₃ : Dotless both) :
    Dotless (optionSuffix first second both option) := by
  unfold optionSuffix
  split
  · simp
  · exact h₁
  · exact h₂
  · exact h₃

theorem memoryOperations_straight (word : Word) : (memoryOperations word).Straight := by
  unfold memoryOperations
  simp only [Out.straight_ite]
  constructor
  · intro _
    split
    · simp
    · next which h => simp [stage_dotless h]
  · simp

@[simp] theorem memoryTagName_dotless (opc : ℕ) (atIndexZero : Bool) :
    Dotless (memoryTagName opc atIndexZero) := by
  unfold memoryTagName
  split <;> simp

theorem memoryTags_straight (word : Word) : (memoryTags word).Straight := by
  simp [memoryTags]

theorem literalLoad_straight {vector : Bool} {opc rt : ℕ} {loaded : Out × ℕ}
    (h : literalLoad vector opc rt = some loaded) : loaded.1.Straight := by
  unfold literalLoad at h
  split at h
  all_goals first | (cases h; simp) | cases h

theorem loadLiteral_straight (word : Word) (address : Address) :
    (loadLiteral word address).Straight := by
  unfold loadLiteral
  dsimp only
  split
  · simp
  · next h => simpa using literalLoad_straight h

@[simp] theorem pairName_dotless (index : ℕ) (signed load vector : Bool) (opc : ℕ) :
    Dotless (pairName index signed load vector opc) := by
  simp [pairName]

theorem loadStorePair_straight (word : Word) : (loadStorePair word).Straight := by
  unfold loadStorePair
  dsimp only
  split <;> simp

theorem atomicOperation_dotless {o3 opc : ℕ} {operation : String}
    (h : atomicOperation o3 opc = some operation) : Dotless operation := by
  unfold atomicOperation at h
  split at h
  all_goals first | (cases h; simp) | cases h

theorem storeForm_dotless {operation : String} (h : Dotless operation) :
    Dotless (storeForm operation) := by
  unfold storeForm
  simp only [dotless_append]
  constructor
  · simp
  · intro hmem
    exact h (List.mem_of_mem_drop (by simpa using hmem))

@[simp] theorem widthSuffix_dotless (size : ℕ) : Dotless (widthSuffix size) := by
  unfold widthSuffix
  split <;> simp

@[simp] theorem orderingSuffix_dotless (acquire release : ℕ) :
    Dotless (orderingSuffix acquire release) := by
  unfold orderingSuffix
  split <;> simp

theorem atomicMemoryOperation_straight (word : Word) : (atomicMemoryOperation word).Straight := by
  unfold atomicMemoryOperation
  simp only [Out.straight_ite]
  constructor
  · simp
  · intro _
    split
    · simp
    · next operation h =>
      simp [atomicOperation_dotless h, storeForm_dotless (atomicOperation_dotless h)]

theorem unscaledStem_dotless {mode : ℕ} {prefetch : Bool} {stem : String} (h : Dotless stem) :
    Dotless (unscaledStem mode prefetch stem) := by
  unfold unscaledStem
  split
  · simp
  · simp only [dotless_append]
    constructor
    · intro hmem
      exact h (List.dropLast_subset _ (by simpa using hmem))
    · simp
  · simp
  · exact h

theorem loadStoreRegister_straight (word : Word) : (loadStoreRegister word).Straight := by
  unfold loadStoreRegister
  simp only [Out.straight_ite]
  refine ⟨fun _ => ?_, fun _ => ⟨fun _ => atomicMemoryOperation_straight word, fun _ =>
    ⟨fun _ => ?_, fun _ => ⟨fun _ => ⟨fun _ => by simp, fun _ => ?_⟩, fun _ =>
      ⟨fun _ => ?_, fun _ => by simp⟩⟩⟩⟩⟩
  · split
    · simp
    · next access h => simp [accessOf_dotless h]
  · split
    · simp
    · next access h => simp [accessOf_dotless h]
  · split
    all_goals
      simp only [Out.straight_writesOnly, Out.straight_withEffect, Out.straight_mem,
        Out.straight_outReg, Out.straight_new]
      split <;> simp
  · split
    · simp
    · next access h => simp [accessOf_dotless h, unscaledStem_dotless (accessOf_dotless h).1]

theorem loadStoreExclusive_straight (word : Word) : (loadStoreExclusive word).Straight := by
  simp [loadStoreExclusive]

theorem structureCount_dotless {single : Bool} {named : ℕ × String}
    (h : structureCount word single = some named) : Dotless named.2 := by
  unfold structureCount at h
  split at h
  all_goals first | (cases h; simp) | cases h

theorem structureRegisters_straight {first : ℕ} {merges load : Bool} (steps : List ℕ)
    (h : out.Straight) : (steps.foldl (structureRegister first merges load) out).Straight := by
  induction steps generalizing out with
  | nil => exact h
  | cons step rest ih =>
    apply ih
    simp [structureRegister, h]

theorem vectorStructures_straight (word : Word) : (vectorStructures word).Straight := by
  unfold vectorStructures
  simp only [Out.straight_ite, Out.straight_undecoded, implies_true, true_and]
  intro _
  split
  · simp
  · next count stem h =>
    have hstem : Dotless stem := structureCount_dotless h
    have hread : ∀ {out : Out} {merges load : Bool} {first : ℕ}, out.Straight →
        ((List.range count).foldl (structureRegister first merges load) out).Straight :=
      structureRegisters_straight _
    simp [hread, hstem]

theorem loadsAndStores_straight (word : Word) (address : Address) :
    (loadsAndStores word address).Straight := by
  unfold loadsAndStores
  simp only [Out.straight_ite, loadStoreExclusive_straight, vectorStructures_straight,
    loadLiteral_straight, memoryOperations_straight, loadStorePair_straight,
    loadStoreRegister_straight, Out.straight_undecoded, implies_true, true_and, and_true]
  intro _ _ _ _ _
  split
  · exact unscaledAcquire_straight word
  · exact memoryTags_straight word

end Straight

end DbgScope.Arm64
