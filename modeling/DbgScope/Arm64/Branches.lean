import DbgScope.Arm64.Flow

/-!
# Branches, exceptions and the system space

The only group whose words transfer control. The immediate branches name their destination by
`relative`, the register branches name none, and nothing outside the four immediate classes has a
destination among its operands.
-/

namespace DbgScope.Arm64

open Bits

/-! ## Branches -/

def conditionalBranch (word : Word) (address : Address) : Out :=
  if field word 24 1 ≠ 0 then
    .undecoded "unallocated"
  else
    let code := field word 0 4
    let stem := match field word 4 1 with
      | 0 => "b"
      | _ => "bc"
    Out.new (stem ++ "." ++ conditionSuffix code)
      |>.target (relative address (field word 5 19) 19)
      |>.cond (condition code)

def branchImmediate (word : Word) (address : Address) : Out :=
  let link : Bool := word &&& 0x80000000#32 ≠ 0#32
  let out := Out.new (if link then "bl" else "b")
    |>.target (relative address (field word 0 26) 26)
  if link then out.writesOnly linkRegister else out

def compareAndBranch (word : Word) (address : Address) : Out :=
  Out.new (match field word 24 1 with
      | 0 => "cbz"
      | _ => "cbnz")
    |>.inReg (gpr (field word 0 5) (word &&& 0x80000000#32 ≠ 0#32) false)
    |>.target (relative address (field word 5 19) 19)

def testAndBranch (word : Word) (address : Address) : Out :=
  let bit := (field word 31 1 <<< 5) ||| field word 19 5
  Out.new (match field word 24 1 with
      | 0 => "tbz"
      | _ => "tbnz")
    |>.inReg (gpr (field word 0 5) (bit ≥ 32) false)
    |>.imm (BitVec.ofNat 64 bit)
    |>.target (relative address (field word 5 14) 14)

/-- The authentication key a register branch names, empty for a plain one. -/
def branchKey (op3 : ℕ) : Option String :=
  match op3 with
  | 0b000000 => some ""
  | 0b000010 => some "a"
  | 0b000011 => some "b"
  | _ => none

def authenticatedName (plain key : String) (modifier : Bool) : String :=
  if key = "" then plain else plain ++ "a" ++ key ++ (if modifier then "" else "z")

/-- `br` and its authenticating forms; `blr` and its own are the same shape and write the link
register too. -/
def branchThroughRegister (word : Word) (plain key : String) (op4Fixed : ℕ) (modifier : Bool) :
    Option Out :=
  let op4 := field word 0 5
  if ¬ modifier ∧ op4 ≠ op4Fixed then
    none
  else
    let out := Out.new (authenticatedName plain key modifier)
      |>.inReg (gpr (field word 5 5) true false)
    some (if modifier then out.inReg (gpr op4 true true) else out)

def branchRegister (word : Word) : Out :=
  let op2 := field word 16 5
  let op3 := field word 10 6
  let op4 := field word 0 5
  if op2 ≠ 0b11111 then
    .undecoded "unallocated"
  else match branchKey op3 with
  | none => .undecoded "unallocated"
  | some key =>
    let rn := field word 5 5
    let op4Fixed := if key = "" then 0b00000 else 0b11111
    let modifierForm : Bool := field word 21 4 &&& 0b1000 ≠ 0
    if modifierForm ∧ key = "" then
      .undecoded "unallocated"
    else match field word 21 4 with
    | 0b0000 | 0b1000 =>
      match branchThroughRegister word "br" key op4Fixed (field word 21 4 = 0b1000) with
      | none => .undecoded "unallocated"
      | some out => out
    | 0b0001 | 0b1001 =>
      match branchThroughRegister word "blr" key op4Fixed (field word 21 4 = 0b1001) with
      | none => .undecoded "unallocated"
      | some out => out.writesOnly linkRegister
    | 0b0010 =>
      if op4 ≠ op4Fixed ∨ (key ≠ "" ∧ rn ≠ 0b11111) then
        .undecoded "unallocated"
      else
        let out := Out.new (if key = "" then "ret" else "reta" ++ key)
        if key = "" then
          if rn = 30 then out.readsOnly linkRegister else out.inReg (gpr rn true false)
        else
          out.readsOnly linkRegister |>.readsOnly stackPointer
    | 0b0100 =>
      if rn ≠ 0b11111 ∨ op4 ≠ op4Fixed then
        .undecoded "unallocated"
      else
        let out := Out.new (if key = "" then "eret" else "ereta" ++ key) |>.privileged .other
        if key = "" then out else out.readsOnly stackPointer
    | 0b0101 =>
      if key = "" ∧ rn = 0b11111 ∧ op4 = 0 then Out.new "drps" |>.privileged .other
      else .undecoded "unallocated"
    | _ => .undecoded "unallocated"

/-! ## Exceptions and the system space -/

def exception (word : Word) : Out :=
  if field word 2 3 ≠ 0 then
    .undecoded "unallocated"
  else
    let immediate := BitVec.ofNat 64 (field word 5 16)
    match field word 21 3, field word 0 2 with
    | 0b000, 0b01 => Out.new "svc" |>.imm immediate
    | 0b000, 0b10 => Out.new "hvc" |>.imm immediate |>.privileged .virtualization
    | 0b000, 0b11 => Out.new "smc" |>.imm immediate |>.privileged .virtualization
    | 0b001, 0b00 => Out.new "brk" |>.imm immediate
    | 0b010, 0b00 => Out.new "hlt" |>.imm immediate
    | 0b011, 0b00 => Out.new "tcancel" |>.imm immediate
    | 0b101, level =>
      if 0b01 ≤ level ∧ level ≤ 0b11 then
        Out.new ("dcps" ++ toString level) |>.imm immediate |>.privileged .other
      else
        .undecoded "unallocated"
    | _, _ => .undecoded "unallocated"

def linkHintName (number : ℕ) : String :=
  match number with
  | 24 => "paciaz"
  | 25 => "paciasp"
  | 26 => "pacibz"
  | 27 => "pacibsp"
  | 28 => "autiaz"
  | 29 => "autiasp"
  | 30 => "autibz"
  | _ => "autibsp"

def hint (number : ℕ) : Out :=
  if 24 ≤ number ∧ number ≤ 31 then
    let out := Out.new (linkHintName number)
      |>.writesOnly linkRegister |>.readsOnly linkRegister
    match number % 2 with
    | 1 => out.readsOnly stackPointer
    | _ => out
  else
    -- `pacia1716` and its kin authenticate `xip1` against `xip0`.
    let paired (name : String) := Out.new name |>.writesOnly (gpr 17 true false)
      |>.readsOnly (gpr 17 true false) |>.readsOnly (gpr 16 true false)
    match number with
    | 0 => Out.new "nop"
    | 1 => Out.new "yield"
    | 2 => Out.new "wfe"
    | 3 => Out.new "wfi"
    | 4 => Out.new "sev"
    | 5 => Out.new "sevl"
    | 6 => Out.new "dgh"
    | 7 => Out.new "xpaclri" |>.writesOnly linkRegister |>.readsOnly linkRegister
    | 8 => paired "pacia1716"
    | 10 => paired "pacib1716"
    | 12 => paired "autia1716"
    | 14 => paired "autib1716"
    | 16 => Out.new "esb"
    | 17 => Out.new "psb" |>.other "csync"
    | 18 => Out.new "tsb" |>.other "csync"
    | 19 => Out.new "gcsb" |>.other "dsync"
    | 20 => Out.new "csdb"
    | 22 => Out.new "clrbhb"
    | 32 => Out.new "bti"
    | 34 => Out.new "bti" |>.other "c"
    | 36 => Out.new "bti" |>.other "j"
    | 38 => Out.new "bti" |>.other "jc"
    | number => Out.new "hint" |>.imm (BitVec.ofNat 64 number)

/-- The shareability domain of a barrier, empty where the number has no name. -/
def barrierDomain (crm : ℕ) : String :=
  match crm with
  | 0b0001 => "oshld"
  | 0b0010 => "oshst"
  | 0b0011 => "osh"
  | 0b0101 => "nshld"
  | 0b0110 => "nshst"
  | 0b0111 => "nsh"
  | 0b1001 => "ishld"
  | 0b1010 => "ishst"
  | 0b1011 => "ish"
  | 0b1101 => "ld"
  | 0b1110 => "st"
  | 0b1111 => "sy"
  | _ => ""

def barrier (crm op2 : ℕ) : Out :=
  let named (name : String) :=
    if barrierDomain crm = "" then Out.new name |>.imm (BitVec.ofNat 64 crm)
    else Out.new name |>.other (barrierDomain crm)
  match op2 with
  | 0b010 => Out.new "clrex" |>.imm (BitVec.ofNat 64 crm)
  | 0b100 =>
    match crm with
    | 0b0000 => Out.new "ssbb"
    | 0b0100 => Out.new "pssbb"
    | _ => named "dsb"
  | 0b101 => named "dmb"
  | 0b110 =>
    match crm with
    | 0b1111 => Out.new "isb" |>.other "sy"
    | _ => Out.new "isb" |>.imm (BitVec.ofNat 64 crm)
  | 0b111 => Out.new "sb"
  | _ => .undecoded "unallocated"

/-- Every system-register encoding but the unprivileged one is above EL0. -/
def privilegedLevel (op1 : ℕ) : Bool := op1 ≠ 0b011

def interruptMask (op0 op1 crn crm op2 : ℕ) : Bool :=
  op0 = 0b11 ∧ op1 = 0b011 ∧ crn = 0b0100 ∧ crm = 0b0010 ∧ op2 = 0b001

def allInterruptsMask (op0 op1 crn crm op2 : ℕ) : Bool :=
  op0 = 0b11 ∧ op1 = 0b000 ∧ crn = 0b0100 ∧ crm = 0b0011 ∧ op2 = 0b000

def implementationDefined (op0 crn : ℕ) : Bool := op0 = 0b11 ∧ (crn = 0b1011 ∨ crn = 0b1111)

/-- A field of the processor state an immediate `msr` reaches, or a flag operation. -/
def pstateField (op1 op2 : ℕ) : Option String :=
  match op1, op2 with
  | 0b000, 0b000 => some "cfinv"
  | 0b000, 0b001 => some "xaflag"
  | 0b000, 0b010 => some "axflag"
  | 0b000, 0b011 => some "uao"
  | 0b000, 0b100 => some "pan"
  | 0b000, 0b101 => some "spsel"
  | 0b001, 0b000 => some "allint"
  | 0b011, 0b001 => some "ssbs"
  | 0b011, 0b010 => some "dit"
  | 0b011, 0b100 => some "tco"
  | 0b011, 0b110 => some "daifset"
  | 0b011, 0b111 => some "daifclr"
  | _, _ => none

def pstate (op1 crm op2 : ℕ) : Out :=
  match pstateField op1 op2 with
  | none => .undecoded "unallocated"
  | some fieldName =>
    if op1 = 0b000 ∧ op2 ≤ 0b010 then
      if crm = 0 then Out.new fieldName |>.flags else .undecoded "unallocated"
    else
      let out := Out.new "msr" |>.other fieldName |>.imm (BitVec.ofNat 64 crm)
      let privileged : Bool :=
        if op1 = 0b000 ∧ op2 ≤ 0b010 then false
        else if op1 = 0b011 ∧ (op2 = 0b110 ∨ op2 = 0b111) then true
        else privilegedLevel op1
      let family : Privilege :=
        if (op1 = 0b011 ∧ (op2 = 0b110 ∨ op2 = 0b111)) ∨ (op1 = 0b001 ∧ op2 = 0b000) then
          .interruptFlag
        else
          .controlRegister
      if privileged then out.privileged family else out

/-- The cache, translation and TLB operations of one row of the `sys` space: a mnemonic, its
family, and the `op1:op2` values that are allocated. -/
def maintenanceRow (crn crm : ℕ) : Option (String × Privilege × ℕ) :=
  match crn, crm with
  | 0b0111, 0b0001 => some ("ic", .cacheOrTlb, 0x0000000000000001)
  | 0b0111, 0b0100 => some ("dc", .cacheOrTlb, 0x00000000ba000000)
  | 0b0111, 0b0101 => some ("ic", .cacheOrTlb, 0x0000000002000001)
  | 0b0111, 0b0110 => some ("dc", .cacheOrTlb, 0x000000000000007e)
  | 0b0111, 0b1000 => some ("at", .other, 0x000300f30000000f)
  | 0b0111, 0b1001 => some ("at", .other, 0x0004000400000007)
  | 0b0111, 0b1010 => some ("dc", .cacheOrTlb, 0x000000002a000054)
  | 0b0111, 0b1011 => some ("dc", .cacheOrTlb, 0x0000000083000000)
  | 0b0111, 0b1100 => some ("dc", .cacheOrTlb, 0x000000002a000000)
  | 0b0111, 0b1101 => some ("dc", .cacheOrTlb, 0x000000002a000000)
  | 0b0111, 0b1110 => some ("dc", .cacheOrTlb, 0x002200812a000054)
  | 0b0111, 0b1111 => some ("dc", .cacheOrTlb, 0x0000000081000022)
  | crn, crm =>
    if crn = 0b1000 ∨ crn = 0b1001 then
      match crm with
      | 0b0000 => some ("tlbi", .cacheOrTlb, 0x0000006600000000)
      | 0b0001 => some ("tlbi", .cacheOrTlb, 0x00330073000000af)
      | 0b0010 => some ("tlbi", .cacheOrTlb, 0x00220026000000aa)
      | 0b0011 => some ("tlbi", .cacheOrTlb, 0x00230073000000af)
      | 0b0100 => some ("tlbi", .cacheOrTlb, 0x008800ff00000000)
      | 0b0101 => some ("tlbi", .cacheOrTlb, 0x00220026000000aa)
      | 0b0110 => some ("tlbi", .cacheOrTlb, 0x00220026000000aa)
      | 0b0111 => some ("tlbi", .cacheOrTlb, 0x00330073000000af)
      | _ => none
    else
      none

def maintenance (load : Bool) (crn crm op1 op2 : ℕ) : Option (String × Privilege) :=
  if load then
    none
  else
    match maintenanceRow crn crm with
    | none => none
    | some (mnemonic, family, allocated) =>
      if (allocated >>> ((op1 <<< 3) ||| op2)) &&& 1 = 1 then some (mnemonic, family) else none

def systemNamed (load : Bool) (crn crm op1 op2 : ℕ) : String × Privilege :=
  match maintenance load crn crm op1 op2 with
  | some named => named
  | none => if load then ("sysl", .other) else ("sys", .other)

def system (word : Word) : Out :=
  let load : Bool := field word 21 1 ≠ 0
  let op0 := field word 19 2
  let op1 := field word 16 3
  let crn := field word 12 4
  let crm := field word 8 4
  let op2 := field word 5 3
  let rt := field word 0 5
  if op0 = 0b00 then
    if load then
      .undecoded "unallocated"
    else if crn = 0b0010 ∧ op1 = 0b011 ∧ rt = 0b11111 then
      hint ((crm <<< 3) ||| op2)
    else if crn = 0b0011 then
      barrier crm op2
    else if crn = 0b0100 ∧ rt = 0b11111 then
      pstate op1 crm op2
    else
      .undecoded "unallocated"
  else if op0 = 0b01 then
    let named := systemNamed load crn crm op1 op2
    let out := Out.new named.1
    let out := if load then out.outReg (gpr rt true false) else out
    let out := out.imm (BitVec.ofNat 64 op1) |>.other ("C" ++ toString crn)
      |>.other ("C" ++ toString crm) |>.imm (BitVec.ofNat 64 op2)
    let out := if ¬ load ∧ rt ≠ 0b11111 then out.inReg (gpr rt true false) else out
    out.privileged named.2
  else
    let name := "s" ++ toString op0 ++ "_" ++ toString op1 ++ "_c" ++ toString crn ++ "_c" ++
      toString crm ++ "_" ++ toString op2
    let out :=
      if load then Out.new "mrs" |>.outReg (gpr rt true false) |>.other name
      else Out.new "msr" |>.other name |>.inReg (gpr rt true false)
    -- `msr nzcv` writes the flags.
    let out :=
      if ¬ load ∧ op0 = 0b11 ∧ op1 = 0b011 ∧ crn = 0b0100 ∧ crm = 0b0010 ∧ op2 = 0b000 then
        out.flags
      else
        out
    let family : Privilege :=
      if interruptMask op0 op1 crn crm op2 ∨ allInterruptsMask op0 op1 crn crm op2 then
        .interruptFlag
      else if implementationDefined op0 crn then
        .modelSpecificRegister
      else
        .controlRegister
    if privilegedLevel op1 ∨ interruptMask op0 op1 crn crm op2 then out.privileged family else out

def branchExceptionSystem (word : Word) (address : Address) : Out :=
  let op0 := field word 29 3
  let op1 := field word 22 4
  if op0 = 0b010 ∧ op1 &&& 0b1000 = 0 then
    conditionalBranch word address
  else if op0 = 0b110 ∧ op1 &&& 0b1100 = 0 then
    exception word
  else if op0 = 0b110 ∧ op1 = 0b0100 then
    system word
  else if op0 = 0b110 ∧ op1 &&& 0b1000 ≠ 0 then
    branchRegister word
  else if op0 &&& 0b011 = 0 then
    branchImmediate word address
  else if op0 &&& 0b011 = 0b001 ∧ op1 &&& 0b1000 = 0 then
    compareAndBranch word address
  else if op0 &&& 0b011 = 0b001 then
    testAndBranch word address
  else
    .undecoded "unallocated"

/-! ## What the classes report -/

theorem branchKey_dotless {op3 : ℕ} {key : String} (h : branchKey op3 = some key) :
    Dotless key := by
  unfold branchKey at h
  split at h
  all_goals first | (cases h; simp) | cases h

theorem authenticatedName_dotless {plain key : String} {modifier : Bool} (hplain : Dotless plain)
    (hkey : Dotless key) : Dotless (authenticatedName plain key modifier) := by
  simp [authenticatedName, hplain, hkey]

theorem branchThroughRegister_straight {word : Word} {plain key : String} {op4Fixed : ℕ}
    {modifier : Bool} {out : Out} (hplain : Dotless plain) (hkey : Dotless key)
    (h : branchThroughRegister word plain key op4Fixed modifier = some out) : out.Straight := by
  unfold branchThroughRegister at h
  dsimp only at h
  split at h
  · cases h
  · cases h
    simp [authenticatedName_dotless hplain hkey]

theorem branchRegister_straight (word : Word) : (branchRegister word).Straight := by
  unfold branchRegister
  simp only [Out.straight_ite, Out.straight_undecoded, implies_true, true_and]
  intro _
  split
  · simp
  next key hkey =>
    have hd := branchKey_dotless hkey
    simp only [Out.straight_ite, Out.straight_undecoded, implies_true, true_and]
    intro _
    split
    · split
      · simp
      · next h => exact branchThroughRegister_straight (by simp) hd h
    · split
      · simp
      · next h => exact branchThroughRegister_straight (by simp) hd h
    · split
      · simp
      · next h => simpa using branchThroughRegister_straight (by simp) hd h
    · split
      · simp
      · next h => simpa using branchThroughRegister_straight (by simp) hd h
    · simp [hd]
    · simp [hd]
    · simp
    · simp

theorem exception_straight (word : Word) : (exception word).Straight := by
  unfold exception
  simp only [Out.straight_ite, Out.straight_undecoded, implies_true, true_and]
  intro _
  split <;> simp

@[simp] theorem linkHintName_dotless (number : ℕ) : Dotless (linkHintName number) := by
  unfold linkHintName
  split <;> simp

theorem hint_straight (number : ℕ) : (hint number).Straight := by
  unfold hint
  simp only [Out.straight_ite]
  constructor
  · intro _
    split <;> simp
  · intro _
    split <;> simp

theorem barrier_straight (crm op2 : ℕ) : (barrier crm op2).Straight := by
  unfold barrier
  dsimp only
  split
  case h_2 => split <;> simp
  case h_4 => split <;> simp
  all_goals simp

theorem pstateField_dotless {op1 op2 : ℕ} {name : String} (h : pstateField op1 op2 = some name) :
    Dotless name := by
  unfold pstateField at h
  split at h
  all_goals first | (cases h; simp) | cases h

theorem pstate_straight (op1 crm op2 : ℕ) : (pstate op1 crm op2).Straight := by
  unfold pstate
  split
  · simp
  · next h => simp [pstateField_dotless h]

theorem maintenanceRow_dotless {crn crm : ℕ} {row : String × Privilege × ℕ}
    (h : maintenanceRow crn crm = some row) : Dotless row.1 := by
  unfold maintenanceRow at h
  split at h
  case h_13 =>
    split at h
    · split at h
      all_goals first | (cases h; simp) | cases h
    · cases h
  all_goals
    cases h
    simp

theorem systemNamed_dotless (load : Bool) (crn crm op1 op2 : ℕ) :
    Dotless (systemNamed load crn crm op1 op2).1 := by
  unfold systemNamed
  split
  · next named h =>
    unfold maintenance at h
    split at h
    · cases h
    · split at h
      · cases h
      · next hrow =>
        split at h
        · cases h
          exact maintenanceRow_dotless hrow
        · cases h
  · split <;> simp

theorem system_straight (word : Word) : (system word).Straight := by
  simp [system, hint_straight, barrier_straight, pstate_straight, systemNamed_dotless]

end DbgScope.Arm64
