import Mathlib.Data.Finset.Card
import Mathlib.Data.Nat.Bitwise
import Mathlib.Tactic

/-!
# Fixed-width arithmetic and little-endian bytes

Machine words are natural numbers below `2 ^ 64`. The operations here are the ones a program
spells out when it does not want the default: saturating, wrapping and checked addition, checked
subtraction, rounding up to a multiple. A byte string is a `List UInt8`, and `fromLe` and `toLe`
convert between a byte string and the number it holds, least significant byte first.
-/

namespace DbgScope

/-! ## Words -/

def saturatingAdd (a b : ℕ) : ℕ := min (a + b) (2 ^ 64 - 1)

def wrappingAdd (a b : ℕ) : ℕ := (a + b) % 2 ^ 64

def wrappingSub (a b : ℕ) : ℕ := (2 ^ 64 + a - b) % 2 ^ 64

def wrappingMul (a b : ℕ) : ℕ := a * b % 2 ^ 64

def checkedAdd (a b : ℕ) : Option ℕ := if a + b < 2 ^ 64 then some (a + b) else none

def checkedMul (a b : ℕ) : Option ℕ := if a * b < 2 ^ 64 then some (a * b) else none

def checkedSub (a b : ℕ) : Option ℕ := if b ≤ a then some (a - b) else none

def divCeil (a b : ℕ) : ℕ := (a + b - 1) / b

def nextMultipleOf (a m : ℕ) : ℕ := divCeil a m * m

def wrappingNextMultipleOf (a m : ℕ) : ℕ := nextMultipleOf a m % 2 ^ 64

def complement (a : ℕ) : ℕ := 2 ^ 64 - 1 - a

def isPowerOfTwo (n : ℕ) : Bool := n != 0 && 2 ^ Nat.log2 n == n

theorem saturatingAdd_of_lt {a b : ℕ} (h : a + b < 2 ^ 64) : saturatingAdd a b = a + b := by
  unfold saturatingAdd; omega

theorem saturatingAdd_lt (a b : ℕ) : saturatingAdd a b < 2 ^ 64 := by
  unfold saturatingAdd; omega

theorem le_saturatingAdd {a b : ℕ} (ha : a < 2 ^ 64) : a ≤ saturatingAdd a b := by
  unfold saturatingAdd; omega

theorem saturatingAdd_le (a b : ℕ) : saturatingAdd a b ≤ a + b := by
  unfold saturatingAdd; omega

theorem wrappingAdd_of_lt {a b : ℕ} (h : a + b < 2 ^ 64) : wrappingAdd a b = a + b :=
  Nat.mod_eq_of_lt h

theorem isPowerOfTwo_pos {n : ℕ} (h : isPowerOfTwo n = true) : 0 < n := by
  unfold isPowerOfTwo at h
  simp only [Bool.and_eq_true, bne_iff_ne, ne_eq] at h
  omega

theorem testBit_complement {a : ℕ} (h : a < 2 ^ 64) (i : ℕ) :
    (complement a).testBit i = (decide (i < 64) && !a.testBit i) := by
  rw [← Nat.testBit_two_pow_sub_succ h, complement, Nat.sub_sub, Nat.add_comm]

theorem and_complement {a k : ℕ} (h : a < 2 ^ 64) (hk : k ≤ 64) :
    a &&& complement (2 ^ k - 1) = a / 2 ^ k * 2 ^ k := by
  have hmask : 2 ^ k - 1 < 2 ^ 64 := by
    have := Nat.pow_le_pow_right (show 0 < 2 by decide) hk
    have := Nat.two_pow_pos k
    omega
  refine Nat.eq_of_testBit_eq fun i => ?_
  rw [Nat.testBit_and, testBit_complement hmask, Nat.testBit_two_pow_sub_one,
    ← Nat.shiftRight_eq_div_pow, ← Nat.shiftLeft_eq, Nat.testBit_shiftLeft,
    Nat.testBit_shiftRight]
  by_cases hlow : i < k
  · simp [hlow, Nat.not_le.mpr hlow]
  · rw [Nat.add_sub_cancel' (Nat.le_of_not_lt hlow)]
    by_cases hhigh : i < 64
    · simp [hlow, hhigh, Nat.le_of_not_lt hlow]
    · have hbit : a.testBit i = false :=
        Nat.testBit_lt_two_pow (h.trans_le (Nat.pow_le_pow_right (by decide) (by omega)))
      simp [hbit]

theorem divCeil_eq_div {a b : ℕ} (hb : 0 < b) (h : a % b = 0) : divCeil a b = a / b := by
  have hdiv := Nat.div_add_mod' a b
  unfold divCeil
  refine Nat.div_eq_of_lt_le (by omega) ?_
  rw [Nat.succ_mul]
  omega

theorem divCeil_eq_succ {a b : ℕ} (hb : 0 < b) (h : a % b ≠ 0) : divCeil a b = a / b + 1 := by
  have hdiv := Nat.div_add_mod' a b
  have hmod := Nat.mod_lt a hb
  have hstep : (a / b + 1) * b = a / b * b + b := Nat.succ_mul _ _
  have hnext : (a / b + 1 + 1) * b = (a / b + 1) * b + b := Nat.succ_mul _ _
  unfold divCeil
  exact Nat.div_eq_of_lt_le (by omega) (by omega)

/-! ## Bytes -/

def fromLe : List UInt8 → ℕ
  | [] => 0
  | b :: bytes => b.toNat + 256 * fromLe bytes

/-- The `width` low bytes of a number, least significant first. -/
def toLe : ℕ → ℕ → List UInt8
  | 0, _ => []
  | width + 1, n => UInt8.ofNat (n % 256) :: toLe width (n / 256)

@[simp] theorem length_toLe (width n : ℕ) : (toLe width n).length = width := by
  induction width generalizing n with
  | zero => rfl
  | succ width ih => simp [toLe, ih]

theorem fromLe_lt (bytes : List UInt8) : fromLe bytes < 256 ^ bytes.length := by
  induction bytes with
  | nil => simp [fromLe]
  | cons b bytes ih =>
    have hb : b.toNat < 256 := b.toNat_lt
    rw [fromLe, List.length_cons, pow_succ]
    omega

theorem fromLe_toLe {width n : ℕ} (h : n < 256 ^ width) : fromLe (toLe width n) = n := by
  induction width generalizing n with
  | zero => simp [toLe, fromLe]; omega
  | succ width ih =>
    have hdiv : n / 256 < 256 ^ width := by
      rw [pow_succ] at h
      exact Nat.div_lt_of_lt_mul (by omega)
    have hbyte : (UInt8.ofNat (n % 256)).toNat = n % 256 := by
      rw [UInt8.toNat_ofNat']
      exact Nat.mod_eq_of_lt (by omega)
    rw [toLe, fromLe, ih hdiv, hbyte]
    omega

def bytesAt (content : ℕ → UInt8) (address n : ℕ) : List UInt8 :=
  (List.range n).map fun i => content (address + i)

@[simp] theorem length_bytesAt (content : ℕ → UInt8) (address n : ℕ) :
    (bytesAt content address n).length = n := by
  simp [bytesAt]

theorem getElem?_bytesAt {content : ℕ → UInt8} {address n i : ℕ} (h : i < n) :
    (bytesAt content address n)[i]? = some (content (address + i)) := by
  simp [bytesAt, h]

theorem take_drop_bytesAt {content : ℕ → UInt8} {address n offset size : ℕ}
    (h : offset + size ≤ n) :
    ((bytesAt content address n).drop offset).take size =
      bytesAt content (address + offset) size := by
  refine List.ext_getElem? fun i => ?_
  by_cases hi : i < size
  · rw [List.getElem?_take_of_lt hi, List.getElem?_drop, getElem?_bytesAt (by omega),
      getElem?_bytesAt hi, Nat.add_assoc]
  · rw [List.getElem?_eq_none (by simp; omega), List.getElem?_eq_none (by simp; omega)]

theorem bytesAt_append (content : ℕ → UInt8) (address n m : ℕ) :
    bytesAt content address n ++ bytesAt content (address + n) m =
      bytesAt content address (n + m) := by
  simp [bytesAt, List.range_add, Nat.add_assoc]

/-! ## Texts -/

def hex (n : ℕ) : String := "0x" ++ String.ofList (Nat.toDigits 16 n)

end DbgScope
