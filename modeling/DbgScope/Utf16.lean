import Mathlib.Tactic

/-!
# UTF-16 code units

A run of code units spells characters, a character outside the basic plane by a high and a low
surrogate. A surrogate without its pair spells nothing, so that a run of units need not be text.
`decode` and `encode` are inverse where it is, and a map that keeps the class of every unit keeps
a run text or not.
-/

namespace DbgScope.Utf16

def isHigh (u : ℕ) : Bool := 0xD800 ≤ u && u < 0xDC00

def isLow (u : ℕ) : Bool := 0xDC00 ≤ u && u < 0xE000

def ofPair (u v : ℕ) : Char := Char.ofNat (0x10000 + (u - 0xD800) * 0x400 + (v - 0xDC00))

/-- The characters a run of units spells, `none` for a surrogate without its pair. -/
def decode : List ℕ → List (Option Char)
  | [] => []
  | [u] => [if isHigh u || isLow u then none else some (Char.ofNat u)]
  | u :: v :: rest =>
    if isHigh u then
      if isLow v then some (ofPair u v) :: decode rest else none :: decode (v :: rest)
    else if isLow u then none :: decode (v :: rest)
    else some (Char.ofNat u) :: decode (v :: rest)

def encodeChar (c : Char) : List ℕ :=
  if c.toNat < 0x10000 then [c.toNat]
  else [0xD800 + (c.toNat - 0x10000) / 0x400, 0xDC00 + (c.toNat - 0x10000) % 0x400]

def encode (s : String) : List ℕ := s.toList.flatMap encodeChar

def wellFormed (units : List ℕ) : Bool := (decode units).all Option.isSome

def replacement : Char := '\uFFFD'

def render (units : List ℕ) : String :=
  String.ofList ((decode units).map (·.getD replacement))

theorem not_surrogate_of_lt {u : ℕ} (h : u < 0xD800) : isHigh u = false ∧ isLow u = false := by
  simp only [isHigh, isLow, Bool.and_eq_false_iff, decide_eq_false_iff_not]
  omega

theorem toNat_ofNat {n : ℕ} (h : n < 0xD800 ∨ 0xE000 ≤ n ∧ n < 0x110000) :
    (Char.ofNat n).toNat = n := by
  have hvalid : n.isValidChar := by
    omega
  rw [Char.ofNat, dif_pos hvalid]
  rfl

theorem encodeChar_ofNat {u : ℕ} (h : u < 2 ^ 16) (hu : (isHigh u || isLow u) = false) :
    encodeChar (Char.ofNat u) = [u] := by
  simp only [isHigh, isLow, Bool.or_eq_false_iff, Bool.and_eq_false_iff, decide_eq_false_iff_not]
    at hu
  unfold encodeChar
  rw [toNat_ofNat (by omega), if_pos (by omega)]

theorem encodeChar_ofPair {u v : ℕ} (hu : isHigh u = true) (hv : isLow v = true) :
    encodeChar (ofPair u v) = [u, v] := by
  simp only [isHigh, isLow, Bool.and_eq_true, decide_eq_true_eq] at hu hv
  unfold encodeChar ofPair
  rw [toNat_ofNat (by omega), if_neg (by omega)]
  have hhigh : 0xD800 + (0x10000 + (u - 0xD800) * 0x400 + (v - 0xDC00) - 0x10000) / 0x400 = u := by
    omega
  have hlow : 0xDC00 + (0x10000 + (u - 0xD800) * 0x400 + (v - 0xDC00) - 0x10000) % 0x400 = v := by
    omega
  rw [hhigh, hlow]

theorem encode_lt (s : String) : ∀ u ∈ encode s, u < 2 ^ 16 := by
  intro u hu
  obtain ⟨c, -, hc⟩ := List.mem_flatMap.mp hu
  have hvalid : c.toNat.isValidChar := c.valid
  unfold encodeChar at hc
  split at hc
  · simp only [List.mem_singleton] at hc
    omega
  · simp only [List.mem_cons, List.not_mem_nil, or_false] at hc
    omega

theorem encode_render {units : List ℕ} (hunits : ∀ u ∈ units, u < 2 ^ 16)
    (h : wellFormed units = true) : encode (render units) = units := by
  unfold encode render
  rw [String.toList_ofList]
  unfold wellFormed at h
  fun_induction decode units with
  | case1 => rfl
  | case2 u =>
    by_cases hu : (isHigh u || isLow u) = true
    · simp [hu] at h
    · rw [Bool.not_eq_true] at hu
      simp [hu, encodeChar_ofNat (hunits u (by simp)) hu]
  | case3 u v rest hu hv ih =>
    simp only [List.all_cons, Option.isSome_some, Bool.true_and] at h
    have hrest := ih (fun x hx => hunits x (by simp [hx])) h
    rw [List.map_cons, List.flatMap_cons, hrest, Option.getD_some, encodeChar_ofPair hu hv]
    rfl
  | case4 u v rest hu hv ih => simp at h
  | case5 u v rest hu hl ih => simp at h
  | case6 u v rest hu hl ih =>
    simp only [List.all_cons, Option.isSome_some, Bool.true_and] at h
    have hrest := ih (fun x hx => hunits x (List.mem_cons_of_mem _ hx)) h
    rw [List.map_cons, List.flatMap_cons, hrest, Option.getD_some,
      encodeChar_ofNat (hunits u (by simp)) (by simp [hu, hl])]
    rfl

theorem decode_cons_of_class {u : ℕ} (hu : (isHigh u || isLow u) = false) (rest : List ℕ) :
    decode (u :: rest) = some (Char.ofNat u) :: decode rest := by
  cases rest with
  | nil => simp [decode, hu]
  | cons v rest =>
    rw [Bool.or_eq_false_iff] at hu
    simp [decode, hu.1, hu.2]

theorem decode_encodeChar (c : Char) (rest : List ℕ) :
    decode (encodeChar c ++ rest) = some c :: decode rest := by
  have hvalid : c.toNat.isValidChar := c.valid
  unfold encodeChar
  split
  · next hplane =>
    have hclass : (isHigh c.toNat || isLow c.toNat) = false := by
      simp only [isHigh, isLow, Bool.or_eq_false_iff, Bool.and_eq_false_iff,
        decide_eq_false_iff_not]
      omega
    rw [List.singleton_append, decode_cons_of_class hclass, Char.ofNat_toNat]
  · next hplane =>
    set u := 0xD800 + (c.toNat - 0x10000) / 0x400 with hu
    set v := 0xDC00 + (c.toNat - 0x10000) % 0x400 with hv
    have hhigh : isHigh u = true := by
      simp only [isHigh, Bool.and_eq_true, decide_eq_true_eq]
      omega
    have hlow : isLow v = true := by
      simp only [isLow, Bool.and_eq_true, decide_eq_true_eq]
      omega
    have hpair : ofPair u v = c := by
      unfold ofPair
      rw [show 0x10000 + (u - 0xD800) * 0x400 + (v - 0xDC00) = c.toNat by omega, Char.ofNat_toNat]
    simp [decode, hhigh, hlow, hpair]

theorem wellFormed_encode (s : String) : wellFormed (encode s) = true := by
  have hdecode : decode (encode s) = s.toList.map some := by
    unfold encode
    induction s.toList with
    | nil => rfl
    | cons c cs ih => rw [List.flatMap_cons, decode_encodeChar, ih, List.map_cons]
  unfold wellFormed
  rw [hdecode]
  simp

theorem wellFormed_map {f : ℕ → ℕ} {units : List ℕ}
    (h : ∀ u ∈ units, isHigh (f u) = isHigh u ∧ isLow (f u) = isLow u) :
    wellFormed (units.map f) = wellFormed units := by
  unfold wellFormed
  fun_induction decode units with
  | case1 => rfl
  | case2 u =>
    obtain ⟨hhigh, hlow⟩ := h u (by simp)
    cases hu : isHigh u <;> cases hl : isLow u <;> simp [decode, hhigh, hlow, hu, hl]
  | case3 u v rest hu hv ih =>
    have hu' : isHigh (f u) = true := (h u (by simp)).1.trans hu
    have hv' : isLow (f v) = true := (h v (by simp)).2.trans hv
    have hrest := ih fun x hx => h x (by simp [hx])
    simp [decode, hu', hv', hrest]
  | case4 u v rest hu hv ih =>
    have hu' : isHigh (f u) = true := (h u (by simp)).1.trans hu
    have hv' : isLow (f v) = false := (h v (by simp)).2.trans (Bool.not_eq_true _ ▸ hv)
    simp [decode, hu', hv']
  | case5 u v rest hu hl ih =>
    have hu' : isHigh (f u) = false := (h u (by simp)).1.trans (Bool.not_eq_true _ ▸ hu)
    have hl' : isLow (f u) = true := (h u (by simp)).2.trans hl
    simp [decode, hu', hl']
  | case6 u v rest hu hl ih =>
    have hu' : isHigh (f u) = false := (h u (by simp)).1.trans (Bool.not_eq_true _ ▸ hu)
    have hl' : isLow (f u) = false := (h u (by simp)).2.trans (Bool.not_eq_true _ ▸ hl)
    have hrest := ih fun x hx => h x (List.mem_cons_of_mem _ hx)
    simp only [List.map_cons] at hrest
    simp [decode, hu', hl', hrest]

end DbgScope.Utf16
