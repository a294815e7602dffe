import DbgScope.A64
import DbgScope.Arm64.Operand

/-!
# Logical immediates

`bitmaskImmediate` builds the value of a logical immediate by shifts: a run of ones, rotated within
its element, ored into the word once for each element. Read bit by bit, that is the mask the
architecture gives the encoding (`bitmaskImmediate_eq`): a bit is set when its place in the element,
counted from where the rotation starts, is within the run.
-/

namespace DbgScope.Arm64

open A64 (datasize)

/-! ## The element -/

theorem getLsbD_maskOf (bits i : ℕ) : (maskOf bits).getLsbD i = decide (i < 64 ∧ i < bits) := by
  unfold maskOf
  split
  next h =>
    rw [BitVec.getLsbD_allOnes]
    exact decide_eq_decide.mpr (by omega)
  next h =>
    have hpow : 2 ^ bits < 2 ^ 64 := Nat.pow_lt_pow_right (by decide) (by omega)
    have hmask : ((1#64 <<< bits) - 1#64).toNat = 2 ^ bits - 1 := by
      have hone : (1#64 <<< bits).toNat = 2 ^ bits := by
        rw [BitVec.toNat_shiftLeft, Nat.shiftLeft_eq]
        simpa using Nat.mod_eq_of_lt hpow
      rw [BitVec.toNat_sub_of_le (by rw [BitVec.le_def, hone]; exact Nat.one_le_two_pow), hone]
      rfl
    rw [BitVec.getLsbD, hmask, Nat.testBit_two_pow_sub_one]
    exact decide_eq_decide.mpr (by omega)

/-- A run of ones turned within its element: the bits left of the turn and the bits carried over
are the two shifts. -/
theorem getLsbD_rotatedRun {e s r i : ℕ} (he : e ≤ 64) (hs : s < e) (hr : r < e) (hi : i < 64) :
    (if r ≠ 0 then ((maskOf (s + 1) >>> r) ||| (maskOf (s + 1) <<< (e - r))) &&& maskOf e
      else maskOf (s + 1)).getLsbD i = decide (i < e ∧ (i + r) % e ≤ s) := by
  have hmod : i < e → (i + r) % e = if i + r < e then i + r else i + r - e := by
    intro h
    split
    next h' => exact Nat.mod_eq_of_lt h'
    next h' => rw [Nat.mod_eq_sub_mod (by omega), Nat.mod_eq_of_lt (by omega)]
  have hiff : (i < e ∧ (i + r) % e ≤ s) ↔
      i < e ∧ (i + r < e ∧ i + r ≤ s ∨ e ≤ i + r ∧ i + r - e ≤ s) := by
    refine and_congr_right fun h => ?_
    rw [hmod h]
    split <;> omega
  rw [decide_eq_decide.mpr hiff, Bool.eq_iff_iff, decide_eq_true_eq]
  split
  next h =>
    simp only [BitVec.getLsbD_and, BitVec.getLsbD_or, BitVec.getLsbD_ushiftRight,
      BitVec.getLsbD_shiftLeft, getLsbD_maskOf, Bool.and_eq_true, Bool.or_eq_true,
      decide_eq_true_eq, Bool.not_eq_true', decide_eq_false_iff_not]
    omega
  next h =>
    rw [getLsbD_maskOf, decide_eq_true_eq]
    omega

theorem getLsbD_foldl_elements {e : ℕ} (element : BitVec 64) (count : ℕ) {i : ℕ} (hi : i < 64)
    (helement : ∀ j, e ≤ j → element.getLsbD j = false) :
    ((List.range count).foldl (fun value k => value ||| (element <<< (k * e))) 0#64).getLsbD i =
      (decide (i < count * e) && element.getLsbD (i % e)) := by
  induction count with
  | zero => simp
  | succ count ih =>
    rw [List.range_succ, List.foldl_append, List.foldl_cons, List.foldl_nil, BitVec.getLsbD_or, ih,
      BitVec.getLsbD_shiftLeft]
    have hnext : (count + 1) * e = count * e + e := Nat.succ_mul count e
    by_cases hbelow : i < count * e
    · simp [hbelow, show i < (count + 1) * e by omega]
    · by_cases hthis : i < (count + 1) * e
      · have hmod : i % e = i - count * e := by
          obtain ⟨j, rfl⟩ : ∃ j, i = j + count * e := ⟨i - count * e, by omega⟩
          rw [Nat.add_mul_mod_self_right, Nat.mod_eq_of_lt (by omega)]
          omega
        simp [hi, hbelow, hthis, hmod]
      · simp [hbelow, hthis, helement (i - count * e) (by omega)]

/-! ## The whole immediate -/

theorem combined_eq (immN : BitVec 1) (imms : BitVec 6) :
    (immN.toNat <<< 6) ||| ((2 ^ 32 - 1 - imms.toNat) &&& 0x3f) = (immN ++ ~~~imms).toNat := by
  revert immN imms
  decide +kernel

theorem highestBit_eq {n : ℕ} (hn : 0 < n) (h : n < 2 ^ 32) :
    (31 : ℤ) - leadingZeros n = n.log2 := by
  have hlog : n.log2 < 32 := (Nat.log2_lt (by omega)).mpr h
  rw [leadingZeros, if_neg (by omega)]
  omega

theorem foldl_elements_eq {w e s r : ℕ} (hw : w ≤ 64) (he : e ∣ w) (hs : s < e) (hr : r < e) :
    (List.range ((w + e - 1) / e)).foldl (fun value k => value |||
        ((if r ≠ 0 then ((maskOf (s + 1) >>> r) ||| (maskOf (s + 1) <<< (e - r))) &&& maskOf e
          else maskOf (s + 1)) <<< (k * e))) 0#64 &&& maskOf w =
      (A64.replicated w ((A64.ones e (s + 1)).rotateRight r)).setWidth 64 := by
  obtain ⟨count, rfl⟩ := he
  rcases count.eq_zero_or_pos with rfl | hcount
  · apply BitVec.eq_of_getLsbD_eq
    simp [getLsbD_maskOf]
  have he : e ≤ 64 := le_trans (Nat.le_mul_of_pos_right e hcount) hw
  have hrepeats : (e * count + e - 1) / e = count := by
    rw [Nat.add_sub_assoc (by omega), Nat.mul_add_div (by omega), Nat.div_eq_of_lt (by omega),
      Nat.add_zero]
  rw [hrepeats]
  apply BitVec.eq_of_getLsbD_eq
  intro i hi
  have hrun := fun {j : ℕ} => @getLsbD_rotatedRun e s r j he hs hr
  rw [BitVec.getLsbD_and, BitVec.getLsbD_setWidth, getLsbD_maskOf, getLsbD_foldl_elements _ _ hi]
  · by_cases h : i < e * count
    · have hmod : i % e < e := Nat.mod_lt _ (by omega)
      rw [A64.getLsbD_replicated _ (Dvd.intro count rfl) h, A64.getLsbD_rotateRight_mod _ hr hmod,
        A64.getLsbD_ones, hrun (by omega)]
      have hturn : (i % e + r) % e < e := Nat.mod_lt _ (by omega)
      rw [Nat.mul_comm count e, Bool.eq_iff_iff]
      simp only [Bool.and_eq_true, decide_eq_true_eq]
      omega
    · rw [BitVec.getLsbD_of_ge (A64.replicated _ _) _ (Nat.le_of_not_lt h), Bool.and_false,
        Bool.and_eq_false_iff]
      exact .inr (decide_eq_false fun h' => h h'.2)
  · intro j hj
    by_cases hj' : j < 64
    · rw [hrun hj']
      exact decide_eq_false (by omega)
    · exact BitVec.getLsbD_of_ge _ _ (by omega)

theorem bitmaskImmediate_eq (immN : BitVec 1) (immr imms : BitVec 6) (wide : Bool) :
    bitmaskImmediate immN.toNat immr.toNat imms.toNat wide =
      if ¬ wide ∧ immN ≠ 0#1 then none
      else (A64.decodeBitMasks (datasize wide) immN imms immr true).map (·.1.setWidth 64) := by
  have hone : immN.toNat = 1 ↔ immN ≠ 0#1 := by
    revert immN
    decide
  have hlt := (immN ++ ~~~imms).isLt
  unfold bitmaskImmediate A64.decodeBitMasks
  simp only [combined_eq, hone]
  by_cases hlen : (immN ++ ~~~imms).toNat.log2 < 1
  · have hsmall : (31 : ℤ) - leadingZeros (immN ++ ~~~imms).toNat < 1 := by
      rcases Nat.eq_zero_or_pos (immN ++ ~~~imms).toNat with h | h
      · rw [h]
        decide
      · rw [highestBit_eq h (by omega)]
        omega
    rw [if_pos (.inl hsmall), if_pos hlen, Option.map_none, ite_self]
  have hpos : 0 < (immN ++ ~~~imms).toNat := by
    by_contra h
    rw [Nat.eq_zero_of_not_pos h] at hlen
    exact hlen (by decide)
  have hlog : (31 : ℤ) - leadingZeros (immN ++ ~~~imms).toNat = (immN ++ ~~~imms).toNat.log2 :=
    highestBit_eq hpos (by omega)
  have hcond : ((31 : ℤ) - leadingZeros (immN ++ ~~~imms).toNat < 1 ∨
      (¬ wide = true ∧ immN ≠ 0#1)) ↔ (¬ wide = true ∧ immN ≠ 0#1) := by
    rw [hlog]
    exact or_iff_right (by omega)
  rw [if_neg hlen]
  by_cases hundefined : ¬ wide = true ∧ immN ≠ 0#1
  · rw [if_pos (hcond.mpr hundefined), if_pos hundefined]
  rw [if_neg (mt hcond.mp hundefined), if_neg hundefined, hlog, Int.toNat_natCast]
  have hdvd : 2 ^ (immN ++ ~~~imms).toNat.log2 ∣ datasize wide := by
    have hsix : (immN ++ ~~~imms).toNat.log2 < 7 := (Nat.log2_lt hpos.ne').mpr hlt
    cases wide with
    | true => exact pow_dvd_pow 2 (show _ ≤ 6 by omega)
    | false =>
      obtain rfl : immN = 0#1 := by simpa using hundefined
      have hnarrow : (0#1 ++ ~~~imms).toNat < 2 ^ 6 := by
        revert imms
        decide
      have hfive : (0#1 ++ ~~~imms).toNat.log2 < 6 := (Nat.log2_lt hpos.ne').mpr hnarrow
      exact pow_dvd_pow 2 (show _ ≤ 5 by omega)
  generalize (immN ++ ~~~imms).toNat.log2 = len at hdvd hlen ⊢
  rw [Nat.one_shiftLeft]
  have hpow := Nat.two_pow_pos len
  have hmod : ∀ n, n &&& (2 ^ len - 1) < 2 ^ len := fun n => by
    rw [Nat.and_two_pow_sub_one_eq_mod]
    exact Nat.mod_lt _ hpow
  generalize 2 ^ len = e at *
  by_cases h : imms.toNat &&& (e - 1) = e - 1
  · rw [if_pos h, if_pos ⟨trivial, h⟩, Option.map_none]
  · have hrun : ¬ (True ∧ imms.toNat &&& (e - 1) = e - 1) := fun h' => h h'.2
    rw [if_neg h, if_neg hrun, Option.map_some]
    exact congrArg some (foldl_elements_eq (A64.datasize_le wide) hdvd (hmod _) (hmod _))

end DbgScope.Arm64
