import Mathlib.Data.BitVec

/-!
# Machine words

Masks, shifts and sign extensions: a word is the sum of its bits inside and outside of a mask, a
power of two less one is a mask of the lowest bits, shifting up and arithmetically back is a
truncation that is sign-extended, and an operation on a wide word agrees with the one on its low
part under a condition on its bits.
-/

namespace BitVec

variable {n w : Nat}

/-! ## Masks -/

/-- The bits outside of a mask and the bits inside of it make up the word. -/
theorem and_not_add_and (x m : BitVec n) : (x &&& ~~~m) + (x &&& m) = x := by
  have hdisj : (x &&& ~~~m) &&& (x &&& m) = 0#n := by
    apply eq_of_getLsbD_eq
    intro j hj
    simp only [getLsbD_and, getLsbD_not, getLsbD_zero]
    cases m.getLsbD j <;> simp
  have hor : (x &&& ~~~m) ||| (x &&& m) = x := by
    apply eq_of_getLsbD_eq
    intro j hj
    simp only [getLsbD_and, getLsbD_not, getLsbD_or]
    cases m.getLsbD j <;> simp [hj]
  rw [add_eq_or_of_and_eq_zero _ _ hdisj, hor]

/-- The lowest bit. -/
theorem and_one_eq_ite (x : BitVec n) : x &&& 1#n = if x.getLsbD 0 then 1#n else 0#n := by
  rw [and_one_eq_setWidth_ofBool_getLsbD]
  cases x.getLsbD 0
  · simp
  · apply eq_of_toNat_eq
    simp

/-- A mask of the lowest bits. -/
theorem getLsbD_one_shiftLeft_sub_one {k : Nat} (hk : k < n) (i : Nat) :
    ((1#n <<< k) - 1#n).getLsbD i = decide (i < k) := by
  have hval : ((1#n <<< k) - 1#n).toNat = 2 ^ k - 1 := by
    have hone : (1#n).toNat = 1 := Nat.mod_eq_of_lt (Nat.one_lt_two_pow (by omega))
    have hshift : (1#n <<< k).toNat = 2 ^ k := by
      rw [toNat_shiftLeft, hone, Nat.one_shiftLeft]
      exact Nat.mod_eq_of_lt (Nat.pow_lt_pow_right (by decide) hk)
    rw [toNat_sub_of_le, hshift, hone]
    rw [le_def, hshift, hone]
    exact Nat.one_le_two_pow
  rw [← testBit_toNat, hval, Nat.testBit_two_pow_sub_one]

/-! ## Sign extension by shifts -/

/-- Shifting up and back keeps the low bits and extends them. -/
theorem sshiftRight_shiftLeft {k : Nat} (x : BitVec (k + w)) (hw : 0 < w) :
    (x <<< k).sshiftRight k = (x.setWidth w).signExtend (k + w) := by
  apply eq_of_getLsbD_eq
  intro j hj
  rw [getLsbD_sshiftRight, getLsbD_signExtend, getLsbD_shiftLeft, msb_eq_getLsbD_last,
    msb_eq_getLsbD_last, getLsbD_shiftLeft, getLsbD_setWidth, getLsbD_setWidth]
  have hin : decide (k + w ≤ j) = false := decide_eq_false (by omega)
  by_cases hlow : j < w
  · have hsum : k + j < k + w := by omega
    have hback : k + j - k = j := by omega
    have hge : decide (k + j < k) = false := decide_eq_false (by omega)
    simp only [hlow, hj, hsum, hback, hge, hin, if_true, decide_true, Bool.not_false,
      Bool.true_and]
  · have hsum : ¬ k + j < k + w := by omega
    have hlast : k + w - 1 - k = w - 1 := by omega
    have hge : decide (k + w - 1 < k) = false := decide_eq_false (by omega)
    have htop : decide (k + w - 1 < k + w) = true := decide_eq_true (by omega)
    have htop' : decide (w - 1 < w) = true := decide_eq_true (by omega)
    simp only [hlow, hj, hsum, hlast, hge, htop, htop', hin, if_false, decide_true,
      Bool.not_false, Bool.true_and]

/-- Extending in two steps. -/
theorem signExtend_signExtend {m : Nat} (x : BitVec w) (hw : 0 < w) (hm : w ≤ m) :
    (x.signExtend m).signExtend n = x.signExtend n := by
  apply eq_of_getLsbD_eq
  intro j hj
  simp only [getLsbD_signExtend, msb_eq_getLsbD_last]
  grind

theorem signExtend_sshiftRight_shiftLeft {k : Nat} (x : BitVec (k + w)) (hw : 0 < w) :
    ((x <<< k).sshiftRight k).signExtend n = (x.setWidth w).signExtend n := by
  rw [sshiftRight_shiftLeft x hw, signExtend_signExtend _ hw (by omega)]

/-- Extending from one bit too low is right exactly when the two bits agree. -/
theorem signExtend_setWidth_iff (v : BitVec (w + 1)) (hw : 0 < w) (hn : w < n) :
    (v.setWidth w).signExtend n = v.signExtend n ↔ v.getLsbD w = v.getLsbD (w - 1) := by
  constructor
  · intro h
    have hbit := congrArg (·.getLsbD w) h
    simp only [getLsbD_signExtend, hn, msb_eq_getLsbD_last] at hbit
    grind
  · intro h
    apply eq_of_getLsbD_eq
    intro j hj
    simp only [getLsbD_signExtend, hj, msb_eq_getLsbD_last]
    grind

/-- The two extensions agree when the sign is clear. -/
theorem signExtend_eq_setWidth_iff (v : BitVec w) (hn : w < n) :
    v.signExtend n = v.setWidth n ↔ v.getLsbD (w - 1) = false := by
  constructor
  · intro h
    have hbit := congrArg (·.getLsbD w) h
    simp only [getLsbD_signExtend, getLsbD_setWidth, hn, msb_eq_getLsbD_last] at hbit
    grind
  · intro h
    exact signExtend_eq_setWidth_of_msb_false (by rw [msb_eq_getLsbD_last, h])

/-! ## Words in a wider register -/

/-- A register holds a sign-extended word exactly when its value is one of a word. -/
theorem eq_signExtend_setWidth_iff (x : BitVec n) (hw : 0 < w) (hn : w ≤ n) :
    x = (x.setWidth w).signExtend n ↔ -2 ^ (w - 1) ≤ x.toInt ∧ x.toInt < 2 ^ (w - 1) := by
  have hpow : (2 ^ w : Nat) = 2 * 2 ^ (w - 1) := by
    rw [← Nat.pow_succ']
    congr 1
    omega
  have hval : ((x.setWidth w).signExtend n).toInt = x.toInt.bmod (2 ^ w) := by
    rw [toInt_signExtend_of_le hn, toInt_setWidth, toInt_eq_toNat_bmod, Int.bmod_bmod_of_dvd]
    exact Nat.pow_dvd_pow 2 hn
  rw [← toInt_inj, hval]
  constructor
  · intro h
    have hle := Int.le_bmod (x := x.toInt) (m := 2 ^ w) (Nat.two_pow_pos w)
    have hlt := Int.bmod_lt (x := x.toInt) (m := 2 ^ w) (Nat.two_pow_pos w)
    rw [← h, hpow] at hle hlt
    push_cast at hle hlt
    omega
  · intro h
    rw [Int.bmod_eq_of_le]
    · rw [hpow]
      push_cast
      omega
    · rw [hpow]
      push_cast
      omega

/-- The two right shifts agree on nonnegative values only, shifts by nothing apart. -/
theorem ushiftRight_eq_sshiftRight_iff (x : BitVec n) {s : Nat} :
    x >>> s = x.sshiftRight s ↔ s = 0 ∨ x.msb = false := by
  constructor
  · intro h
    by_contra hne
    have hbit := congrArg (·.getLsbD (n - 1)) h
    simp only [getLsbD_ushiftRight, getLsbD_sshiftRight] at hbit
    grind
  · intro h
    apply eq_of_getLsbD_eq
    intro j hj
    simp only [getLsbD_ushiftRight, getLsbD_sshiftRight]
    grind

/-- Shifting a register up agrees with shifting its low word when no other bit than copies of the
new sign is lost. -/
theorem shiftLeft_eq_signExtend_iff (x : BitVec n) {s : Nat} (hs : s < w) (hn : w ≤ n) :
    x <<< s = ((x.setWidth w) <<< s).signExtend n ↔
      ∀ j, w - 1 - s ≤ j → j < n - s → x.getLsbD j = x.getLsbD (w - 1 - s) := by
  constructor
  · intro h j hle hlt
    have hbit := congrArg (·.getLsbD (j + s)) h
    simp only [getLsbD_signExtend, getLsbD_shiftLeft, msb_eq_getLsbD_last, getLsbD_setWidth] at hbit
    grind
  · intro h
    apply eq_of_getLsbD_eq
    intro j hj
    simp only [getLsbD_signExtend, getLsbD_shiftLeft, msb_eq_getLsbD_last, getLsbD_setWidth]
    grind

theorem toNat_lt_iff (x : BitVec n) :
    x.toNat < 2 ^ w ↔ ∀ j, w ≤ j → x.getLsbD j = false := by
  constructor
  · intro h j hj
    rw [← testBit_toNat]
    exact Nat.testBit_lt_two_pow (lt_of_lt_of_le h (Nat.pow_le_pow_right (by decide) hj))
  · intro h
    apply Nat.lt_pow_two_of_testBit
    intro j hj
    rw [testBit_toNat]
    exact h j hj

/-- Shifting a register arithmetically agrees with shifting its low word logically when the rest of
it is zero. -/
theorem sshiftRight_eq_signExtend_iff (x : BitVec n) {s : Nat} (h0 : 0 < s) (hs : s < w)
    (hn : w < n) :
    x.sshiftRight s = ((x.setWidth w) >>> s).signExtend n ↔ x.toNat < 2 ^ w := by
  rw [toNat_lt_iff]
  constructor
  · intro h j hle
    by_cases hlt : j < n
    · have hbit := congrArg (·.getLsbD (j - s)) h
      simp only [getLsbD_signExtend, getLsbD_sshiftRight, getLsbD_ushiftRight, msb_eq_getLsbD_last,
        getLsbD_setWidth] at hbit
      grind
    · exact getLsbD_of_ge _ _ (by omega)
  · intro h
    apply eq_of_getLsbD_eq
    intro j hj
    simp only [getLsbD_signExtend, getLsbD_sshiftRight, getLsbD_ushiftRight, msb_eq_getLsbD_last,
      getLsbD_setWidth]
    grind

/-- Shifting a register logically agrees with shifting its low word arithmetically when that is
nonnegative and the rest is zero. -/
theorem ushiftRight_eq_signExtend_iff (x : BitVec n) {s : Nat} (h0 : 0 < s) (hs : s < w)
    (hn : w ≤ n) :
    x >>> s = ((x.setWidth w).sshiftRight s).signExtend n ↔ x.toNat < 2 ^ (w - 1) := by
  rw [toNat_lt_iff]
  have hsign (h : x >>> s = ((x.setWidth w).sshiftRight s).signExtend n) :
      x.getLsbD (w - 1) = false := by
    have hbit := congrArg (·.getLsbD (n - 1)) h
    simp only [getLsbD_signExtend, getLsbD_sshiftRight, getLsbD_ushiftRight, msb_eq_getLsbD_last,
      getLsbD_setWidth] at hbit
    grind
  constructor
  · intro h j hle
    have htop := hsign h
    by_cases hlt : j < n
    · have hbit := congrArg (·.getLsbD (j - s)) h
      simp only [getLsbD_signExtend, getLsbD_sshiftRight, getLsbD_ushiftRight, msb_eq_getLsbD_last,
        getLsbD_setWidth] at hbit
      grind
    · exact getLsbD_of_ge _ _ (by omega)
  · intro h
    apply eq_of_getLsbD_eq
    intro j hj
    simp only [getLsbD_signExtend, getLsbD_sshiftRight, getLsbD_ushiftRight, msb_eq_getLsbD_last,
      getLsbD_setWidth]
    grind

end BitVec
