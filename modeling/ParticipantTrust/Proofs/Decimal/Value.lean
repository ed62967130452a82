import ParticipantTrust.Decimal.Quotient
import Mathlib.Data.Rat.Floor
import Mathlib.Tactic.Linarith
import Mathlib.Tactic.Positivity
import Mathlib.Tactic.Ring

namespace ParticipantTrust.Decimal

-- The number that a written form stands for. Comparisons, sums and products are determined by it, so
-- all statements about decimals are made on the rational side.
def toRat (v : Decimal) : ℚ := v.mantissa * (10 : ℚ) ^ (-v.scale)

theorem ten_zpow_pos (k : Int) : (0 : ℚ) < 10 ^ k := zpow_pos (by norm_num) k

theorem ten_zpow_neg_mul (k : Int) : (10 : ℚ) ^ (-k) * 10 ^ k = 1 := by
  rw [← zpow_add₀ (by norm_num), neg_add_cancel, zpow_zero]

theorem tenTo_eq (k : Nat) : tenTo k = 10 ^ k := rfl

-- Moving the scale from `a` up to `b` multiplies the mantissa by a whole power of ten.
theorem ten_zpow_shift (a b : Int) (h : a ≤ b) :
    (10 : ℚ) ^ (-a) = (tenTo (b - a).toNat : ℚ) * 10 ^ (-b) := by
  have hk : ((b - a).toNat : Int) = b - a := Int.toNat_of_nonneg (by omega)
  rw [tenTo_eq, Nat.cast_pow, Nat.cast_ofNat, ← zpow_natCast, ← zpow_add₀ (by norm_num), hk]
  congr 1
  omega

theorem toRat_mk (m s : Int) : toRat ⟨m, s⟩ = m * (10 : ℚ) ^ (-s) := rfl

@[simp] theorem toRat_ofInt (n : Int) : (ofInt n).toRat = n := by simp [toRat, ofInt]

@[simp] theorem toRat_zero : zero.toRat = 0 := by simp [zero]

@[simp] theorem toRat_one : one.toRat = 1 := by simp [one]

@[simp] theorem toRat_half : half.toRat = 1 / 2 := by norm_num [toRat, half]

theorem abs_toRat (v : Decimal) : |v.toRat| = v.mantissa.natAbs * 10 ^ (-v.scale) := by
  rw [toRat, abs_mul, abs_of_pos (ten_zpow_pos (-v.scale)), ← Int.cast_abs, ← Int.natCast_natAbs,
    Int.cast_natCast]

@[simp] theorem toRat_abs (v : Decimal) : v.abs.toRat = |v.toRat| := by
  rw [abs_toRat]
  rfl

@[simp] theorem toRat_unitAt (scale : Int) : (unitAt scale).toRat = 10 ^ (-scale) := by
  simp [unitAt, toRat]

theorem toRat_pos_iff (v : Decimal) : 0 < v.toRat ↔ 0 < v.mantissa := by
  rw [toRat, mul_pos_iff_of_pos_right (ten_zpow_pos _), Int.cast_pos]

theorem toRat_eq_zero_iff (v : Decimal) : v.toRat = 0 ↔ v.mantissa = 0 := by
  rw [toRat, mul_eq_zero_iff_right (ten_zpow_pos _).ne', Int.cast_eq_zero]

theorem isZero_iff (v : Decimal) : v.isZero = true ↔ v.toRat = 0 := by
  rw [toRat_eq_zero_iff, isZero, beq_iff_eq]

-- Writing a number with more places does not change it.
theorem toRat_mantissaAt (v : Decimal) (scale : Int) (h : v.mantissa ≠ 0 → v.scale ≤ scale) :
    toRat ⟨v.mantissaAt scale, scale⟩ = v.toRat := by
  unfold mantissaAt
  split
  · rename_i hz
    simp [toRat, hz]
  · rename_i hz
    rw [toRat_mk, toRat, ten_zpow_shift _ _ (h hz)]
    push_cast
    ring

theorem toRat_alignedSum (a b : Decimal) : (a.alignedSum b).toRat = a.toRat + b.toRat := by
  have ha := toRat_mantissaAt a (max a.scale b.scale) fun _ => le_max_left _ _
  have hb := toRat_mantissaAt b (max a.scale b.scale) fun _ => le_max_right _ _
  rw [← ha, ← hb]
  simp only [alignedSum, toRat]
  push_cast
  ring

theorem toRat_widen (v : Decimal) (scale : Int) : (v.widen scale).toRat = v.toRat := by
  simp only [widen]
  split
  · rfl
  · exact toRat_mantissaAt v _ fun _ => by omega

@[simp] theorem toRat_add (a b : Decimal) : (a + b).toRat = a.toRat + b.toRat := by
  change (Decimal.add a b).toRat = _
  unfold Decimal.add
  split
  · rename_i hb
    rw [toRat_widen, (isZero_iff b).mp hb, add_zero]
  · split
    · rename_i ha
      rw [toRat_widen, (isZero_iff a).mp ha, zero_add]
    · exact toRat_alignedSum a b

@[simp] theorem toRat_neg (v : Decimal) : (-v).toRat = -v.toRat := by
  change toRat ⟨-v.mantissa, v.scale⟩ = _
  simp only [toRat]
  push_cast
  ring

@[simp] theorem toRat_sub (a b : Decimal) : (a - b).toRat = a.toRat - b.toRat := by
  change (a.alignedSum (-b)).toRat = _
  rw [toRat_alignedSum, toRat_neg, sub_eq_add_neg]

@[simp] theorem toRat_mul (a b : Decimal) : (a * b).toRat = a.toRat * b.toRat := by
  change toRat ⟨a.mantissa * b.mantissa, a.scale + b.scale⟩ = _
  simp only [toRat, neg_add, zpow_add₀ (by norm_num : (10 : ℚ) ≠ 0)]
  push_cast
  ring

@[simp] theorem toRat_complement (v : Decimal) : v.complement.toRat = 1 - v.toRat := by
  unfold complement
  split
  · rename_i h
    rw [toRat_one, (isZero_iff v).mp h, sub_zero]
  · rw [toRat_sub, toRat_one]

-- A number of at most `k` binary digits is less than half the power of ten with `k` zeros.
theorem two_mul_natAbs_lt_tenTo (n : Int) (k : Nat) (h : n.natAbs.log2 < k) :
    2 * n.natAbs < tenTo k := by
  obtain ⟨k, rfl⟩ := Nat.exists_eq_succ_of_ne_zero (Nat.ne_zero_of_lt h)
  have hlog : n.natAbs < 2 ^ (n.natAbs.log2 + 1) := Nat.lt_log2_self
  have htwo : 2 ^ (n.natAbs.log2 + 1) ≤ 2 ^ (k + 1) := Nat.pow_le_pow_right (by norm_num) h
  have hten : 2 ^ k ≤ 10 ^ k := Nat.pow_le_pow_left (by norm_num) k
  rw [tenTo_eq, Nat.succ_eq_add_one, Nat.pow_succ]
  rw [Nat.pow_succ 2 k] at htwo
  omega

theorem compareShifted_eq (m : Int) (k : Nat) (n : Int) :
    compareShifted m k n = Ord.compare (m * tenTo k) n := by
  unfold compareShifted
  split
  · rename_i hm
    rw [hm, zero_mul]
  · rename_i hm
    split
    · rename_i hk
      have hlt := two_mul_natAbs_lt_tenTo n k hk
      have hge : tenTo k ≤ (m * tenTo k).natAbs := by
        rw [Int.natAbs_mul, Int.natAbs_natCast]
        exact Nat.le_mul_of_pos_left _ (by omega)
      rcases lt_or_gt_of_ne hm with hneg | hpos
      · have hprod : m * (tenTo k : Int) ≤ 0 := mul_nonpos_of_nonpos_of_nonneg hneg.le (by omega)
        rw [compare_lt_iff_lt.mpr hneg, eq_comm, compare_lt_iff_lt]
        omega
      · have hprod : 0 ≤ m * (tenTo k : Int) := mul_nonneg hpos.le (by omega)
        rw [compare_gt_iff_gt.mpr hpos, eq_comm, compare_gt_iff_gt]
        omega
    · rfl

-- Two mantissas at one scale compare as the numbers do.
theorem compare_mantissas (m n s : Int) :
    Ord.compare m n = Ord.compare (toRat ⟨m, s⟩) (toRat ⟨n, s⟩) := by
  rw [← cmp_eq_compare, ← cmp_eq_compare, toRat_mk, toRat_mk, cmp_mul_pos_right (ten_zpow_pos _),
    Int.cast_strictMono.cmp_map_eq]

theorem compareShifted_eq_compare (a b : Decimal) (h : a.scale ≤ b.scale) :
    compareShifted a.mantissa (b.scale - a.scale).toNat b.mantissa =
      Ord.compare a.toRat b.toRat := by
  rw [compareShifted_eq, compare_mantissas _ _ b.scale]
  congr 1
  rw [toRat_mk, toRat, ten_zpow_shift _ _ h]
  push_cast
  ring

theorem compare_eq (a b : Decimal) : a.compare b = Ord.compare a.toRat b.toRat := by
  unfold Decimal.compare
  split
  · rename_i h
    exact compareShifted_eq_compare a b h
  · rename_i h
    rw [compareShifted_eq_compare b a (by omega), ← cmp_eq_compare, ← cmp_eq_compare, cmp_swap]

theorem lt_iff (a b : Decimal) : a < b ↔ a.toRat < b.toRat := by
  change a.compare b = .lt ↔ _
  rw [compare_eq, compare_lt_iff_lt]

theorem le_iff (a b : Decimal) : a ≤ b ↔ a.toRat ≤ b.toRat := by
  change a.compare b ≠ .gt ↔ _
  rw [compare_eq, compare_le_iff_le]

theorem sameValue_iff (a b : Decimal) : a.SameValue b ↔ a.toRat = b.toRat := by
  change a.compare b = .eq ↔ _
  rw [compare_eq, compare_eq_iff_eq]

end ParticipantTrust.Decimal
