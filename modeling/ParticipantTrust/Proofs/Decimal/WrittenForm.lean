import ParticipantTrust.Proofs.Decimal.Power
import ParticipantTrust.Proofs.Decimal.Quotient

namespace ParticipantTrust.Decimal

-- A written form is a number together with a scale.
theorem eq_of_toRat_eq (a b : Decimal) (hvalue : a.toRat = b.toRat) (hscale : a.scale = b.scale) :
    a = b := by
  obtain ⟨m, s⟩ := a
  obtain ⟨n, s'⟩ := b
  obtain rfl : s = s' := hscale
  have hcast : (m : ℚ) = n := mul_right_cancel₀ (ten_zpow_pos (-s)).ne' hvalue
  rw [Int.cast_inj.mp hcast]

protected theorem mul_comm (a b : Decimal) : a * b = b * a := by
  apply eq_of_toRat_eq
  · rw [toRat_mul, toRat_mul, mul_comm]
  · exact add_comm a.scale b.scale

-- Rounding forgets how a number was written.
theorem round_congr (a b : Decimal) (scale : Int) (h : a.toRat = b.toRat) :
    a.round scale = b.round scale := by
  apply eq_of_toRat_eq
  · rw [toRat_round, toRat_round, h]
  · exact (roundWith_scale .halfUp a scale).trans (roundWith_scale .halfUp b scale).symm

theorem pow_congr (a b : Decimal) (n : Nat) (precision : Int) (h0 : 0 ≤ a.toRat) (h1 : a.toRat ≤ 1)
    (h : a.toRat = b.toRat) : (a.pow n precision).toRat = (b.pow n precision).toRat := by
  have hab := toRat_pow_le a b n n precision h0 h.le (h ▸ h1) le_rfl
  have hba := toRat_pow_le b a n n precision (h ▸ h0) h.ge h1 le_rfl
  exact le_antisymm hab hba

-- The places are taken in steps that never overshoot the next digit.
theorem mul_tenTo_placesAtLeast_lt (target m : Nat) (hm : 0 < m) (h : m < target) :
    m * tenTo (placesAtLeast target m) < 10 * target := by
  rw [tenTo_eq, placesAtLeast]
  set k := (target.log2 - m.log2 - 1) / 10
  rcases Nat.eq_zero_or_pos k with hk | hk
  · rw [hk, mul_zero, max_eq_left (by omega), pow_one]
    omega
  · have hplaces : max 1 (3 * k) = 3 * k := by omega
    have hbits : m.log2 + 1 + 10 * k ≤ target.log2 := by omega
    have hten : 10 ^ (3 * k) ≤ 2 ^ (10 * k) := by
      rw [pow_mul, pow_mul]
      exact Nat.pow_le_pow_left (by norm_num) k
    have hm : m < 2 ^ (m.log2 + 1) := Nat.lt_log2_self
    have hlow : 2 ^ target.log2 ≤ target := Nat.log2_self_le (by omega)
    rw [hplaces]
    calc m * 10 ^ (3 * k) ≤ 2 ^ (m.log2 + 1) * 2 ^ (10 * k) := Nat.mul_le_mul hm.le hten
      _ = 2 ^ (m.log2 + 1 + 10 * k) := (pow_add 2 _ _).symm
      _ ≤ 2 ^ target.log2 := Nat.pow_le_pow_right (by norm_num) hbits
      _ < 10 * target := by omega

theorem mul_tenTo_placesToReach_lt (target m : Nat) (h : m < 10 * target) :
    m * tenTo (placesToReach target m) < 10 * target := by
  induction m using placesToReach.induct target with
  | case1 m hreached =>
      unfold placesToReach
      rw [if_pos hreached, tenTo_eq, pow_zero, mul_one]
      exact h
  | case2 m hshort places ih =>
      have hnext := ih (mul_tenTo_placesAtLeast_lt target m (by omega) (by omega))
      unfold placesToReach
      rw [if_neg hshort, tenTo_eq, pow_add, mul_comm (10 ^ _), ← mul_assoc]
      exact hnext

theorem ten_mul_tenTo_quotientDigits :
    10 * tenTo (quotientDigits - 1) = tenTo quotientDigits := by
  rw [tenTo_eq, tenTo_eq, ← Nat.pow_succ']
  rfl

-- The written dividend is not longer than the divisor by more digits than a quotient has.
def QuotientFits (a b : Decimal) : Prop :=
  a.mantissa.natAbs < tenTo quotientDigits * b.mantissa.natAbs

instance (a b : Decimal) : Decidable (a.QuotientFits b) := by
  unfold QuotientFits; infer_instance

theorem div_scale (a b : Decimal) (ha : 0 < a.toRat) (hone : b.toRat ≠ 1) :
    (a / b).scale =
      a.scale - b.scale + (quotientOfNat a.mantissa.natAbs b.mantissa.natAbs).2 := by
  have hgo : ¬(a.isZero = true ∨ b.SameValue one) := by
    rw [isZero_iff, sameValue_iff, toRat_one]
    rintro (hzero | hsame)
    · exact ha.ne' hzero
    · exact hone hsame
  change (Decimal.div a b).scale = _
  unfold Decimal.div
  rw [if_neg hgo]

theorem natCast_natAbs_mantissa (v : Decimal) (hv : 0 < v.toRat) :
    (v.mantissa.natAbs : ℚ) = v.mantissa := by
  rw [Nat.cast_natAbs, abs_of_pos ((toRat_pos_iff v).mp hv)]

-- The exact quotient in units of its written form, as a quotient of natural numbers.
theorem div_mul_ten_zpow_scale (a b : Decimal) (ha : 0 < a.toRat) (hb : 0 < b.toRat)
    (hone : b.toRat ≠ 1) :
    a.toRat / b.toRat * 10 ^ (a / b).scale =
      ((a.mantissa.natAbs * tenTo (quotientOfNat a.mantissa.natAbs b.mantissa.natAbs).2 : Nat) : ℚ) /
        b.mantissa.natAbs := by
  have hbm := (toRat_pos_iff b).mp hb
  rw [div_scale a b ha hone, ← scaled_quotient a b _ hbm.ne', Int.sign_eq_one_of_pos hbm, mul_one]
  push_cast
  rw [natCast_natAbs_mantissa a ha]

-- A quotient is written with `quotientDigits` digits at least.
theorem ten_pow_le_div_scaled (a b : Decimal) (ha : 0 < a.toRat) (hb : 0 < b.toRat)
    (hone : b.toRat ≠ 1) :
    (10 : ℚ) ^ (quotientDigits - 1) ≤ a.toRat / b.toRat * 10 ^ (a / b).scale := by
  have ham := (toRat_pos_iff a).mp ha
  have hbm := (toRat_pos_iff b).mp hb
  have hlow : tenTo (quotientDigits - 1) * b.mantissa.natAbs ≤
      a.mantissa.natAbs * tenTo (quotientOfNat a.mantissa.natAbs b.mantissa.natAbs).2 :=
    le_mul_placesToReach _ _ (by omega)
  have hpos : (0 : ℚ) < b.mantissa.natAbs := by exact_mod_cast (by omega : 0 < b.mantissa.natAbs)
  rw [div_mul_ten_zpow_scale a b ha hb hone, le_div_iff₀ hpos]
  exact_mod_cast hlow

-- A quotient that fits is written with exactly `quotientDigits` digits.
theorem div_scale_bounds (a b : Decimal) (ha : 0 < a.toRat) (hb : 0 < b.toRat) (hone : b.toRat ≠ 1)
    (hfits : a.QuotientFits b) :
    (10 : ℚ) ^ (quotientDigits - 1) ≤ a.toRat / b.toRat * 10 ^ (a / b).scale ∧
      a.toRat / b.toRat * 10 ^ (a / b).scale < 10 ^ quotientDigits := by
  have hbm := (toRat_pos_iff b).mp hb
  have hhigh : a.mantissa.natAbs * tenTo (quotientOfNat a.mantissa.natAbs b.mantissa.natAbs).2 <
      10 * (tenTo (quotientDigits - 1) * b.mantissa.natAbs) :=
    mul_tenTo_placesToReach_lt _ _
      (by rw [← mul_assoc, ten_mul_tenTo_quotientDigits]; exact hfits)
  rw [← mul_assoc, ten_mul_tenTo_quotientDigits] at hhigh
  have hpos : (0 : ℚ) < b.mantissa.natAbs := by exact_mod_cast (by omega : 0 < b.mantissa.natAbs)
  refine ⟨ten_pow_le_div_scaled a b ha hb hone, ?_⟩
  rw [div_mul_ten_zpow_scale a b ha hb hone, div_lt_iff₀ hpos]
  exact_mod_cast hhigh

-- No two scales give a number the same count of digits.
theorem scale_unique (x : ℚ) (digits : Nat) (s t : Int) (hs : 10 ^ digits ≤ x * 10 ^ s)
    (ht : x * 10 ^ t < 10 ^ (digits + 1)) : t ≤ s := by
  by_contra hlt
  have hx : 0 < x := by
    have h : 0 < x * 10 ^ s := lt_of_lt_of_le (by positivity) hs
    exact pos_of_mul_pos_left h (ten_zpow_pos s).le
  have hstep : (10 : ℚ) ^ (s + 1) ≤ 10 ^ t := zpow_le_zpow_right₀ (by norm_num) (by omega)
  have hmul := mul_le_mul_of_nonneg_left hstep hx.le
  rw [zpow_add₀ (by norm_num), zpow_one] at hmul
  rw [pow_succ] at ht
  linarith

theorem div_congr (a a' b b' : Decimal) (ha : 0 < a.toRat) (hb : 0 < b.toRat) (hone : b.toRat ≠ 1)
    (haa : a.toRat = a'.toRat) (hbb : b.toRat = b'.toRat) (hfits : a.QuotientFits b)
    (hfits' : a'.QuotientFits b') : a / b = a' / b' := by
  have hbounds := div_scale_bounds a b ha hb hone hfits
  have hbounds' := div_scale_bounds a' b' (haa ▸ ha) (hbb ▸ hb) (hbb ▸ hone) hfits'
  rw [← haa, ← hbb] at hbounds'
  have hscale : (a / b).scale = (a' / b').scale := le_antisymm
    (scale_unique _ (quotientDigits - 1) _ _ hbounds'.1 hbounds.2)
    (scale_unique _ (quotientDigits - 1) _ _ hbounds.1 hbounds'.2)
  apply eq_of_toRat_eq _ _ _ hscale
  rw [toRat_div a b hb.ne', toRat_div a' b' (hbb ▸ hb.ne'), hscale, haa, hbb]

theorem natAbs_mantissa_lt (v : Decimal) (places : Nat) (h0 : 0 < v.toRat) (h1 : v.toRat < 1)
    (hs : v.scale ≤ places) : v.mantissa.natAbs < tenTo places := by
  have hm := (toRat_pos_iff v).mp h0
  obtain ⟨m, hm'⟩ := Int.eq_ofNat_of_zero_le hm.le
  have hlt : (m : ℚ) < 10 ^ v.scale := by
    rw [toRat, hm', Int.cast_natCast, zpow_neg, ← div_eq_mul_inv, div_lt_one (ten_zpow_pos _)] at h1
    exact h1
  have hle : (10 : ℚ) ^ v.scale ≤ 10 ^ (places : Int) := zpow_le_zpow_right₀ (by norm_num) hs
  rw [hm', Int.natAbs_natCast, tenTo_eq]
  rw [zpow_natCast] at hle
  exact_mod_cast hlt.trans_le hle

theorem quotientFits_of_scale_le (a b : Decimal) (h0 : 0 < a.toRat) (h1 : a.toRat < 1)
    (hb : 0 < b.toRat) (hs : a.scale ≤ quotientDigits) : a.QuotientFits b := by
  have hm := natAbs_mantissa_lt a quotientDigits h0 h1 hs
  have hn := (toRat_pos_iff b).mp hb
  exact hm.trans_le (Nat.le_mul_of_pos_right _ (by omega))

theorem complement_scale_le (v : Decimal) (places : Nat) (hs : v.scale ≤ places) :
    v.complement.scale ≤ places := by
  unfold complement
  split
  · exact Int.natCast_nonneg places
  · change max (0 : Int) v.scale ≤ places
    omega

end ParticipantTrust.Decimal
