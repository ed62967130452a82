import ParticipantTrust.Proofs.Decimal.Value
import Mathlib.Tactic.FieldSimp
import Mathlib.Tactic.LinearCombination

namespace ParticipantTrust

namespace Rounding

-- What a mode makes of a number that need not be whole. `halfUp` sends a tie away from zero.
def apply (mode : Rounding) (x : ℚ) : ℤ :=
  match mode with
  | .halfUp => if 0 ≤ x then ⌊x + 1 / 2⌋ else ⌈x - 1 / 2⌉
  | .ceiling => ⌈x⌉
  | .down => if 0 ≤ x then ⌊x⌋ else ⌈x⌉

theorem halfUp_quotient_natAbs (m : Int) (d : Nat) (hd : 0 < d) :
    (((2 * m.natAbs + d) / (2 * d) : Nat) : Int) = ⌊((m.natAbs : ℚ) / d) + 1 / 2⌋ := by
  have hq : (d : ℚ) ≠ 0 := by exact_mod_cast hd.ne'
  have hsplit : ((m.natAbs : ℚ) / d) + 1 / 2 =
      ((2 * m.natAbs + d : Nat) : ℚ) / ((2 * d : Nat) : ℚ) := by
    push_cast
    field_simp
  rw [hsplit, Rat.floor_natCast_div_natCast, Int.natCast_ediv]

-- The integer quotients are the roundings of the exact quotient.
theorem quotient_eq_apply (mode : Rounding) (m : Int) (d : Nat) (hd : 0 < d) :
    mode.quotient m d = mode.apply ((m : ℚ) / d) := by
  have hpos : (0 : ℚ) < d := by exact_mod_cast hd
  have hsign : 0 ≤ (m : ℚ) / d ↔ 0 ≤ m := by
    rw [le_div_iff₀ hpos, zero_mul, Int.cast_nonneg_iff]
  have hneg : ∀ n : Int, -(-n / (d : Int)) = ⌈(n : ℚ) / d⌉ := by
    intro n
    rw [← Rat.floor_intCast_div_natCast, Int.cast_neg, neg_div, Int.floor_neg, neg_neg]
  cases mode with
  | halfUp =>
      simp only [quotient, apply, hsign]
      rw [halfUp_quotient_natAbs m d hd, Nat.cast_natAbs, Int.cast_abs]
      rcases lt_trichotomy m 0 with hm | hm | hm
      · have habs : |(m : ℚ)| = -m := abs_of_neg (by exact_mod_cast hm)
        rw [if_neg (by omega), Int.sign_eq_neg_one_of_neg hm, habs, neg_one_mul, ← Int.ceil_neg]
        congr 1
        ring
      · subst hm
        norm_num
      · have habs : |(m : ℚ)| = m := abs_of_pos (by exact_mod_cast hm)
        rw [if_pos hm.le, Int.sign_eq_one_of_pos hm, habs, one_mul]
  | ceiling => exact hneg m
  | down =>
      simp only [quotient, apply, hsign]
      split
      · rename_i hm
        rw [Int.tdiv_eq_ediv_of_nonneg hm, Rat.floor_intCast_div_natCast]
      · rename_i hm
        rw [← hneg m, ← Int.tdiv_eq_ediv_of_nonneg (by omega), Int.neg_tdiv, neg_neg]

theorem apply_mono (mode : Rounding) {x y : ℚ} (h : x ≤ y) : mode.apply x ≤ mode.apply y := by
  cases mode with
  | halfUp =>
      simp only [apply]
      split_ifs with hx hy hy
      · exact Int.floor_mono (by linarith)
      · exact absurd (hx.trans h) hy
      · have hx' : ⌈x - 1 / 2⌉ ≤ 0 := Int.ceil_le.mpr (by push_cast; linarith)
        have hy' : 0 ≤ ⌊y + 1 / 2⌋ := Int.floor_nonneg.mpr (by linarith)
        exact hx'.trans hy'
      · exact Int.ceil_mono (by linarith)
  | ceiling => exact Int.ceil_mono h
  | down =>
      simp only [apply]
      split_ifs with hx hy hy
      · exact Int.floor_mono h
      · exact absurd (hx.trans h) hy
      · have hx' : ⌈x⌉ ≤ 0 := Int.ceil_le.mpr (by push_cast; linarith)
        exact hx'.trans (Int.floor_nonneg.mpr hy)
      · exact Int.ceil_mono h

@[simp] theorem apply_intCast (mode : Rounding) (n : ℤ) : mode.apply n = n := by
  have hup : ⌊(n : ℚ) + 1 / 2⌋ = n := by
    rw [Int.floor_intCast_add]
    norm_num
  have hdown : ⌈(n : ℚ) - 1 / 2⌉ = n := by
    rw [sub_eq_add_neg, Int.ceil_intCast_add]
    norm_num
  cases mode <;> simp only [apply, Int.ceil_intCast, Int.floor_intCast, hup, hdown, ite_self]

@[simp] theorem apply_zero (mode : Rounding) : mode.apply 0 = 0 := by
  exact_mod_cast apply_intCast mode 0

-- Ties go away from zero on both sides of it.
@[simp] theorem halfUp_apply_neg (x : ℚ) : halfUp.apply (-x) = -halfUp.apply x := by
  simp only [apply]
  rcases lt_trichotomy x 0 with hx | rfl | hx
  · rw [if_pos (by linarith), if_neg (by linarith), ← Int.floor_neg, neg_sub, sub_eq_add_neg,
      add_comm]
  · norm_num
  · rw [if_neg (by linarith), if_pos hx.le, ← Int.ceil_neg, neg_add, sub_eq_add_neg]

-- Less than half a unit, a number rounds as a tenth of its sign does.
theorem quotient_sign (mode : Rounding) (m : Int) (d : Nat) (h : 2 * m.natAbs < d) :
    mode.quotient m.sign 10 = mode.quotient m d := by
  rcases lt_trichotomy m 0 with hm | rfl | hm
  · rw [Int.sign_eq_neg_one_of_neg hm]
    cases mode with
    | halfUp => simp [quotient, Nat.div_eq_of_lt (show 2 * m.natAbs + d < 2 * d by omega)]
    | ceiling => simp [quotient, Int.ediv_eq_zero_of_lt (show 0 ≤ -m by omega) (show -m < d by omega)]
    | down =>
        have hd : (-m).tdiv d = 0 := Int.tdiv_eq_zero_of_lt (by omega) (by omega)
        rw [Int.neg_tdiv, neg_eq_zero] at hd
        simp [quotient, hd]
  · cases mode <;> simp [quotient]
  · rw [Int.sign_eq_one_of_pos hm]
    cases mode with
    | halfUp => simp [quotient, Nat.div_eq_of_lt (show 2 * m.natAbs + d < 2 * d by omega)]
    | ceiling =>
        have hd : -m / (d : Int) = -1 :=
          ((Int.ediv_emod_unique (show (0 : Int) < d by omega)).mpr
            ⟨show d - m + d * (-1) = -m by ring, by omega, by omega⟩).1
        simp [quotient, hd]
    | down => simp [quotient, Int.tdiv_eq_zero_of_lt hm.le (show m < (d : Int) by omega)]

-- `x` rounded to a whole number of units of `scale`.
def atScale (mode : Rounding) (scale : Int) (x : ℚ) : ℚ :=
  mode.apply (x * 10 ^ scale) * 10 ^ (-scale)

end Rounding

namespace Decimal

-- Whole numbers of units of `scale`, the numbers that have at most `scale` decimal places.
def HasPlaces (scale : Int) (x : ℚ) : Prop := ∃ n : ℤ, x = n * 10 ^ (-scale)

theorem hasPlaces_toRat (m s : Int) : HasPlaces s (toRat ⟨m, s⟩) := ⟨m, rfl⟩

theorem HasPlaces.add {scale : Int} {x y : ℚ} (hx : HasPlaces scale x) (hy : HasPlaces scale y) :
    HasPlaces scale (x + y) := by
  obtain ⟨n, rfl⟩ := hx
  obtain ⟨k, rfl⟩ := hy
  refine ⟨n + k, ?_⟩
  push_cast
  ring

theorem HasPlaces.mul_intCast {scale : Int} {x : ℚ} (hx : HasPlaces scale x) (n : ℤ) :
    HasPlaces scale (x * n) := by
  obtain ⟨k, rfl⟩ := hx
  refine ⟨k * n, ?_⟩
  push_cast
  ring

theorem HasPlaces.mono {scale finer : Int} {x : ℚ} (hx : HasPlaces scale x) (h : scale ≤ finer) :
    HasPlaces finer x := by
  obtain ⟨n, rfl⟩ := hx
  refine ⟨n * tenTo (finer - scale).toNat, ?_⟩
  rw [ten_zpow_shift scale finer h]
  push_cast
  ring

-- Different numbers of one scale are a unit apart.
theorem HasPlaces.add_unit_le {scale : Int} {x y : ℚ} (hx : HasPlaces scale x)
    (hy : HasPlaces scale y) (h : x < y) : x + 10 ^ (-scale) ≤ y := by
  obtain ⟨n, rfl⟩ := hx
  obtain ⟨k, rfl⟩ := hy
  have hnk : n < k := by exact_mod_cast lt_of_mul_lt_mul_right h (ten_zpow_pos _).le
  have hsucc : (n : ℚ) + 1 ≤ k := by exact_mod_cast hnk
  have hscaled := mul_le_mul_of_nonneg_right hsucc (ten_zpow_pos (-scale)).le
  linarith

theorem HasPlaces.eq_zero_of_abs_lt {scale : Int} {x : ℚ} (hx : HasPlaces scale x)
    (h : |x| < 10 ^ (-scale)) : x = 0 := by
  obtain ⟨n, rfl⟩ := hx
  rw [abs_mul, abs_of_pos (ten_zpow_pos (-scale)), ← Int.cast_abs] at h
  have hlt := lt_of_mul_lt_mul_right (h.trans_eq (one_mul _).symm) (ten_zpow_pos (-scale)).le
  have hn : n = 0 := Int.abs_lt_one_iff.mp (by exact_mod_cast hlt)
  rw [hn, Int.cast_zero, zero_mul]

end Decimal

namespace Rounding

open Decimal

theorem atScale_hasPlaces (mode : Rounding) (scale : Int) (x : ℚ) :
    HasPlaces scale (mode.atScale scale x) := ⟨_, rfl⟩

theorem atScale_of_hasPlaces (mode : Rounding) (scale : Int) (x : ℚ) (h : HasPlaces scale x) :
    mode.atScale scale x = x := by
  obtain ⟨n, rfl⟩ := h
  rw [atScale, mul_assoc, ten_zpow_neg_mul, mul_one, apply_intCast]

theorem atScale_mono (mode : Rounding) (scale : Int) {x y : ℚ} (h : x ≤ y) :
    mode.atScale scale x ≤ mode.atScale scale y := by
  have hscaled := mul_le_mul_of_nonneg_right h (ten_zpow_pos scale).le
  exact mul_le_mul_of_nonneg_right (Int.cast_le.mpr (mode.apply_mono hscaled)) (ten_zpow_pos _).le

-- A number that has the places is not passed when others are rounded to them.
theorem le_atScale (mode : Rounding) {scale : Int} {x y : ℚ} (hx : HasPlaces scale x) (h : x ≤ y) :
    x ≤ mode.atScale scale y :=
  (mode.atScale_of_hasPlaces scale x hx).symm.trans_le (mode.atScale_mono scale h)

theorem atScale_le (mode : Rounding) {scale : Int} {x y : ℚ} (hy : HasPlaces scale y) (h : x ≤ y) :
    mode.atScale scale x ≤ y :=
  (mode.atScale_mono scale h).trans_eq (mode.atScale_of_hasPlaces scale y hy)

@[simp] theorem atScale_zero (mode : Rounding) (scale : Int) : mode.atScale scale 0 = 0 := by
  simp [atScale]

@[simp] theorem halfUp_atScale_neg (scale : Int) (x : ℚ) :
    halfUp.atScale scale (-x) = -halfUp.atScale scale x := by
  rw [atScale, atScale, neg_mul, halfUp_apply_neg, Int.cast_neg, neg_mul]

theorem atScale_nonneg (mode : Rounding) (scale : Int) {x : ℚ} (h : 0 ≤ x) :
    0 ≤ mode.atScale scale x := by
  simpa using mode.atScale_mono scale h

theorem atScale_nonpos (mode : Rounding) (scale : Int) {x : ℚ} (h : x ≤ 0) :
    mode.atScale scale x ≤ 0 := by
  simpa using mode.atScale_mono scale h

-- Rounding never carries a number across zero, on whichever side of it `σ` puts it.
theorem mul_atScale_nonneg (mode : Rounding) (scale : Int) {σ x : ℚ} (h : 0 ≤ σ * x) :
    0 ≤ σ * mode.atScale scale x := by
  rcases lt_trichotomy σ 0 with hσ | hσ | hσ
  · exact mul_nonneg_of_nonpos_of_nonpos hσ.le (mode.atScale_nonpos scale (by nlinarith))
  · simp [hσ]
  · exact mul_nonneg hσ.le (mode.atScale_nonneg scale (nonneg_of_mul_nonneg_right h hσ))

theorem atScale_sub (mode : Rounding) (scale : Int) (x : ℚ) :
    mode.atScale scale x - x = (mode.apply (x * 10 ^ scale) - x * 10 ^ scale) * 10 ^ (-scale) := by
  rw [atScale, sub_mul, mul_assoc x, mul_comm (10 ^ scale : ℚ), ten_zpow_neg_mul, mul_one]

theorem abs_halfUp_apply_sub_le (x : ℚ) : |(halfUp.apply x : ℚ) - x| ≤ 1 / 2 := by
  simp only [apply]
  rw [abs_le]
  split
  · have hlow := Int.floor_le (x + 1 / 2)
    have hhigh := Int.lt_floor_add_one (x + 1 / 2)
    constructor <;> linarith
  · have hlow := Int.le_ceil (x - 1 / 2)
    have hhigh := Int.ceil_lt_add_one (x - 1 / 2)
    constructor <;> linarith

theorem abs_halfUp_atScale_sub_le (scale : Int) (x : ℚ) :
    |halfUp.atScale scale x - x| ≤ 1 / 2 * 10 ^ (-scale) := by
  rw [atScale_sub, abs_mul, abs_of_pos (ten_zpow_pos (-scale))]
  exact mul_le_mul_of_nonneg_right (abs_halfUp_apply_sub_le _) (ten_zpow_pos _).le

-- Where ties go up, what is rounded down is less than half a unit above its result.
theorem lt_halfUp_atScale_add (scale : Int) {x : ℚ} (h : 0 ≤ x) :
    x < halfUp.atScale scale x + 1 / 2 * 10 ^ (-scale) := by
  have hscaled : x * 10 ^ scale < (halfUp.apply (x * 10 ^ scale) : ℚ) + 1 / 2 := by
    have hfloor := Int.lt_floor_add_one (x * 10 ^ scale + 1 / 2)
    simp only [apply]
    rw [if_pos (mul_nonneg h (ten_zpow_pos scale).le)]
    linarith
  have hunit := mul_lt_mul_of_pos_right hscaled (ten_zpow_pos (-scale))
  rw [add_mul, mul_assoc x, mul_comm (10 ^ scale : ℚ), ten_zpow_neg_mul, mul_one] at hunit
  exact hunit

-- Ties go up, so half a unit is the least that does not round to zero.
theorem halfUp_atScale_pos_iff (scale : Int) (x : ℚ) :
    0 < halfUp.atScale scale x ↔ 1 / 2 * 10 ^ (-scale) ≤ x := by
  have hunit := ten_zpow_pos (-scale)
  constructor
  · intro hpos
    by_contra hlt
    rw [not_le] at hlt
    have hle := (abs_le.mp (abs_halfUp_atScale_sub_le scale x)).2
    have hzero : halfUp.atScale scale x = 0 := by
      apply (halfUp.atScale_hasPlaces scale x).eq_zero_of_abs_lt
      rw [abs_of_pos hpos]
      linarith
    exact hpos.ne' hzero
  · intro hle
    have hlt := lt_halfUp_atScale_add scale (x := x) (by linarith)
    linarith

theorem hasPlaces_one (scale : Int) (h : 0 ≤ scale) : HasPlaces scale 1 := by
  obtain ⟨k, rfl⟩ := Int.eq_ofNat_of_zero_le h
  refine ⟨(10 ^ k : ℕ), ?_⟩
  rw [Int.cast_natCast, Nat.cast_pow, Nat.cast_ofNat, zpow_neg, zpow_natCast,
    mul_inv_cancel₀ (by positivity)]

-- Half a unit below one still rounds up to it.
theorem one_le_halfUp_atScale (scale : Int) {x : ℚ} (hs : 0 ≤ scale)
    (h : 1 - 1 / 2 * 10 ^ (-scale) ≤ x) : 1 ≤ halfUp.atScale scale x := by
  have hunit : (10 : ℚ) ^ (-scale) ≤ 1 := zpow_le_one_of_nonpos₀ (by norm_num) (by omega)
  have hlt := lt_halfUp_atScale_add scale (x := x) (by linarith)
  by_contra hbelow
  have hgap := (halfUp.atScale_hasPlaces scale x).add_unit_le (hasPlaces_one scale hs)
    (not_le.mp hbelow)
  linarith

-- Units larger than one are more than twice as large, so one rounds down to zero there.
theorem halfUp_atScale_le_one (scale : Int) {x : ℚ} (h : x ≤ 1) : halfUp.atScale scale x ≤ 1 := by
  rcases le_or_gt 0 scale with hs | hs
  · exact halfUp.atScale_le (hasPlaces_one scale hs) h
  · have hunit : (10 : ℚ) ^ scale ≤ 10 ^ (-1 : Int) :=
      zpow_le_zpow_right₀ (by norm_num) (by omega)
    have hsmall : x * 10 ^ scale < 1 / 2 := by
      have := mul_le_mul_of_nonneg_right h (ten_zpow_pos scale).le
      norm_num at hunit this
      linarith
    have hzero : halfUp.apply (x * 10 ^ scale) ≤ 0 := by
      simp only [apply]
      split
      · exact Int.lt_add_one_iff.mp (Int.floor_lt.mpr (by push_cast; linarith))
      · exact Int.ceil_le.mpr (by push_cast; linarith)
    have hprod := mul_nonpos_of_nonpos_of_nonneg (Int.cast_nonpos.mpr hzero) (ten_zpow_pos (-scale)).le
    exact hprod.trans zero_le_one

-- A power of ten is one more than a multiple of nine, so that fewer than five ninths are rounded down.
theorem halfUp_atScale_ninths_le (scale : Int) {k : Nat} (hk : k < 5) :
    halfUp.atScale scale (k / 9) ≤ k / 9 := by
  have hkq : (k : ℚ) ≤ 4 := by exact_mod_cast Nat.le_of_lt_succ hk
  rcases le_or_gt scale 0 with hs | hs
  · have hunit : (1 : ℚ) ≤ 10 ^ (-scale) := one_le_zpow₀ (by norm_num) (by omega)
    have hzero : ¬0 < halfUp.atScale scale ((k : ℚ) / 9) := by
      rw [halfUp_atScale_pos_iff]
      linarith
    exact (not_lt.mp hzero).trans (by positivity)
  · obtain ⟨s, rfl⟩ := Int.eq_ofNat_of_zero_le hs.le
    obtain ⟨r, hr⟩ : ∃ r, 10 ^ s = 9 * r + 1 := by
      have hmod : 10 ^ s % 9 = 1 := by simp [Nat.pow_mod]
      exact ⟨10 ^ s / 9, by omega⟩
    have hunit : (9 * r + 1 : ℚ) * 10 ^ (-(s : Int)) = 1 := by
      rw [show (9 * r + 1 : ℚ) = 10 ^ s by exact_mod_cast hr.symm, zpow_neg, zpow_natCast]
      exact mul_inv_cancel₀ (by positivity)
    have hpos := ten_zpow_pos (-(s : Int))
    have hround := (abs_le.mp (abs_halfUp_atScale_sub_le (s : Int) ((k : ℚ) / 9))).2
    obtain ⟨n, hn⟩ := halfUp.atScale_hasPlaces (s : Int) ((k : ℚ) / 9)
    rw [hn] at hround ⊢
    have hscaled := mul_le_mul_of_nonneg_left hround (by positivity : (0 : ℚ) ≤ 18 * (9 * r + 1))
    have hbound : (18 * n : ℚ) ≤ 18 * (k * r) + 2 * k + 9 := by
      linear_combination hscaled + (9 - 18 * n) * hunit
    have hle : n ≤ k * r := by
      have hint : 18 * n ≤ 18 * (k * r : Int) + 2 * k + 9 := by exact_mod_cast hbound
      omega
    have hleq : (n : ℚ) ≤ k * r := by exact_mod_cast hle
    have hproduct := mul_le_mul_of_nonneg_right hleq hpos.le
    have hnonneg : (0 : ℚ) ≤ k * 10 ^ (-(s : Int)) := by positivity
    linear_combination hproduct + 1 / 9 * hnonneg + k / 9 * hunit

end Rounding

namespace Decimal

-- Dropping places divides the mantissa by a power of ten.
theorem toRat_mul_ten_zpow (v : Decimal) (scale : Int) (h : scale ≤ v.scale) :
    v.toRat * 10 ^ scale = (v.mantissa : ℚ) / (tenTo (v.scale - scale).toNat : ℕ) := by
  have hpos : (0 : ℚ) < (tenTo (v.scale - scale).toNat : ℕ) := by
    rw [tenTo_eq]
    positivity
  rw [eq_div_iff hpos.ne', toRat]
  calc (v.mantissa : ℚ) * 10 ^ (-v.scale) * 10 ^ scale * (tenTo (v.scale - scale).toNat : ℕ)
      = v.mantissa * ((tenTo (v.scale - scale).toNat : ℕ) * 10 ^ (-v.scale) * 10 ^ scale) := by ring
    _ = v.mantissa := by rw [← ten_zpow_shift scale v.scale h, ten_zpow_neg_mul, mul_one]

theorem toRat_roundWith (mode : Rounding) (v : Decimal) (scale : Int) :
    (v.roundWith mode scale).toRat = mode.atScale scale v.toRat := by
  simp only [roundWith]
  split
  · rename_i hs
    have hv := toRat_mantissaAt v scale fun _ => hs
    rw [hv, mode.atScale_of_hasPlaces]
    exact hv ▸ hasPlaces_toRat _ _
  · rename_i hs
    have hround : toRat ⟨mode.quotient v.mantissa (tenTo (v.scale - scale).toNat), scale⟩ =
        mode.atScale scale v.toRat := by
      rw [toRat_mk, Rounding.quotient_eq_apply _ _ _ (by rw [tenTo_eq]; positivity),
        Rounding.atScale, toRat_mul_ten_zpow v scale (by omega)]
    split
    · rename_i hk
      rw [Rounding.quotient_sign _ _ _ (two_mul_natAbs_lt_tenTo v.mantissa _ hk)]
      exact hround
    · exact hround

theorem roundWith_scale (mode : Rounding) (v : Decimal) (scale : Int) :
    (v.roundWith mode scale).scale = scale := by
  simp only [roundWith]
  split_ifs <;> rfl

theorem roundWith_mantissa (mode : Rounding) (v : Decimal) :
    (v.roundWith mode 0).mantissa = mode.apply v.toRat := by
  have h := toRat_roundWith mode v 0
  simpa [toRat, roundWith_scale, Rounding.atScale] using h

theorem round_hasPlaces (v : Decimal) (scale : Int) : HasPlaces scale (v.round scale).toRat := by
  rw [round, toRat_roundWith]
  exact Rounding.halfUp.atScale_hasPlaces scale _

@[simp] theorem toRat_round (v : Decimal) (scale : Int) :
    (v.round scale).toRat = Rounding.halfUp.atScale scale v.toRat :=
  toRat_roundWith .halfUp v scale

-- Rounding adds half a unit to an error.
theorem abs_round_sub_le (v : Decimal) (scale : Int) {x ε : ℚ} (h : |v.toRat - x| ≤ ε) :
    |(v.round scale).toRat - x| ≤ ε + 1 / 2 * 10 ^ (-scale) := by
  have hround := Rounding.abs_halfUp_atScale_sub_le scale v.toRat
  rw [toRat_round]
  calc |Rounding.halfUp.atScale scale v.toRat - x|
      ≤ |Rounding.halfUp.atScale scale v.toRat - v.toRat| + |v.toRat - x| := abs_sub_le _ _ _
    _ ≤ ε + 1 / 2 * 10 ^ (-scale) := by linarith

end Decimal

end ParticipantTrust
