import ParticipantTrust.Proofs.Decimal.Rounding
import Mathlib.RingTheory.Coprime.Lemmas
import Mathlib.Tactic.LinearCombination

namespace ParticipantTrust

namespace Decimal

-- Half way between two neighbours of `scale` places.
def IsTie (scale : Int) (x : ℚ) : Prop := ∃ m : ℤ, x = (m + 1 / 2) * 10 ^ (-scale)

theorem HasPlaces.neg {scale : Int} {x : ℚ} (hx : HasPlaces scale x) : HasPlaces scale (-x) := by
  have h := hx.mul_intCast (-1)
  rwa [Int.cast_neg, Int.cast_one, mul_neg_one] at h

theorem HasPlaces.sub {scale : Int} {x y : ℚ} (hx : HasPlaces scale x) (hy : HasPlaces scale y) :
    HasPlaces scale (x - y) :=
  sub_eq_add_neg x y ▸ hx.add hy.neg

theorem IsTie.sub_left {scale : Int} {x y : ℚ} (hx : IsTie scale x) (hy : HasPlaces scale y) :
    IsTie scale (y - x) := by
  obtain ⟨m, rfl⟩ := hx
  obtain ⟨n, rfl⟩ := hy
  refine ⟨n - m - 1, ?_⟩
  push_cast
  ring

theorem HasPlaces.not_isTie {scale : Int} {x : ℚ} (hx : HasPlaces scale x) : ¬IsTie scale x := by
  rintro ⟨m, hm⟩
  obtain ⟨n, hn⟩ := hx
  have hsame : ((m : ℚ) + 1 / 2) = n :=
    mul_right_cancel₀ (ten_zpow_pos (-scale)).ne' (hm.symm.trans hn)
  have hdouble : 2 * m + 1 = 2 * n := by
    have hcast : (2 : ℚ) * m + 1 = 2 * n := by linarith
    exact_mod_cast hcast
  omega

-- Twice a fraction counts an odd number of units at a tie, so its denominator has to bring all the
-- factors of two that are in a power of ten.
theorem not_isTie_div {places s n : Nat} (hn : 0 < n) (hsmall : n < 2 ^ (places + 1)) :
    ¬IsTie places ((s : ℚ) / n) := by
  rintro ⟨m, hm⟩
  have hpos : (0 : ℚ) < n := by exact_mod_cast hn
  have hcleared : (2 * 10 ^ places * s : ℤ) = (2 * m + 1) * n := by
    have hcast : (2 * 10 ^ places * s : ℚ) = (2 * m + 1) * n := by
      rw [zpow_neg, zpow_natCast, div_eq_iff hpos.ne'] at hm
      field_simp at hm
      linarith
    exact_mod_cast hcast
  have hodd : IsCoprime ((2 : ℤ) ^ (places + 1)) (2 * m + 1) :=
    IsCoprime.pow_left ⟨-m, 1, by ring⟩
  have hdvd : (2 : ℤ) ^ (places + 1) ∣ n := by
    apply hodd.dvd_of_dvd_mul_left
    rw [← hcleared]
    refine ⟨5 ^ places * s, ?_⟩
    rw [show (10 : ℤ) = 2 * 5 by norm_num, mul_pow]
    ring
  have hle := Int.le_of_dvd (by omega) hdvd
  exact absurd hsmall (not_lt.mpr (by exact_mod_cast hle))

end Decimal

namespace Rounding

open Decimal

-- The nearest number of the scale, where there is just one, is what a number is rounded to.
theorem halfUp_atScale_of_abs_sub_lt {scale : Int} {x y : ℚ} (hy : HasPlaces scale y)
    (h : |x - y| < 1 / 2 * 10 ^ (-scale)) : halfUp.atScale scale x = y := by
  have hround := abs_halfUp_atScale_sub_le scale x
  have hnear : |halfUp.atScale scale x - y| < 10 ^ (-scale) := by
    have htotal := abs_sub_le (halfUp.atScale scale x) x y
    linarith
  have hzero := ((halfUp.atScale_hasPlaces scale x).sub hy).eq_zero_of_abs_lt hnear
  linarith

theorem abs_halfUp_atScale_sub_lt {scale : Int} {x : ℚ} (h : ¬IsTie scale x) :
    |halfUp.atScale scale x - x| < 1 / 2 * 10 ^ (-scale) := by
  refine lt_of_le_of_ne (abs_halfUp_atScale_sub_le scale x) fun heq => h ?_
  obtain ⟨m, hm⟩ := halfUp.atScale_hasPlaces scale x
  rcases abs_choice (halfUp.atScale scale x - x) with hpos | hneg
  · refine ⟨m - 1, ?_⟩
    push_cast
    linarith
  · refine ⟨m, ?_⟩
    linarith

-- A fraction that is no tie keeps a distance from ties, of which its denominator is the measure.
theorem abs_halfUp_atScale_div_sub_le {places s n : Nat} (hn : 0 < n)
    (h : ¬IsTie places ((s : ℚ) / n)) :
    |halfUp.atScale places (s / n) - s / n| ≤ (1 / 2 - 1 / (2 * n)) * 10 ^ (-(places : ℤ)) := by
  have hpos : (0 : ℚ) < n := by exact_mod_cast hn
  have hunit := ten_zpow_pos (-(places : ℤ))
  have hlt := abs_halfUp_atScale_sub_lt h
  obtain ⟨m, hm⟩ := halfUp.atScale_hasPlaces places ((s : ℚ) / n)
  have hten : (10 : ℚ) ^ places * 10 ^ (-(places : ℤ)) = 1 := by
    rw [mul_comm, ← zpow_natCast]
    exact ten_zpow_neg_mul _
  -- the distance in units is a fraction with the denominator `2 n`
  set count : ℤ := 2 * (m * n - s * 10 ^ places) with hcount
  have hdistance : halfUp.atScale places ((s : ℚ) / n) - s / n =
      (count : ℚ) / (2 * n) * 10 ^ (-(places : ℤ)) := by
    rw [hm, hcount]
    push_cast
    field_simp
    linear_combination (s : ℚ) * hten
  rw [hdistance, abs_mul, abs_of_pos hunit, abs_div, abs_of_pos (show (0 : ℚ) < 2 * n by linarith),
    ← Int.cast_abs] at hlt ⊢
  have hbelow : ((|count| : ℤ) : ℚ) < n := by
    have hfraction := lt_of_mul_lt_mul_right hlt hunit.le
    rw [div_lt_iff₀ (by linarith)] at hfraction
    linarith
  have hwhole : ((|count| : ℤ) : ℚ) + 1 ≤ n := by exact_mod_cast hbelow
  apply mul_le_mul_of_nonneg_right _ hunit.le
  rw [div_le_iff₀ (by linarith)]
  field_simp
  linarith

-- Above zero a tie goes up.
theorem halfUp_atScale_of_isTie {scale : Int} {x : ℚ} (h : IsTie scale x) (h0 : 0 ≤ x) :
    halfUp.atScale scale x = x + 1 / 2 * 10 ^ (-scale) := by
  obtain ⟨m, rfl⟩ := h
  have hm : (m + 1 / 2 : ℚ) * 10 ^ (-scale) * 10 ^ scale = m + 1 / 2 := by
    rw [mul_assoc, ten_zpow_neg_mul, mul_one]
  have hnonneg : (0 : ℚ) ≤ m + 1 / 2 := hm ▸ mul_nonneg h0 (ten_zpow_pos scale).le
  rw [atScale, hm]
  simp only [apply]
  rw [if_pos hnonneg, show (m : ℚ) + 1 / 2 + 1 / 2 = ((m + 1 : ℤ) : ℚ) by push_cast; ring,
    Int.floor_intCast]
  push_cast
  ring

-- Two parts of one are rounded to one again, but for ties, which go up on both sides.
theorem halfUp_atScale_add_one_sub {scale : Int} (hs : 0 ≤ scale) {x : ℚ} (h : ¬IsTie scale x) :
    halfUp.atScale scale x + halfUp.atScale scale (1 - x) = 1 := by
  have hnear := abs_halfUp_atScale_sub_lt h
  have hplaces := (hasPlaces_one scale hs).sub (halfUp.atScale_hasPlaces scale x)
  have hmirror : halfUp.atScale scale (1 - x) = 1 - halfUp.atScale scale x := by
    apply halfUp_atScale_of_abs_sub_lt hplaces
    rwa [sub_sub_sub_cancel_left]
  rw [hmirror, add_sub_cancel]

theorem halfUp_atScale_add_one_sub_of_isTie {scale : Int} (hs : 0 ≤ scale) {x : ℚ}
    (h : IsTie scale x) (h0 : 0 ≤ x) (h1 : x ≤ 1) :
    halfUp.atScale scale x + halfUp.atScale scale (1 - x) = 1 + 10 ^ (-scale) := by
  rw [halfUp_atScale_of_isTie h h0,
    halfUp_atScale_of_isTie (h.sub_left (hasPlaces_one scale hs)) (sub_nonneg.mpr h1)]
  ring

end Rounding

end ParticipantTrust
