import ParticipantTrust.Proofs.Decimal.Tie
import ParticipantTrust.Proofs.Statistics.PValueOrder
import ParticipantTrust.Proofs.Statistics.WrittenForm

namespace ParticipantTrust

namespace Decimal

-- A number between zero and one needs a decimal place at least.
theorem scale_pos_of_lt_one (v : Decimal) (h0 : 0 < v.toRat) (h1 : v.toRat < 1) : 0 < v.scale := by
  by_contra hscale
  have hm : (1 : ℚ) ≤ v.mantissa := by exact_mod_cast (toRat_pos_iff v).mp h0
  have hunit : (1 : ℚ) ≤ 10 ^ (-v.scale) := one_le_zpow₀ (by norm_num) (by omega)
  exact absurd (one_le_mul_of_one_le_of_one_le hm hunit) (not_le.mpr h1)

-- Within the unit interval the complement has the places of the number itself, so it leads back to the
-- same written form.
theorem complement_scale (v : Decimal) (h0 : 0 < v.toRat) (h1 : v.toRat < 1) :
    v.complement.scale = v.scale := by
  have hzero : ¬v.isZero = true := fun hz => h0.ne' ((isZero_iff v).mp hz)
  have hscale := scale_pos_of_lt_one v h0 h1
  rw [complement, if_neg hzero]
  change max (0 : Int) v.scale = v.scale
  omega

theorem complement_complement (v : Decimal) (h0 : 0 < v.toRat) (h1 : v.toRat < 1) :
    v.complement.complement = v := by
  have hvalue : v.complement.toRat = 1 - v.toRat := toRat_complement v
  apply eq_of_toRat_eq
  · rw [toRat_complement, hvalue, sub_sub_cancel]
  · rw [complement_scale v.complement (by linarith) (by linarith), complement_scale v h0 h1]

end Decimal

namespace Binomial

open Decimal

theorem toRat_clampUnit_one_sub (v : Decimal) :
    (clampUnit (one - v)).toRat = 1 - (clampUnit v).toRat := by
  rw [toRat_clampUnit, toRat_clampUnit, toRat_sub, toRat_one]
  rcases le_total v.toRat 0 with h0 | h0
  · rw [min_eq_left (by linarith), max_eq_right zero_le_one, max_eq_left ((min_le_right _ _).trans h0),
      sub_zero]
  · rcases le_total v.toRat 1 with h1 | h1
    · rw [min_eq_right (by linarith), max_eq_right (by linarith), min_eq_right h1, max_eq_right h0]
    · rw [min_eq_right (by linarith), max_eq_left (by linarith), min_eq_left h1,
        max_eq_right zero_le_one, sub_self]

theorem upperTail_eq_lowerTail (n k : Nat) (p q : Decimal) (working : Int) (hk : k ≤ n) :
    upperTail n k p q working = lowerTail n (n - k) q p working := by
  rw [lowerTail_eq_upperTail n (n - k) q p working (Nat.sub_le n k), Nat.sub_sub_self hk]

section Mirror

variable {n k : Nat} {p : Decimal} (hk : n * p.toRat + 1 ≤ k)

include hk

theorem summedTail_above_mean (working : Int) :
    summedTail n k p working = upperTail n k p p.complement working := by
  rw [summedTail, if_pos]
  rw [lt_iff, toRat_mul, toRat_ofInt, toRat_ofInt, Int.cast_natCast, Int.cast_natCast]
  linarith

variable (hp : Domain.openUnit.Contains p)

include hp

theorem one_le_of_above_mean : 1 ≤ k := by
  obtain ⟨hp0, -⟩ := (Domain.openUnit_contains_iff p).mp hp
  have hmean : (0 : ℚ) ≤ n * p.toRat := mul_nonneg (Nat.cast_nonneg n) hp0.le
  have hcast : (1 : ℚ) ≤ k := by linarith
  exact_mod_cast hcast

-- The other way round the count does not lie above its mean, and what is summed there is the same.
theorem summedTail_mirrored (hkn : k ≤ n) (working : Int) :
    summedTail n (n - k + 1) p.complement working =
      one - upperTail n k p p.complement working := by
  obtain ⟨hp0, hp1⟩ := (Domain.openUnit_contains_iff p).mp hp
  have hmisses : ((n - k : Nat) : ℚ) = n - k := Nat.cast_sub hkn
  have hmean : ¬ofInt n * p.complement < ofInt (n - k + 1 : Nat) := by
    rw [lt_iff, toRat_mul, toRat_ofInt, toRat_ofInt, toRat_complement, Int.cast_natCast,
      Int.cast_natCast, Nat.cast_add_one, hmisses]
    linarith
  rw [summedTail, if_neg hmean, Nat.add_sub_cancel, complement_complement p hp0 hp1,
    ← upperTail_eq_lowerTail n k p p.complement working hkn]

end Mirror

-- The two tails take the same rounded steps. So the values for `k` hits and for the hits that leave
-- fewer than `k` misses are rounded from two parts of one, and sum to it unless both are ties,
-- which go up.
theorem tails_mirror (n k : Nat) (hkn : k ≤ n) :
    (∀ (p q : Decimal) (working : Int),
      upperTail n k p q working = lowerTail n (n - k) q p working) ∧
    ∀ (p : Decimal) (precision : Int), Domain.openUnit.Contains p → n * p.toRat + 1 ≤ k →
      0 ≤ precision →
      let tail := clampUnit (upperTail n k p p.complement (precision + guardDigits))
      ∃ value mirrored, pValue n k p precision = .ok value ∧
        pValue n (n - k + 1) p.complement precision = .ok mirrored ∧
        (¬IsTie precision tail.toRat → value.toRat + mirrored.toRat = 1) ∧
        (IsTie precision tail.toRat → value.toRat + mirrored.toRat = 1 + 10 ^ (-precision)) := by
  refine ⟨fun p q working => upperTail_eq_lowerTail n k p q working hkn, ?_⟩
  intro p precision hp hk hprecision tail
  have hk1 := one_le_of_above_mean hk hp
  have hvalue := pValue_eq n k p precision hk1 hkn hp
  have hmirrored := pValue_eq n (n - k + 1) p.complement precision (by omega) (by omega)
    (Domain.openUnit_complement p hp)
  rw [summedTail_above_mean hk] at hvalue
  rw [summedTail_mirrored hk hp hkn] at hmirrored
  refine ⟨_, _, hvalue, hmirrored, ?_, ?_⟩
  · intro htie
    rw [toRat_round, toRat_round, toRat_clampUnit_one_sub]
    exact Rounding.halfUp_atScale_add_one_sub hprecision htie
  · intro htie
    have h0 : 0 ≤ tail.toRat := (toRat_clampUnit _).symm ▸ le_max_left 0 _
    have h1 : tail.toRat ≤ 1 := (toRat_clampUnit _).symm ▸ max_le zero_le_one (min_le_left 1 _)
    rw [toRat_round, toRat_round, toRat_clampUnit_one_sub]
    exact Rounding.halfUp_atScale_add_one_sub_of_isTie hprecision htie h0 h1

-- A quarter is a tie at one place, where three tenths and eight tenths come out, and none at two.
theorem tails_mirror_at_tie :
    let p : Decimal := ⟨5, 1⟩
    let tail (precision : Int) := clampUnit (upperTail 2 2 p p.complement (precision + guardDigits))
    2 ≤ 2 ∧ Domain.openUnit.Contains p ∧ (2 : Nat) * p.toRat + 1 ≤ (2 : Nat) ∧
      IsTie 1 (tail 1).toRat ∧ ¬IsTie 2 (tail 2).toRat ∧
      (∃ value mirrored, pValue 2 2 p 1 = .ok value ∧ pValue 2 1 p.complement 1 = .ok mirrored ∧
        value.toRat + mirrored.toRat = 1 + 10 ^ (-1 : Int)) ∧
      (∃ value mirrored, pValue 2 2 p 2 = .ok value ∧ pValue 2 1 p.complement 2 = .ok mirrored ∧
        value.toRat + mirrored.toRat = 1) := by
  intro p tail
  have hp : Domain.openUnit.Contains p := by decide
  have hk : (2 : Nat) * p.toRat + 1 ≤ (2 : Nat) := by norm_num [p, toRat]
  have hone : tail 1 = ⟨25 * 10 ^ 9, 11⟩ := by decide +kernel
  have htwo : tail 2 = ⟨25 * 10 ^ 10, 12⟩ := by decide +kernel
  have htie : IsTie 1 (tail 1).toRat := ⟨2, by norm_num [hone, toRat]⟩
  have hplain : ¬IsTie 2 (tail 2).toRat :=
    HasPlaces.not_isTie ⟨25, by norm_num [htwo, toRat]⟩
  obtain ⟨value, mirrored, hvalue, hmirrored, -, hsum⟩ :=
    (tails_mirror 2 2 le_rfl).2 p 1 hp hk (by decide)
  obtain ⟨value', mirrored', hvalue', hmirrored', hsum', -⟩ :=
    (tails_mirror 2 2 le_rfl).2 p 2 hp hk (by decide)
  exact ⟨le_rfl, hp, hk, htie, hplain, ⟨value, mirrored, hvalue, hmirrored, hsum htie⟩,
    ⟨value', mirrored', hvalue', hmirrored', hsum' hplain⟩⟩

end Binomial

end ParticipantTrust
