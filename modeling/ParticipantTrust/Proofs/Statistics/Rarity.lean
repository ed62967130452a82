import ParticipantTrust.Proofs.Decimal.PowerError
import ParticipantTrust.Proofs.Statistics.Streak

namespace ParticipantTrust.Streak

open Decimal

-- Half a unit of the scale at which the products of a power are rounded before it is compared with
-- the cut-off.
def halfUnit (cutoff : Decimal) : ℚ := 1 / 2 * 10 ^ (-(comparisonPrecision cutoff + guardDigits))

theorem halfUnit_pos (cutoff : Decimal) : 0 < halfUnit cutoff :=
  mul_pos (by norm_num) (ten_zpow_pos _)

-- The ten guard digits are what separates it from half a unit of the comparison.
theorem half_comparisonUnit (cutoff : Decimal) :
    (1 / 2 * 10 ^ (-comparisonPrecision cutoff) : ℚ) = 10 ^ 10 * halfUnit cutoff := by
  have hsplit : (10 : ℚ) ^ (-comparisonPrecision cutoff) =
      10 ^ (10 : Int) * 10 ^ (-(comparisonPrecision cutoff + guardDigits)) := by
    rw [← zpow_add₀ (by norm_num)]
    congr 1
    simp only [guardDigits]
    omega
  rw [hsplit, halfUnit]
  norm_num
  ring

-- A cut-off is always written with fewer places than it is compared at.
theorem cutoff_hasPlaces (cutoff : Decimal) :
    HasPlaces (comparisonPrecision cutoff) cutoff.toRat := by
  refine (hasPlaces_toRat cutoff.mantissa cutoff.scale).mono ?_
  simp only [comparisonPrecision, guardDigits]
  omega

section Exact

variable (rate : Decimal) (count : Nat) (cutoff : Decimal)

theorem abs_powAt_sub_exact_le (h : Domain.closedUnit.Contains rate) :
    |(rate.powAt count (comparisonPrecision cutoff + guardDigits)).toRat - rate.toRat ^ count| ≤
      count * halfUnit cutoff := by
  obtain ⟨h0, h1⟩ := (Domain.closedUnit_contains_iff rate).mp h
  exact abs_powAt_sub_le rate count _ h0 h1

-- A rounded power below the cut-off is below it by a whole unit of the comparison, and rounding has
-- moved it by half of that at most.
theorem exact_lt_of_isRare (h : isRare rate count cutoff = .ok true) :
    rate.toRat ^ count < cutoff.toRat + (count - 10 ^ 10) * halfUnit cutoff := by
  obtain ⟨hrate, hlt⟩ := (isRare_eq_ok_true_iff rate count cutoff).mp h
  obtain ⟨h0, -⟩ := (Domain.closedUnit_contains_iff rate).mp hrate
  have herror := (abs_le.mp (abs_powAt_sub_exact_le rate count cutoff hrate)).1
  rw [pow, toRat_round] at hlt
  set power := rate.powAt count (comparisonPrecision cutoff + guardDigits)
  have hnonneg : 0 ≤ power.toRat := powLoop_nonneg (trims_round _) one rate count (by simp) h0
  have hunit := (Rounding.halfUp.atScale_hasPlaces (comparisonPrecision cutoff) power.toRat).add_unit_le
    (cutoff_hasPlaces cutoff) hlt
  have hrounded := Rounding.lt_halfUp_atScale_add (comparisonPrecision cutoff) hnonneg
  have hhalf := half_comparisonUnit cutoff
  linarith

theorem le_exact_of_not_isRare (h : isRare rate count cutoff = .ok false) :
    cutoff.toRat - (10 ^ 10 + count) * halfUnit cutoff ≤ rate.toRat ^ count := by
  obtain ⟨hrate, hle⟩ := (isRare_eq_ok_false_iff rate count cutoff).mp h
  have herror := (abs_le.mp (abs_powAt_sub_exact_le rate count cutoff hrate)).2
  rw [pow, toRat_round] at hle
  set power := rate.powAt count (comparisonPrecision cutoff + guardDigits)
  have hrounded := (abs_le.mp
    (Rounding.abs_halfUp_atScale_sub_le (comparisonPrecision cutoff) power.toRat)).2
  have hhalf := half_comparisonUnit cutoff
  linarith

-- Up to ten thousand million failures in a row, only a streak is rare whose exact probability is below
-- the cut-off. What the rounded power can miss grows with the streak.
theorem isRare_agrees_with_exact_power (h : Domain.closedUnit.Contains rate) :
    let half : ℚ := 1 / 2 * 10 ^ (-(max 30 (cutoff.scale + 10) + 10))
    ∃ rare, isRare rate count cutoff = .ok rare ∧
      (rare = true → rate.toRat ^ count < cutoff.toRat + (count - 10 ^ 10) * half ∧
        (count ≤ 10 ^ 10 → rate.toRat ^ count < cutoff.toRat)) ∧
      (rare = false → cutoff.toRat - (10 ^ 10 + count) * half ≤ rate.toRat ^ count) := by
  intro half
  have hhalf : half = halfUnit cutoff := rfl
  rw [hhalf]
  rcases isRare_true_or_false rate count cutoff h with hrare | hrare
  · have hlt := exact_lt_of_isRare rate count cutoff hrare
    refine ⟨true, hrare, fun _ => ⟨hlt, ?_⟩, fun hfalse => absurd hfalse.symm Bool.false_ne_true⟩
    intro hcount
    have hshort : (count : ℚ) - 10 ^ 10 ≤ 0 := by
      rw [sub_nonpos]
      exact_mod_cast hcount
    have hcorrection := mul_nonpos_of_nonpos_of_nonneg hshort (halfUnit_pos cutoff).le
    linarith
  · exact ⟨false, hrare, fun htrue => absurd htrue Bool.false_ne_true,
      fun _ => le_exact_of_not_isRare rate count cutoff hrare⟩

end Exact

-- Three failures at one in a hundred are exactly as probable as the usual cut-off, and so not rare.
theorem isRare_agrees_at_exact_tie :
    Domain.closedUnit.Contains ⟨1, 2⟩ ∧ toRat ⟨1, 2⟩ ^ 3 = defaultCutoff.toRat ∧
      isRare ⟨1, 2⟩ 3 defaultCutoff = .ok false := by
  have hrate : Domain.closedUnit.Contains ⟨1, 2⟩ := by decide
  have htie : toRat ⟨1, 2⟩ ^ 3 = defaultCutoff.toRat := by
    norm_num [toRat, defaultCutoff, unitAt]
  refine ⟨hrate, htie, ?_⟩
  obtain ⟨rare, hrare, htrue, -⟩ := isRare_agrees_with_exact_power ⟨1, 2⟩ 3 defaultCutoff hrate
  cases rare with
  | true => exact absurd ((htrue rfl).2 (by norm_num)) (by rw [htie]; exact lt_irrefl _)
  | false => exact hrare

end ParticipantTrust.Streak
