import ParticipantTrust.Proofs.Decimal.WrittenForm
import ParticipantTrust.Proofs.Statistics.Rarity
import ParticipantTrust.Proofs.Statistics.SequentialTest

namespace ParticipantTrust

open Decimal

theorem Domain.contains_congr (domain : Domain) (v w : Decimal) (h : v.toRat = w.toRat) :
    domain.Contains v ↔ domain.Contains w := by
  cases domain with
  | openUnit => rw [openUnit_contains_iff, openUnit_contains_iff, h]
  | closedUnit => rw [closedUnit_contains_iff, closedUnit_contains_iff, h]
  | positive => rw [positive_contains_iff, positive_contains_iff, h]

theorem Domain.openUnit_complement (v : Decimal) (h : openUnit.Contains v) :
    openUnit.Contains v.complement := by
  rw [openUnit_contains_iff] at h ⊢
  rw [toRat_complement]
  constructor <;> linarith

namespace Streak

-- Comparisons with the two forms of a cut-off have the same outcome: they are made at the same
-- precision, or the exact power is further from the cut-off than the rounding errors of either reach.
def SameOutcome (rate : Decimal) (count : Nat) (cutoff cutoff' : Decimal) : Prop :=
  let precision := min (comparisonPrecision cutoff) (comparisonPrecision cutoff')
  let half : ℚ := 1 / 2 * 10 ^ (-(precision + guardDigits))
  comparisonPrecision cutoff = comparisonPrecision cutoff' ∨
    rate.toRat ^ count < cutoff.toRat - (10 ^ 10 + count) * half ∨
    cutoff.toRat + max 0 ((count : ℚ) - 10 ^ 10) * half ≤ rate.toRat ^ count

theorem halfUnit_le (cutoff : Decimal) (precision : Int) (h : precision ≤ comparisonPrecision cutoff) :
    halfUnit cutoff ≤ 1 / 2 * 10 ^ (-(precision + guardDigits)) := by
  have hpow : (10 : ℚ) ^ (-(comparisonPrecision cutoff + guardDigits)) ≤
      10 ^ (-(precision + guardDigits)) := zpow_le_zpow_right₀ (by norm_num) (by omega)
  exact mul_le_mul_of_nonneg_left hpow (by norm_num)

-- An exact power clear of the cut-off decides at any precision from `precision` on.
theorem isRare_of_clear (rate : Decimal) (count : Nat) (cutoff : Decimal) (precision : Int)
    (hrate : Domain.closedUnit.Contains rate) (hprecision : precision ≤ comparisonPrecision cutoff)
    (hclear : rate.toRat ^ count <
      cutoff.toRat - (10 ^ 10 + count) * (1 / 2 * 10 ^ (-(precision + guardDigits)))) :
    isRare rate count cutoff = .ok true := by
  rcases isRare_true_or_false rate count cutoff hrate with h | h
  · exact h
  · have hle := le_exact_of_not_isRare rate count cutoff h
    have herror := mul_le_mul_of_nonneg_left (halfUnit_le cutoff precision hprecision)
      (show (0 : ℚ) ≤ 10 ^ 10 + count by positivity)
    linarith

theorem not_isRare_of_clear (rate : Decimal) (count : Nat) (cutoff : Decimal) (precision : Int)
    (hrate : Domain.closedUnit.Contains rate) (hprecision : precision ≤ comparisonPrecision cutoff)
    (hclear : cutoff.toRat + max 0 ((count : ℚ) - 10 ^ 10) *
      (1 / 2 * 10 ^ (-(precision + guardDigits))) ≤ rate.toRat ^ count) :
    isRare rate count cutoff = .ok false := by
  rcases isRare_true_or_false rate count cutoff hrate with h | h
  · have hlt := exact_lt_of_isRare rate count cutoff h
    have herror := mul_le_mul_of_nonneg_left (halfUnit_le cutoff precision hprecision)
      (le_max_left 0 ((count : ℚ) - 10 ^ 10))
    have hmax := mul_le_mul_of_nonneg_right (le_max_right 0 ((count : ℚ) - 10 ^ 10))
      (halfUnit_pos cutoff).le
    exact absurd (hclear.trans_lt hlt) (not_lt.mpr (add_le_add le_rfl (hmax.trans herror)))
  · exact h

theorem isRare_congr (rate rate' : Decimal) (count : Nat) (cutoff cutoff' : Decimal) (rare : Bool)
    (hrate : rate.toRat = rate'.toRat) (hcutoff : cutoff.toRat = cutoff'.toRat)
    (hsame : SameOutcome rate count cutoff cutoff') :
    isRare rate count cutoff = .ok rare ↔ isRare rate' count cutoff' = .ok rare := by
  have hcontains := Domain.closedUnit.contains_congr rate rate' hrate
  by_cases hunit : Domain.closedUnit.Contains rate
  · have hunit' := hcontains.mp hunit
    obtain ⟨h0, h1⟩ := (Domain.closedUnit_contains_iff rate).mp hunit
    rcases hsame with hprecision | hclear | hclear
    · have hpow := pow_congr rate rate' count (comparisonPrecision cutoff) h0 h1 hrate
      rw [isRare_eq, isRare_eq, if_pos hunit, if_pos hunit', ← hprecision]
      simp only [lt_iff, hpow, hcutoff]
    · have hrare := isRare_of_clear rate count cutoff _ hunit (min_le_left _ _) hclear
      rw [hrate, hcutoff] at hclear
      have hrare' := isRare_of_clear rate' count cutoff' _ hunit' (min_le_right _ _) hclear
      rw [hrare, hrare']
    · have hrare := not_isRare_of_clear rate count cutoff _ hunit (min_le_left _ _) hclear
      rw [hrate, hcutoff] at hclear
      have hrare' := not_isRare_of_clear rate' count cutoff' _ hunit' (min_le_right _ _) hclear
      rw [hrare, hrare']
  · rw [isRare_eq, isRare_eq, if_neg hunit, if_neg (mt hcontains.mpr hunit)]
    simp

end Streak

namespace SequentialTest

def RatiosFit (good bad : Decimal) : Prop :=
  bad.QuotientFits good ∧ bad.complement.QuotientFits good.complement

instance (good bad : Decimal) : Decidable (RatiosFit good bad) := by
  unfold RatiosFit; infer_instance

-- So they do where the bad rate has no more places than a quotient has digits.
theorem ratiosFit_of_scale_le (good bad : Decimal) (hgood : Domain.openUnit.Contains good)
    (hbad : Domain.openUnit.Contains bad) (hs : bad.scale ≤ quotientDigits) :
    RatiosFit good bad := by
  have hgood' := Domain.openUnit_complement good hgood
  have hbad' := Domain.openUnit_complement bad hbad
  have hs' := complement_scale_le bad quotientDigits hs
  rw [Domain.openUnit_contains_iff] at hgood hbad hgood' hbad'
  exact ⟨quotientFits_of_scale_le bad good hbad.1 hbad.2 hgood.1 hs,
    quotientFits_of_scale_le _ _ hbad'.1 hbad'.2 hgood'.1 hs'⟩

theorem ratio_congr {a a' b b' : Decimal} (scale : Int) (ha : Domain.openUnit.Contains a)
    (hb : Domain.openUnit.Contains b) (haa : a.toRat = a'.toRat) (hbb : b.toRat = b'.toRat)
    (hfits : a.QuotientFits b) (hfits' : a'.QuotientFits b') :
    a.divAt b scale = a'.divAt b' scale := by
  rw [Domain.openUnit_contains_iff] at ha hb
  rw [divAt, divAt, div_congr a a' b b' ha.1 hb.1 hb.2.ne haa hbb hfits hfits']

-- The quotients have the same digits in both forms: the rates are written alike, or the quotients fit.
def SameDigits (good bad good' bad' : Decimal) : Prop :=
  good = good' ∧ bad = bad' ∨ RatiosFit good bad ∧ RatiosFit good' bad'

section Ratios

variable {good bad good' bad' : Decimal} (precision : Int)
  (hgood : Domain.openUnit.Contains good) (hbad : Domain.openUnit.Contains bad)
  (hsameGood : good.toRat = good'.toRat) (hsameBad : bad.toRat = bad'.toRat)
  (hdigits : SameDigits good bad good' bad')

include hgood hbad hsameGood hsameBad hdigits

theorem failRatio_congr : failRatio good bad precision = failRatio good' bad' precision := by
  rcases hdigits with ⟨rfl, rfl⟩ | ⟨hfit, hfit'⟩
  · rfl
  · exact ratio_congr _ hbad hgood hsameBad hsameGood hfit.1 hfit'.1

theorem passRatio_congr : passRatio good bad precision = passRatio good' bad' precision := by
  rcases hdigits with ⟨rfl, rfl⟩ | ⟨hfit, hfit'⟩
  · rfl
  · refine ratio_congr _ (Domain.openUnit_complement bad hbad)
      (Domain.openUnit_complement good hgood) ?_ ?_ hfit.2 hfit'.2
    · rw [toRat_complement, toRat_complement, hsameBad]
    · rw [toRat_complement, toRat_complement, hsameGood]

end Ratios

-- Tests that weigh the same observations in the same way, from the same evidence on.
structure SameEvidence (t t' : SequentialTest) : Prop where
  threshold : t.threshold.toRat = t'.threshold.toRat
  llr : t.llr.toRat = t'.llr.toRat
  logFail : t.logFail.toRat = t'.logFail.toRat
  logPass : t.logPass.toRat = t'.logPass.toRat
  precision : t.precision = t'.precision

theorem initial_sameEvidence {good bad threshold prior good' bad' threshold' prior' : Decimal}
    {precision : Int} (hadm : Admissible good bad threshold precision)
    (hgood : good.toRat = good'.toRat) (hbad : bad.toRat = bad'.toRat)
    (hthreshold : threshold.toRat = threshold'.toRat) (hprior : prior.toRat = prior'.toRat)
    (hdigits : SameDigits good bad good' bad') :
    SameEvidence (initial good bad threshold prior precision)
      (initial good' bad' threshold' prior' precision) where
  threshold := hthreshold
  llr := hprior
  logFail := congrArg (fun ratio => (ratio.ln precision).toRat)
    (failRatio_congr precision hadm.1 hadm.2.1 hgood hbad hdigits)
  logPass := congrArg (fun ratio => (ratio.ln precision).toRat)
    (passRatio_congr precision hadm.1 hadm.2.1 hgood hbad hdigits)
  precision := rfl

theorem admissible_congr {good bad threshold good' bad' threshold' : Decimal} {precision : Int}
    (hgood : good.toRat = good'.toRat) (hbad : bad.toRat = bad'.toRat)
    (hthreshold : threshold.toRat = threshold'.toRat) (hdigits : SameDigits good bad good' bad')
    (hadm : Admissible good bad threshold precision) :
    Admissible good' bad' threshold' precision := by
  have hratio := passRatio_congr precision hadm.1 hadm.2.1 hgood hbad hdigits
  obtain ⟨hg, hb, hlt, ht, hpass⟩ := hadm
  refine ⟨(Domain.contains_congr _ _ _ hgood).mp hg, (Domain.contains_congr _ _ _ hbad).mp hb, ?_,
    (Domain.contains_congr _ _ _ hthreshold).mp ht, hratio ▸ hpass⟩
  rw [lt_iff] at hlt ⊢
  rwa [← hgood, ← hbad]

theorem SameDigits.symm {good bad good' bad' : Decimal} (h : SameDigits good bad good' bad') :
    SameDigits good' bad' good bad :=
  h.imp (fun h => ⟨h.1.symm, h.2.symm⟩) fun h => ⟨h.2, h.1⟩

namespace SameEvidence

variable {t t' : SequentialTest}

theorem observe (h : SameEvidence t t') (failures passes : Int) :
    SameEvidence (t.observe failures passes) (t'.observe failures passes) := by
  simp only [SequentialTest.observe]
  split
  · exact h
  · refine ⟨h.threshold, ?_, h.logFail, h.logPass, h.precision⟩
    simp only [toRat_round, toRat_add, toRat_mul, h.llr, h.logFail, h.logPass, h.precision]

theorem decision (h : SameEvidence t t') : t.decision = t'.decision := by
  simp only [SequentialTest.decision, le_iff, toRat_neg, h.threshold, h.llr]

end SameEvidence

end SequentialTest

end ParticipantTrust
