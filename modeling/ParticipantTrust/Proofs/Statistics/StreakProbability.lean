import ParticipantTrust.Proofs.Statistics.Rarity

namespace ParticipantTrust

theorem Decimal.abs_pow_sub_le (base : Decimal) (n : Nat) (precision : Int) (h0 : 0 ≤ base.toRat)
    (h1 : base.toRat ≤ 1) :
    |(base.pow n precision).toRat - base.toRat ^ n| ≤
      1 / 2 * 10 ^ (-precision) + n * (1 / 2 * 10 ^ (-(precision + guardDigits))) := by
  rw [add_comm, pow]
  exact abs_round_sub_le _ precision (abs_powAt_sub_le base n _ h0 h1)

theorem Elementary.pow_of_closedUnit (base : Decimal) (n : Nat) (precision : Int)
    (h : Domain.closedUnit.Contains base) : pow base n precision = .ok (base.pow n precision) := by
  unfold pow Domain.require
  rw [if_pos h]
  rfl

namespace Streak

open Decimal

theorem probability_of_closedUnit (rate : Decimal) (count : Nat)
    (h : Domain.closedUnit.Contains rate) :
    probability rate count = .ok (rate.pow count precision) := by
  unfold probability Domain.require
  rw [if_pos h]
  exact Elementary.pow_of_closedUnit rate count precision h

-- Powers and the verdict on a streak are monotone in the exponent as in the base, without any
-- tolerance for what is rounded on the way.
theorem powers_and_rarity_monotone (base base' : Decimal) (n m : Nat) (h0 : zero ≤ base)
    (hle : base ≤ base') (h1 : base' ≤ one) (hn : n ≤ m) :
    (∀ precision, ∃ p p', Elementary.pow base m precision = .ok p ∧
      Elementary.pow base' n precision = .ok p' ∧ zero ≤ p ∧ p ≤ p' ∧ p' ≤ one) ∧
    ∀ cutoff, isRare base' n cutoff = .ok true → isRare base m cutoff = .ok true := by
  simp only [le_iff, toRat_zero, toRat_one] at h0 hle h1 ⊢
  have hbase : Domain.closedUnit.Contains base :=
    (Domain.closedUnit_contains_iff base).mpr ⟨h0, hle.trans h1⟩
  have hbase' : Domain.closedUnit.Contains base' :=
    (Domain.closedUnit_contains_iff base').mpr ⟨h0.trans hle, h1⟩
  constructor
  · intro precision
    exact ⟨_, _, Elementary.pow_of_closedUnit base m precision hbase,
      Elementary.pow_of_closedUnit base' n precision hbase', toRat_pow_nonneg base m precision h0,
      toRat_pow_le base base' n m precision h0 hle h1 hn,
      toRat_pow_le_one base' n precision (h0.trans hle) h1⟩
  · intro cutoff hrare
    exact isRare_of_le base base' n m cutoff h0 hle hn hrare

-- Between 63 and 64 all bits of the exponent change.
theorem powers_and_rarity_monotone_at_carry :
    zero ≤ ⟨8, 1⟩ ∧ (⟨8, 1⟩ : Decimal) ≤ ⟨81, 2⟩ ∧ (⟨81, 2⟩ : Decimal) ≤ one ∧ 63 ≤ 64 ∧
      isRare ⟨81, 2⟩ 63 ⟨2, 6⟩ = .ok true ∧ isRare ⟨8, 1⟩ 64 ⟨2, 6⟩ = .ok true ∧
      ∃ p p', Elementary.pow ⟨8, 1⟩ 64 9 = .ok p ∧ Elementary.pow ⟨81, 2⟩ 63 9 = .ok p' ∧ p ≤ p' ∧
        p' = ⟨1716, 9⟩ := by
  have hrare : isRare ⟨81, 2⟩ 63 ⟨2, 6⟩ = .ok true := by decide +kernel
  obtain ⟨hpow, hstreak⟩ := powers_and_rarity_monotone ⟨8, 1⟩ ⟨81, 2⟩ 63 64 (by decide) (by decide)
    (by decide) (by decide)
  obtain ⟨p, p', hp, hp', -, hle, -⟩ := hpow 9
  have hdigits : Elementary.pow ⟨81, 2⟩ 63 9 = .ok ⟨1716, 9⟩ := by decide +kernel
  have heq := Except.ok.inj (hp'.symm.trans hdigits)
  exact ⟨by decide, by decide, by decide, by decide, hrare, hstreak _ hrare, p, p', hp, hp', hle, heq⟩

-- The error grows with the exponent, by half a unit of the guard digits for each factor. Up to ten
-- thousand million failures in a row it stays within the last place of a probability.
theorem powers_and_probability_accurate (base : Decimal) (n : Nat) (h0 : zero ≤ base)
    (h1 : base ≤ one) :
    (∀ precision, ∃ p, Elementary.pow base n precision = .ok p ∧
      |p.toRat - base.toRat ^ n| ≤
        1 / 2 * 10 ^ (-precision) + n * (1 / 2 * 10 ^ (-(precision + 10)))) ∧
    (n ≤ 10 ^ 10 → ∃ p, probability base n = .ok p ∧
      |p.toRat - base.toRat ^ n| ≤ 10 ^ (-30 : Int)) := by
  rw [le_iff] at h0 h1
  rw [toRat_zero] at h0
  rw [toRat_one] at h1
  have hbase : Domain.closedUnit.Contains base :=
    (Domain.closedUnit_contains_iff base).mpr ⟨h0, h1⟩
  refine ⟨fun precision => ⟨_, Elementary.pow_of_closedUnit base n precision hbase,
    abs_pow_sub_le base n precision h0 h1⟩, fun hn => ?_⟩
  have hcount : (n : ℚ) ≤ 10 ^ 10 := by exact_mod_cast hn
  refine ⟨_, probability_of_closedUnit base n hbase,
    (abs_pow_sub_le base n precision h0 h1).trans ?_⟩
  norm_num [precision, guardDigits]
  linarith

-- A thousand failures in a row at 99 in a hundred, to all thirty places.
theorem powers_and_probability_accurate_thousand :
    zero ≤ ⟨99, 2⟩ ∧ (⟨99, 2⟩ : Decimal) ≤ one ∧ 1000 ≤ 10 ^ 10 ∧
      probability ⟨99, 2⟩ 1000 = .ok ⟨43171247410658250988632829, 30⟩ ∧
      |toRat ⟨43171247410658250988632829, 30⟩ - toRat ⟨99, 2⟩ ^ 1000| ≤ 10 ^ (-30 : Int) := by
  have hdigits : probability ⟨99, 2⟩ 1000 = .ok ⟨43171247410658250988632829, 30⟩ := by decide +kernel
  obtain ⟨-, hprobability⟩ := powers_and_probability_accurate ⟨99, 2⟩ 1000 (by decide) (by decide)
  obtain ⟨p, hp, herror⟩ := hprobability (by decide)
  obtain rfl := Except.ok.inj (hp.symm.trans hdigits)
  exact ⟨by decide, by decide, by decide, hdigits, herror⟩

end Streak

end ParticipantTrust
