import ParticipantTrust.Statistics.Streak
import ParticipantTrust.Proofs.Decimal.Power
import ParticipantTrust.Proofs.Domain

namespace ParticipantTrust.Streak

-- The only refusal is a rate outside the closed unit interval.
theorem isRare_eq (rate : Decimal) (count : Nat) (cutoff : Decimal) :
    isRare rate count cutoff =
      if Domain.closedUnit.Contains rate then
        .ok (decide (rate.pow count (comparisonPrecision cutoff) < cutoff))
      else .error (.outside "expected_failure_rate" rate .closedUnit) := by
  unfold isRare Elementary.pow Domain.require
  by_cases h : Domain.closedUnit.Contains rate
  · simp only [if_pos h]
    rfl
  · simp only [if_neg h]
    rfl

theorem isRare_eq_ok_true_iff (rate : Decimal) (count : Nat) (cutoff : Decimal) :
    isRare rate count cutoff = .ok true ↔ Domain.closedUnit.Contains rate ∧
      (rate.pow count (comparisonPrecision cutoff)).toRat < cutoff.toRat := by
  rw [isRare_eq]
  split <;> simp [Decimal.lt_iff, *]

theorem isRare_eq_ok_false_iff (rate : Decimal) (count : Nat) (cutoff : Decimal) :
    isRare rate count cutoff = .ok false ↔ Domain.closedUnit.Contains rate ∧
      cutoff.toRat ≤ (rate.pow count (comparisonPrecision cutoff)).toRat := by
  rw [isRare_eq]
  split <;> simp [Decimal.lt_iff, *]

theorem isRare_true_or_false (rate : Decimal) (count : Nat) (cutoff : Decimal)
    (h : Domain.closedUnit.Contains rate) :
    isRare rate count cutoff = .ok true ∨ isRare rate count cutoff = .ok false := by
  rw [isRare_eq_ok_true_iff, isRare_eq_ok_false_iff]
  rcases lt_or_ge (rate.pow count (comparisonPrecision cutoff)).toRat cutoff.toRat with hlt | hge
  · exact .inl ⟨h, hlt⟩
  · exact .inr ⟨h, hge⟩

-- A longer streak at a lower rate is not less rare.
theorem isRare_of_le (rate rate' : Decimal) (n m : Nat) (cutoff : Decimal) (h0 : 0 ≤ rate.toRat)
    (hle : rate.toRat ≤ rate'.toRat) (hn : n ≤ m) (h : isRare rate' n cutoff = .ok true) :
    isRare rate m cutoff = .ok true := by
  rw [isRare_eq_ok_true_iff] at h ⊢
  obtain ⟨hrate', hrare⟩ := h
  obtain ⟨-, h1⟩ := (Domain.closedUnit_contains_iff rate').mp hrate'
  exact ⟨(Domain.closedUnit_contains_iff rate).mpr ⟨h0, hle.trans h1⟩,
    (Decimal.toRat_pow_le rate rate' n m _ h0 hle h1 hn).trans_lt hrare⟩

end ParticipantTrust.Streak
