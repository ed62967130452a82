import ParticipantTrust.Proofs.Domain
import ParticipantTrust.Proofs.Registry.Collateral

namespace ParticipantTrust

-- A product with a share is at most the whole number that it is a share of, and so is its rounding.
theorem preservedReputation_le (completed : UInt32) (preserve : Option Decimal) :
    preservedReputation completed preserve ≤ completed := by
  cases preserve with
  | none => exact UInt32.le_refl completed
  | some share =>
      simp only [preservedReputation]
      split
      · rename_i hshare
        obtain ⟨-, hhigh⟩ := (Domain.closedUnit_contains_iff share).mp hshare
        have hcast : ((Decimal.ofInt completed.toNat).toRat : ℚ) = (completed.toNat : ℤ) := by
          rw [Decimal.toRat_ofInt]
        have hle : (Decimal.ofInt completed.toNat * share).toRat ≤ (completed.toNat : ℤ) := by
          rw [Decimal.toRat_mul, hcast]
          exact mul_le_of_le_one_right (by positivity) hhigh
        have hround : ((Decimal.ofInt completed.toNat * share).round 0).mantissa ≤
            completed.toNat := by
          rw [Decimal.round, Decimal.roundWith_mantissa]
          exact (Rounding.halfUp.apply_mono hle).trans_eq (Rounding.halfUp.apply_intCast _)
        have hnat := Int.toNat_le.mpr hround
        have hsize := completed.toNat_lt
        rw [UInt32.le_iff_toNat_le, UInt32.toNat_ofNat_of_lt' (hnat.trans_lt hsize)]
        exact hnat
      · exact UInt32.le_refl completed

theorem Participant.update_epochsCompleted_le {σ : Type} (p : Participant) (params : Params)
    (services : Services σ) (previous : EpochStats) (block : Block) (s : σ) :
    ((p.update params services previous block).run s).1.1.epochsCompleted ≤ p.epochsCompleted := by
  by_cases hsticky : p.status.isSticky = true
  · rw [p.update_of_isSticky params services previous block s hsticky]
    exact UInt32.le_refl _
  · rw [p.update_participant params services previous block s (Bool.eq_false_iff.mpr hsticky)]
    simp only []
    split
    · exact preservedReputation_le _ _
    · exact UInt32.le_refl _

namespace Collateral

-- A slash of this fraction takes nothing below zero and no more than there is.
def Bears (balance fraction : Decimal) : Prop :=
  -1 < balance.toRat * fraction.toRat ∧ balance.toRat * fraction.toRat < ⌊balance.toRat⌋ + 1

theorem bears_iff (balance fraction : Decimal) (h : 0 ≤ balance.toRat) :
    Bears balance fraction ↔
      0 ≤ (taken balance fraction).toRat ∧ (taken balance fraction).toRat ≤ balance.toRat := by
  rw [toRat_taken, Rounding.down_apply_le_iff _ _ h, Int.cast_nonneg_iff,
    Rounding.down_apply_nonneg_iff, Bears]

theorem bears_of_closedUnit (balance fraction : Decimal) (hbalance : 0 ≤ balance.toRat)
    (hfraction : Domain.closedUnit.Contains fraction) : Bears balance fraction := by
  obtain ⟨hlow, hhigh⟩ := (Domain.closedUnit_contains_iff fraction).mp hfraction
  have hshare : 0 ≤ balance.toRat * fraction.toRat := mul_nonneg hbalance hlow
  have hwhole : balance.toRat * fraction.toRat ≤ balance.toRat := mul_le_of_le_one_right hbalance hhigh
  exact ⟨by linarith, hwhole.trans_lt (Int.lt_floor_add_one _)⟩

-- The balances stay between zero and what they were.
def Lessened (before after : Collateral) : Prop :=
  (∀ address, (after.balance address).toRat ≤ (before.balance address).toRat) ∧
    ∀ address, 0 ≤ (after.balance address).toRat

theorem lessened_slash_iff (c : Collateral) (address : String) (fraction : Decimal)
    (h : ∀ other, 0 ≤ (c.balance other).toRat) :
    c.Lessened (c.slash address fraction) ↔ Bears (c.balance address) fraction := by
  rw [bears_iff _ _ (h address)]
  constructor
  · rintro ⟨hless, hpositive⟩
    have hless := hless address
    have hpositive := hpositive address
    rw [toRat_balance_slash, if_pos rfl] at hless hpositive
    constructor <;> linarith
  · rintro ⟨hlow, hhigh⟩
    refine ⟨fun other => ?_, fun other => ?_⟩
    · rw [toRat_balance_slash]
      split <;> linarith
    · rw [toRat_balance_slash]
      split
      · rename_i hother
        subst hother
        linarith
      · rw [sub_zero]
        exact h other

end Collateral

theorem Registry.lessened_update_iff (r : Registry) (p : Participant) (params : Params)
    (previous : EpochStats) (block : Block)
    (h : ∀ address, 0 ≤ (r.collateral.balance address).toRat) :
    r.collateral.Lessened ((p.update params services previous block).run r).2.collateral ↔
      ∀ fraction, params.collateral.slashFraction = some fraction →
        r.Slashing p params previous block →
          Collateral.Bears (r.collateral.balance p.address) fraction := by
  rcases r.update_collateral p params previous block with
    ⟨fraction, hfraction, hslashing, hafter⟩ | ⟨hkept, hafter⟩
  · rw [hafter, Collateral.lessened_slash_iff _ _ _ h]
    constructor
    · intro hbears other hother _
      rw [hfraction, Option.some.injEq] at hother
      exact hother ▸ hbears
    · intro hall
      exact hall fraction hfraction hslashing
  · rw [hafter]
    exact iff_of_true ⟨fun address => le_rfl, h⟩ fun _ _ hslashing => absurd hslashing hkept

-- Valid parameters never take a stake below zero or add to it.
theorem Registry.lessened_update_of_validate (r : Registry) (p : Participant) (params : Params)
    (previous : EpochStats) (block : Block)
    (h : ∀ address, 0 ≤ (r.collateral.balance address).toRat) (hvalid : params.validate = .ok ()) :
    r.collateral.Lessened ((p.update params services previous block).run r).2.collateral := by
  rw [lessened_update_iff r p params previous block h]
  intro fraction hfraction _
  have hholds := params.validate_eq_ok_iff.mp hvalid
    ⟨"slash_fraction_invalid", params.collateral.slashFraction, .closedUnit⟩ (by simp [Params.bounds])
  exact Collateral.bears_of_closedUnit _ fraction (h p.address) (hholds fraction hfraction)

-- An update never adds to the reputation of a participant. It leaves all balances between zero and what
-- they were exactly when a slash that it carries out takes a bearable share, which a fraction outside
-- `[0, 1]` need not be.
theorem Registry.penalties_harmless_iff (r : Registry) (p : Participant) (params : Params)
    (previous : EpochStats) (block : Block)
    (h : ∀ address, 0 ≤ (r.collateral.balance address).toRat) :
    let result := (p.update params services previous block).run r
    (r.collateral.Lessened result.2.collateral ↔
      ∀ fraction, params.collateral.slashFraction = some fraction →
        r.Slashing p params previous block →
          Collateral.Bears (r.collateral.balance p.address) fraction) ∧
    result.1.1.epochsCompleted ≤ p.epochsCompleted := by
  intro result
  exact ⟨r.lessened_update_iff p params previous block h,
    p.update_epochsCompleted_le params services previous block r⟩

-- A part of a unit more than the stake is asked for, and only the whole units are taken.
theorem Registry.penalties_harmless_above_one :
    let p : Participant :=
      { Participant.new "gonka1alice" .active with streak := 20, epochsCompleted := 7 }
    let params := { Params.genesis with collateral := ⟨some ⟨1004, 3⟩⟩ }
    let r : Registry :=
      { Registry.empty with collateral := Collateral.empty.deposit "gonka1alice" (.ofInt 100) }
    let result := (p.update params Registry.services .zero ⟨120, some 7⟩).run r
    (∀ address, 0 ≤ (r.collateral.balance address).toRat) ∧
      r.collateral.Lessened result.2.collateral ∧ result.1.1.epochsCompleted ≤ 7 := by
  intro p params r result
  have hstake : ∀ address, 0 ≤ (r.collateral.balance address).toRat := by
    intro address
    rw [show r.collateral = Collateral.empty.deposit "gonka1alice" (.ofInt 100) from rfl,
      Collateral.toRat_balance_deposit, Decimal.toRat_ofInt,
      show Collateral.empty.balance address = Decimal.zero from rfl, Decimal.toRat_zero]
    split <;> norm_num
  obtain ⟨hlessened, hepochs⟩ :=
    r.penalties_harmless_iff p params .zero ⟨120, some 7⟩ hstake
  refine ⟨hstake, hlessened.mpr ?_, hepochs⟩
  intro fraction hfraction _
  cases hfraction
  rw [show r.collateral.balance p.address = Decimal.ofInt 100 by decide, Collateral.Bears,
    Decimal.toRat_ofInt, Decimal.toRat_mk]
  norm_num

-- A fraction above one overdraws a stake, and one below zero adds to it.
theorem Registry.penalties_harm_outside_unit :
    let p : Participant := { Participant.new "gonka1alice" .active with streak := 20 }
    let params (fraction : Decimal) := { Params.genesis with collateral := ⟨some fraction⟩ }
    let r : Registry :=
      { Registry.empty with collateral := Collateral.empty.deposit "gonka1alice" (.ofInt 1000) }
    let after (fraction : Decimal) :=
      ((p.update (params fraction) Registry.services .zero ⟨120, some 7⟩).run r).2.collateral
    (after ⟨15, 1⟩).balance "gonka1alice" < Decimal.zero ∧
      r.collateral.balance "gonka1alice" < (after ⟨-5, 1⟩).balance "gonka1alice" := by
  decide +kernel

end ParticipantTrust
