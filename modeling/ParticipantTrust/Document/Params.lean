import ParticipantTrust.Json.Record
import ParticipantTrust.Params

namespace ParticipantTrust

open Json

def validationRecord : Record ValidationParams where
  name := "ValidationParams"
  fields := [
    Codec.decimal.optional.field "false_positive_rate" .unset
      (·.falsePositiveRate) fun v p => { p with falsePositiveRate := v },
    Codec.decimal.optional.field "quick_failure_threshold" .unset
      (·.quickFailureThreshold) fun v p => { p with quickFailureThreshold := v },
    Codec.decimal.optional.field "bad_participant_invalidation_rate" .unset
      (·.badInvalidationRate) fun v p => { p with badInvalidationRate := v },
    Codec.decimal.optional.field "invalidation_h_threshold" .unset
      (·.invalidationThreshold) fun v p => { p with invalidationThreshold := v },
    Codec.decimal.optional.field "downtime_good_percentage" .unset
      (·.downtimeGoodRate) fun v p => { p with downtimeGoodRate := v },
    Codec.decimal.optional.field "downtime_bad_percentage" .unset
      (·.downtimeBadRate) fun v p => { p with downtimeBadRate := v },
    Codec.decimal.optional.field "downtime_h_threshold" .unset
      (·.downtimeThreshold) fun v p => { p with downtimeThreshold := v },
    Codec.u64.field "min_ramp_up_measurements" .defaulted
      (·.minRampUpMeasurements) fun v p => { p with minRampUpMeasurements := v },
    Codec.decimal.optional.field "invalid_reputation_preserve" .unset
      (·.reputationPreserve) fun v p => { p with reputationPreserve := v }]
  blank := .unset

def confirmationRecord : Record ConfirmationParams where
  name := "ConfirmationPoCParams"
  fields := [Codec.decimal.optional.field "alpha_threshold" .unset (·.alphaThreshold) fun v _ => ⟨v⟩]
  blank := ⟨none⟩

def collateralRecord : Record CollateralParams where
  name := "CollateralParams"
  fields := [
    Codec.decimal.optional.field "slash_fraction_invalid" .unset (·.slashFraction) fun v _ => ⟨v⟩]
  blank := ⟨none⟩

-- A section that is left out has its values from genesis; a value that is left out of a section is
-- unset.
def paramsRecord : Record Params where
  name := "ModuleParams"
  fields := [
    validationRecord.codec.field "validation" .defaulted
      (·.validation) fun v p => { p with validation := v },
    confirmationRecord.codec.field "confirmation_poc" .defaulted
      (·.confirmation) fun v p => { p with confirmation := v },
    collateralRecord.codec.field "collateral" .defaulted
      (·.collateral) fun v p => { p with collateral := v }]
  blank := .genesis

end ParticipantTrust
