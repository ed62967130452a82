import ParticipantTrust.Domain

namespace ParticipantTrust

-- Parameters of the statistical checks. A value that governance has not set is `none`.
structure ValidationParams where
  -- invalidation rate of an honest participant
  falsePositiveRate : Option Decimal
  -- probability below which a streak of invalidations is evidence by itself
  quickFailureThreshold : Option Decimal
  -- invalidation rate of a bad participant, and the evidence that convicts it
  badInvalidationRate : Option Decimal
  invalidationThreshold : Option Decimal
  -- miss rates of a participant that is up and of one that is down, and the evidence that convicts
  downtimeGoodRate : Option Decimal
  downtimeBadRate : Option Decimal
  downtimeThreshold : Option Decimal
  minRampUpMeasurements : UInt64
  -- share of the completed epochs that an invalidation leaves
  reputationPreserve : Option Decimal

-- The least confirmed share of claimed weight. Unset or zero disables the check.
structure ConfirmationParams where
  alphaThreshold : Option Decimal

-- The share of collateral that an invalidation takes.
structure CollateralParams where
  slashFraction : Option Decimal

structure Params where
  validation : ValidationParams
  confirmation : ConfirmationParams
  collateral : CollateralParams

def hundredths (n : Int) : Decimal := ⟨n, 2⟩

def ValidationParams.unset : ValidationParams where
  falsePositiveRate := none
  quickFailureThreshold := none
  badInvalidationRate := none
  invalidationThreshold := none
  downtimeGoodRate := none
  downtimeBadRate := none
  downtimeThreshold := none
  minRampUpMeasurements := 0
  reputationPreserve := none

def ValidationParams.genesis : ValidationParams where
  falsePositiveRate := some (hundredths 5)
  quickFailureThreshold := some (Decimal.unitAt 6)
  badInvalidationRate := some (hundredths 10)
  invalidationThreshold := some (Decimal.ofInt 4)
  downtimeGoodRate := some (hundredths 10)
  downtimeBadRate := some (hundredths 20)
  downtimeThreshold := some (Decimal.ofInt 4)
  minRampUpMeasurements := 10
  reputationPreserve := some (hundredths 50)

def ConfirmationParams.genesis : ConfirmationParams := ⟨some (hundredths 70)⟩

def CollateralParams.genesis : CollateralParams := ⟨some (hundredths 20)⟩

def Params.genesis : Params := ⟨.genesis, .genesis, .genesis⟩

-- A parameter outside its domain.
structure BoundsError where
  name : String
  value : Decimal
  domain : Domain

def BoundsError.message (e : BoundsError) : String :=
  "Parameter " ++ e.name ++ " = " ++ e.value.text ++ " outside " ++ e.domain.text

-- A parameter with the domain it has to lie in when it is set.
structure Bound where
  name : String
  value : Option Decimal
  domain : Domain

def Bound.Holds (b : Bound) : Prop := ∀ v, b.value = some v → b.domain.Contains v

def Bound.check (b : Bound) : Except BoundsError Unit :=
  match b.value with
  | none => .ok ()
  | some v => if b.domain.Contains v then .ok () else .error ⟨b.name, v, b.domain⟩

def ValidationParams.bounds (p : ValidationParams) : List Bound := [
  ⟨"false_positive_rate", p.falsePositiveRate, .openUnit⟩,
  ⟨"quick_failure_threshold", p.quickFailureThreshold, .openUnit⟩,
  ⟨"bad_participant_invalidation_rate", p.badInvalidationRate, .openUnit⟩,
  ⟨"invalidation_h_threshold", p.invalidationThreshold, .positive⟩,
  ⟨"downtime_good_percentage", p.downtimeGoodRate, .openUnit⟩,
  ⟨"downtime_bad_percentage", p.downtimeBadRate, .openUnit⟩,
  ⟨"downtime_h_threshold", p.downtimeThreshold, .positive⟩,
  ⟨"invalid_reputation_preserve", p.reputationPreserve, .closedUnit⟩]

def Params.bounds (p : Params) : List Bound :=
  p.validation.bounds ++ [
    ⟨"alpha_threshold", p.confirmation.alphaThreshold, .closedUnit⟩,
    ⟨"slash_fraction_invalid", p.collateral.slashFraction, .closedUnit⟩]

-- The first parameter outside its domain is reported.
def ValidationParams.validate (p : ValidationParams) : Except BoundsError Unit :=
  p.bounds.forM Bound.check

def Params.validate (p : Params) : Except BoundsError Unit := p.bounds.forM Bound.check

end ParticipantTrust
