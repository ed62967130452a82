import ParticipantTrust.Verdict

namespace ParticipantTrust

-- Why a service did not do what it was asked for.
inductive ServiceError where
  | notAMember (address : String)
  | unavailable (service : String)
deriving DecidableEq

def ServiceError.message : ServiceError → String
  | .notAMember address => "Participant " ++ address ++ " is not a member of any epoch group"
  | .unavailable service => "Collaborator unavailable: " ++ service

-- The exclusion of a participant from an epoch.
structure Exclusion where
  address : String
  epochIndex : UInt64
  reason : String
  -- block height from which it holds
  effectiveHeight : UInt64
deriving DecidableEq

-- What an invalidation asks of the services around it.
inductive Request where
  | alreadySlashed (epoch : UInt64) (address : String)
  | slashCollateral (address : String) (fraction : Decimal)
  | markSlashed (epoch : UInt64) (address : String)
  | isExcluded (epoch : UInt64) (address : String)
  | recordExclusion (entry : Exclusion)
  | removeFromGroups (address : String) (reason : Reason)
deriving DecidableEq

-- Questions are answered by yes or no, orders by success or an error.
abbrev Request.Answer : Request → Type
  | .alreadySlashed .. | .isExcluded .. => Bool
  | .slashCollateral .. | .markSlashed .. | .recordExclusion .. | .removeFromGroups .. =>
    Except ServiceError Unit

-- Services over a state `σ`. They may answer anything.
abbrev Services (σ : Type) := (request : Request) → StateM σ request.Answer

namespace Services

variable {σ : Type}

-- The services with the calls to `broken` orders refused before they reach anything.
def without (services : Services σ) (broken : List String) : Services σ
  | .slashCollateral address fraction =>
    if "slash_collateral" ∈ broken then pure (.error (.unavailable "slash_collateral"))
    else services (.slashCollateral address fraction)
  | .markSlashed epoch address =>
    if "mark_slashed" ∈ broken then pure (.error (.unavailable "mark_slashed"))
    else services (.markSlashed epoch address)
  | .recordExclusion entry =>
    if "record_exclusion" ∈ broken then pure (.error (.unavailable "record_exclusion"))
    else services (.recordExclusion entry)
  | .removeFromGroups address reason =>
    if "remove_from_groups" ∈ broken then pure (.error (.unavailable "remove_from_groups"))
    else services (.removeFromGroups address reason)
  | .alreadySlashed epoch address => services (.alreadySlashed epoch address)
  | .isExcluded epoch address => services (.isExcluded epoch address)

-- The services with a journal of all requests, latest first.
def journaled (services : Services σ) : Services (σ × List Request) := fun request state =>
  let (answer, after) := services request state.1
  (answer, after, request :: state.2)

end Services

end ParticipantTrust
