import ParticipantTrust.Registry.Collateral
import ParticipantTrust.Registry.Exclusions
import ParticipantTrust.Registry.Groups

namespace ParticipantTrust

-- All services in memory. `slashed` holds a mark for each epoch and address.
structure Registry where
  collateral : Collateral
  groups : Groups
  exclusions : Exclusions
  slashed : List (UInt64 × String)

namespace Registry

def empty : Registry := ⟨.empty, .empty, .empty, []⟩

def alreadySlashed (r : Registry) (epoch : UInt64) (address : String) : Bool :=
  (epoch, address) ∈ r.slashed

def markSlashed (r : Registry) (epoch : UInt64) (address : String) : Registry :=
  if r.alreadySlashed epoch address then r else { r with slashed := (epoch, address) :: r.slashed }

def slash (r : Registry) (address : String) (fraction : Decimal) : Registry :=
  { r with collateral := r.collateral.slash address fraction }

def recordExclusion (r : Registry) (entry : Exclusion) : Registry :=
  { r with exclusions := r.exclusions.record entry }

-- Leaving all groups takes being in one.
def removeFromGroups (r : Registry) (address : String) : Except ServiceError Unit × Registry :=
  if r.groups.isMember address then
    (.ok (), { r with groups := r.groups.remove address })
  else (.error (.notAMember address), r)

def services : Services Registry
  | .alreadySlashed epoch address => fun r => (r.alreadySlashed epoch address, r)
  | .slashCollateral address fraction => fun r => (.ok (), r.slash address fraction)
  | .markSlashed epoch address => fun r => (.ok (), r.markSlashed epoch address)
  | .isExcluded epoch address => fun r => (r.exclusions.isExcluded epoch address, r)
  | .recordExclusion entry => fun r => (.ok (), r.recordExclusion entry)
  | .removeFromGroups address _ => fun r => r.removeFromGroups address

end Registry

end ParticipantTrust
