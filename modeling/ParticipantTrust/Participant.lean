import ParticipantTrust.Decimal.Basic

namespace ParticipantTrust

inductive Status where
  | active
  -- provisional, with too few samples to judge
  | ramping
  -- excluded for downtime or an unconfirmed weight
  | inactive
  -- excluded for invalid work
  | invalid
deriving DecidableEq

-- A sticky status is only left between epochs, by whoever keeps the participants.
def Status.isSticky : Status → Bool
  | .inactive | .invalid => true
  | .active | .ramping => false

-- Counters of the current epoch, with the evidence that the two sequential tests have gathered.
structure EpochStats where
  inferenceCount : UInt64
  missedRequests : UInt64
  validatedInferences : UInt64
  invalidatedInferences : UInt64
  -- confirmed share of the claimed weight, once a confirmation round has run
  confirmationRatio : Option Decimal
  invalidLlr : Decimal
  inactiveLlr : Decimal
deriving DecidableEq

def EpochStats.zero : EpochStats := ⟨0, 0, 0, 0, none, Decimal.zero, Decimal.zero⟩

-- Equality of the ratios as numbers, when there are any.
def SameRatio : Option Decimal → Option Decimal → Prop
  | none, none => True
  | some a, some b => a.SameValue b
  | _, _ => False

instance : ∀ a b : Option Decimal, Decidable (SameRatio a b)
  | none, none => .isTrue trivial
  | some a, some b => inferInstanceAs (Decidable (a.SameValue b))
  | none, some _ => .isFalse id
  | some _, none => .isFalse id

-- Equality up to the written forms of decimals.
def EpochStats.SameValue (a b : EpochStats) : Prop :=
  a.inferenceCount = b.inferenceCount ∧ a.missedRequests = b.missedRequests ∧
    a.validatedInferences = b.validatedInferences ∧
    a.invalidatedInferences = b.invalidatedInferences ∧
    SameRatio a.confirmationRatio b.confirmationRatio ∧
    a.invalidLlr.SameValue b.invalidLlr ∧ a.inactiveLlr.SameValue b.inactiveLlr

instance (a b : EpochStats) : Decidable (a.SameValue b) := by
  unfold EpochStats.SameValue; infer_instance

structure Participant where
  address : String
  status : Status
  -- reputation: epochs settled while active
  epochsCompleted : UInt32
  -- invalidations since the last successful validation
  streak : UInt64
  stats : EpochStats
deriving DecidableEq

-- One more, unless the counter is full.
def countUp (n : UInt64) : UInt64 := if n.toNat + 1 < UInt64.size then n + 1 else n

-- What happens to a participant during an epoch.
inductive Event where
  -- an inference it executed has finished
  | finished
  -- a validator confirmed one of its inferences
  | validated
  -- a vote invalidated one of its inferences
  | invalidated
  -- it never served a request
  | missed
  -- a confirmation round has run
  | confirmation (ratio : Decimal)

namespace Participant

def new (address : String) (status : Status) : Participant := ⟨address, status, 0, 0, .zero⟩

def record (p : Participant) : Event → Participant
  | .finished =>
    { p with stats := { p.stats with inferenceCount := countUp p.stats.inferenceCount } }
  | .validated =>
    { p with
      streak := 0
      stats := { p.stats with validatedInferences := countUp p.stats.validatedInferences } }
  | .invalidated =>
    { p with
      streak := countUp p.streak
      stats := { p.stats with invalidatedInferences := countUp p.stats.invalidatedInferences } }
  | .missed =>
    { p with stats := { p.stats with missedRequests := countUp p.stats.missedRequests } }
  | .confirmation ratio => { p with stats := { p.stats with confirmationRatio := some ratio } }

-- The same event `count` times.
def recordTimes (p : Participant) (event : Event) : Nat → Participant
  | 0 => p
  | count + 1 => (p.record event).recordTimes event count

end Participant

end ParticipantTrust
