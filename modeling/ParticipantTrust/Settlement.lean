import ParticipantTrust.Participant

namespace ParticipantTrust

-- What a participant did in a settled epoch.
structure EpochSummary where
  epochIndex : UInt64
  participant : String
  status : Status
  inferenceCount : UInt64
  missedRequests : UInt64
  validatedInferences : UInt64
  invalidatedInferences : UInt64
deriving DecidableEq

def Participant.summary (p : Participant) (epoch : UInt64) : EpochSummary where
  epochIndex := epoch
  participant := p.address
  status := p.status
  inferenceCount := p.stats.inferenceCount
  missedRequests := p.stats.missedRequests
  validatedInferences := p.stats.validatedInferences
  invalidatedInferences := p.stats.invalidatedInferences

-- An epoch more, unless the counter is full.
def epochUp (n : UInt32) : UInt32 := if n.toNat + 1 < UInt32.size then n + 1 else n

-- An active participant earns the epoch, and all counters start again.
def Participant.settle (p : Participant) : Participant :=
  { p with
    epochsCompleted := if p.status = .active then epochUp p.epochsCompleted else p.epochsCompleted
    stats := .zero }

-- A settlement on its way: the summaries so far, and all participants, of which those visited are
-- settled.
structure Settlement (count : Nat) where
  summaries : Array EpochSummary
  participants : Vector Participant count

namespace Settlement

variable {count : Nat}

def start (participants : List Participant) : Settlement participants.length :=
  ⟨#[], ⟨participants.toArray, List.size_toArray⟩⟩

def visit (epoch : UInt64) (s : Settlement count) (place : Fin count) : Settlement count :=
  let p := s.participants[place]
  ⟨s.summaries.push (p.summary epoch), s.participants.set place p.settle⟩

end Settlement

-- The places of the participants in ascending order of address, equal addresses in the order given.
def visitingOrder (participants : List Participant) : List (Fin participants.length) :=
  (List.finRange participants.length).mergeSort fun i j =>
    participants[i].address ≤ participants[j].address

-- Settles an epoch: summaries in the order of the visits, and the participants in the order given.
def settle (epoch : UInt64) (participants : List Participant) :
    List EpochSummary × List Participant :=
  let s := (visitingOrder participants).foldl (Settlement.visit epoch) (.start participants)
  (s.summaries.toList, s.participants.toList)

end ParticipantTrust
