import ParticipantTrust.Document.Params
import ParticipantTrust.Document.Participant

namespace ParticipantTrust

-- The document of a replay that cannot be read.
inductive ReplayError where
  | params (error : Json.ReadError)
  | participant (error : Json.ReadError)
  | previous (error : Json.ReadError)

def ReplayError.headline : ReplayError → String
  | .params _ => "Invalid parameter snapshot"
  | .participant _ => "Invalid participant record"
  | .previous _ => "Invalid previous counters"

-- The verdict on a participant from documents, with counters of zero for a missing snapshot. Nothing is
-- applied, and parameters outside their domains are used as they are.
def replay (params participant : String) (previous : Option String) : Except ReplayError Verdict := do
  let params ← (paramsRecord.codec.decode params).mapError .params
  let participant ← (participantRecord.codec.decode participant).mapError .participant
  let previous ←
    match previous with
    | none => .ok EpochStats.zero
    | some previous => (statsRecord.codec.decode previous).mapError .previous
  return evaluate (some params.validation) (some params.confirmation) participant previous

def Verdict.render (v : Verdict) : String := verdictRecord.codec.encode .indented v

end ParticipantTrust
