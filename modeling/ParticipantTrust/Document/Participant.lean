import ParticipantTrust.Json.Record
import ParticipantTrust.Settlement
import ParticipantTrust.Verdict

namespace ParticipantTrust

open Json

def statuses : List (String × Status) :=
  [("ACTIVE", .active), ("RAMPING", .ramping), ("INACTIVE", .inactive), ("INVALID", .invalid)]

def Status.text : Status → String
  | .active => "ACTIVE"
  | .ramping => "RAMPING"
  | .inactive => "INACTIVE"
  | .invalid => "INVALID"

def statusCodec : Codec Status := .variant statuses Status.text

def reasons : List (String × Reason) :=
  [Reason.unremarkable, .consecutiveFailures, .ramping, .statisticalInvalidations, .downtime,
    .failedConfirmation, .algorithmError, .alreadySet].map fun reason => (reason.text, reason)

def reasonCodec : Codec Reason := .variant reasons Reason.text

def statsRecord : Record EpochStats where
  name := "CurrentEpochStats"
  fields := [
    Codec.u64.field "inference_count" .defaulted
      (·.inferenceCount) fun v s => { s with inferenceCount := v },
    Codec.u64.field "missed_requests" .defaulted
      (·.missedRequests) fun v s => { s with missedRequests := v },
    Codec.u64.field "validated_inferences" .defaulted
      (·.validatedInferences) fun v s => { s with validatedInferences := v },
    Codec.u64.field "invalidated_inferences" .defaulted
      (·.invalidatedInferences) fun v s => { s with invalidatedInferences := v },
    Codec.decimal.optional.field "confirmation_poc_ratio" .defaulted
      (·.confirmationRatio) fun v s => { s with confirmationRatio := v },
    Codec.decimal.field "invalid_llr" .defaulted
      (·.invalidLlr) fun v s => { s with invalidLlr := v },
    Codec.decimal.field "inactive_llr" .defaulted
      (·.inactiveLlr) fun v s => { s with inactiveLlr := v }]
  blank := .zero

def participantRecord : Record Participant where
  name := "Participant"
  fields := [
    Codec.text.field "address" .refused (·.address) fun v p => { p with address := v },
    statusCodec.field "status" .defaulted (·.status) fun v p => { p with status := v },
    Codec.u32.field "epochs_completed" .defaulted
      (·.epochsCompleted) fun v p => { p with epochsCompleted := v },
    Codec.u64.field "consecutive_invalid_inferences" .defaulted
      (·.streak) fun v p => { p with streak := v },
    statsRecord.codec.field "current_epoch_stats" .defaulted
      (·.stats) fun v p => { p with stats := v }]
  blank := .new "" .active

def verdictRecord : Record Verdict where
  name := "StatusDecision"
  fields := [
    statusCodec.field "status" .refused (·.status) fun v d => { d with status := v },
    reasonCodec.field "reason" .refused (·.reason) fun v d => { d with reason := v },
    statsRecord.codec.field "stats" .refused (·.stats) fun v d => { d with stats := v }]
  blank := ⟨.active, .unremarkable, .zero⟩

def summaryRecord : Record EpochSummary where
  name := "EpochPerformanceSummary"
  fields := [
    Codec.u64.field "epoch_index" .refused (·.epochIndex) fun v s => { s with epochIndex := v },
    Codec.text.field "participant" .refused (·.participant) fun v s => { s with participant := v },
    statusCodec.field "status" .refused (·.status) fun v s => { s with status := v },
    Codec.u64.field "inference_count" .refused
      (·.inferenceCount) fun v s => { s with inferenceCount := v },
    Codec.u64.field "missed_requests" .refused
      (·.missedRequests) fun v s => { s with missedRequests := v },
    Codec.u64.field "validated_inferences" .refused
      (·.validatedInferences) fun v s => { s with validatedInferences := v },
    Codec.u64.field "invalidated_inferences" .refused
      (·.invalidatedInferences) fun v s => { s with invalidatedInferences := v }]
  blank := (Participant.new "" .active).summary 0

end ParticipantTrust
