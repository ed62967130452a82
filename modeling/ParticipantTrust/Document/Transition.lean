import ParticipantTrust.Document.Participant
import ParticipantTrust.Transition

namespace ParticipantTrust

open Json

def blockRecord : Record Block where
  name := "BlockContext"
  fields := [
    Codec.u64.field "height" .refused (·.height) fun v b => { b with height := v },
    Codec.u64.optional.field "effective_epoch" .unset
      (·.effectiveEpoch) fun v b => { b with effectiveEpoch := v }]
  blank := ⟨0, none⟩

def exclusionRecord : Record Exclusion where
  name := "ExcludedParticipant"
  fields := [
    Codec.text.field "address" .refused (·.address) fun v e => { e with address := v },
    Codec.u64.field "epoch_index" .refused (·.epochIndex) fun v e => { e with epochIndex := v },
    Codec.text.field "reason" .refused (·.reason) fun v e => { e with reason := v },
    Codec.u64.field "effective_height" .refused
      (·.effectiveHeight) fun v e => { e with effectiveHeight := v }]
  blank := ⟨"", 0, "", 0⟩

def reportRecord : Record InvalidationReport where
  name := "InvalidationEffects"
  fields := [
    Codec.boolean.field "slashed" .refused (·.slashed) fun v r => { r with slashed := v },
    Codec.boolean.field "exclusion_recorded" .refused
      (·.exclusionRecorded) fun v r => { r with exclusionRecorded := v },
    Codec.u32.field "epochs_completed_before" .refused
      (·.epochsBefore) fun v r => { r with epochsBefore := v },
    Codec.u32.field "epochs_completed_after" .refused
      (·.epochsAfter) fun v r => { r with epochsAfter := v },
    Codec.boolean.field "removed_from_groups" .refused
      (·.removedFromGroups) fun v r => { r with removedFromGroups := v }]
  blank := ⟨false, false, 0, 0, false⟩

def transitionRecord : Record Transition where
  name := "StatusTransition"
  fields := [
    statusCodec.field "from" .refused (·.source) fun v t => { t with source := v },
    statusCodec.field "to" .refused (·.target) fun v t => { t with target := v },
    reasonCodec.field "reason" .refused (·.reason) fun v t => { t with reason := v },
    reportRecord.codec.optional.field "invalidation" .unset
      (·.invalidation) fun v t => { t with invalidation := v }]
  blank := ⟨.active, .active, .unremarkable, none⟩

def Step.text : Step → String
  | .slashCollateral => "SlashCollateral"
  | .markSlashed => "MarkSlashed"
  | .recordExclusion => "RecordExclusion"
  | .removeFromGroups => "RemoveFromGroups"

def stepCodec : Codec Step :=
  .variant
    ([Step.slashCollateral, .markSlashed, .recordExclusion, .removeFromGroups].map fun step =>
      (step.text, step))
    Step.text

def Decision.text : Decision → String
  | .undecided => "Continue"
  | .pass => "Pass"
  | .fail => "Fail"

def decisionCodec : Codec Decision :=
  .variant ([Decision.undecided, .pass, .fail].map fun decision => (decision.text, decision))
    Decision.text

end ParticipantTrust
