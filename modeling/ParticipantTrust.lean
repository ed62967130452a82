import ParticipantTrust.Statistics.Observation
import ParticipantTrust.Statistics.Binomial
import ParticipantTrust.Statistics.SequentialTest
import ParticipantTrust.Json.Error
import ParticipantTrust.Json.Value
import ParticipantTrust.Json.Number
import ParticipantTrust.Json.Record
import ParticipantTrust.Verdict
import ParticipantTrust.Registry.Basic
import ParticipantTrust.Transition
import ParticipantTrust.Settlement
import ParticipantTrust.Document.Transition
import ParticipantTrust.Main
import ParticipantTrust.Proofs.Decimal.Rounding
import ParticipantTrust.Proofs.Decimal.Logarithm
import ParticipantTrust.Proofs.Decimal.Power
import ParticipantTrust.Proofs.Statistics.SequentialTest
import ParticipantTrust.Proofs.Verdict.Checks
import ParticipantTrust.Proofs.Verdict.Severity
import ParticipantTrust.Proofs.Registry.Epochs
import ParticipantTrust.Proofs.Transition.Lifecycle
import ParticipantTrust.Proofs.Verdict.Configuration
import ParticipantTrust.Proofs.Statistics.Rarity
import ParticipantTrust.Proofs.Verdict.Evidence
import ParticipantTrust.Proofs.Transition.Failures
import ParticipantTrust.Proofs.Decimal.WrittenForm
import ParticipantTrust.Proofs.Statistics.WrittenForm
import ParticipantTrust.Proofs.Verdict.WrittenForm
import ParticipantTrust.Proofs.Verdict.Repetition
import ParticipantTrust.Proofs.Transition.Repetition
import ParticipantTrust.Proofs.Replay
import ParticipantTrust.Proofs.Verdict.Retention
import ParticipantTrust.Proofs.Decimal.Significant
import ParticipantTrust.Proofs.Statistics.Binomial
import ParticipantTrust.Proofs.Statistics.PValue
import ParticipantTrust.Proofs.Registry.Collateral
import ParticipantTrust.Proofs.Registry.Report
import ParticipantTrust.Proofs.Registry.Conservation
import ParticipantTrust.Proofs.Registry.ExclusionHistory
import ParticipantTrust.Proofs.Decimal.Text
import ParticipantTrust.Proofs.Json.Scalar
import ParticipantTrust.Proofs.Registry.Penalties
import ParticipantTrust.Proofs.Json.Codec
import ParticipantTrust.Proofs.Json.Record
import ParticipantTrust.Proofs.Document.RoundTrip
import ParticipantTrust.Proofs.Decimal.QuotientOrder
import ParticipantTrust.Proofs.Decimal.Series
import ParticipantTrust.Proofs.Decimal.LogarithmOrder
import ParticipantTrust.Proofs.Registry.Frame
import ParticipantTrust.Proofs.Text.ByteOrder
import ParticipantTrust.Proofs.Settlement
import ParticipantTrust.Proofs.Json.Writing
import ParticipantTrust.Proofs.Decimal.Printing
import ParticipantTrust.Proofs.Verdict.Weighing
import ParticipantTrust.Proofs.Document.Rendering
import ParticipantTrust.Proofs.Statistics.StreakProbability
import ParticipantTrust.Proofs.Statistics.TestCreation
import ParticipantTrust.Proofs.Decimal.SeriesError
import ParticipantTrust.Proofs.Decimal.LogarithmError
import ParticipantTrust.Proofs.Decimal.Root
import ParticipantTrust.Proofs.Decimal.RootError
import ParticipantTrust.Proofs.Statistics.PValueOrder
import ParticipantTrust.Proofs.Statistics.SampleSize
import ParticipantTrust.Proofs.Decimal.SignificantOrder
import ParticipantTrust.Proofs.Decimal.Tie
import ParticipantTrust.Proofs.Statistics.TailMirror
import ParticipantTrust.Proofs.Statistics.ZScore
import ParticipantTrust.Proofs.Decimal.LogarithmLoops
