import ParticipantTrust.Elementary

namespace ParticipantTrust

-- Verdict of a sequential test.
inductive Decision where
  | undecided
  | pass
  | fail
deriving DecidableEq

-- Why a sequential test cannot be set up.
inductive SequentialTestError where
  | rateOutside (name : String) (value : Decimal)
  | inverted (good bad : Decimal)
  | thresholdNotPositive (value : Decimal)
  | logRatio (error : DomainError)
deriving DecidableEq

def SequentialTestError.message : SequentialTestError → String
  | .rateOutside name value => name ++ " must be in (0, 1), got " ++ value.text
  | .inverted good bad =>
    "bad rate p1 (" ++ bad.text ++ ") must exceed good rate p0 (" ++ good.text ++ ")"
  | .thresholdNotPositive value => "threshold H must be positive, got " ++ value.text
  | .logRatio error => "log ratio failed: " ++ error.message

-- Wald's test of the failure rate `good` against the higher rate `bad`. All that it keeps of the
-- observations is their cumulative log-likelihood ratio `llr`.
structure SequentialTest where
  good : Decimal
  bad : Decimal
  threshold : Decimal
  llr : Decimal
  -- evidence per failure, `ln (bad / good)`
  logFail : Decimal
  -- evidence per pass, `ln ((1 - bad) / (1 - good))`
  logPass : Decimal
  precision : Int
deriving DecidableEq

namespace SequentialTest

-- Places of the log ratios and of the running ratio where participants are judged.
def logPrecision : Int := 12

def requireRate (name : String) (rate : Decimal) : Except SequentialTestError Unit :=
  if Domain.openUnit.Contains rate then .ok () else .error (.rateOutside name rate)

-- The logarithm of a quotient of rates.
def logRatio (a b : Decimal) (precision : Int) : Except SequentialTestError Decimal :=
  (Elementary.ln (a.divAt b (precision + Decimal.guardDigits)) precision).mapError .logRatio

def create (good bad threshold prior : Decimal) (precision : Int) :
    Except SequentialTestError SequentialTest := do
  requireRate "p0" good
  requireRate "p1" bad
  if bad ≤ good then throw (.inverted good bad)
  if threshold ≤ Decimal.zero then throw (.thresholdNotPositive threshold)
  let logFail ← logRatio bad good precision
  let logPass ← logRatio bad.complement good.complement precision
  return { good, bad, threshold, llr := prior, logFail, logPass, precision }

-- Adds a batch of observations. A negative count is no evidence, and a batch without evidence leaves
-- the ratio as it is written.
def observe (test : SequentialTest) (failures passes : Int) : SequentialTest :=
  let failures := max failures 0
  let passes := max passes 0
  if failures = 0 ∧ passes = 0 then test
  else
    let llr := test.llr + test.logFail * Decimal.ofInt failures + test.logPass * Decimal.ofInt passes
    { test with llr := llr.round test.precision }

def observeOne (test : SequentialTest) (failed : Bool) : SequentialTest :=
  if failed then test.observe 1 0 else test.observe 0 1

def decision (test : SequentialTest) : Decision :=
  if test.threshold ≤ test.llr then .fail
  else if test.llr ≤ -test.threshold then .pass
  else .undecided

end SequentialTest

end ParticipantTrust
