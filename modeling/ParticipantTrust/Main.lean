import ParticipantTrust.CommandLine

open ParticipantTrust

-- A file that is missing or no text counts as unreadable.
def readText (name : String) : IO (Option String) := do
  try
    return String.fromUTF8? (← IO.FS.readBinFile name)
  catch _ =>
    return none

-- All files that the arguments might name.
def readNamed (args : List String) : IO (List (String × Option String)) :=
  (args.flatMap fun arg => arg :: ((CommandLine.splitAssignment arg).map Prod.snd).toList).mapM
    fun name => return (name, ← readText name)

def main (args : List String) : IO UInt32 := do
  let files ← readNamed args
  let outcome := CommandLine.run args fun name => (files.lookup name).join
  IO.print outcome.output
  match outcome.headline with
  | some headline => IO.eprintln ("Error: " ++ headline)
  | none => pure ()
  return outcome.exitCode.toUInt32
