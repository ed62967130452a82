import ParticipantTrust.Replay

namespace ParticipantTrust.CommandLine

-- The options met so far.
structure Options where
  params : Option String
  participant : Option String
  previous : Option String
  strict : Bool

def Options.none : Options := ⟨.none, .none, .none, false⟩

inductive Flag where
  | params
  | participant
  | previous

def flags : List (String × Flag) :=
  [("--params", .params), ("--participant", .participant), ("--previous", .previous)]

-- Sets the file of an option that is not set yet. No file has an empty name.
def Options.set (o : Options) (flag : Flag) (file : String) : Option Options :=
  if file = "" then .none
  else
    match flag, o with
    | .params, ⟨.none, _, _, _⟩ => some { o with params := some file }
    | .participant, ⟨_, .none, _, _⟩ => some { o with participant := some file }
    | .previous, ⟨_, _, .none, _⟩ => some { o with previous := some file }
    | _, _ => .none

-- An argument that may follow an option as its file: it does not look like an option itself.
def isFile (arg : String) : Bool := arg = "-" || !arg.startsWith "-"

-- The name and file of an option written in one argument.
def splitAssignment (arg : String) : Option (String × String) :=
  let cs := arg.toList
  if cs.contains '=' then
    some (String.ofList (cs.takeWhile (· ≠ '=')), String.ofList ((cs.dropWhile (· ≠ '=')).drop 1))
  else .none

-- Options in any order, each at most once. Two dashes end the options, and nothing may follow them.
-- `none` is bad usage.
def parse : List String → Options → Option Options
  | [], o => some o
  | "--" :: args, o => if args.isEmpty then some o else .none
  | "--strict" :: args, o => if o.strict then .none else parse args { o with strict := true }
  | [arg], o => do
    let (name, file) ← splitAssignment arg
    o.set (← flags.lookup name) file
  | arg :: next :: args, o =>
    match flags.lookup arg with
    | some flag => if isFile next then do parse args (← o.set flag next) else .none
    | .none => do
      let (name, file) ← splitAssignment arg
      parse (next :: args) (← o.set (← flags.lookup name) file)

-- What a run leaves behind. The headline says what a failed run failed at.
structure Outcome where
  exitCode : UInt8
  output : String
  headline : Option String

def badUsage : Outcome := ⟨2, "", none⟩

def failed (headline : String) : Outcome := ⟨1, "", some headline⟩

def readFile (files : String → Option String) (name : String) : Except String String :=
  match files name with
  | some contents => .ok contents
  | none => .error ("Failed to read " ++ name)

-- A strict run accepts no parameters outside their domains.
def checkStrictly (params : String) : Except String Unit := do
  let params ←
    (paramsRecord.codec.decode params).mapError fun _ => "Failed to decode parameter snapshot"
  params.validate.mapError fun _ => "Parameter snapshot failed bounds validation"

-- All files are read before any of them is looked into.
def replayFiles (files : String → Option String) (params participant : String)
    (previous : Option String) (strict : Bool) : Except String String := do
  let params ← readFile files params
  let participant ← readFile files participant
  let previous ← previous.mapM (readFile files)
  if strict then checkStrictly params
  let verdict ← (replay params participant previous).mapError ReplayError.headline
  return verdict.render

-- A whole run on the arguments behind the program's name.
def run (args : List String) (files : String → Option String) : Outcome :=
  match parse args .none with
  | some ⟨some params, some participant, previous, strict⟩ =>
    match replayFiles files params participant previous strict with
    | .ok output => ⟨0, output ++ "\n", none⟩
    | .error headline => failed headline
  | _ => badUsage

end ParticipantTrust.CommandLine
