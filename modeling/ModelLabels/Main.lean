import ModelLabels.CommandLine.Run
/-! # The program -/

open ModelLabels.CommandLine

/-- The number of a system error, which some calls report with the opposite sign. -/
def systemCode (code : UInt32) : UInt32 := if code < 0x80000000 then code else 0 - code

/-- The error that the system reports for a file. -/
def fileErrorOf (e : IO.Error) : FileError :=
  match e with
  | .noFileOrDirectory .. => .notFound
  | .inappropriateType _ code _ =>
    if systemCode code = 21 then .isDirectory else .notDirectory
  | .invalidArgument _ code details =>
    if systemCode code = 36 then .nameTooLong else .other details
  | .permissionDenied .. => .other "Permission denied (os error 13)"
  | .userError _ => .notText
  | other => .other (toString other)

/-- Read a file of text. -/
def readText (path : String) : IO (Except FileError String) := do
  try
    return .ok (← IO.FS.readFile path)
  catch e =>
    return .error (fileErrorOf e)

/-- Look at what the options ask for and at nothing else. -/
def surroundings (o : Options) : IO Surroundings := do
  let file ← match o.config? with
    | some path => if o.grammar then pure (.ok "") else readText path
    | none => pure (.ok "")
  let before : Surroundings := ⟨fun _ => file.map .text, ""⟩
  if o.readsStdin && (o.loadConfig before).isOk then
    return { before with stdin := ← (← IO.getStdin).readToEnd }
  else
    return before

/-- Run the command line. -/
def main (args : List String) : IO UInt32 := do
  let around ← match Options.ofArgs args with
    | .ok o => surroundings o
    | .error _ => pure ⟨fun _ => .error .notFound, ""⟩
  let outcome := run args around
  (← IO.getStdout).putStr outcome.stdout
  (← IO.getStderr).putStr outcome.stderr
  return outcome.exitCode.toUInt32
