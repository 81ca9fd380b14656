import Calculator.Command.Outcome

/-!
The program: it passes arguments, environment and file contents on, and writes the
outcome. It comes without a logging library, so that it logs nothing.
-/

open Calculator.Command

/-- Some calls report the number of an error with the opposite sign. -/
def systemCode (code : UInt32) : UInt32 := min code (0 - code)

def readText (path : String) : IO (Except FileFault String) := do
  try
    let bytes ← IO.FS.readBinFile path
    match String.fromUTF8? bytes with
    | some text => return .ok text
    | none => return .error .notText
  catch
    | .noFileOrDirectory .. => return .error .missing
    | .inappropriateType _ code _ =>
        return .error (if systemCode code = 20 then .notDirectory else .directory)
    | .invalidArgument _ code details =>
        return .error (if systemCode code = 36 then .nameTooLong else .other details)
    | error => return .error (.other (toString error))

def main (arguments : List String) : IO UInt32 := do
  let environment : Environment :=
    { angleMode := ← IO.getEnv "SCIEXPR_ANGLE_MODE"
      maxDepth := ← IO.getEnv "SCIEXPR_MAX_DEPTH" }
  let request := Request.ofArguments environment arguments
  let contents ←
    match request.path? with
    | some path => readText path
    | none => pure (.error .missing)
  let outcome := request.outcome .native fun _ => contents
  IO.print outcome.output
  IO.eprint outcome.errors
  return UInt32.ofNat outcome.status
