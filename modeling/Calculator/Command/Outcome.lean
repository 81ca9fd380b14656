import Calculator.Calculation
import Calculator.Command.Request
import Calculator.Text.Line

/-!
What the program answers. Every expression is evaluated on its own: its result goes
to the output, its failure to the error stream, and the run fails if any of them does.
Nothing is logged here; what a log adds to the error stream is in `Calculator.Command.Log`.
-/

namespace Calculator.Command

structure Outcome where
  status : Nat
  output : String
  errors : String
deriving DecidableEq, Repr

namespace Outcome

/-- The outcome of doing nothing. -/
def nothing : Outcome := { status := 0, output := "", errors := "" }

/-- One outcome after another; the graver status stays. -/
def andThen (first second : Outcome) : Outcome :=
  { status := max first.status second.status
    output := first.output ++ second.output
    errors := first.errors ++ second.errors }

end Outcome

/-- Why the text of a file is not available. -/
inductive FileFault
  | missing
  | directory
  | notDirectory
  | nameTooLong
  | notText
  | other (reason : String)
deriving DecidableEq, Repr

def FileFault.message : FileFault → String
  | .missing => "No such file or directory (os error 2)"
  | .directory => "Is a directory (os error 21)"
  | .notDirectory => "Not a directory (os error 20)"
  | .nameTooLong => "File name too long (os error 36)"
  | .notText => "stream did not contain valid UTF-8"
  | .other reason => reason

/-- The expressions of a file, one for each line that is neither blank nor a comment. -/
def expressionsOf (text : String) : List String :=
  let lines := (splitLines text.toList).map trim
  (lines.filter fun line => line ≠ [] && line.head? ≠ some '#').map String.ofList

def evaluateOne (library : Elementary) (settings : Settings) (expression : String) : Outcome :=
  match calculate library settings.angleMode settings.maxDepth expression with
  | .ok value =>
      { status := 0, output := Numeral.result settings.precision value ++ "\n", errors := "" }
  | .error failure =>
      { status := 1, output := "", errors := expression ++ ": " ++ failure.message ++ "\n" }

def evaluateAll (library : Elementary) (settings : Settings) (expressions : List String) :
    Outcome :=
  expressions.foldr (fun expression => (evaluateOne library settings expression).andThen) .nothing

def versionText : String := "sciexpr 0.1.0\n"

/-- Shown on request and to answer misuse. Its words are this library's own: of an answer to
misuse only the status is settled. -/
def usageText : String :=
  "Usage: sciexpr [OPTIONS] [EXPRESSION]\n\n" ++
  "  -f, --file PATH     read one expression per line from a file\n" ++
  "  --angle-mode MODE   radians or degrees\n" ++
  "  --max-depth N       how deeply an expression may nest\n" ++
  "  --precision N       how many decimals are shown at most\n" ++
  "  -V, --version       show the version\n" ++
  "  -h, --help          show this text\n"

/-- The answer to a request, given the text of every file it may ask for. -/
def Request.outcome (library : Elementary) (files : String → Except FileFault String) :
    Request → Outcome
  | .flag .version => { status := 0, output := versionText, errors := "" }
  | .flag .help => { status := 0, output := usageText, errors := "" }
  | .misuse _ => { status := 2, output := "", errors := usageText }
  | .evaluate settings (.expression text) => evaluateAll library settings [text]
  | .evaluate settings (.file path) =>
      match files path with
      | .ok text => evaluateAll library settings (expressionsOf text)
      | .error fault =>
          { status := 1
            output := ""
            errors := s!"Failed to read the input file '{path}': {fault.message}\n" }

end Calculator.Command
