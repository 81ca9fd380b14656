import Calculator.Command.Argument
import Calculator.Parse

/-!
What the command line asks for. A setting comes from its option, else from its
variable in the environment, else from its default; a variable whose option is given
is not looked at.
-/

namespace Calculator.Command

/-- The variables that settings are taken from, where they are set. One more variable is read,
which decides what is logged and nothing else: it is the `directives` of `Request.logged`. -/
structure Environment where
  angleMode : Option String
  maxDepth : Option String
deriving DecidableEq, Repr

structure Settings where
  angleMode : AngleMode
  maxDepth : Nat
  precision : Nat
deriving DecidableEq, Repr

inductive Source
  | expression (text : String)
  | file (path : String)
deriving DecidableEq, Repr

def defaultPrecision : Nat := 10

/-- The option's value, the variable's, or the default; nothing for a variable whose
value is refused. -/
def choose {α : Type} (given : Option α) (exported : Option String)
    (read : String → Option α) (fallback : α) : Except UsageError α :=
  match given, exported with
  | some value, _ => .ok value
  | none, none => .ok fallback
  | none, some text =>
      match read text with
      | some value => .ok value
      | none => .error .valueRefused

namespace Options

def source (options : Options) : Except UsageError Source :=
  match options.file, options.expression with
  | some path, none => .ok (.file path)
  | none, some text => .ok (.expression text)
  | some _, some _ => .error .expressionAndFile
  | none, none => .error .nothingToDo

def settings (options : Options) (environment : Environment) :
    Except UsageError Settings := do
  let angleMode ← choose options.angleMode environment.angleMode angleMode? .radians
  let maxDepth ← choose options.maxDepth environment.maxDepth natural? defaultDepthLimit
  return { angleMode, maxDepth, precision := options.precision.getD defaultPrecision }

end Options

inductive Request
  | evaluate (settings : Settings) (source : Source)
  | flag (flag : Flag)
  | misuse (error : UsageError)
deriving DecidableEq, Repr

/-- The request that arguments and environment make. -/
def Request.ofArguments (environment : Environment) (arguments : List String) : Request :=
  match Options.empty.read arguments with
  | .error (.flag wanted) => .flag wanted
  | .error (.misuse error) => .misuse error
  | .ok options =>
      match options.source, options.settings environment with
      | .error error, _ => .misuse error
      | .ok _, .error error => .misuse error
      | .ok source, .ok settings => .evaluate settings source

/-- The file that a request needs. -/
def Request.path? : Request → Option String
  | .evaluate _ (.file path) => some path
  | _ => none

end Calculator.Command
