import Calculator.Angle

/-!
The arguments of the command line. As long as no expression is given, an argument is
an option only if it is a known long name, alone or with a value after an equality
sign, or a dash with nothing but known short letters behind it; anything else that
begins with a dash is text, for the expression or for the option that awaits a value.
Behind the expression every dash begins an option.
-/

namespace Calculator.Command

/-- An option that takes a value. -/
inductive Setting
  | file
  | angleMode
  | maxDepth
  | precision
deriving DecidableEq, Repr

/-- An option that ends the reading of arguments. -/
inductive Flag
  | version
  | help
deriving DecidableEq, Repr

inductive Argument
  | setting (setting : Setting) (attached : Option String)
  | flag (flag : Flag) (attached : Option String)
  | terminator
  | text (text : String)
  | unknown
deriving DecidableEq, Repr

def longName : String → Option (Setting ⊕ Flag)
  | "file" => some (.inl .file)
  | "angle-mode" => some (.inl .angleMode)
  | "max-depth" => some (.inl .maxDepth)
  | "precision" => some (.inl .precision)
  | "version" => some (.inr .version)
  | "help" => some (.inr .help)
  | _ => none

/-- A long option, taken apart at the first equality sign. -/
def longArgument? (body : List Char) : Option Argument :=
  let attached :=
    match body.dropWhile (· ≠ '=') with
    | [] => none
    | _ :: value => some (String.ofList value)
  match longName (String.ofList (body.takeWhile (· ≠ '='))) with
  | some (.inl setting) => some (.setting setting attached)
  | some (.inr flag) => some (.flag flag attached)
  | none => none

def isShortName (letter : Char) : Bool :=
  letter = 'f' || letter = 'h' || letter = 'V'

/-- A cluster of short options. Its first letter decides, because the flags end the
reading and `f` takes what follows as its value, less an equality sign in front. -/
def shortArgument? : List Char → Option Argument
  | 'V' :: _ => some (.flag .version none)
  | 'h' :: _ => some (.flag .help none)
  | ['f'] => some (.setting .file none)
  | 'f' :: '=' :: value => some (.setting .file (some (String.ofList value)))
  | 'f' :: value => some (.setting .file (some (String.ofList value)))
  | _ => none

/-- Reads an argument; `behind` tells that an expression was given before it. A lone
dash is never an option. -/
def Argument.ofText (behind : Bool) (argument : String) : Argument :=
  let other := if behind then .unknown else .text argument
  match argument.toList with
  | ['-'] => .text argument
  | ['-', '-'] => .terminator
  | '-' :: '-' :: body => (longArgument? body).getD other
  | '-' :: letters =>
      if behind || letters.all isShortName then (shortArgument? letters).getD other
      else .text argument
  | _ => .text argument

/-- What is wrong with the arguments, or with a variable of the environment. The kind is all
that is kept: every misuse is answered alike, and the words that explain one are no part of
this library. -/
inductive UsageError
  | secondExpression
  | unknownOption
  | repeated
  | valueMissing
  | valueUnwanted
  | valueRefused
  | expressionAndFile
  | nothingToDo
deriving DecidableEq, Repr

/-- What the arguments say, before defaults and environment are consulted. -/
structure Options where
  file : Option String
  angleMode : Option AngleMode
  maxDepth : Option Nat
  precision : Option Nat
  expression : Option String
deriving DecidableEq, Repr

def Options.empty : Options :=
  { file := none, angleMode := none, maxDepth := none, precision := none, expression := none }

/-- Why reading ends before the last argument. -/
inductive Interruption
  | flag (flag : Flag)
  | misuse (error : UsageError)
deriving DecidableEq, Repr

/-- A natural number of at most 64 bits, in decimal digits after an optional plus. -/
def natural? (text : String) : Option Nat :=
  let digits :=
    match text.toList with
    | '+' :: digits => digits
    | digits => digits
  if digits.isEmpty || !digits.all Char.isDigit then none
  else
    let value := Nat.ofDigitChars 10 digits 0
    if value < 0x10000000000000000 then some value else none

def angleMode? (text : String) : Option AngleMode := (AngleMode.ofText text).toOption

/-- Any path but the empty one. -/
def path? (text : String) : Option String := if text.isEmpty then none else some text

/-- The value for a setting that has none so far. -/
def settle {α : Type} (earlier : Option α) (read : String → Option α) (text : String) :
    Except Interruption (Option α) :=
  match earlier, read text with
  | some _, _ => .error (.misuse .repeated)
  | none, none => .error (.misuse .valueRefused)
  | none, some value => .ok (some value)

namespace Options

def set (options : Options) (setting : Setting) (text : String) :
    Except Interruption Options :=
  match setting with
  | .file => do return { options with file := ← settle options.file path? text }
  | .angleMode => do
      return { options with angleMode := ← settle options.angleMode angleMode? text }
  | .maxDepth => do return { options with maxDepth := ← settle options.maxDepth natural? text }
  | .precision => do
      return { options with precision := ← settle options.precision natural? text }

def setExpression (options : Options) (text : String) : Except Interruption Options :=
  match options.expression with
  | some _ => .error (.misuse .secondExpression)
  | none => .ok { options with expression := some text }

/-- Reads the arguments in order. An option without a value of its own takes the next
argument, unless that is an option itself. -/
def read (options : Options) : List String → Except Interruption Options
  | [] => .ok options
  | argument :: rest =>
      let behind := options.expression.isSome
      match Argument.ofText behind argument with
      | .terminator => rest.foldlM setExpression options
      | .text text => do (← options.setExpression text).read rest
      | .unknown => .error (.misuse .unknownOption)
      | .flag flag none => .error (.flag flag)
      | .flag _ (some _) => .error (.misuse .valueUnwanted)
      | .setting setting (some value) => do (← options.set setting value).read rest
      | .setting setting none =>
          match rest with
          | [] => .error (.misuse .valueMissing)
          | next :: rest =>
              match Argument.ofText behind next with
              | .text value => do (← options.set setting value).read rest
              | _ => .error (.misuse .valueMissing)

end Options

end Calculator.Command
