import Calculator.Command.Outcome

/-!
The log of a run. The program reports the steps of its work as events, and a logging
library writes them to the error stream, in between the messages that stand there
anyway. One variable of the environment holds directives, which say what events are
let through. The library is a parameter here: how it understands directives, how it
puts an event into words and when it is called are its own affair.
-/

namespace Calculator.Command

/-- How much an event matters, the gravest first. -/
inductive Level
  | error
  | warning
  | info
  | debug
  | trace
deriving DecidableEq, Repr

/-- A step of the work, with what is told about it. A failure is told by the step that
fails and once more, with its expression, by the run. -/
inductive Event
  | starting (settings : Settings) (source : Source)
  | token (token : Token) (position : Nat)
  | parsed (size depth : Nat)
  | evaluated (value : Float) (mode : AngleMode)
  | failed (failure : Failure)
  | reported (expression : String) (failure : Failure)
deriving DecidableEq, Repr

def Event.level : Event → Level
  | .token .. => .trace
  | _ => .debug

/-- The tokens of the pieces that begin `byte` bytes into the source, up to the first
piece that stands for none. -/
def tokenEvents (counter : PositionCounter) (byte : Nat) : List Piece → List Event
  | [] => []
  | .blank text :: rest => tokenEvents counter (byte + utf8Length text) rest
  | piece :: rest =>
      let (position, counter) := counter.seek byte
      match piece.token? with
      | none => []
      | some token =>
          .token token position :: tokenEvents counter (byte + utf8Length piece.text) rest

/-- What is told on the way from a source text to its value. -/
def calculationEvents (library : Elementary) (mode : AngleMode) (limit : Nat)
    (source : String) : List Event :=
  tokenEvents (.start source.toList) 0 (Piece.cut source.toList) ++
    match readExpression limit source with
    | .error failure => [.failed failure]
    | .ok tree =>
        [.parsed tree.size tree.depth,
          match tree.evaluate library mode with
          | .ok value => .evaluated value mode
          | .error error => .failed (.evaluation error)]

/-- What goes to the error stream: an event, if it is let through, or a message. -/
inductive Entry
  | event (event : Event)
  | message (text : String)
deriving DecidableEq, Repr

def evaluationEntries (library : Elementary) (settings : Settings) (expression : String) :
    List Entry :=
  let events := calculationEvents library settings.angleMode settings.maxDepth expression
  match calculate library settings.angleMode settings.maxDepth expression with
  | .ok _ => events.map .event
  | .error failure =>
      events.map .event ++ [.event (.reported expression failure),
        .message (evaluateOne library settings expression).errors]

/-- The entries of a run in their order. Before the arguments are understood nothing is
told. -/
def Request.entries (library : Elementary) (files : String → Except FileFault String)
    (request : Request) : List Entry :=
  match request with
  | .evaluate settings (.expression text) =>
      .event (.starting settings (.expression text)) :: evaluationEntries library settings text
  | .evaluate settings (.file path) =>
      .event (.starting settings (.file path)) ::
        match files path with
        | .ok text => (expressionsOf text).flatMap (evaluationEntries library settings)
        | .error _ => [.message (request.outcome library files).errors]
  | .flag _ | .misuse _ => [.message (request.outcome library files).errors]

/-- A logging library: how directives are read as a filter, unless they are refused, which
events a filter lets through, and the line for an event at a time. The filter for warnings
lets nothing through that is less grave than a warning. -/
structure Journal where
  Filter : Type
  read : String → Option Filter
  warnings : Filter
  passes : Filter → Event → Bool
  line : Nat → Event → String
  grave : ∀ event, passes warnings event → event.level = .error ∨ event.level = .warning

namespace Journal

/-- The filter of a run: warnings, unless there are directives that can be read. -/
def filter (journal : Journal) (directives : Option String) : journal.Filter :=
  (directives.bind journal.read).getD journal.warnings

/-- What is written of an entry: a message as it is, an event if it is let through. -/
def told (journal : Journal) (filter : journal.Filter) (time : Nat) : Entry → String
  | .message text => text
  | .event event => if journal.passes filter event then journal.line time event else ""

/-- The error stream. `clock` tells for each entry at what time it is written. -/
def write (journal : Journal) (directives : Option String) (clock : Nat → Nat)
    (entries : List Entry) : String :=
  String.join (entries.mapIdx fun index =>
    journal.told (journal.filter directives) (clock index))

end Journal

/-- The answer to a request together with the log. -/
def Request.logged (journal : Journal) (directives : Option String) (clock : Nat → Nat)
    (library : Elementary) (files : String → Except FileFault String) (request : Request) :
    Outcome :=
  { request.outcome library files with
    errors := journal.write directives clock (request.entries library files) }

end Calculator.Command
