import Calculator.Command.Outcome

/-!
# One run of the program

What a run answers follows from what is read of its arguments.
-/

namespace Calculator.Command

/-- The outcome of the program for its arguments. -/
def run (library : Elementary) (files : String → Except FileFault String)
    (environment : Environment) (arguments : List String) : Outcome :=
  (Request.ofArguments environment arguments).outcome library files

variable {environment : Environment} {settings : Settings} {options : Options}
  {arguments : List String} {value : String}

theorem evaluate_all_cons (library : Elementary) (settings : Settings) (expression : String)
    (expressions : List String) :
    evaluateAll library settings (expression :: expressions) =
      (evaluateOne library settings expression).andThen
        (evaluateAll library settings expressions) := rfl

theorem evaluate_all_single (library : Elementary) (settings : Settings) (expression : String) :
    evaluateAll library settings [expression] = evaluateOne library settings expression := by
  rw [evaluate_all_cons, Outcome.andThen]
  simp [evaluateAll, Outcome.nothing]

theorem of_text_plain (plain : value.toList.head? ≠ some '-') (behind : Bool) :
    Argument.ofText behind value = .text value := by
  cases shape : value.toList with
  | nil => simp [Argument.ofText, shape]
  | cons first rest =>
      have other : first ≠ '-' := by simpa [shape] using plain
      simp [Argument.ofText, shape, other]

theorem settle_unset {value : Type} {earlier : Option value} {read : String → Option value}
    {text : String} {found : value} (unset : earlier = none) (reads : read text = some found) :
    settle earlier read text = .ok (some found) := by
  simp only [settle, unset, reads]

theorem request_of_read {source : Source} (read : Options.empty.read arguments = .ok options)
    (sourced : options.source = .ok source) (chosen : options.settings environment = .ok settings) :
    Request.ofArguments environment arguments = .evaluate settings source := by
  simp only [Request.ofArguments, read, sourced, chosen]

end Calculator.Command
