import Mathlib
import Calculator.Calculation
import Calculator.Proofs.Position
import Calculator.Proofs.Verdict

/-!
# Failures point into the source

A fault of the automaton speaks of a lexeme it has passed or stands at, so it inherits the
place that the scanner gave this lexeme.
-/

namespace Calculator

/-- What a fault speaks of is found where it says. -/
def ParseError.PointsInto (source : List Char) : ParseError → Prop
  | .unexpectedToken position token => Occurs source position token
  | .unclosedParenthesis position => source[position]? = some '('
  | .unexpectedEnd position => position = source.length
  | .tooComplex _ => True

def Failure.PointsInto (source : String) : Failure → Prop
  | .unknownToken unknown =>
      unknown.position < source.length ∧ Occurs source.toList unknown.position unknown.text
  | .parse error => error.PointsInto source.toList
  | .evaluation _ => True

variable {source : List Char} {lexeme : Lexeme} {error : ParseError}

namespace Lexeme.Placed

theorem opening_at (placed : lexeme.Placed source) (opening : lexeme.token = .opening) :
    source[lexeme.position]? = some '(' := by
  have proper : lexeme.token ≠ .finish := by simp [opening]
  rcases placed.occurs proper with ⟨_, after, split⟩
  rw [placed.opening opening] at split
  rw [← Nat.add_zero lexeme.position, ← List.getElem?_drop, ← split]
  rfl

theorem described_occurs (placed : lexeme.Placed source) (proper : lexeme.token ≠ .finish) :
    Occurs source lexeme.position lexeme.described := by
  have occurs := placed.occurs proper
  have written : lexeme.described = lexeme.text := by
    simp [Lexeme.described, occurs.1]
  rw [written]
  exact occurs

end Lexeme.Placed

namespace Automaton

variable {finish position : Nat} {mode next : Mode} {stack outer : List Nat}

/-- A step opens at most the parenthesis it passes, and closes at most the innermost. -/
theorem step_stack (stepped : step? mode stack lexeme = some (next, outer)) :
    outer = stack ∨ (lexeme.token = .opening ∧ outer = lexeme.position :: stack) ∨
      ∃ closed, stack = closed :: outer := by
  cases mode with
  | operand =>
      simp only [step?] at stepped
      split at stepped
      · simp_all
      · split at stepped
        · simp_all
        · split at stepped <;> simp_all
      · simp_all
      · simp_all
      · simp at stepped
  | call =>
      simp only [step?] at stepped
      split at stepped <;> simp_all
  | operator =>
      simp only [step?] at stepped
      split at stepped <;> simp_all

theorem stop_points (opened : ∀ position ∈ stack, source[position]? = some '(')
    (atEnd : position = source.length) (stopped : stop mode stack position = .error error) :
    error.PointsInto source := by
  unfold stop at stopped
  split at stopped
  · simp at stopped
  · cases stopped
    exact opened _ List.mem_cons_self
  · cases stopped
    exact atEnd

theorem run_points {lexemes : List Lexeme} (placed : ∀ lexeme ∈ lexemes, lexeme.Placed source)
    (opened : ∀ position ∈ stack, source[position]? = some '(') (atEnd : finish = source.length)
    (failed : run finish mode stack lexemes = .error error) : error.PointsInto source := by
  induction lexemes generalizing mode stack with
  | nil => exact stop_points opened atEnd failed
  | cons lexeme after ih =>
      have here := placed lexeme List.mem_cons_self
      by_cases closing : lexeme.token = .finish
      · rw [run, if_pos closing] at failed
        exact stop_points opened (here.finish closing).2 failed
      · rw [run, if_neg closing] at failed
        split at failed
        · rename_i next outer stepped
          refine ih (fun lexeme member => placed lexeme (List.mem_cons_of_mem _ member)) ?_ failed
          intro position member
          rcases step_stack stepped with rfl | ⟨opening, rfl⟩ | ⟨closed, rfl⟩
          · exact opened position member
          · rcases List.mem_cons.mp member with rfl | outside
            · exact here.opening_at opening
            · exact opened position outside
          · exact opened position (List.mem_cons_of_mem _ member)
        · cases failed
          exact here.described_occurs closing

end Automaton

theorem end_position_placed {lexemes : List Lexeme} {last : Lexeme}
    (placed : ∀ lexeme ∈ lexemes, lexeme.Placed source) (final : lexemes.getLast? = some last)
    (closing : last.token = .finish) : endPosition lexemes = source.length := by
  rcases (placed last (List.mem_of_getLast? final)).finish closing with ⟨empty, position⟩
  simp [endPosition, final, empty, position]

theorem parse_points {lexemes : List Lexeme} {last : Lexeme} {limit : Nat}
    (placed : ∀ lexeme ∈ lexemes, lexeme.Placed source) (final : lexemes.getLast? = some last)
    (closing : last.token = .finish) (failed : parse lexemes limit = .error error) :
    error.PointsInto source := by
  rcases parse_tracks lexemes limit with same | ⟨exhausted, _⟩
  · rw [failed, Automaton.verdict, ← end_position_elim] at same
    exact Automaton.run_points placed (by simp) (end_position_placed placed final closing)
      same.symm
  · rw [exhausted] at failed
    cases failed
    trivial

theorem read_expression_points {limit : Nat} {source : String} {failure : Failure}
    (failed : readExpression limit source = .error failure) : failure.PointsInto source := by
  have located := lexemes_located source
  rw [readExpression] at failed
  cases scanned : lexemes source with
  | error unknown =>
      rw [scanned] at located failed
      cases failed
      exact ⟨occurs_position_lt located, located⟩
  | ok found =>
      rw [scanned] at located failed
      rcases located with ⟨placed, last, final, closing⟩
      cases parsed : parse found limit with
      | error error =>
          simp only [parsed, Except.mapError, bind, Except.bind] at failed
          cases failed
          exact parse_points placed final closing parsed
      | ok tree =>
          simp [parsed, Except.mapError, bind, Except.bind] at failed

/-- Wherever a calculation fails, the unknown or unexpected token and the parenthesis that
is never closed stand at the reported place, counted in characters, and a missing rest is
missed at the end of the source. -/
theorem failure_points_into_source (library : Elementary) (mode : AngleMode) (limit : Nat)
    (source : String) (failure : Failure)
    (failed : calculate library mode limit source = .error failure) :
    failure.PointsInto source := by
  rw [calculate] at failed
  cases read : readExpression limit source with
  | error fault =>
      rw [read] at failed
      cases failed
      exact read_expression_points read
  | ok tree =>
      rw [read] at failed
      simp only [Except.mapError, bind, Except.bind] at failed
      split at failed
      · cases failed
        trivial
      · cases failed

/-- Two characters, not four bytes, stand in front of the parenthesis. -/
theorem failure_points_at_parenthesis :
    calculate .native .radians 200 "π×(e" = .error (.parse (.unclosedParenthesis 2)) ∧
      "π×(e".toList[2]? = some '(' := by
  have failed : calculate .native .radians 200 "π×(e" =
      .error (.parse (.unclosedParenthesis 2)) := by cbv
  exact ⟨failed, failure_points_into_source _ _ _ _ _ failed⟩

end Calculator
