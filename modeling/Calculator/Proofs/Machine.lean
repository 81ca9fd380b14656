import Calculator.Expression.Listing
import Calculator.Proofs.Binary64
import Calculator.Proofs.Evaluation

/-!
# Evaluation is a run of a stack machine

A tree is evaluated as a stack machine runs its listing: operands first, each instruction on
the latest values. The machine stops where an operation fails or its value is not finite, and
the subtree listed at this place is the first of all that has no value. Its fault is the one
that evaluation reports, so instructions behind it have no part in the outcome.
-/

namespace Calculator

/-- What an instruction makes of the latest values, and the values that it leaves alone.
Nothing if the stack holds too few. -/
def Instruction.compute? (library : Elementary) (mode : AngleMode) :
    Instruction → List Float → Option (Except EvalError Float × List Float)
  | .number value, stack => some (.ok value, stack)
  | .constant named, stack => some (.ok named.value, stack)
  | .unary operator, operand :: stack => some (operator.apply operand, stack)
  | .binary operator, right :: left :: stack => some (operator.apply library left right, stack)
  | .call function, argument :: stack => some (function.apply library mode argument, stack)
  | _, _ => none

namespace Machine

/-- Why the machine stops: an operation failed, or its value is not finite. -/
inductive Cause
  | refused (error : EvalError)
  | notFinite
deriving DecidableEq, Repr

/-- What evaluation reports if the machine stops at the root of a subtree. -/
def Cause.error (subtree : Expression) : Cause → EvalError
  | .refused error => error
  | .notFinite => .domain (.notFinite subtree)

/-- A run ends with a stack, or before the instruction with some number is done. -/
inductive Ending
  | finished (stack : List Float)
  | stopped (step : Nat) (cause : Cause)
  | starved (step : Nat)
deriving DecidableEq, Repr

/-- Lets finite values pass. -/
def check : Except EvalError Float → Except Cause Float
  | .error error => .error (.refused error)
  | .ok value => if Binary64.isFinite value then .ok value else .error .notFinite

/-- Runs instructions, the first of which has the number `step`. -/
def run (library : Elementary) (mode : AngleMode) :
    (step : Nat) → List Instruction → (stack : List Float) → Ending
  | _, [], stack => .finished stack
  | step, instruction :: rest, stack =>
      match instruction.compute? library mode stack with
      | none => .starved step
      | some (outcome, others) =>
          match check outcome with
          | .ok value => run library mode (step + 1) rest (value :: others)
          | .error cause => .stopped step cause

end Machine

namespace Expression

/-- The instruction for the root of a tree. -/
def root : Expression → Instruction
  | .number value => .number value
  | .constant named => .constant named
  | .unary operator _ => .unary operator
  | .binary operator _ _ => .binary operator
  | .call function _ => .call function

def operands : Expression → List Expression
  | .number _ | .constant _ => []
  | .unary _ operand => [operand]
  | .binary _ left right => [left, right]
  | .call _ argument => [argument]

/-- The subtrees in the order in which their roots are listed. -/
def postorder : Expression → List Expression
  | .number value => [.number value]
  | .constant named => [.constant named]
  | .unary operator operand => operand.postorder ++ [.unary operator operand]
  | .binary operator left right =>
      left.postorder ++ right.postorder ++ [.binary operator left right]
  | .call function argument => argument.postorder ++ [.call function argument]

theorem postorder_roots (tree : Expression) : tree.postorder.map root = tree.listing := by
  induction tree with
  | number | constant => rfl
  | unary operator operand ih | call operator operand ih =>
      simp only [postorder, listing, List.map_append, ih]
      rfl
  | binary operator left right leftIh rightIh =>
      simp only [postorder, listing, List.map_append, leftIh, rightIh]
      rfl

theorem mem_postorder_self (tree : Expression) : tree ∈ tree.postorder := by
  cases tree <;> simp [postorder]

end Expression

namespace Machine

variable {library : Elementary} {mode : AngleMode} {tree inner subtree : Expression}
  {front others before : List Expression} {values otherValues : List Float} {value : Float}
  {outcome : Except EvalError Float} {cause : Cause} {start : Nat}

theorem check_settles (tree : Expression) (outcome : Except EvalError Float) :
    outcome >>= tree.requireFinite = (check outcome).mapError fun cause => cause.error tree := by
  cases outcome with
  | error error => rfl
  | ok value =>
      have settled : Except.ok value >>= tree.requireFinite = tree.requireFinite value := rfl
      rw [settled, check]
      by_cases finite : Binary64.isFinite value
      · rw [require_finite_ok finite, if_pos finite]
        rfl
      · rw [require_finite_error finite, if_neg finite]
        rfl

/-- The listed trees have values, and running their roots adds `values` to any stack. -/
structure Ready (library : Elementary) (mode : AngleMode) (front : List Expression)
    (values : List Float) : Prop where
  settled : ∀ tree ∈ front, ∃ value, tree.evaluate library mode = .ok value
  runs : ∀ start rest stack,
    run library mode start (front.map Expression.root ++ rest) stack =
      run library mode (start + front.length) rest (values ++ stack)
  builds : ∀ rest stack, ∃ trees,
    Expression.buildAll? (front.map Expression.root ++ rest) stack =
      Expression.buildAll? rest trees

/-- The machine stops at the root of `subtree`, in front of which the roots of `before` are
listed. -/
structure StopsAt (library : Elementary) (mode : AngleMode) (tree : Expression)
    (before : List Expression) (cause : Cause) (subtree : Expression) : Prop where
  placed : before ++ [subtree] <+: tree.postorder
  settled : ∀ earlier ∈ before, ∃ value, earlier.evaluate library mode = .ok value
  operands : ∀ operand ∈ subtree.operands, ∃ value, operand.evaluate library mode = .ok value
  fails : subtree.evaluate library mode = .error (cause.error subtree)
  reported : tree.evaluate library mode = .error (cause.error subtree)
  stops : ∀ start rest stack,
    run library mode start ((before ++ [subtree]).map Expression.root ++ rest) stack =
      .stopped (start + before.length) cause
  builds : ∀ stack, ∃ trees,
    Expression.buildAll? ((before ++ [subtree]).map Expression.root) stack =
      some (subtree :: trees)

theorem ready_nil : Ready library mode [] [] where
  settled := by simp
  runs := fun _ _ _ => rfl
  builds := fun _ stack => ⟨stack, rfl⟩

theorem ready_append (ready : Ready library mode front values)
    (further : Ready library mode others otherValues) :
    Ready library mode (front ++ others) (otherValues ++ values) where
  settled := fun tree member =>
    (List.mem_append.mp member).elim (ready.settled tree) (further.settled tree)
  runs := by
    intro start rest stack
    rw [List.map_append, List.append_assoc, ready.runs, further.runs, List.length_append,
      Nat.add_assoc, List.append_assoc]
  builds := by
    intro rest stack
    obtain ⟨trees, built⟩ :=
      ready.builds (others.map Expression.root ++ rest) stack
    obtain ⟨allTrees, allBuilt⟩ := further.builds rest trees
    exact ⟨allTrees, by rw [List.map_append, List.append_assoc, built, allBuilt]⟩

/-- Where a part of a tree stops, the tree stops, if everything listed before it is ready. -/
theorem stops_lift {after : List Expression} (ready : Ready library mode front values)
    (stops : StopsAt library mode inner before cause subtree)
    (ordered : tree.postorder = front ++ (inner.postorder ++ after))
    (failed : ∀ error, inner.evaluate library mode = .error error →
      tree.evaluate library mode = .error error) :
    StopsAt library mode tree (front ++ before) cause subtree where
  placed := by
    rw [ordered, List.append_assoc]
    exact List.prefix_append_right_inj front |>.mpr
      (stops.placed.trans (List.prefix_append _ _))
  settled := fun tree member =>
    (List.mem_append.mp member).elim (ready.settled tree) (stops.settled tree)
  operands := stops.operands
  fails := stops.fails
  reported := failed _ stops.reported
  stops := by
    intro start rest stack
    rw [List.append_assoc, List.map_append, List.append_assoc, ready.runs, stops.stops,
      List.length_append, Nat.add_assoc]
  builds := by
    intro stack
    obtain ⟨trees, built⟩ := ready.builds ((before ++ [subtree]).map Expression.root) stack
    rw [List.append_assoc, List.map_append, built]
    exact stops.builds trees

/-- A tree has a value with which the machine goes on, or the machine stops in it. -/
def Settles (library : Elementary) (mode : AngleMode) (tree : Expression) : Prop :=
  (∃ value, tree.evaluate library mode = .ok value ∧
    Ready library mode tree.postorder [value]) ∨
  ∃ before cause subtree, StopsAt library mode tree before cause subtree

/-- Once all its operands are ready, a tree settles by the instruction of its root. -/
theorem root_settles (ready : Ready library mode front values)
    (ordered : tree.postorder = front ++ [tree])
    (operands : ∀ operand ∈ tree.operands, operand ∈ front)
    (computed : ∀ stack, tree.root.compute? library mode (values ++ stack) =
      some (outcome, stack))
    (evaluated : tree.evaluate library mode = outcome >>= tree.requireFinite) :
    Settles library mode tree := by
  have built : ∀ rest stack,
      Expression.buildAll? ((front ++ [tree]).map Expression.root ++ rest) stack =
        Expression.buildAll? rest (tree :: stack) := by
    intro rest stack
    rw [← ordered, tree.postorder_roots, tree.build_all_listing]
  have ran : ∀ start rest stack,
      run library mode start ((front ++ [tree]).map Expression.root ++ rest) stack =
        match check outcome with
        | .ok value => run library mode (start + front.length + 1) rest (value :: stack)
        | .error cause => .stopped (start + front.length) cause := by
    intro start rest stack
    rw [List.map_append, List.append_assoc, ready.runs, List.map_singleton,
      List.singleton_append, run, computed]
  rw [check_settles] at evaluated
  cases checked : check outcome with
  | ok value =>
      have found : tree.evaluate library mode = .ok value := by
        rw [evaluated, checked]
        rfl
      refine .inl ⟨value, found, ?_⟩
      rw [ordered]
      exact {
        settled := by
          intro earlier member
          rcases List.mem_append.mp member with listed | last
          · exact ready.settled earlier listed
          · exact ⟨value, List.mem_singleton.mp last ▸ found⟩
        runs := by
          intro start rest stack
          rw [ran, checked, List.length_append]
          rfl
        builds := fun rest stack => ⟨_, built rest stack⟩ }
  | error cause =>
      have failed : tree.evaluate library mode = .error (cause.error tree) := by
        rw [evaluated, checked]
        rfl
      refine .inr ⟨front, cause, tree, ?_⟩
      exact {
        placed := ⟨[], by rw [ordered, List.append_nil]⟩
        settled := ready.settled
        operands := fun operand member => ready.settled operand (operands operand member)
        fails := failed
        reported := failed
        stops := by
          intro start rest stack
          rw [ran, checked]
        builds := by
          intro stack
          have whole := built [] stack
          rw [List.append_nil] at whole
          exact ⟨stack, whole⟩ }

theorem tree_settles (library : Elementary) (mode : AngleMode) (tree : Expression) :
    Settles library mode tree := by
  induction tree with
  | number value =>
      exact root_settles ready_nil rfl (by simp [Expression.operands]) (fun _ => rfl) rfl
  | constant named =>
      exact root_settles ready_nil rfl (by simp [Expression.operands]) (fun _ => rfl) rfl
  | unary operator operand ih =>
      rcases ih with ⟨value, evaluated, ready⟩ | ⟨before, cause, subtree, stops⟩
      · apply root_settles ready rfl
        · simp [Expression.operands, operand.mem_postorder_self]
        · exact fun _ => rfl
        · simp only [Expression.evaluate, evaluated]
          rfl
      · refine .inr ⟨_, cause, subtree, stops_lift ready_nil stops rfl fun error failed => ?_⟩
        simp only [Expression.evaluate, failed]
        rfl
  | call function argument ih =>
      rcases ih with ⟨value, evaluated, ready⟩ | ⟨before, cause, subtree, stops⟩
      · apply root_settles ready rfl
        · simp [Expression.operands, argument.mem_postorder_self]
        · exact fun _ => rfl
        · simp only [Expression.evaluate, evaluated]
          rfl
      · refine .inr ⟨_, cause, subtree, stops_lift ready_nil stops rfl fun error failed => ?_⟩
        simp only [Expression.evaluate, failed]
        rfl
  | binary operator left right leftIh rightIh =>
      rcases leftIh with ⟨leftValue, leftEvaluated, leftReady⟩ | ⟨before, cause, subtree, stops⟩
      · rcases rightIh with
          ⟨rightValue, rightEvaluated, rightReady⟩ | ⟨before, cause, subtree, stops⟩
        · apply root_settles (ready_append leftReady rightReady) rfl
          · simp [Expression.operands, left.mem_postorder_self, right.mem_postorder_self]
          · exact fun _ => rfl
          · simp only [Expression.evaluate, leftEvaluated, rightEvaluated]
            rfl
        · refine .inr ⟨_, cause, subtree,
            stops_lift leftReady stops (List.append_assoc _ _ _) fun error failed => ?_⟩
          simp only [Expression.evaluate, leftEvaluated, failed]
          rfl
      · refine .inr ⟨_, cause, subtree,
          stops_lift ready_nil stops (List.append_assoc _ _ _) fun error failed => ?_⟩
        simp only [Expression.evaluate, failed]
        rfl

/-! Where the machine stops -/

theorem placed_in_order (placed : before ++ [subtree] <+: tree.postorder) :
    tree.postorder[before.length]? = some subtree ∧
      tree.postorder.take before.length = before ∧
      tree.listing.take (before.length + 1) = (before ++ [subtree]).map Expression.root := by
  obtain ⟨after, order⟩ := placed
  have reached : ((before ++ [subtree]).map Expression.root).length = before.length + 1 := by
    simp
  refine ⟨?_, ?_, ?_⟩
  · rw [← order]
    simp
  · rw [← order, List.append_assoc]
    exact List.take_left
  · rw [← tree.postorder_roots, ← order, List.map_append]
    exact List.take_left' reached

theorem ready_finishes (ready : Ready library mode tree.postorder values) :
    run library mode 0 tree.listing [] = .finished values := by
  have ran := ready.runs 0 [] []
  rwa [tree.postorder_roots, List.append_nil, List.append_nil] at ran

theorem stops_stopped (stops : StopsAt library mode tree before cause subtree) :
    run library mode 0 tree.listing [] = .stopped before.length cause := by
  obtain ⟨after, order⟩ := stops.placed
  rw [← tree.postorder_roots, ← order, List.map_append, stops.stops, Nat.zero_add]

/-- A run that stops has a subtree at fault, and it is the one listed there. -/
theorem stopped_stops {step : Nat}
    (stopped : run library mode 0 tree.listing [] = .stopped step cause)
    (reached : tree.postorder[step]? = some subtree) :
    ∃ before, before.length = step ∧ StopsAt library mode tree before cause subtree := by
  rcases tree_settles library mode tree with ⟨value, _, ready⟩ | ⟨before, found, fault, stops⟩
  · rw [ready_finishes ready] at stopped
    cases stopped
  · rw [stops_stopped stops] at stopped
    obtain ⟨rfl, rfl⟩ := Ending.stopped.inj stopped
    obtain ⟨placed, _⟩ := placed_in_order stops.placed
    obtain rfl := Option.some.inj (placed.symm.trans reached)
    exact ⟨before, rfl, stops⟩

/-- Two listings that are the same up to the place where one stops have the same outcome. -/
theorem stops_same {other : Expression}
    (stops : StopsAt library mode tree before cause subtree)
    (same : other.listing.take (before.length + 1) = tree.listing.take (before.length + 1)) :
    other.evaluate library mode = .error (cause.error subtree) := by
  obtain ⟨_, _, listed⟩ := placed_in_order stops.placed
  have stopped : run library mode 0 other.listing [] = .stopped before.length cause := by
    rw [← List.take_append_drop (before.length + 1) other.listing, same, listed, stops.stops,
      Nat.zero_add]
  rcases tree_settles library mode other with
    ⟨value, _, ready⟩ | ⟨otherBefore, otherCause, otherSubtree, otherStops⟩
  · rw [ready_finishes ready] at stopped
    contradiction
  · rw [stops_stopped otherStops] at stopped
    obtain ⟨sameLength, rfl⟩ := Ending.stopped.inj stopped
    obtain ⟨_, _, otherListed⟩ := placed_in_order otherStops.placed
    rw [sameLength, same, listed] at otherListed
    obtain ⟨trees, built⟩ := stops.builds []
    obtain ⟨otherTrees, otherBuilt⟩ := otherStops.builds []
    rw [← otherListed, built] at otherBuilt
    obtain ⟨rfl, _⟩ := List.cons.inj (Option.some.inj otherBuilt)
    exact otherStops.reported

end Machine

variable {library : Elementary} {mode : AngleMode} {tree : Expression} {error : EvalError}
  {outcome : Except EvalError Float} {value : Float}

/-- With values for its operands a tree fails by the operation at its root. -/
theorem root_fault
    (operands : ∀ operand ∈ tree.operands, ∃ value, operand.evaluate library mode = .ok value)
    (fails : tree.evaluate library mode = .error error) :
    (∃ fault, error = .domain fault) ∨
      (error = .overflow ∧ ∃ operand, tree = .unary .factorial operand) ∨
      (error = .divisionByZero ∧ ∃ left right value, tree = .binary .divide left right ∧
        right.evaluate library mode = .ok value ∧ Binary64.isZero value) := by
  cases tree with
  | number value =>
      have settled : Except.ok value >>= (Expression.number value).requireFinite =
          .error error := fails
      exact (refused_or_domain settled).imp_right nofun
  | constant named =>
      have settled : Except.ok named.value >>= (Expression.constant named).requireFinite =
          .error error := fails
      exact (refused_or_domain settled).imp_right nofun
  | unary operator operand =>
      obtain ⟨value, evaluated⟩ := operands operand (by simp [Expression.operands])
      simp only [Expression.evaluate, evaluated] at fails
      rcases refused_or_domain fails with domain | refused
      · exact .inl domain
      · exact (unary_refused refused).imp_right fun ⟨factorial, overflow⟩ =>
          .inl ⟨overflow, operand, by rw [factorial]⟩
  | binary operator left right =>
      obtain ⟨leftValue, leftEvaluated⟩ := operands left (by simp [Expression.operands])
      obtain ⟨rightValue, rightEvaluated⟩ := operands right (by simp [Expression.operands])
      simp only [Expression.evaluate, leftEvaluated, rightEvaluated] at fails
      rcases refused_or_domain fails with domain | refused
      · exact .inl domain
      · exact (binary_refused refused).imp_right fun ⟨divide, zero, byZero⟩ =>
          .inr ⟨byZero, left, right, rightValue, by rw [divide], rightEvaluated, zero⟩
  | call function argument =>
      obtain ⟨value, evaluated⟩ := operands argument (by simp [Expression.operands])
      simp only [Expression.evaluate, evaluated] at fails
      exact .inl ((refused_or_domain fails).elim id function_refused)

open Machine

/-- The subtree whose root is listed at `step` is the first that has no value, and what is
listed behind it does not matter. -/
structure FirstFault (library : Elementary) (mode : AngleMode) (tree : Expression) (step : Nat)
    (subtree : Expression) (error : EvalError) : Prop where
  listed : tree.listing[step]? = some subtree.root
  earlier : ∀ other ∈ tree.postorder.take step, ∃ value, other.evaluate library mode = .ok value
  fails : subtree.evaluate library mode = .error error
  byZero : error = .divisionByZero → ∃ left right value, subtree = .binary .divide left right ∧
    right.evaluate library mode = .ok value ∧
      (value.toBits = 0 ∨ value.toBits = 0x8000000000000000)
  overflow : error = .overflow → ∃ operand, subtree = .unary .factorial operand
  alike : ∀ other : Expression, other.listing.take (step + 1) = tree.listing.take (step + 1) →
    other.evaluate library mode = .error error

theorem evaluate_ok_iff_finished : tree.evaluate library mode = .ok value ↔
    run library mode 0 tree.listing [] = .finished [value] := by
  rcases tree_settles library mode tree with ⟨found, evaluated, ready⟩ | ⟨_, _, _, stops⟩
  · rw [evaluated, ready_finishes ready]
    simp
  · rw [stops.reported, stops_stopped stops]
    simp

theorem evaluate_ok_subtrees (evaluated : tree.evaluate library mode = .ok value) :
    ∀ subtree ∈ tree.postorder,
      ∃ found, subtree.evaluate library mode = .ok found ∧ Binary64.isFinite found := by
  rcases tree_settles library mode tree with ⟨_, _, ready⟩ | ⟨_, _, _, stops⟩
  · intro subtree member
    obtain ⟨found, settled⟩ := ready.settled subtree member
    exact ⟨found, settled, evaluate_finite settled⟩
  · rw [stops.reported] at evaluated
    cases evaluated

theorem evaluate_error_iff_stopped : tree.evaluate library mode = .error error ↔
    ∃ step cause subtree, run library mode 0 tree.listing [] = .stopped step cause ∧
      tree.postorder[step]? = some subtree ∧ cause.error subtree = error := by
  constructor
  · intro failed
    rcases tree_settles library mode tree with ⟨_, evaluated, _⟩ | ⟨before, cause, subtree, stops⟩
    · rw [evaluated] at failed
      cases failed
    · obtain ⟨reached, _⟩ := placed_in_order stops.placed
      have same := Except.error.inj (stops.reported.symm.trans failed)
      exact ⟨before.length, cause, subtree, stops_stopped stops, reached, same⟩
  · rintro ⟨step, cause, subtree, stopped, reached, rfl⟩
    obtain ⟨_, _, stops⟩ := stopped_stops stopped reached
    exact stops.reported

theorem stopped_first_fault {step : Nat} {cause : Cause} {subtree : Expression}
    (stopped : run library mode 0 tree.listing [] = .stopped step cause)
    (reached : tree.postorder[step]? = some subtree) :
    FirstFault library mode tree step subtree (cause.error subtree) := by
  obtain ⟨before, rfl, stops⟩ := stopped_stops stopped reached
  obtain ⟨_, before_taken, _⟩ := placed_in_order stops.placed
  have fault := root_fault stops.operands stops.fails
  exact {
    listed := by
      rw [← tree.postorder_roots, List.getElem?_map, reached]
      rfl
    earlier := by
      rw [before_taken]
      exact stops.settled
    fails := stops.fails
    byZero := by
      intro byZero
      rw [byZero] at fault
      rcases fault with ⟨_, domain⟩ | ⟨overflow, _⟩ | ⟨_, left, right, value, divides, found, zero⟩
      · cases domain
      · cases overflow
      · exact ⟨left, right, value, divides, found, Binary64.zero_bits zero⟩
    overflow := by
      intro overflow
      rw [overflow] at fault
      rcases fault with ⟨_, domain⟩ | ⟨_, factorial⟩ | ⟨byZero, _⟩
      · cases domain
      · exact factorial
      · cases byZero
    alike := fun other same => stops_same stops same }

/-- Evaluation is the run of the machine on the listing of the tree. There is a value exactly
where the run ends with this value alone, and then every subtree has a finite value. There
is a failure exactly where the run stops, and it is the fault of the subtree whose root is
listed at this place, the first of all that fails. -/
theorem evaluation_runs_listing (library : Elementary) (mode : AngleMode) (tree : Expression) :
    (∀ value, tree.evaluate library mode = .ok value ↔
      run library mode 0 tree.listing [] = .finished [value]) ∧
    (∀ value, tree.evaluate library mode = .ok value → ∀ subtree ∈ tree.postorder,
      ∃ found, subtree.evaluate library mode = .ok found ∧ Binary64.isFinite found) ∧
    (∀ error, tree.evaluate library mode = .error error ↔ ∃ step cause subtree,
      run library mode 0 tree.listing [] = .stopped step cause ∧
        tree.postorder[step]? = some subtree ∧ cause.error subtree = error) ∧
    (∀ subtree, ∃ fault, Cause.notFinite.error subtree = .domain fault ∧
      fault.details = subtree.text ++ " has no finite value") ∧
    ∀ step cause subtree, run library mode 0 tree.listing [] = .stopped step cause →
      tree.postorder[step]? = some subtree →
        FirstFault library mode tree step subtree (cause.error subtree) := by
  refine ⟨fun _ => evaluate_ok_iff_finished, fun _ => evaluate_ok_subtrees,
    fun _ => evaluate_error_iff_stopped, fun subtree => ?_,
    fun _ _ _ stopped reached => stopped_first_fault stopped reached⟩
  exact ⟨.notFinite subtree, rfl, rfl⟩

/-- The quotient fails before the factorial behind it is reached: `1/(e-e)+25!`. -/
theorem evaluation_runs_listing_quotient :
    let tree : Expression := .binary .add
      (.binary .divide (.number 1) (.binary .subtract (.constant .e) (.constant .e)))
      (.unary .factorial (.number 25))
    run .native .degrees 0 tree.listing [] = .stopped 4 (.refused .divisionByZero) ∧
      tree.evaluate .native .degrees = .error .divisionByZero := by
  intro tree
  have stopped : run .native .degrees 0 tree.listing [] =
      .stopped 4 (.refused .divisionByZero) := by
    decide +kernel
  have failed := ((evaluation_runs_listing .native .degrees tree).2.2.1 .divisionByZero).mpr
    ⟨4, .refused .divisionByZero, _, stopped, rfl, rfl⟩
  exact ⟨stopped, failed⟩

end Calculator
