import Calculator.Proofs.Logging

/-!
# Settings may be given anywhere

On the command line a setting is assigned by an option and its value. Which assignments are
made is all that counts: not their order, nor whether they stand in front of the expression
or behind it, nor how option and value are joined. What is assigned wins over the variable of
the environment, which then is not looked at, and the variable wins over the default. The log
does not tell the arrangements apart either.
-/

namespace Calculator.Command

/-- A setting and the text that is given for it. -/
structure Assignment where
  setting : Setting
  value : String
deriving DecidableEq, Repr

/-- An assignment as it is written, with the value in the argument of the option or in the
next one. -/
structure Mention where
  assignment : Assignment
  attached : Bool
deriving DecidableEq, Repr

def Setting.name : Setting → String
  | .file => "file"
  | .angleMode => "angle-mode"
  | .maxDepth => "max-depth"
  | .precision => "precision"

def Setting.option (setting : Setting) : String := "--" ++ setting.name

/-- The assignment is one of a mode, a limit or a number of places, and its text is read. -/
def Assignment.Accepted (assignment : Assignment) : Prop :=
  match assignment.setting with
  | .file => False
  | .angleMode => (angleMode? assignment.value).isSome
  | .maxDepth | .precision => (natural? assignment.value).isSome

def Mention.arguments (written : Mention) : List String :=
  let option := written.assignment.setting.option
  if written.attached then [option ++ "=" ++ written.assignment.value]
  else [option, written.assignment.value]

/-- What is assigned to a setting. -/
def assigned? {α : Type} (assignments : List Assignment) (setting : Setting)
    (read : String → Option α) : Option α :=
  assignments.findSome? fun assignment =>
    if assignment.setting = setting then read assignment.value else none

/-- What is assigned, else what the environment has, else the default. Nothing if the value
from the environment is wanted and refused. -/
def resolve? {α : Type} (assigned : Option α) (exported : Option String)
    (read : String → Option α) (fallback : α) : Option α :=
  match assigned, exported with
  | some value, _ => some value
  | none, some text => read text
  | none, none => some fallback

/-- What assignments and environment come to. -/
def resolved? (environment : Environment) (assignments : List Assignment) : Option Settings := do
  let angleMode ← resolve? (assigned? assignments .angleMode angleMode?) environment.angleMode
    angleMode? .radians
  let maxDepth ← resolve? (assigned? assignments .maxDepth natural?) environment.maxDepth
    natural? defaultDepthLimit
  let precision := (assigned? assignments .precision natural?).getD defaultPrecision
  return { angleMode, maxDepth, precision }

/-- The answer to an expression under assignments and environment. What is logged is the
settings and the steps of the calculation, and a failure once more. -/
def answer (journal : Journal) (directives : Option String) (clock : Nat → Nat)
    (library : Elementary) (environment : Environment) (assignments : List Assignment)
    (expression : String) : Outcome :=
  match resolved? environment assignments with
  | none => { status := 2, output := "", errors := usageText }
  | some settings =>
      let events := .starting settings (.expression expression) ::
        calculationEvents library settings.angleMode settings.maxDepth expression
      match calculate library settings.angleMode settings.maxDepth expression with
      | .ok value =>
          { status := 0
            output := Numeral.result settings.precision value ++ "\n"
            errors := journal.write directives clock (events.map .event) }
      | .error failure =>
          { status := 1
            output := ""
            errors := journal.write directives clock (events.map .event ++
              [.event (.reported expression failure),
                .message (expression ++ ": " ++ failure.message ++ "\n")]) }

variable {library : Elementary} {environment : Environment} {options : Options}
  {assignment : Assignment} {assignments others : List Assignment} {written : Mention}
  {mentions before after : List Mention} {setting : Setting} {value expression : String}

/-! How one assignment is read -/

theorem of_text_option (behind : Bool) (setting : Setting) :
    Argument.ofText behind setting.option = .setting setting none := by
  cases setting <;> revert behind <;> decide

theorem of_text_attached (behind : Bool) (setting : Setting) (value : String) :
    Argument.ofText behind (setting.option ++ "=" ++ value) = .setting setting (some value) := by
  cases setting <;> simp [Argument.ofText, Setting.option, Setting.name, longArgument?, longName]

theorem angle_mode_plain (reads : (angleMode? value).isSome) : value.toList.head? ≠ some '-' := by
  intro dash
  have lowered : (value.map Char.toLower).toList.head? = some '-' := by
    rw [String.toList_map, List.head?_map, dash]
    rfl
  simp only [angleMode?, AngleMode.ofText] at reads
  split at reads
  · simp_all
  · simp_all
  · simp_all
  · simp_all
  · cases reads

theorem natural_plain (reads : (natural? value).isSome) : value.toList.head? ≠ some '-' := by
  intro dash
  obtain ⟨rest, shape⟩ : ∃ rest, value.toList = '-' :: rest := List.head?_eq_some_iff.mp dash
  simp [natural?, shape] at reads

/-- No value that is accepted begins with a dash. -/
theorem accepted_plain (accepted : assignment.Accepted) :
    assignment.value.toList.head? ≠ some '-' := by
  rw [Assignment.Accepted] at accepted
  split at accepted
  · contradiction
  · exact angle_mode_plain accepted
  · exact natural_plain accepted
  · exact natural_plain accepted

/-- The setting has no value so far. -/
def Options.Lacks (options : Options) : Setting → Prop
  | .file => options.file = none
  | .angleMode => options.angleMode = none
  | .maxDepth => options.maxDepth = none
  | .precision => options.precision = none

theorem empty_lacks (setting : Setting) : Options.empty.Lacks setting := by
  cases setting <;> rfl

/-- What was assigned before, and then what is assigned. -/
def Options.assign (options : Options) (assignments : List Assignment) : Options :=
  { options with
    angleMode := options.angleMode.or (assigned? assignments .angleMode angleMode?)
    maxDepth := options.maxDepth.or (assigned? assignments .maxDepth natural?)
    precision := options.precision.or (assigned? assignments .precision natural?) }

theorem assigned_append {α : Type} (assignments others : List Assignment) (setting : Setting)
    (read : String → Option α) :
    assigned? (assignments ++ others) setting read =
      (assigned? assignments setting read).or (assigned? others setting read) :=
  List.findSome?_append

theorem assigned_foreign {α : Type}
    (foreign : ∀ assignment ∈ assignments, assignment.setting ≠ setting)
    (read : String → Option α) : assigned? assignments setting read = none := by
  rw [assigned?, List.findSome?_eq_none_iff]
  intro assignment member
  exact if_neg (foreign assignment member)

theorem assign_append (options : Options) (assignments others : List Assignment) :
    (options.assign assignments).assign others = options.assign (assignments ++ others) := by
  simp only [Options.assign, assigned_append, Option.or_assoc]

theorem lacks_assign (lacks : options.Lacks setting)
    (foreign : ∀ assignment ∈ assignments, assignment.setting ≠ setting) :
    (options.assign assignments).Lacks setting := by
  cases setting with
  | file => exact lacks
  | angleMode | maxDepth | precision =>
      simp only [Options.Lacks, Options.assign] at *
      rw [lacks, assigned_foreign foreign]
      rfl

theorem set_accepted (accepted : assignment.Accepted) (lacks : options.Lacks assignment.setting) :
    options.set assignment.setting assignment.value = .ok (options.assign [assignment]) := by
  obtain ⟨setting, value⟩ := assignment
  cases setting with
  | file => contradiction
  | angleMode | maxDepth | precision =>
      obtain ⟨found, reads⟩ := Option.isSome_iff_exists.mp accepted
      simp only [Options.Lacks] at lacks
      simp only [Options.set, settle_unset lacks reads]
      simp only [Options.assign, assigned?, List.findSome?, lacks, reads, if_pos, reduceCtorEq,
        if_false, Option.or_none, Option.none_or]
      rfl

theorem read_mention_accepted (accepted : written.assignment.Accepted)
    (lacks : options.Lacks written.assignment.setting) (arguments : List String) :
    options.read (written.arguments ++ arguments) =
      (options.assign [written.assignment]).read arguments := by
  have set := set_accepted accepted lacks
  rw [Mention.arguments]
  split
  · rw [List.singleton_append, Options.read]
    simp only [of_text_attached, set]
    rfl
  · rw [List.cons_append, List.singleton_append, Options.read]
    simp only [of_text_option, of_text_plain (accepted_plain accepted), set]
    rfl

/-- Assignments that are made once are read one after another, in front of the expression or
behind it. -/
theorem read_mentions
    (accepted : ∀ assignment ∈ mentions.map Mention.assignment, assignment.Accepted)
    (once : ((mentions.map Mention.assignment).map Assignment.setting).Nodup)
    (lacks : ∀ assignment ∈ mentions.map Mention.assignment, options.Lacks assignment.setting)
    (arguments : List String) :
    options.read (mentions.flatMap Mention.arguments ++ arguments) =
      (options.assign (mentions.map Mention.assignment)).read arguments := by
  induction mentions generalizing options with
  | nil => simp [Options.assign, assigned?]
  | cons written mentions ih =>
      rw [List.map_cons] at accepted once lacks
      rw [List.map_cons, List.nodup_cons] at once
      have later : ∀ assignment ∈ mentions.map Mention.assignment,
          (options.assign [written.assignment]).Lacks assignment.setting := by
        intro assignment member
        apply lacks_assign (lacks assignment (.tail _ member))
        intro first same
        rw [List.mem_singleton.mp same]
        exact fun taken => once.1 (taken ▸ List.mem_map_of_mem member)
      have rest := ih (fun assignment member => accepted assignment (.tail _ member)) once.2 later
      rw [List.flatMap_cons, List.append_assoc,
        read_mention_accepted (accepted _ (.head _)) (lacks _ (.head _)), rest, assign_append]
      rfl

/-- A library that reads no directives. Nothing that is told is grave enough for the filter it
is left with. -/
def Journal.silent : Journal where
  Filter := Unit
  read _ := none
  warnings := ()
  passes _ _ := false
  line _ _ := ""
  grave _ passed := absurd passed Bool.false_ne_true

end Calculator.Command
