import Calculator.Proofs.Reading

/-!
# Limit and depth

The limit counts how often reading nests: behind a minus, in an exponent, in an argument.
The operators of a sum or product and the factorials of an operand are read in loops and
are not counted, so a tree within the limit can still be arbitrarily deep. Its depth is
bounded by the limit and the longest run of steps that are not counted.
-/

namespace Calculator

namespace Expression

/-- The largest number of levels on a path from the root, the first one included. -/
def levels : Expression → Nat
  | .number _ | .constant _ => 1
  | .unary .negate operand => 1 + operand.levels
  | .unary .factorial operand => operand.levels
  | .binary operator left right =>
      max left.levels (if operator = .power then 1 + right.levels else right.levels)
  | .call _ argument => 1 + argument.levels

/-- The largest number of nodes on a path from the root that stays on its level. -/
def run : Expression → Nat
  | .number _ | .constant _ | .unary .negate _ | .call _ _ => 1
  | .unary .factorial operand => 1 + operand.run
  | .binary operator left right => 1 + max left.run (if operator = .power then 0 else right.run)

/-- The longest run from any node of a tree. -/
def chain : Expression → Nat
  | .number _ | .constant _ => 1
  | .unary operator operand => max (run (.unary operator operand)) operand.chain
  | .binary operator left right =>
      max (run (.binary operator left right)) (max left.chain right.chain)
  | .call _ argument => argument.chain

variable {tree : Expression} {longest : Nat}

theorem run_pos (tree : Expression) : 1 ≤ tree.run := by
  unfold run
  split <;> omega

theorem run_le_chain (tree : Expression) : tree.run ≤ tree.chain := by
  induction tree with
  | number | constant => exact Nat.le_refl 1
  | unary | binary => exact Nat.le_max_left _ _
  | call _ argument ih => exact Nat.le_trans argument.run_pos ih

theorem depth_le_size (tree : Expression) : tree.depth ≤ tree.size := by
  induction tree with
  | number | constant => exact Nat.le_refl 1
  | unary _ _ ih | call _ _ ih => exact Nat.add_le_add_left ih 1
  | binary _ _ _ leftIh rightIh => simp only [depth, size]; omega

/-- A run that leaves its level starts another one, no longer than the longest. -/
theorem depth_add_le (within : tree.chain ≤ longest) :
    tree.depth + longest ≤ tree.levels * longest + tree.run := by
  induction tree with
  | number | constant => simp [depth, levels, run, Nat.add_comm]
  | unary operator operand ih =>
      have inner := ih (Nat.le_trans (Nat.le_max_right _ _) within)
      cases operator with
      | negate =>
          have short := Nat.le_trans operand.run_le_chain
            (Nat.le_trans (Nat.le_max_right _ _) within)
          simp only [depth, levels, run, Nat.add_mul]
          omega
      | factorial =>
          simp only [depth, levels, run]
          omega
  | binary operator left right leftIh rightIh =>
      obtain ⟨leftWithin, rightWithin⟩ := Nat.max_le.mp (Nat.le_trans (Nat.le_max_right _ _) within)
      have leftInner := leftIh leftWithin
      have rightInner := rightIh rightWithin
      have short := Nat.le_trans right.run_le_chain rightWithin
      simp only [depth, levels, run, ← Nat.mul_max_mul_right]
      split
      · rw [Nat.add_mul]
        omega
      · omega
  | call function argument ih =>
      have inner := ih within
      have short := Nat.le_trans argument.run_le_chain within
      simp only [depth, levels, run, Nat.add_mul]
      omega

theorem depth_le_levels_mul_chain (tree : Expression) :
    tree.depth ≤ tree.levels * tree.chain := by
  have bound := depth_add_le (Nat.le_refl tree.chain)
  have short := tree.run_le_chain
  omega

end Expression

variable {phrase : Phrase} {tokens : List Token} {tree : Expression} {level limit : Nat}
  {lexemes : List Lexeme}

/-- A derivation pays for every level of its tree. A phrase that binds tighter than a sign
has not yet paid for the one it stands on. -/
theorem derives_levels (derivation : Derives phrase tokens tree level) :
    tree.levels ≤ match phrase with
      | .sum | .product | .signed => level
      | .power | .factorials | .primary => level + 1 := by
  induction derivation with
  | term _ ih | factor _ ih | unsigned _ ih | base _ ih | plain _ ih | factorial _ ih => exact ih
  | join joins _ _ leftIh rightIh =>
      -- No operation of a sum or a product opens a level for its right operand.
      cases joins <;> simp only [Expression.levels, reduceCtorEq, if_false] at * <;> omega
  | raised _ _ baseIh exponentIh =>
      simp only [Expression.levels, if_true] at *
      omega
  | negation _ ih | call _ _ ih =>
      simp only [Expression.levels] at *
      omega
  | group _ ih => exact Nat.le_succ_of_le ih
  | number | constant => exact Nat.le_refl 1

theorem derives_size (derivation : Derives phrase tokens tree level) :
    tree.size ≤ tokens.length := by
  induction derivation with
  | term _ ih | factor _ ih | unsigned _ ih | base _ ih | plain _ ih => exact ih
  | join _ _ _ leftIh rightIh | raised _ _ leftIh rightIh =>
      simp only [Expression.size, List.length_append, List.length_cons]
      omega
  | negation _ ih | factorial _ ih | call _ _ ih | group _ ih =>
      simp only [Expression.size, List.length_append, List.length_cons, List.length_nil]
      omega
  | number | constant => exact Nat.le_refl 1

/-- A tree that is read within a limit has no more levels than the limit allows. It is no
deeper than the limit times its longest run, and never deeper than it has tokens. -/
theorem parsed_depth_le (parsed : parse lexemes limit = .ok tree) :
    tree.levels ≤ limit ∧ tree.depth ≤ limit * tree.chain ∧
      tree.depth ≤ (contents lexemes).length := by
  obtain ⟨level, within, derivation⟩ := parse_iff_derives.mp parsed
  have levels := Nat.le_trans (derives_levels derivation) within
  refine ⟨levels, ?_, Nat.le_trans tree.depth_le_size (derives_size derivation)⟩
  exact Nat.le_trans tree.depth_le_levels_mul_chain (Nat.mul_le_mul_right _ levels)

/-- In `e+e!!-e^-e` the power takes three levels, and the first level alone is five nodes
deep. -/
theorem parsed_depth_le_factorials :
    let tree : Expression := .binary .subtract
      (.binary .add (.constant .e) (.unary .factorial (.unary .factorial (.constant .e))))
      (.binary .power (.constant .e) (.unary .negate (.constant .e)))
    tree.levels = 3 ∧ tree.chain = 5 ∧ tree.depth = 5 ∧ tree.depth ≤ 3 * tree.chain := by
  intro tree
  have leaf : Derives .signed [.name "e"] (.constant .e) 1 :=
    (Derives.constant rfl).primary_signed
  have factorials : Derives .product [.name "e", .factorial, .factorial]
      (.unary .factorial (.unary .factorial (.constant .e))) 1 :=
    .factor (.unsigned (.base (.factorial (.factorial (.plain (.constant rfl))))))
  have power : Derives .product [.name "e", .power, .minus, .name "e"]
      (.binary .power (.constant .e) (.unary .negate (.constant .e))) 3 :=
    .factor (.unsigned (.raised (.plain (.constant rfl)) (.negation leaf)))
  have parsed : parse [⟨.name "e", "e", 0⟩, ⟨.plus, "+", 1⟩, ⟨.name "e", "e", 2⟩,
      ⟨.factorial, "!", 3⟩, ⟨.factorial, "!", 4⟩, ⟨.minus, "-", 5⟩, ⟨.name "e", "e", 6⟩,
      ⟨.power, "^", 7⟩, ⟨.minus, "-", 8⟩, ⟨.name "e", "e", 9⟩] 3 = .ok tree :=
    parse_iff_derives.mpr ⟨3, Nat.le_refl 3,
      .join .minus (.join .plus (.term (.factor leaf)) factorials) power⟩
  exact ⟨rfl, rfl, rfl, (parsed_depth_le parsed).2.1⟩

/-- Sums of any length are derived at the first level. -/
theorem deep_sum_derives (count : Nat) :
    ∃ tokens tree, Derives .sum tokens tree 1 ∧ tree.depth = count + 1 := by
  have operand : Derives .product [.name "e"] (.constant .e) 1 :=
    .factor (Derives.constant rfl).primary_signed
  induction count with
  | zero => exact ⟨_, _, .term operand, rfl⟩
  | succ count ih =>
      obtain ⟨tokens, tree, derivation, deep⟩ := ih
      refine ⟨_, _, .join .plus derivation operand, ?_⟩
      simp only [Expression.depth, deep]
      omega

/-- No function of the limit bounds the depth of what is parsed within it. -/
theorem depth_unbounded_within_limit : ¬∃ bound : Nat → Nat, ∀ limit lexemes tree,
    parse lexemes limit = .ok tree → tree.depth ≤ bound limit := by
  rintro ⟨bound, bounded⟩
  obtain ⟨tokens, tree, derivation, deep⟩ := deep_sum_derives (bound 1)
  obtain ⟨lexemes, rfl⟩ := exists_contents derivation.finish_not_mem
  have parsed := parse_iff_derives.mpr ⟨1, Nat.le_refl 1, derivation⟩
  have within := bounded 1 lexemes tree parsed
  omega

end Calculator
