import Mathlib.Data.List.Forall2
import Calculator.Proofs.Reading

/-!
# Readers see only what tokens mean

Two lists of lexemes whose tokens mean the same, one by one, are read alike: to the same
tree, or up to the same place. Positions and texts are handed on to the report, and nothing
else is done with them.
-/

namespace Calculator

/-- The same token, or two names with one meaning. -/
inductive Token.Alike : Token → Token → Prop
  | same (token : Token) : Alike token token
  | name {first second : String}
      (function : Function.named? first = Function.named? second)
      (constant : Constant.named? first = Constant.named? second) :
      Alike (.name first) (.name second)

/-- Both outcomes are one tree, or errors of one kind at lexemes with one index. Each error
has the place and the text that its own list has there. -/
inductive SameReading (found others : List Lexeme) :
    Except ParseError Expression → Except ParseError Expression → Prop
  | tree (tree : Expression) : SameReading found others (.ok tree) (.ok tree)
  | unexpected {index : Nat} {lexeme partner : Lexeme} (here : found[index]? = some lexeme)
      (there : others[index]? = some partner) (proper : lexeme.token ≠ .finish) :
      SameReading found others
        (.error (.unexpectedToken lexeme.position lexeme.described))
        (.error (.unexpectedToken partner.position partner.described))
  | unclosed {index : Nat} {lexeme partner : Lexeme} (here : found[index]? = some lexeme)
      (there : others[index]? = some partner) (opening : lexeme.token = .opening) :
      SameReading found others (.error (.unclosedParenthesis lexeme.position))
        (.error (.unclosedParenthesis partner.position))
  | ended {index : Nat} {lexeme partner : Lexeme} (here : found[index]? = some lexeme)
      (there : others[index]? = some partner) (closing : lexeme.token = .finish) :
      SameReading found others (.error (.unexpectedEnd lexeme.position))
        (.error (.unexpectedEnd partner.position))
  | tooComplex (limit : Nat) :
      SameReading found others (.error (.tooComplex limit)) (.error (.tooComplex limit))

/-- Two lexemes that stand for the same at one index. -/
def PairedAt (found others : List Lexeme) (lexeme partner : Lexeme) : Prop :=
  lexeme.token.Alike partner.token ∧
    ∃ index : Nat, found[index]? = some lexeme ∧ others[index]? = some partner

/-- The faults are of one kind and speak of lexemes that belong together. -/
inductive Fault.Alike (paired : Lexeme → Lexeme → Prop) : Fault → Fault → Prop
  | unexpected {lexeme partner : Lexeme} (pair : paired lexeme partner)
      (proper : lexeme.token ≠ .finish) :
      Alike paired (.unexpected lexeme) (.unexpected partner)
  | unclosed {lexeme partner : Lexeme} (pair : paired lexeme partner)
      (opening : lexeme.token = .opening) :
      Alike paired (.unclosed lexeme.position) (.unclosed partner.position)
  | ended {lexeme partner : Lexeme} (pair : paired lexeme partner)
      (closing : lexeme.token = .finish) :
      Alike paired (.ended (some lexeme.position)) (.ended (some partner.position))
  | exhausted : Alike paired (.ended none) (.ended none)
  | tooDeep : Alike paired .tooDeep .tooDeep

/-- Both replies have the same tree and leave lexemes that belong together, or both have
faults that are alike. -/
inductive Reply.Alike (paired : Lexeme → Lexeme → Prop) {input other : List Lexeme} :
    Reply input → Reply other → Prop
  | done {tree : Expression} {rest otherRest : List Lexeme}
      {shorter : rest.length < input.length} {otherShorter : otherRest.length < other.length}
      (pairs : List.Forall₂ paired rest otherRest) :
      Alike paired (.done tree rest shorter) (.done tree otherRest otherShorter)
  | failed {fault otherFault : Fault} {rest otherRest : List Lexeme} {entered otherEntered : Nat}
      (alike : fault.Alike paired otherFault) :
      Alike paired (.failed fault rest entered) (.failed otherFault otherRest otherEntered)

variable {paired : Lexeme → Lexeme → Prop} {lexeme partner : Lexeme}
  {input other inner otherInner rest otherRest : List Lexeme}

namespace Reply

variable {reply : Reply inner} {otherReply : Reply otherInner}

theorem alike_and_then
    {next : Expression → (rest : List Lexeme) → rest.length < inner.length → Reply input}
    {otherNext : Expression → (rest : List Lexeme) → rest.length < otherInner.length →
      Reply other}
    (alike : reply.Alike paired otherReply)
    (continued : ∀ tree rest otherRest shorter otherShorter,
      List.Forall₂ paired rest otherRest →
        (next tree rest shorter).Alike paired (otherNext tree otherRest otherShorter)) :
    (reply.andThen next).Alike paired (otherReply.andThen otherNext) := by
  cases alike with
  | done pairs => exact continued _ _ _ _ _ pairs
  | failed alike => exact .failed alike

theorem alike_within {wrap : Expression → Expression} {part : inner.length ≤ input.length}
    {otherPart : otherInner.length ≤ other.length} (alike : reply.Alike paired otherReply) :
    (reply.within wrap part).Alike paired (otherReply.within wrap otherPart) :=
  alike_and_then alike fun _ _ _ _ _ pairs => .done pairs

theorem alike_enter (alike : reply.Alike paired otherReply) :
    reply.enter.Alike paired otherReply.enter := by
  cases alike with
  | done pairs => exact .done pairs
  | failed alike => exact .failed alike

end Reply

namespace Grammar

open Reply

variable {operator? : Token → Option BinaryOperator} {read inside exponent : Reader}

/-- Of lexemes that belong together the reader makes the same. -/
def Uniform (paired : Lexeme → Lexeme → Prop) (read : Reader) : Prop :=
  ∀ input other, List.Forall₂ paired input other → (read input).Alike paired (read other)

/-- Names stand for no operation. -/
def Nameless (operator? : Token → Option BinaryOperator) : Prop :=
  ∀ name, operator? (.name name) = none

theorem nameless_alike {first second : Token} (nameless : Nameless operator?)
    (alike : first.Alike second) : operator? first = operator? second := by
  cases alike with
  | same => rfl
  | name => rw [nameless, nameless]

section Pairs

variable (meaning : ∀ lexeme partner, paired lexeme partner →
  lexeme.token.Alike partner.token)
include meaning

theorem misplaced_alike (pairs : List.Forall₂ paired input other) :
    (misplaced input).Alike paired (misplaced other) := by
  cases pairs with
  | nil => exact .exhausted
  | @cons lexeme partner _ _ pair _ =>
      have alike := meaning _ _ pair
      obtain ⟨token, text, position⟩ := lexeme
      obtain ⟨otherToken, otherText, otherPosition⟩ := partner
      cases alike with
      | name => exact .unexpected pair nofun
      | same =>
          cases token with
          | finish => exact .ended pair rfl
          | _ => exact .unexpected pair nofun

theorem extend_alike (nameless : Nameless operator?) (uniform : Uniform paired read)
    (left : Expression) (shorter : rest.length < input.length)
    (otherShorter : otherRest.length < other.length) (pairs : List.Forall₂ paired rest otherRest) :
    (extend operator? read left rest shorter).Alike paired
      (extend operator? read left otherRest otherShorter) := by
  fun_induction extend operator? read left rest shorter generalizing otherRest with
  | case1 left shorter =>
      cases pairs
      rw [extend]
      exact .done .nil
  | case2 left lexeme after shorter none =>
      obtain _ | @⟨_, partner, _, otherAfter, pair, further⟩ := pairs
      have same := nameless_alike nameless (meaning _ _ pair)
      rw [none] at same
      rw [extend]
      simp only [← same]
      exact .done (.cons pair further)
  | case3 left lexeme after shorter operator found _ ih =>
      obtain _ | @⟨_, partner, _, otherAfter, pair, further⟩ := pairs
      have same := nameless_alike nameless (meaning _ _ pair)
      rw [found] at same
      rw [extend]
      simp only [← same]
      refine alike_and_then (uniform after otherAfter further) ?_
      intro right next otherNext progress otherProgress pairs
      exact ih right next progress _ pairs

theorem chain_uniform (nameless : Nameless operator?) (uniform : Uniform paired read) :
    Uniform paired (chain operator? read) := fun input other pairs =>
  alike_and_then (uniform input other pairs) fun left _ _ shorter otherShorter pairs =>
    extend_alike meaning nameless uniform left shorter otherShorter pairs

theorem sum_uniform (uniform : Uniform paired read) : Uniform paired (sum read) :=
  chain_uniform meaning (fun _ => rfl) (chain_uniform meaning (fun _ => rfl) uniform)

theorem close_alike (pair : paired lexeme partner) (opening : lexeme.token = .opening)
    (tree : Expression) (shorter : rest.length < input.length)
    (otherShorter : otherRest.length < other.length) (pairs : List.Forall₂ paired rest otherRest) :
    (close lexeme.position tree rest shorter).Alike paired
      (close partner.position tree otherRest otherShorter) := by
  cases pairs with
  | nil => exact .failed (.unclosed pair opening)
  | @cons next otherNext _ _ following pairs =>
      have alike := meaning _ _ following
      obtain ⟨token, text, position⟩ := next
      obtain ⟨otherToken, otherText, otherPosition⟩ := otherNext
      cases alike with
      | name => exact .failed (.unexpected following nofun)
      | same =>
          cases token with
          | closing => exact .done pairs
          | finish => exact .failed (.unclosed pair opening)
          | _ => exact .failed (.unexpected following nofun)

theorem group_uniform (uniform : Uniform paired inside) : Uniform paired (group inside) := by
  intro input other pairs
  cases pairs with
  | nil => exact .failed .exhausted
  | @cons lexeme partner after otherAfter pair pairs =>
      have misplaced := misplaced_alike meaning (.cons pair pairs)
      have alike := meaning _ _ pair
      obtain ⟨token, text, position⟩ := lexeme
      obtain ⟨otherToken, otherText, otherPosition⟩ := partner
      cases alike with
      | name => exact .failed misplaced
      | same =>
          cases token with
          | opening =>
              simp only [group]
              refine alike_within (alike_and_then (uniform after otherAfter pairs) ?_)
              intro tree _ _ shorter otherShorter pairs
              exact close_alike meaning pair rfl tree shorter otherShorter pairs
          | _ => exact .failed misplaced

theorem primary_uniform (uniform : Uniform paired inside) : Uniform paired (primary inside) := by
  have groups := group_uniform meaning uniform
  intro input other pairs
  cases pairs with
  | nil => exact groups [] [] .nil
  | @cons lexeme partner after otherAfter pair pairs =>
      have misplaced := misplaced_alike meaning (.cons pair pairs)
      have alike := meaning _ _ pair
      obtain ⟨token, text, position⟩ := lexeme
      obtain ⟨otherToken, otherText, otherPosition⟩ := partner
      -- Names with one meaning take the same branch, and so does one name.
      have named : ∀ {name otherName : String}, token = .name name →
          otherToken = .name otherName → Function.named? name = Function.named? otherName →
          Constant.named? name = Constant.named? otherName →
          (primary inside (⟨token, text, position⟩ :: after)).Alike paired
            (primary inside (⟨otherToken, otherText, otherPosition⟩ :: otherAfter)) := by
        rintro name otherName rfl rfl function constant
        simp only [primary, function, constant]
        split
        · exact alike_within (groups after otherAfter pairs)
        · exact .done pairs
        · exact .failed misplaced
      cases alike with
      | name function constant => exact named rfl rfl function constant
      | same =>
          cases token with
          | number value => exact .done pairs
          | name => exact named rfl rfl rfl rfl
          | _ => exact groups _ _ (.cons pair pairs)

theorem factorials_alike (tree : Expression) (shorter : rest.length < input.length)
    (otherShorter : otherRest.length < other.length) (pairs : List.Forall₂ paired rest otherRest) :
    (factorials tree rest shorter).Alike paired (factorials tree otherRest otherShorter) := by
  induction pairs generalizing tree with
  | nil => exact .done .nil
  | @cons lexeme partner after otherAfter pair pairs ih =>
      have alike := meaning _ _ pair
      obtain ⟨token, text, position⟩ := lexeme
      obtain ⟨otherToken, otherText, otherPosition⟩ := partner
      cases alike with
      | name => exact .done (.cons pair pairs)
      | same =>
          cases token with
          | factorial => exact ih (.unary .factorial tree) _ _
          | _ => exact .done (.cons pair pairs)

theorem raise_alike (uniform : Uniform paired exponent) (tree : Expression)
    (shorter : rest.length < input.length) (otherShorter : otherRest.length < other.length)
    (pairs : List.Forall₂ paired rest otherRest) :
    (raise exponent tree rest shorter).Alike paired
      (raise exponent tree otherRest otherShorter) := by
  cases pairs with
  | nil => exact .done .nil
  | @cons lexeme partner after otherAfter pair pairs =>
      have alike := meaning _ _ pair
      obtain ⟨token, text, position⟩ := lexeme
      obtain ⟨otherToken, otherText, otherPosition⟩ := partner
      cases alike with
      | name => exact .done (.cons pair pairs)
      | same =>
          cases token with
          | power =>
              simp only [raise]
              exact alike_within (uniform after otherAfter pairs)
          | _ => exact .done (.cons pair pairs)

theorem power_uniform (insideUniform : Uniform paired inside)
    (exponentUniform : Uniform paired exponent) : Uniform paired (power inside exponent) := by
  intro input other pairs
  have based := alike_and_then (primary_uniform meaning insideUniform input other pairs)
    fun tree _ _ shorter otherShorter pairs =>
      factorials_alike meaning tree shorter otherShorter pairs
  exact alike_and_then based fun base _ _ shorter otherShorter pairs =>
    raise_alike meaning exponentUniform base shorter otherShorter pairs

theorem signed_uniform (budget : Nat) : Uniform paired (signed budget) := by
  induction budget with
  | zero => exact fun input other _ => .failed .tooDeep
  | succ budget ih =>
      have powers : Uniform paired (power (sum (signed budget)) (signed budget)) :=
        power_uniform meaning (sum_uniform meaning ih) ih
      intro input other pairs
      cases pairs with
      | nil => exact alike_enter (powers [] [] .nil)
      | @cons lexeme partner after otherAfter pair pairs =>
          have unsigned := alike_enter (powers _ _ (.cons pair pairs))
          have alike := meaning _ _ pair
          obtain ⟨token, text, position⟩ := lexeme
          obtain ⟨otherToken, otherText, otherPosition⟩ := partner
          cases alike with
          | name => exact unsigned
          | same =>
              cases token with
              | minus =>
                  simp only [signed]
                  exact alike_enter (alike_within (ih after otherAfter pairs))
              | _ => exact unsigned

theorem expression_uniform (budget : Nat) : Uniform paired (expression budget) :=
  sum_uniform meaning (signed_uniform meaning budget)

end Pairs

end Grammar

/-! Whole lists, each with its closing mark -/

theorem pairs_indexed {found others : List Lexeme}
    (alike : List.Forall₂ (fun lexeme partner => lexeme.token.Alike partner.token) found others) :
    List.Forall₂ (PairedAt found others) found others := by
  obtain ⟨lengths, same⟩ := List.forall₂_iff_get.mp alike
  refine List.forall₂_iff_get.mpr ⟨lengths, fun index here there => ⟨same index here there, ?_⟩⟩
  exact ⟨index, by simp, by simp⟩

section Whole

variable {finish otherFinish : Nat} {front otherFront found others : List Lexeme}
  (marked : found = front ++ [⟨.finish, "", finish⟩])
  (otherMarked : others = otherFront ++ [⟨.finish, "", otherFinish⟩])
  (alike : List.Forall₂ (fun lexeme partner => lexeme.token.Alike partner.token) found others)
include marked otherMarked alike

theorem end_same : SameReading found others
    (.error (.unexpectedEnd (endPosition found))) (.error (.unexpectedEnd (endPosition others))) := by
  have lengths := alike.length_eq
  subst marked otherMarked
  simp only [List.length_append, List.length_singleton, Nat.add_right_cancel_iff] at lengths
  have here : (front ++ [⟨.finish, "", finish⟩])[front.length]? =
      some (⟨.finish, "", finish⟩ : Lexeme) := List.getElem?_concat_length
  have there : (otherFront ++ [⟨.finish, "", otherFinish⟩])[front.length]? =
      some (⟨.finish, "", otherFinish⟩ : Lexeme) := lengths ▸ List.getElem?_concat_length
  simpa [endPosition] using SameReading.ended here there rfl

theorem report_same {fault otherFault : Fault} (limit : Nat)
    (faults : fault.Alike (PairedAt found others) otherFault) :
    SameReading found others (.error (fault.report limit (endPosition found)))
      (.error (otherFault.report limit (endPosition others))) := by
  cases faults with
  | unexpected pair proper =>
      obtain ⟨_, index, here, there⟩ := pair
      exact .unexpected here there proper
  | unclosed pair opening =>
      obtain ⟨_, index, here, there⟩ := pair
      exact .unclosed here there opening
  | ended pair closing =>
      obtain ⟨_, index, here, there⟩ := pair
      exact .ended here there closing
  | exhausted => exact end_same marked otherMarked alike
  | tooDeep => exact .tooComplex limit

omit marked otherMarked alike in
theorem require_end_same {rest otherRest : List Lexeme} (tree : Expression) (limit : Nat)
    (pairs : List.Forall₂ (PairedAt found others) rest otherRest) :
    SameReading found others
      (({ Session.start found limit with rest }.requireEnd).map fun _ => tree)
      (({ Session.start others limit with rest := otherRest }.requireEnd).map fun _ => tree) := by
  cases pairs with
  | nil => exact .tree tree
  | @cons lexeme partner _ _ pair _ =>
      obtain ⟨alike, index, here, there⟩ := pair
      obtain ⟨token, text, position⟩ := lexeme
      obtain ⟨otherToken, otherText, otherPosition⟩ := partner
      cases alike with
      | name => exact .unexpected here there nofun
      | same =>
          cases token with
          | finish => exact .tree tree
          | _ => exact .unexpected here there nofun

/-- Lists whose tokens mean the same are parsed alike under every limit. -/
theorem parse_same (limit : Nat) :
    SameReading found others (parse found limit) (parse others limit) := by
  have meaning : ∀ lexeme partner, PairedAt found others lexeme partner →
      lexeme.token.Alike partner.token := fun _ _ pair => pair.1
  have reads := Grammar.expression_uniform meaning limit found others (pairs_indexed alike)
  generalize reply : Grammar.expression limit found = first at reads
  generalize otherReply : Grammar.expression limit others = second at reads
  cases reads with
  | done pairs =>
      rw [parse_done reply, parse_done otherReply]
      exact require_end_same _ limit pairs
  | failed faults =>
      rw [parse_failed reply, parse_failed otherReply]
      exact report_same marked otherMarked alike limit faults

end Whole

end Calculator
