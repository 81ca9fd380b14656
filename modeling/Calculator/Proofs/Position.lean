import Calculator.Token.Scan

/-!
# Positions count the characters in front

The counter is asked for byte offsets and remembers its last place. At every offset where
a character begins it answers with the number of characters in front, no matter what it
was asked before; so every lexeme is placed where its text stands in the source.
-/

namespace Calculator

variable {source before front rest : List Char}

@[simp]
theorem utf8_length_append (front rest : List Char) :
    utf8Length (front ++ rest) = utf8Length front + utf8Length rest := by
  induction front with
  | nil => simp [utf8Length]
  | cons character front ih => simp [utf8Length, ih, Nat.add_assoc]

theorem pass_bytes_append (front rest : List Char) :
    passBytes (front ++ rest) (utf8Length front) = (front.length, rest) := by
  induction front with
  | nil => cases rest <;> rfl
  | cons character front ih =>
      rcases Nat.exists_eq_succ_of_ne_zero (Nat.ne_of_gt character.utf8Size_pos) with ⟨more, size⟩
      have distance : utf8Length (character :: front) = more + utf8Length front + 1 := by
        rw [utf8Length, size]
        omega
      have remaining : more + utf8Length front + 1 - character.utf8Size = utf8Length front := by
        omega
      rw [List.cons_append, distance, passBytes, remaining, ih]
      rfl

theorem prefix_of_utf8_length_le (first : before <+: source) (second : front <+: source)
    (shorter : utf8Length before ≤ utf8Length front) : before <+: front := by
  rcases List.prefix_or_prefix_of_prefix first second with inside | ⟨more, longer⟩
  · exact inside
  · cases more with
    | nil => exact ⟨[], by simpa using longer.symm⟩
    | cons character others =>
        have positive := character.utf8Size_pos
        rw [← longer, utf8_length_append, utf8Length] at shorter
        omega

namespace PositionCounter

/-- The counter stands behind the characters `before`. -/
structure Behind (source before : List Char) (counter : PositionCounter) : Prop where
  whole : counter.source = source
  split : before ++ counter.rest = source
  byte : counter.byte = utf8Length before
  count : counter.count = before.length

theorem start_behind (source : List Char) : Behind source [] (start source) :=
  ⟨rfl, rfl, rfl, rfl⟩

theorem pass_behind {base : PositionCounter} (behind : Behind source before base)
    (inside : before <+: front) (split : front ++ rest = source) :
    passBytes base.rest (utf8Length front - base.byte) =
      (front.length - before.length, rest) := by
  rcases inside with ⟨middle, rfl⟩
  have left : base.rest = middle ++ rest :=
    List.append_cancel_left (behind.split.trans (by rw [← split, List.append_assoc]))
  rw [left, behind.byte, utf8_length_append, Nat.add_sub_cancel_left, pass_bytes_append,
    List.length_append, Nat.add_sub_cancel_left]

/-- A question leads to the place it asks for, onwards or from the beginning again. -/
theorem seek_behind {counter : PositionCounter} (behind : Behind source before counter)
    (split : front ++ rest = source) :
    (counter.seek (utf8Length front)).1 = front.length ∧
      Behind source front (counter.seek (utf8Length front)).2 := by
  have base : ∃ passed, Behind source passed (if utf8Length front < counter.byte then
      start counter.source else counter) ∧ passed <+: front := by
    by_cases backwards : utf8Length front < counter.byte
    · rw [if_pos backwards, behind.whole]
      exact ⟨[], start_behind source, List.nil_prefix⟩
    · rw [if_neg backwards]
      exact ⟨before, behind, prefix_of_utf8_length_le ⟨_, behind.split⟩ ⟨_, split⟩
        (behind.byte ▸ Nat.not_lt.mp backwards)⟩
  rcases base with ⟨middle, base, inside⟩
  have walked := pass_behind base inside split
  have count : middle.length + (front.length - middle.length) = front.length :=
    Nat.add_sub_cancel' inside.length_le
  simp only [seek]
  rw [walked, base.count, count]
  exact ⟨rfl, ⟨base.whole, split, rfl, rfl⟩⟩

end PositionCounter

/-- A text that is not empty stands in the source at the position. -/
def Occurs (source : List Char) (position : Nat) (text : String) : Prop :=
  text ≠ "" ∧ text.toList <+: source.drop position

theorem occurs_position_lt {position : Nat} {text : String} (occurs : Occurs source position text) :
    position < source.length := by
  rcases occurs with ⟨nonempty, inside⟩
  refine Nat.lt_of_not_le fun beyond => nonempty ?_
  rw [List.drop_eq_nil_of_le beyond, List.prefix_nil] at inside
  exact String.toList_eq_nil_iff.mp inside

structure Lexeme.Placed (source : List Char) (lexeme : Lexeme) : Prop where
  finish : lexeme.token = .finish → lexeme.text = "" ∧ lexeme.position = source.length
  occurs : lexeme.token ≠ .finish → Occurs source lexeme.position lexeme.text
  opening : lexeme.token = .opening → lexeme.text = "("

/-- Every lexeme has its place and the last is the closing mark. A piece that is no token
is reported where it stands. -/
def Located (source : List Char) : Except UnknownToken (List Lexeme) → Prop
  | .ok found => (∀ lexeme ∈ found, lexeme.Placed source) ∧
      ∃ last, found.getLast? = some last ∧ last.token = .finish
  | .error unknown => Occurs source unknown.position unknown.text

namespace Piece

theorem cut_texts_ne_nil (source : List Char) : ∀ piece ∈ cut source, piece.text ≠ [] := by
  fun_induction cut source with
  | case1 => simp
  | case2 character rest found ih =>
      intro piece member
      rcases List.mem_cons.mp member with rfl | member
      · exact List.ne_nil_of_length_pos (leading_text_pos character rest)
      · exact ih piece member

variable {piece : Piece}

theorem token_ne_finish {token : Token} (reads : piece.token? = some token) : token ≠ .finish := by
  rintro rfl
  cases piece <;> simp [token?] at reads
  unfold Token.ofSymbol? at reads
  split at reads <;> simp at reads

theorem token_opening (reads : piece.token? = some .opening) : piece.text = ['('] := by
  cases piece <;> simp [token?] at reads
  unfold Token.ofSymbol? at reads
  split at reads <;> simp_all [text]

end Piece

theorem occurs_behind {text : List Char} (split : front ++ (text ++ rest) = source)
    (nonempty : text ≠ []) : Occurs source front.length (String.ofList text) := by
  refine ⟨by simpa using nonempty, ?_⟩
  rw [String.toList_ofList, ← split, List.drop_left]
  exact List.prefix_append text rest

theorem finish_placed (source : List Char) :
    Lexeme.Placed source { token := .finish, text := "", position := source.length } where
  finish := fun _ => ⟨rfl, rfl⟩
  occurs := fun other => absurd rfl other
  opening := nofun

theorem piece_placed {piece : Piece} {token : Token} (reads : piece.token? = some token)
    (split : front ++ (piece.text ++ rest) = source) (nonempty : piece.text ≠ []) :
    Lexeme.Placed source { token, text := .ofList piece.text, position := front.length } where
  finish := fun closing => absurd closing (Piece.token_ne_finish reads)
  occurs := fun _ => occurs_behind split nonempty
  opening := by
    rintro rfl
    rw [Piece.token_opening reads]

theorem lexemes_from_located {pieces : List Piece} {counter : PositionCounter}
    (behind : counter.Behind source before)
    (split : front ++ (pieces.map Piece.text).flatten = source)
    (nonempty : ∀ piece ∈ pieces, piece.text ≠ []) :
    Located source (lexemesFrom counter (utf8Length front) pieces) := by
  -- A blank moves `front`, behind which the pieces begin, but not the counter.
  induction pieces generalizing front before counter with
  | nil =>
      have whole : front = source := by simpa using split
      have sought := PositionCounter.seek_behind behind split
      rw [lexemesFrom, sought.1, whole]
      exact ⟨by simpa using finish_placed source, _, rfl, rfl⟩
  | cons piece pieces ih =>
      have here : piece.text ≠ [] := nonempty piece List.mem_cons_self
      have later : ∀ piece ∈ pieces, piece.text ≠ [] :=
        fun piece member => nonempty piece (List.mem_cons_of_mem _ member)
      rw [List.map_cons, List.flatten_cons] at split
      have beyond : front ++ piece.text ++ (pieces.map Piece.text).flatten = source := by
        rw [List.append_assoc, split]
      by_cases blank : ∃ text, piece = .blank text
      · rcases blank with ⟨text, rfl⟩
        rw [lexemesFrom, ← utf8_length_append]
        exact ih behind beyond later
      · have sought := PositionCounter.seek_behind behind split
        have following := ih sought.2 beyond later
        rw [lexemesFrom.eq_3 _ _ _ _ fun text same => blank ⟨text, same⟩]
        simp only [sought.1]
        cases reads : piece.token? with
        | none => exact occurs_behind split here
        | some token =>
            rw [utf8_length_append] at following
            simp only [bind, Except.bind]
            split
            · rename_i unknown scanned
              rw [scanned] at following
              exact following
            · rename_i found scanned
              rw [scanned] at following
              rcases following with ⟨placed, last, final, closing⟩
              refine ⟨?_, last, ?_, closing⟩
              · intro lexeme member
                rcases List.mem_cons.mp member with rfl | member
                · exact piece_placed reads split here
                · exact placed lexeme member
              · rw [List.getLast?_cons, final]
                rfl

theorem lexemes_located (source : String) : Located source.toList (lexemes source) := by
  have split : [] ++ ((Piece.cut source.toList).map Piece.text).flatten = source.toList :=
    Piece.cut_texts_flatten source.toList
  exact lexemes_from_located (PositionCounter.start_behind source.toList) split
    (Piece.cut_texts_ne_nil source.toList)

end Calculator
