import Calculator.Proofs.Position

/-!
# Offsets asked for in any order

A counter remembers where the last question led, but its answers do not depend on it: in
whatever order places are asked for, the answer is the number of characters in front. Beside
the counter that keeps the rest of its text stands one that keeps no text at all. It cuts the
piece between its place and the next out of the source, and this never fails.
-/

namespace Calculator

variable {source : String} {here there : source.Pos} {first last byte : Nat}

/-- The number of characters in front of a place of the source. -/
def charactersBefore (place : source.Pos) : Nat :=
  (source.extract source.startPos place).length

/-- The text between two byte offsets. It can be cut out only if characters begin or the source
ends at both, and if they are in order. -/
def between? (source : String) (first last : Nat) : Option String :=
  if bounds : String.Pos.Raw.IsValid source ⟨first⟩ ∧ String.Pos.Raw.IsValid source ⟨last⟩ ∧
      first ≤ last then
    some (source.extract (source.pos ⟨first⟩ bounds.1) (source.pos ⟨last⟩ bounds.2.1))
  else none

/-- A place in `source` behind `byte` bytes and `count` characters. -/
structure SliceCounter where
  source : String
  byte : Nat
  count : Nat

namespace SliceCounter

def start (source : String) : SliceCounter :=
  { source, byte := 0, count := 0 }

/-- The number of characters before a byte offset, and the counter that stands there. There is
none if the text in between cannot be cut out. -/
def seek? (counter : SliceCounter) (byte : Nat) : Option (Nat × SliceCounter) := do
  let base := if byte < counter.byte then start counter.source else counter
  let passed ← between? base.source base.byte byte
  let count := base.count + passed.length
  return (count, { base with byte, count })

/-- The answers to questions that are asked of one counter, one after another. -/
def answers? (counter : SliceCounter) : List Nat → Option (List Nat)
  | [] => some []
  | byte :: bytes => do
      let (count, next) ← counter.seek? byte
      let counts ← next.answers? bytes
      return count :: counts

end SliceCounter

/-- The answers to questions that are asked of one counter, one after another. -/
def PositionCounter.answers (counter : PositionCounter) : List Nat → List Nat
  | [] => []
  | byte :: bytes =>
      let (count, next) := counter.seek byte
      count :: next.answers bytes

/-! Texts between places -/

theorem extract_append (before : here ≤ there) :
    source.extract source.startPos here ++ source.extract here there =
      source.extract source.startPos there := by
  have ordered : here.offset.byteIdx ≤ there.offset.byteIdx := before
  rw [← String.toByteArray_inj, String.toByteArray_append]
  simp [ByteArray.extract_append_extract, ordered]

theorem characters_before_add (before : here ≤ there) :
    charactersBefore here + (source.extract here there).length = charactersBefore there := by
  rw [charactersBefore, charactersBefore, ← extract_append before, String.length_append]

theorem characters_before_start (source : String) : charactersBefore source.startPos = 0 := by
  have empty : source.extract source.startPos source.startPos = "" := by
    rw [← String.toByteArray_inj]
    simp
  rw [charactersBefore, empty, String.length_empty]

theorem between_places (before : here ≤ there) :
    between? source here.offset.byteIdx there.offset.byteIdx = some (source.extract here there) :=
  dif_pos ⟨here.isValid, there.isValid, before⟩

theorem between_bounds {text : String} (cut : between? source first last = some text) :
    String.Pos.Raw.IsValid source ⟨last⟩ := by
  unfold between? at cut
  split at cut
  · rename_i bounds
    exact bounds.2.1
  · cases cut

theorem utf8_length_characters (text : List Char) :
    utf8Length text = (String.ofList text).utf8ByteSize := by
  induction text with
  | nil => simp [utf8Length]
  | cons character text ih =>
      rw [utf8Length, ih, String.ofList_cons, String.utf8ByteSize_append,
        String.utf8ByteSize_singleton]

theorem utf8_length_before (place : source.Pos) :
    utf8Length (source.extract source.startPos place).toList = place.offset.byteIdx := by
  have within := place.isValid.le_utf8ByteSize
  rw [utf8_length_characters, String.ofList_toList, ← String.size_toByteArray]
  simp [within]

/-- The characters in front of a place and those behind it are the source. -/
theorem place_splits (place : source.Pos) :
    (source.extract source.startPos place).toList ++ (source.extract place source.endPos).toList =
      source.toList := by
  have whole : source.extract source.startPos source.endPos = source := by
    rw [← String.toByteArray_inj]
    simp [← String.size_toByteArray]
  have last : place ≤ source.endPos := place.isValid.le_rawEndPos
  rw [← String.toList_append, extract_append last, whole]

/-! Questions one after another -/

namespace SliceCounter

/-- The counter that stands at a place. -/
def behind (place : source.Pos) : SliceCounter :=
  { source, byte := place.offset.byteIdx, count := charactersBefore place }

theorem start_behind (source : String) : start source = behind source.startPos := by
  rw [start, behind, characters_before_start]
  rfl

/-- From every place each other place is found, onwards or from the start again. -/
theorem seek_place (here there : source.Pos) :
    (behind here).seek? there.offset.byteIdx = some (charactersBefore there, behind there) := by
  -- Onwards the walk begins at the place of the counter, backwards at the start of the source.
  have base : ∃ place : source.Pos, place ≤ there ∧
      (if there.offset.byteIdx < (behind here).byte then start source else behind here) =
        behind place := by
    by_cases backwards : there.offset.byteIdx < here.offset.byteIdx
    · exact ⟨source.startPos, Nat.zero_le _, (if_pos backwards).trans (start_behind source)⟩
    · exact ⟨here, Nat.not_lt.mp backwards, if_neg backwards⟩
  rcases base with ⟨place, before, same⟩
  simp only [seek?, behind] at same ⊢
  rw [same]
  simp only [between_places before, bind, Option.bind, pure, characters_before_add before]

theorem seek_valid {found : Nat × SliceCounter} (sought : (behind here).seek? byte = some found) :
    String.Pos.Raw.IsValid source ⟨byte⟩ := by
  simp only [seek?, bind, Option.bind_eq_some_iff] at sought
  obtain ⟨text, cut, -⟩ := sought
  have valid := between_bounds cut
  split at valid <;> exact valid

theorem answers_places (here : source.Pos) (places : List source.Pos) :
    (behind here).answers? (places.map (·.offset.byteIdx)) =
      some (places.map charactersBefore) := by
  induction places generalizing here with
  | nil => rfl
  | cons there places ih =>
      simp only [List.map_cons, answers?, seek_place here there, ih there, bind, Option.bind, pure]

theorem answers_valid {bytes counts : List Nat}
    (answered : (behind here).answers? bytes = some counts) :
    ∃ places : List source.Pos, bytes = places.map (·.offset.byteIdx) := by
  induction bytes generalizing here counts with
  | nil => exact ⟨[], rfl⟩
  | cons byte bytes ih =>
      simp only [answers?, bind, Option.bind_eq_some_iff] at answered
      obtain ⟨found, sought, following, later, -⟩ := answered
      obtain ⟨there, rfl⟩ : ∃ there : source.Pos, there.offset.byteIdx = byte :=
        ⟨source.pos ⟨byte⟩ (seek_valid sought), rfl⟩
      rw [seek_place] at sought
      obtain rfl := Option.some.inj sought
      obtain ⟨places, rfl⟩ := ih later
      exact ⟨there :: places, rfl⟩

end SliceCounter

theorem PositionCounter.answers_places {before : List Char} {counter : PositionCounter}
    (behind : counter.Behind source.toList before) (places : List source.Pos) :
    counter.answers (places.map (·.offset.byteIdx)) = places.map charactersBefore := by
  induction places generalizing before counter with
  | nil => rfl
  | cons there places ih =>
      have sought := PositionCounter.seek_behind behind (place_splits there)
      rw [utf8_length_before, String.length_toList] at sought
      change (counter.seek there.offset.byteIdx).1 ::
        (counter.seek there.offset.byteIdx).2.answers (places.map (·.offset.byteIdx)) = _
      rw [ih sought.2, sought.1]
      rfl

/-- Both counters count as if from the start, for any places of the source in any order. The text
between two questions never reaches beyond the source or into a character: the counter that cuts
it out has an answer to every question, and it has answers to questions for places only. -/
theorem counting_resumes_anywhere (source : String) :
    (∀ places : List source.Pos,
      (PositionCounter.start source.toList).answers (places.map (·.offset.byteIdx)) =
          places.map charactersBefore ∧
        (SliceCounter.start source).answers? (places.map (·.offset.byteIdx)) =
          some (places.map charactersBefore)) ∧
    ∀ bytes, ((SliceCounter.start source).answers? bytes).isSome ↔
      ∃ places : List source.Pos, bytes = places.map (·.offset.byteIdx) := by
  rw [SliceCounter.start_behind]
  refine ⟨fun places => ⟨?_, SliceCounter.answers_places _ places⟩, fun bytes => ⟨?_, ?_⟩⟩
  · exact PositionCounter.answers_places (PositionCounter.start_behind source.toList) places
  · intro answered
    obtain ⟨counts, found⟩ := Option.isSome_iff_exists.mp answered
    exact SliceCounter.answers_valid found
  · intro asked
    rcases asked with ⟨places, rfl⟩
    rw [SliceCounter.answers_places]
    rfl

example : (PositionCounter.start "π2√x".toList).answers [6, 2, 3, 3, 0] = [3, 1, 2, 2, 0] ∧
    (SliceCounter.start "π2√x").answers? [6, 2, 3, 3, 0] = some [3, 1, 2, 2, 0] ∧
    (SliceCounter.start "π2√x").answers? [6, 4] = none := by
  decide +kernel

end Calculator
