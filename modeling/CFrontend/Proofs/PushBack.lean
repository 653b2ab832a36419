import CFrontend.Lexer.Scanner

/-!
Buffers that stand at a place of a source. A buffer represents a lexer when the characters that were pushed back, the
last one first, and then the unread ones are the rest of the text, and each of the former carries
the place that it has in the text (`Buffer.Represents`). Reading takes the first character of the rest, and a character that
is pushed back at its place becomes the first one again; what follows for the readers of several characters
is that nothing is lost or swapped (`Represents.readWhile`, `Represents.backAll`, `Represents.readCount`).
-/
namespace CFrontend

namespace Position

theorem advance_append (pos : Position) (first second : List Char) :
    pos.advance (first ++ second) = (pos.advance first).advance second :=
  List.foldl_append

end Position

namespace Lexer

@[simp] theorem rest_skip (lexer : Lexer) (count : Nat) : (lexer.skip count).rest = lexer.rest.drop count := rfl

@[simp] theorem failure_skip (lexer : Lexer) (count : Nat) : (lexer.skip count).failure = lexer.failure := rfl

theorem skip_skip (lexer : Lexer) (first second : Nat) : (lexer.skip first).skip second = lexer.skip (first + second) := by
  simp only [skip,List.drop_drop,Lexer.mk.injEq,true_and,and_true]
  rw [List.take_add,Position.advance_append]

theorem pos_skip_length {lexer : Lexer} {first rest : List Char} (text : lexer.rest = first ++ rest) :
    (lexer.skip first.length).pos = lexer.pos.advance first := by
  simp [skip,text]

private theorem pos_skip_one {lexer : Lexer} {c : Char} {rest : List Char} (first : lexer.rest = c :: rest) :
    (lexer.skip 1).pos = lexer.pos.after c := by
  simp [skip,first,Position.advance]

end Lexer

namespace Buffer

/-- Characters with their places, from a place on. -/
def placed (pos : Position) : List Char → List PlacedChar
  | [] => []
  | c :: rest => ⟨c,pos⟩ :: placed (pos.after c) rest

@[simp] theorem length_placed (pos : Position) (chars : List Char) : (placed pos chars).length = chars.length := by
  induction chars generalizing pos with
  | nil => rfl
  | cons c rest ih => simp [placed,ih]

@[simp] theorem map_placed (pos : Position) (chars : List Char) : (placed pos chars).map (·.char) = chars := by
  induction chars generalizing pos with
  | nil => rfl
  | cons c rest ih => simp [placed,ih]

theorem placed_append (pos : Position) (first second : List Char) :
    placed pos (first ++ second) = placed pos first ++ placed (pos.advance first) second := by
  induction first generalizing pos with
  | nil => rfl
  | cons c rest ih => simp [placed,ih,Position.advance]

/-- The buffer stands where the lexer stands. -/
structure Represents (buffer : Buffer) (lexer : Lexer) : Prop where
  rest : lexer.rest = buffer.remaining
  pushed : buffer.pushed = placed lexer.pos (buffer.pushed.map (·.char))
  place : buffer.place = lexer.pos.advance (buffer.pushed.map (·.char))
  ended : buffer.ended = true → buffer.unread = []
  failure : lexer.failure = if buffer.ended then buffer.failure else buffer.behind

variable {buffer after : Buffer} {lexer : Lexer}

/-- A new buffer stands at the start of its source. -/
theorem represents_start (source : Source) : (start source).Represents (.start source) where
  rest := rfl
  pushed := rfl
  place := rfl
  ended := by simp [start]
  failure := rfl

/-- A buffer stands at the place that it tells. -/
theorem Represents.position (represents : buffer.Represents lexer) : buffer.position = lexer.pos := by
  have pushed := represents.pushed
  have place := represents.place
  unfold Buffer.position
  cases found : buffer.pushed with
  | nil => simpa [found,Position.advance] using place
  | cons c rest =>
    simp only [found,List.map_cons,placed,List.cons.injEq] at pushed
    exact congrArg PlacedChar.pos pushed.1

/-! ### One character -/

/-- No character is left only at the end of the text, where the buffer stays from then on. -/
theorem Represents.next_none (represents : buffer.Represents lexer) (read : buffer.next = (none,after)) :
    lexer.rest = [] ∧ after.Represents lexer ∧ after.ended := by
  obtain ⟨rest,pushed,place,ended,failure⟩ := represents
  unfold next at read
  split at read
  · simp at read
  · rename_i none
    split at read
    · rename_i done
      obtain ⟨-,rfl⟩ := Prod.mk.inj read
      exact ⟨by simp [rest,remaining,none,ended done],⟨rest,pushed,place,ended,failure⟩,done⟩
    · rename_i open_
      split at read
      · rename_i last
        obtain ⟨-,rfl⟩ := Prod.mk.inj read
        exact ⟨by simp [rest,remaining,none,last],⟨rest,pushed,place,fun _ => last,by simpa [open_] using failure⟩,rfl⟩
      · simp at read

/-- The next character is the first one of the rest, with its place, and the buffer moves behind it. -/
theorem Represents.next_some (represents : buffer.Represents lexer) {c : PlacedChar}
    (read : buffer.next = (some c,after)) :
    c.pos = lexer.pos ∧ (∃ rest, lexer.rest = c.char :: rest) ∧ after.Represents (lexer.skip 1) := by
  obtain ⟨rest,pushed,place,ended,failure⟩ := represents
  unfold next at read
  split at read
  · rename_i top others found
    obtain ⟨same,rfl⟩ := Prod.mk.inj read
    obtain rfl := Option.some.inj same
    simp only [found,List.map_cons,placed,List.cons.injEq] at pushed
    have first : lexer.rest = top.char :: (others.map (·.char) ++ buffer.unread) := by simp [rest,remaining,found]
    refine ⟨congrArg PlacedChar.pos pushed.1,⟨_,first⟩,?_,?_,?_,ended,failure⟩
    · simp [first,remaining]
    · rw [Lexer.pos_skip_one first]
      exact pushed.2
    · rw [Lexer.pos_skip_one first]
      simpa [found,Position.advance] using place
  · rename_i none
    split at read
    · simp at read
    · rename_i open_
      split at read
      · simp at read
      · rename_i char unread found
        obtain ⟨same,rfl⟩ := Prod.mk.inj read
        obtain rfl := Option.some.inj same
        have first : lexer.rest = char :: unread := by simp [rest,remaining,none,found]
        have here : buffer.place = lexer.pos := by simpa [none,Position.advance] using place
        refine ⟨here,⟨_,first⟩,?_,?_,?_,by simp [open_],?_⟩
        · simp [first,remaining,none]
        · simp [none,placed]
        · simp [none,Position.advance,here,Lexer.pos_skip_one first]
        · simpa [open_] using failure

/-- A character that is pushed back at its place is the next one again. -/
theorem Represents.back (represents : after.Represents (lexer.skip 1)) {c : PlacedChar} {rest : List Char}
    (place : c.pos = lexer.pos) (first : lexer.rest = c.char :: rest) : (after.back c).Represents lexer := by
  obtain ⟨others,pushed,stop,ended,failure⟩ := represents
  rw [Lexer.pos_skip_one first] at pushed stop
  refine ⟨?_,?_,?_,ended,failure⟩
  · simpa [first,remaining,Buffer.back] using others
  · simp only [Buffer.back,List.map_cons,placed,List.cons.injEq]
    exact ⟨by rw [← place],pushed⟩
  · simpa [Buffer.back,Position.advance] using stop

/-- A character that was read is pushed back by any later buffer that stands behind it. -/
theorem Represents.back_at {length : Nat} (represents : buffer.Represents (lexer.skip length)) {c : PlacedChar}
    (read : buffer.next = (some c,after)) {later : Buffer} (moved : later.Represents (lexer.skip (length + 1))) :
    (later.back c).Represents (lexer.skip length) := by
  obtain ⟨place,⟨rest,first⟩,-⟩ := represents.next_some read
  rw [← Lexer.skip_skip] at moved
  exact moved.back place first

/-- The next character at a distance into the text, with the buffers behind it and in front of it again. -/
theorem Represents.next_at {length : Nat} (represents : buffer.Represents (lexer.skip length)) {c : PlacedChar}
    (read : buffer.next = (some c,after)) :
    ∃ rest, lexer.rest.drop length = c.char :: rest ∧ lexer.rest.drop (length + 1) = rest ∧
      after.Represents (lexer.skip (length + 1)) ∧ (after.back c).Represents (lexer.skip length) := by
  obtain ⟨-,⟨rest,first⟩,moved⟩ := represents.next_some read
  rw [Lexer.skip_skip] at moved
  rw [Lexer.rest_skip] at first
  exact ⟨rest,first,by rw [← List.tail_drop,first]; rfl,moved,represents.back_at read moved⟩

/-- The next character behind a piece of text continues this piece with its place. -/
theorem Represents.next_behind {text rest : List Char} (represents : buffer.Represents (lexer.skip text.length))
    (first : lexer.rest = text ++ rest) {c : PlacedChar} (read : buffer.next = (some c,after)) :
    ∃ others, rest = c.char :: others ∧ placed lexer.pos text ++ [c] = placed lexer.pos (text ++ [c.char]) ∧
      after.Represents (lexer.skip (text ++ [c.char]).length) ∧ (after.back c).Represents (lexer.skip text.length) := by
  obtain ⟨place,-,-⟩ := represents.next_some read
  obtain ⟨others,here,-,moved,again⟩ := represents.next_at read
  have advanced : c = ⟨c.char,lexer.pos.advance text⟩ := by
    rw [← Lexer.pos_skip_length first,← place]
  refine ⟨others,by simpa [first] using here,?_,by simpa using moved,again⟩
  rw [placed_append,advanced]
  rfl

/-- Looking at the next character does not move the buffer. -/
theorem Represents.peek {follow : Option Char} (represents : buffer.Represents lexer)
    (read : buffer.peek = (follow,after)) : follow = lexer.rest.head? ∧ after.Represents lexer := by
  unfold Buffer.peek at read
  split at read
  · rename_i c later taken
    obtain ⟨rfl,rfl⟩ := Prod.mk.inj read
    obtain ⟨place,⟨rest,first⟩,moved⟩ := represents.next_some taken
    exact ⟨by simp [first],moved.back place first⟩
  · rename_i later taken
    obtain ⟨rfl,rfl⟩ := Prod.mk.inj read
    obtain ⟨empty,same,-⟩ := represents.next_none taken
    exact ⟨by simp [empty],same⟩

/-! ### Several characters -/

theorem skip_one_skip (lexer : Lexer) (count : Nat) : (lexer.skip 1).skip count = lexer.skip (count + 1) := by
  rw [Lexer.skip_skip,Nat.add_comm]

/-- The characters that pass a test are read up to the first one that does not, which is left. -/
theorem Represents.readWhile {test : Char → Bool} {chars : List Char} (represents : buffer.Represents lexer)
    (read : buffer.readWhile test = (chars,after)) :
    chars = lexer.rest.takeWhile test ∧ after.Represents (lexer.skip chars.length) := by
  fun_induction Buffer.readWhile test buffer generalizing lexer chars after with
  | case1 buffer c next taken passes others last later ih =>
    obtain ⟨rfl,rfl⟩ := Prod.mk.inj read
    obtain ⟨-,⟨rest,first⟩,moved⟩ := represents.next_some taken
    obtain ⟨rfl,behind⟩ := ih moved later
    rw [skip_one_skip] at behind
    refine ⟨?_,by simpa using behind⟩
    simp [first,passes]
  | case2 buffer c next taken fails =>
    obtain ⟨rfl,rfl⟩ := Prod.mk.inj read
    obtain ⟨place,⟨rest,first⟩,moved⟩ := represents.next_some taken
    exact ⟨by simp [first,fails],moved.back place first⟩
  | case3 buffer next taken =>
    obtain ⟨rfl,rfl⟩ := Prod.mk.inj read
    obtain ⟨empty,same,-⟩ := represents.next_none taken
    exact ⟨by simp [empty],same⟩

private theorem backAll_cons (buffer : Buffer) (c : PlacedChar) (read : List PlacedChar) :
    buffer.backAll (c :: read) = (buffer.backAll read).back c := by
  simp [backAll]

/-- Characters that are pushed back at their places are the next ones again. -/
theorem Represents.backAll {text rest : List Char} (represents : after.Represents (lexer.skip text.length))
    (first : lexer.rest = text ++ rest) : (after.backAll (placed lexer.pos text)).Represents lexer := by
  induction text generalizing lexer with
  | nil => exact represents
  | cons c text ih =>
    rw [placed,backAll_cons]
    rw [List.cons_append] at first
    have inner : (lexer.skip 1).rest = text ++ rest := by simp [first]
    have moved : after.Represents ((lexer.skip 1).skip text.length) := by
      rwa [skip_one_skip]
    have others := ih moved inner
    rw [Lexer.pos_skip_one first] at others
    exact others.back rfl first

/-- A number of characters is read behind those that were read before, or, where the text is too short for it, all of them are
    given back. -/
theorem Represents.readCount {text rest : List Char} {count : Nat} {result : Option (List Char)}
    (represents : buffer.Represents (lexer.skip text.length)) (first : lexer.rest = text ++ rest)
    (read : Buffer.readCount (placed lexer.pos text) count buffer = (result,after)) :
    (count ≤ rest.length ∧ result = some (text ++ rest.take count) ∧
      after.Represents (lexer.skip (text.length + count))) ∨
    (rest.length < count ∧ result = none ∧ after.Represents lexer) := by
  induction count generalizing buffer text rest with
  | zero =>
    obtain ⟨rfl,rfl⟩ := Prod.mk.inj read
    exact .inl ⟨Nat.zero_le _,by simp,represents⟩
  | succ count ih =>
    rw [Buffer.readCount] at read
    split at read
    · rename_i c later taken
      obtain ⟨others,rfl,grown,moved,-⟩ := represents.next_behind first taken
      rw [grown] at read
      have split : lexer.rest = (text ++ [c.char]) ++ others := by simp [first]
      rcases ih moved split read with ⟨enough,all,behind⟩ | ⟨few,none,same⟩
      · refine .inl ⟨by simpa using enough,by simp [all],?_⟩
        simpa [Nat.add_assoc,Nat.add_comm 1 count] using behind
      · exact .inr ⟨by simpa using few,none,same⟩
    · rename_i next taken
      obtain ⟨rfl,rfl⟩ := Prod.mk.inj read
      obtain ⟨empty,same,-⟩ := represents.next_none taken
      obtain rfl : rest = [] := by simpa [first] using empty
      exact .inr ⟨by simp,rfl,same.backAll first⟩

end Buffer

end CFrontend
