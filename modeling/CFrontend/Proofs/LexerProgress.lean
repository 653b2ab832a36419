import Mathlib.Data.List.Induction
import CFrontend.Proofs.Scanning

/-!
True places and progress of a lexer, whatever its source. Every lexeme covers a character, also one that is an error
(`length_read_pos`), so that a call either reads an item behind a gap or finds the end (`Lexer.next_cases`); a number of
calls moves through the text from front to back (`Lexer.after_moves`). A buffer stands after every call where the
lexer stands that it represents (`Buffer.represents_after`), which gives what holds of its push-back, of the places of
its items and of their number (`Buffer.places_and_progress`).
-/
namespace CFrontend

namespace Position

/-- The place behind a text: one more than its newlines, and one more than the characters behind the last of them. -/
def behind (before : List Char) : Position :=
  ⟨1 + before.count '\n',1 + (before.reverse.takeWhile (· ≠ '\n')).length⟩

theorem advance_origin (before : List Char) : origin.advance before = behind before := by
  induction before using List.reverseRecOn with
  | nil => rfl
  | append_singleton before c ih =>
    rw [advance_append,ih]
    by_cases newline : c = '\n'
    · simp [advance,after,behind,newline]
      omega
    · simp [advance,after,behind,newline]
      omega

/-- A place comes before another one. -/
def Precedes (first second : Position) : Prop :=
  first.line < second.line ∨ (first.line = second.line ∧ first.column < second.column)

theorem Precedes.trans {first second third : Position} (left : first.Precedes second) (right : second.Precedes third) :
    first.Precedes third := by
  unfold Precedes at *
  omega

private theorem precedes_after (pos : Position) (c : Char) : pos.Precedes (pos.after c) := by
  unfold after Precedes
  split
  · exact .inl (Int.lt_succ _)
  · exact .inr ⟨rfl,Int.lt_succ _⟩

private theorem precedes_advance (pos : Position) {chars : List Char} (some : chars ≠ []) : pos.Precedes (pos.advance chars) := by
  induction chars generalizing pos with
  | nil => exact absurd rfl some
  | cons c chars ih =>
    cases chars with
    | nil => exact precedes_after pos c
    | cons d chars => exact (precedes_after pos c).trans (ih (pos.after c) (by simp))

end Position

/-! ### Lexemes -/

private theorem le_length_suffixLexeme (value length : Nat) (rest : List Char) :
    length ≤ (suffixLexeme value length rest).length := by
  rw [Buffer.suffixLexeme_eq]
  cases (rest.drop (rest.takeWhile isSuffixLetter).length).head?.filter Text.isLetter with
  | none => exact Nat.le_add_right _ _
  | some stray =>
    dsimp only [Option.elim]
    omega

private theorem le_length_radixLexeme (radix : Nat) (mark rest : List Char) :
    mark.length ≤ (radixLexeme radix mark rest).length := by
  unfold radixLexeme
  dsimp only
  split
  · exact Nat.le_add_right _ _
  · split
    · exact Nat.le_add_right _ _
    · exact Nat.le_trans (Nat.le_add_right _ _) (le_length_suffixLexeme _ _ _)

private theorem le_length_floatLexeme (whole rest : List Char) : whole.length ≤ (floatLexeme whole rest).length := by
  have decimal : whole.length ≤ (DecimalText.goingOn whole rest).chars.length := by
    rw [Buffer.length_chars,Nat.add_assoc]
    exact Nat.le_add_right _ _
  rw [Buffer.floatLexeme_eq whole rest _ rfl]
  split
  · exact decimal
  · cases (rest.drop ((DecimalText.goingOn whole rest).chars.length - whole.length)).head? with
    | none => exact decimal
    | some c =>
      dsimp only [Option.elim]
      split
      · exact Nat.le_succ_of_le decimal
      · split
        · exact Nat.le_succ_of_le decimal
        · split
          · exact Nat.le_succ_of_le decimal
          · exact decimal

private theorem length_zeroLexeme_pos (rest : List Char) : 0 < (zeroLexeme rest).length := by
  unfold zeroLexeme
  split
  · exact Nat.one_pos
  · rename_i c tail
    have marked (radix : Nat) : 0 < (radixLexeme radix ['0',c] tail).length :=
      Nat.lt_of_lt_of_le Nat.two_pos (le_length_radixLexeme radix ['0',c] tail)
    split
    · exact marked 2
    · split
      · exact marked 8
      · split
        · exact marked 16
        · split
          · exact le_length_suffixLexeme 0 1 _
          · split
            · dsimp only
              split
              · exact Nat.succ_pos _
              · exact Nat.lt_of_lt_of_le (Nat.succ_pos _) (le_length_suffixLexeme _ _ _)
            · split
              · exact le_length_floatLexeme ['0'] _
              · exact Nat.one_pos

private theorem length_decimalLexeme_pos {c : Char} (digit : isDecimalDigit c) (rest : List Char) :
    0 < (decimalLexeme (c :: rest)).length := by
  have digits : 0 < ((c :: rest).takeWhile isDecimalDigit).length := by simp [digit]
  unfold decimalLexeme
  dsimp only
  split
  · exact Nat.lt_of_lt_of_le digits (le_length_floatLexeme _ _)
  · split
    · exact digits
    · exact Nat.lt_of_lt_of_le digits (le_length_suffixLexeme _ _ _)

private theorem le_length_closeCharacter (value length : Nat) (rest : List Char) :
    length ≤ (closeCharacter value length rest).length := by
  unfold closeCharacter
  dsimp only
  split
  · exact Nat.le_refl _
  · split
    · exact Nat.le_succ _
    · exact Nat.le_refl _

private theorem length_characterLexeme_pos (rest : List Char) : 0 < (characterLexeme rest).length := by
  unfold characterLexeme
  split
  · exact Nat.one_pos
  · split
    · exact Nat.two_pos
    · split
      · dsimp only
        split
        · exact Nat.lt_of_lt_of_le Nat.two_pos (Nat.le_add_right _ _)
        · exact Nat.lt_of_lt_of_le (by omega) (le_length_closeCharacter _ _ _)
      · exact Nat.lt_of_lt_of_le Nat.two_pos (le_length_closeCharacter _ _ _)

private theorem le_length_stringFrom (decoded : List UInt8) (length : Nat) (rest : List Char) :
    length ≤ (stringFrom decoded length rest).length := by
  fun_induction stringFrom decoded length rest with
  | case1 => exact Nat.le_refl _
  | case2 => exact Nat.le_succ _
  | case3 => exact Nat.le_succ _
  | case4 => exact Nat.le_trans (Nat.le_succ _) (Nat.le_add_right _ _)
  | case5 decoded length rest escape value read newline quote ih => exact Nat.le_trans (by omega) ih
  | case6 decoded length c rest newline quote backslash ih => exact Nat.le_trans (Nat.le_succ _) ih

private theorem length_identifierLexeme_pos (c : Char) (rest : List Char) : 0 < (identifierLexeme c rest).length := by
  unfold identifierLexeme
  split
  · exact Nat.succ_pos _
  · exact Nat.one_pos

/-- Every lexeme covers at least its first character. -/
theorem length_read_pos (c : Char) (rest : List Char) : 0 < (Lexeme.read c rest).length := by
  have longest := Spelling.longest?_isLongest (c :: rest)
  unfold Lexeme.read
  split
  · rename_i spelling found
    rw [found] at longest
    exact List.length_pos_iff.mpr (Spelling.texts_distinct.2 spelling longest.1)
  · split
    · exact le_length_stringFrom [] 1 rest
    · split
      · exact length_zeroLexeme_pos rest
      · split
        · rename_i digit
          exact length_decimalLexeme_pos digit rest
        · split
          · exact length_characterLexeme_pos rest
          · exact length_identifierLexeme_pos c rest

/-! ### Items -/

/-- The place of a token or an error. A failure to read on has none. -/
def Item.pos? : Item → Option Position
  | .token read => some read.pos
  | .error found => some found.pos
  | .failure _ => none

namespace Lexer

/-- The item is read behind a gap and covers the characters of a lexeme, or of a comment that never ends; the first of them
    has the place of the item. -/
structure Reads (lexer : Lexer) (gap lexeme : List Char) (item : Item) (after : Lexer) : Prop where
  text : lexer.rest = gap ++ (lexeme ++ after.rest)
  blank : GapText gap
  covers : lexeme ≠ []
  tight : StartsTight (lexeme ++ after.rest)
  place : item.pos? = some (lexer.pos.advance gap)
  stop : after.pos = lexer.pos.advance (gap ++ lexeme)
  failure : after.failure = lexer.failure

theorem Reads.shorter {lexer after : Lexer} {gap lexeme : List Char} {item : Item}
    (reads : lexer.Reads gap lexeme item after) : after.rest.length < lexer.rest.length := by
  have covers := List.length_pos_iff.mpr reads.covers
  rw [reads.text,List.length_append,List.length_append]
  omega

private theorem reads_skip {lexer : Lexer} {gap rest : List Char} {item : Item} {length : Nat} (text : lexer.rest = gap ++ rest)
    (blank : GapText gap) (tight : StartsTight rest) (more : rest ≠ []) (covers : 0 < length)
    (place : item.pos? = some (lexer.skip gap.length).pos) :
    lexer.Reads gap (rest.take length) item ((lexer.skip gap.length).skip length) := by
  have split : rest.take length ++ ((lexer.skip gap.length).skip length).rest = rest := by simp [text]
  refine ⟨by rw [split,text],blank,?_,by rwa [split],?_,?_,rfl⟩
  · simp [more,Nat.pos_iff_ne_zero.mp covers]
  · rw [place,pos_skip_length text]
  · rw [Position.advance_append,← pos_skip_length text]
    simp [skip,text]

/-- A lexer reads an item of at least one character, or it is at the end of its text and gives the failure that is left, if any.
    -/
theorem next_cases (lexer : Lexer) :
    (∃ gap lexeme item, lexer.next.1 = some item ∧ lexer.Reads gap lexeme item lexer.next.2) ∨
    (lexer.next.1 = lexer.failure.map .failure ∧
      lexer.next.2 = { lexer.skip lexer.rest.length with failure := none }) := by
  obtain ⟨gap,rest,text,length,ending⟩ := Gap.measured lexer.rest
  rw [Nat.zero_add] at length
  have behind : (lexer.skip gap.length).rest = rest := by simp [text]
  unfold next
  dsimp only
  rw [length]
  rcases ending with ⟨rfl,closed⟩ | ⟨blank,tight,more,-⟩
  · refine .inr ?_
    rw [if_neg (by simp [closed]),behind,skip_to_end behind]
    cases found : lexer.failure with
    | some message => simp [found]
    | none => simp [skip,found]
  · refine .inl ?_
    split
    · rw [behind]
      exact ⟨gap,_,_,rfl,reads_skip text blank tight more (List.length_pos_iff.mpr more) rfl⟩
    · rw [behind]
      cases rest with
      | nil => exact absurd rfl more
      | cons c rest =>
        dsimp only [readLexeme]
        refine ⟨gap,_,_,rfl,reads_skip text blank tight more (length_read_pos c rest) ?_⟩
        split <;> rfl

/-- The lexer after some calls. -/
def after (lexer : Lexer) : (calls : Nat) → Lexer
  | 0 => lexer
  | calls + 1 => (lexer.after calls).next.2

private theorem after_succ (lexer : Lexer) (calls : Nat) : lexer.after (calls + 1) = lexer.next.2.after calls := by
  induction calls with
  | zero => rfl
  | succ calls ih => rw [after,ih,after]

private theorem after_add (lexer : Lexer) (first second : Nat) :
    lexer.after (first + second) = (lexer.after first).after second := by
  induction second with
  | zero => rfl
  | succ second ih => rw [Nat.add_succ,after,ih,after]

private theorem next_moves (lexer : Lexer) :
    ∃ chars, lexer.rest = chars ++ lexer.next.2.rest ∧ lexer.next.2.pos = lexer.pos.advance chars := by
  rcases lexer.next_cases with ⟨gap,lexeme,item,-,reads⟩ | ⟨-,stop⟩
  · exact ⟨gap ++ lexeme,by rw [List.append_assoc,← reads.text],reads.stop⟩
  · exact ⟨lexer.rest,by simp [stop],by simp [stop,skip]⟩

/-- After any number of calls, a lexer has moved over a piece of its text. -/
theorem after_moves (lexer : Lexer) (calls : Nat) :
    ∃ chars, lexer.rest = chars ++ (lexer.after calls).rest ∧ (lexer.after calls).pos = lexer.pos.advance chars := by
  induction calls with
  | zero => exact ⟨[],rfl,rfl⟩
  | succ calls ih =>
    obtain ⟨chars,text,place⟩ := ih
    obtain ⟨more,further,stop⟩ := (lexer.after calls).next_moves
    exact ⟨chars ++ more,by rw [List.append_assoc,text,further]; rfl,by rw [Position.advance_append,← place]; exact stop⟩

/-- A lexer that is at its end without a failure gives nothing from then on. -/
theorem after_finished {lexer : Lexer} (rest : lexer.rest = []) (failure : lexer.failure = none) (calls : Nat) :
    (lexer.after calls).next.1 = none := by
  have same : lexer.next = (none,lexer) := by
    obtain ⟨text,pos,pending⟩ := lexer
    subst rest failure
    rfl
  induction calls with
  | zero => rw [after,same]
  | succ calls ih => rw [after_succ,same,ih]

private theorem reads_of_pos {lexer : Lexer} {pos : Position} (located : lexer.next.1.bind Item.pos? = some pos) :
    ∃ gap lexeme item, pos = lexer.pos.advance gap ∧ lexer.Reads gap lexeme item lexer.next.2 := by
  rcases lexer.next_cases with ⟨gap,lexeme,item,given,reads⟩ | ⟨given,-⟩
  · refine ⟨gap,lexeme,item,?_,reads⟩
    rw [given,Option.bind_some,reads.place] at located
    exact (Option.some.inj located).symm
  · rw [given] at located
    cases found : lexer.failure with
    | none => simp [found] at located
    | some message => simp [found,Item.pos?] at located

private theorem precedes_of_lt (lexer : Lexer) {first second : Nat} (before : first < second) {early late : Position}
    (one : (lexer.after first).next.1.bind Item.pos? = some early)
    (other : (lexer.after second).next.1.bind Item.pos? = some late) : early.Precedes late := by
  obtain ⟨gap,lexeme,_,rfl,reads⟩ := reads_of_pos one
  obtain ⟨later,_,_,rfl,-⟩ := reads_of_pos other
  obtain ⟨distance,rfl⟩ := Nat.exists_eq_add_of_lt before
  obtain ⟨chars,-,moved⟩ := ((lexer.after first).next.2).after_moves distance
  have place : (lexer.after (first + distance + 1)).pos = ((lexer.after first).next.2.pos).advance chars := by
    rw [Nat.add_assoc,after_add,after_succ,moved]
  rw [place,reads.stop,Position.advance_append,← Position.advance_append,← Position.advance_append]
  exact Position.precedes_advance _ (by simp [reads.covers])

theorem take_of_pos {lexer : Lexer} {item : Item} {pos : Position} (given : lexer.next.1 = some item)
    (located : item.pos? = some pos) (count : Nat) :
    lexer.take (count + 1) = (item :: (lexer.next.2.take count).1,(lexer.next.2.take count).2) := by
  rw [take]
  cases found : lexer.next with
  | mk result last =>
    rw [found] at given
    dsimp only at given
    subst given
    cases item with
    | failure message => simp [Item.pos?] at located
    | token _ => rfl
    | error _ => rfl

theorem take_of_end {lexer : Lexer} (given : lexer.next.1 = lexer.failure.map .failure) (count : Nat) :
    lexer.take (count + 1) = ((lexer.failure.map .failure).toList,lexer.next.2) := by
  rw [take]
  cases found : lexer.next with
  | mk result last =>
    rw [found] at given
    dsimp only at given
    subst given
    cases lexer.failure with
    | none => rfl
    | some message => rfl

/-- Items that are taken together are those that are given one by one. -/
theorem take_getElem? {lexer : Lexer} {count : Nat} (enough : lexer.rest.length < count) (calls : Nat) :
    (lexer.take count).1[calls]? = (lexer.after calls).next.1 := by
  induction count generalizing lexer calls with
  | zero => exact absurd enough (Nat.not_lt_zero _)
  | succ count ih =>
    rcases lexer.next_cases with ⟨gap,lexeme,item,given,reads⟩ | ⟨given,stop⟩
    · rw [take_of_pos given reads.place]
      cases calls with
      | zero => exact given.symm
      | succ calls =>
        rw [List.getElem?_cons_succ,after_succ]
        refine ih ?_ calls
        have shorter := reads.shorter
        omega
    · rw [take_of_end given]
      cases calls with
      | zero =>
        rw [after,given]
        cases lexer.failure <;> rfl
      | succ calls =>
        rw [after_succ,after_finished (by simp [stop]) (by simp [stop])]
        cases lexer.failure <;> rfl

/-- More calls than there are characters change nothing. -/
theorem take_of_enough {lexer : Lexer} {first second : Nat} (left : lexer.rest.length < first)
    (right : lexer.rest.length < second) : lexer.take first = lexer.take second := by
  induction first generalizing lexer second with
  | zero => exact absurd left (Nat.not_lt_zero _)
  | succ first ih =>
    cases second with
    | zero => exact absurd right (Nat.not_lt_zero _)
    | succ second =>
      rcases lexer.next_cases with ⟨gap,lexeme,item,given,reads⟩ | ⟨given,-⟩
      · have shorter := reads.shorter
        have same : lexer.next.2.take first = lexer.next.2.take second := ih (by omega) (by omega)
        rw [take_of_pos given reads.place,take_of_pos given reads.place,same]
      · rw [take_of_end given,take_of_end given]

/-- A lexer gives its items one after the other: either an item is read and the others come behind it, or the end is found. -/
theorem all_induction {motive : Lexer → Prop}
    (read : ∀ lexer gap lexeme item, lexer.next.1 = some item → lexer.Reads gap lexeme item lexer.next.2 →
      lexer.all = (item :: lexer.next.2.all.1,lexer.next.2.all.2) → motive lexer.next.2 → motive lexer)
    (ended : ∀ lexer, lexer.next.1 = lexer.failure.map .failure →
      lexer.all = ((lexer.failure.map .failure).toList,{ lexer.skip lexer.rest.length with failure := none }) → motive lexer)
    (lexer : Lexer) : motive lexer := by
  induction size : lexer.rest.length using Nat.strongRecOn generalizing lexer with
  | ind size ih =>
    subst size
    rcases lexer.next_cases with ⟨gap,lexeme,item,given,reads⟩ | ⟨given,stop⟩
    · have shorter := reads.shorter
      refine read lexer gap lexeme item given reads ?_ (ih _ shorter lexer.next.2 rfl)
      rw [all,take_of_pos given reads.place,take_of_enough shorter (Nat.lt_succ_self _)]
      rfl
    · refine ended lexer given ?_
      rw [all,take_of_end given,stop]

private theorem length_take_le (lexer : Lexer) (count : Nat) :
    (lexer.take count).1.length ≤ lexer.rest.length + lexer.failure.toList.length := by
  induction count generalizing lexer with
  | zero => exact Nat.zero_le _
  | succ count ih =>
    rcases lexer.next_cases with ⟨gap,lexeme,item,given,reads⟩ | ⟨given,stop⟩
    · have others := ih lexer.next.2
      have shorter := reads.shorter
      rw [reads.failure] at others
      rw [take_of_pos given reads.place,List.length_cons]
      omega
    · rw [take_of_end given]
      cases lexer.failure <;> simp

end Lexer

namespace Buffer

/-! ### Calls -/

/-- The buffer of a source after some calls. -/
def after (source : Source) : (calls : Nat) → Buffer
  | 0 => start source
  | calls + 1 => (after source calls).nextItem.2

/-- What a call gives, if some calls were made before. -/
def item (source : Source) (calls : Nat) : Option Item := (after source calls).nextItem.1

/-- The buffer holds the end of a source: behind some characters come those that were pushed back, the last one first, and
    then the unread ones. Each of the former has its true place, and so has the next character. -/
structure StandsBehind (buffer : Buffer) (source : Source) (before : List Char) : Prop where
  text : source.chars = before ++ buffer.remaining
  pushed : ∀ (index : Nat) (c : PlacedChar), buffer.pushed[index]? = some c →
    c.pos = .behind (before ++ (buffer.pushed.take index).map (·.char))
  position : buffer.position = .behind before

/-- Between two buffers an item is read behind a gap: its place is the true one of the first of the characters that it covers,
    and these characters do not start with a blank or a finished comment. -/
def ReadsAt (buffer last : Buffer) (before : List Char) (pos : Position) : Prop :=
  ∃ gap lexeme, buffer.remaining = gap ++ (lexeme ++ last.remaining) ∧ GapText gap ∧ lexeme ≠ [] ∧
    StartsTight (lexeme ++ last.remaining) ∧ pos = .behind (before ++ gap)

variable {buffer : Buffer} {lexer : Lexer}

private theorem pos_placed {pos : Position} {chars : List Char} {index : Nat} {c : PlacedChar}
    (found : (placed pos chars)[index]? = some c) : c.pos = pos.advance (chars.take index) := by
  rw [← List.head?_drop,drop_placed] at found
  cases rest : chars.drop index with
  | nil => simp [rest,placed] at found
  | cons d others =>
    rw [rest,placed,List.head?_cons] at found
    rw [← Option.some.inj found]

private theorem Represents.standsBehind {source : Source} {before : List Char} (represents : buffer.Represents lexer)
    (text : source.chars = before ++ lexer.rest) (place : lexer.pos = .behind before) :
    buffer.StandsBehind source before := by
  refine ⟨by rw [text,represents.rest],fun index c found => ?_,by rw [represents.position,place]⟩
  rw [represents.pushed] at found
  rw [pos_placed found,place,← Position.advance_origin,← Position.advance_origin,← Position.advance_append,List.map_take]

/-- After any number of calls, a buffer stands where the lexer stands. -/
theorem represents_after (source : Source) (calls : Nat) :
    (after source calls).Represents ((Lexer.start source).after calls) := by
  induction calls with
  | zero => exact represents_start source
  | succ calls ih => exact ih.nextItem.2

theorem item_eq (source : Source) (calls : Nat) : item source calls = ((Lexer.start source).after calls).next.1 :=
  (represents_after source calls).nextItem.1

/-- A buffer takes the items of its lexer. -/
theorem Represents.takeItems (represents : buffer.Represents lexer) (count : Nat) :
    (buffer.takeItems count).1 = (lexer.take count).1 ∧ (buffer.takeItems count).2.Represents (lexer.take count).2 := by
  induction count generalizing buffer lexer with
  | zero => exact ⟨rfl,represents⟩
  | succ count ih =>
    obtain ⟨same,there⟩ := represents.nextItem
    rw [Buffer.takeItems,Lexer.take]
    cases found : buffer.nextItem with
    | mk result later =>
      cases given : lexer.next with
      | mk result last =>
        rw [found,given] at same there
        dsimp only at same there
        subst same
        rcases result with _ | _ | _ | _
        · exact ⟨rfl,there⟩
        · exact ⟨congrArg _ (ih there).1,(ih there).2⟩
        · exact ⟨congrArg _ (ih there).1,(ih there).2⟩
        · exact ⟨rfl,there⟩

theorem items_start (source : Source) : (start source).items.1 = (Lexer.start source).all.1 := by
  have size : (start source).size = (Lexer.start source).rest.length := by simp [start,Buffer.size,Lexer.start]
  unfold items Lexer.all
  rw [size]
  exact ((represents_start source).takeItems _).1

/-- After any number of calls the buffer holds the end of the source with true places; a call that gives a token or an error
    reads it behind a gap, at the place of its first character, and leaves less. So the places of later items come later, and
    all items are those of the calls, no more than there are characters and a failure to read on. -/
theorem places_and_progress (source : Source) :
    (∀ calls, ∃ before, (after source calls).StandsBehind source before ∧
      ∀ pos, (item source calls).bind Item.pos? = some pos →
        (after source calls).ReadsAt (after source (calls + 1)) before pos ∧
        (after source (calls + 1)).remaining.length < (after source calls).remaining.length) ∧
    (∀ first second early late, first < second → (item source first).bind Item.pos? = some early →
      (item source second).bind Item.pos? = some late → early.Precedes late) ∧
    (∀ calls, (start source).items.1[calls]? = item source calls) ∧
    (start source).items.1.length ≤ source.chars.length + source.failure.toList.length := by
  refine ⟨fun calls => ?_,fun first second early late before one other => ?_,fun calls => ?_,?_⟩
  · obtain ⟨before,text,place⟩ := (Lexer.start source).after_moves calls
    have place : ((Lexer.start source).after calls).pos = .behind before := place.trans (Position.advance_origin before)
    have here := represents_after source calls
    have there := represents_after source (calls + 1)
    refine ⟨before,here.standsBehind text place,fun pos located => ?_⟩
    rw [item_eq] at located
    obtain ⟨gap,lexeme,_,rfl,reads⟩ := Lexer.reads_of_pos located
    rw [ReadsAt,← here.rest,← there.rest]
    refine ⟨⟨gap,lexeme,reads.text,reads.blank,reads.covers,reads.tight,?_⟩,reads.shorter⟩
    rw [place,← Position.advance_origin,← Position.advance_origin,Position.advance_append]
  · rw [item_eq] at one other
    exact (Lexer.start source).precedes_of_lt before one other
  · rw [items_start,item_eq]
    exact Lexer.take_getElem? (Nat.lt_succ_self _) calls
  · rw [items_start]
    exact Lexer.length_take_le (Lexer.start source) _

/-- Three errors: a binary literal without digits, a character literal without its end, and a comment without one. -/
def malformed : Source := .ofString "0b\n/* */ 'a\n/*"

theorem places_and_progress_malformed :
    (item malformed 0).bind Item.pos? = some ⟨1,1⟩ ∧ (item malformed 1).bind Item.pos? = some ⟨2,7⟩ ∧
    (item malformed 2).bind Item.pos? = some ⟨3,1⟩ ∧ (⟨1,1⟩ : Position).Precedes ⟨2,7⟩ ∧
    (⟨2,7⟩ : Position).Precedes ⟨3,1⟩ ∧
    (∃ before, (after malformed 2).ReadsAt (after malformed 3) before ⟨3,1⟩) ∧
    (start malformed).items.1.length = 3 ∧ (start malformed).items.1[3]? = item malformed 3 ∧ item malformed 3 = none := by
  have places : (item malformed 0).bind Item.pos? = some ⟨1,1⟩ ∧ (item malformed 1).bind Item.pos? = some ⟨2,7⟩ ∧
      (item malformed 2).bind Item.pos? = some ⟨3,1⟩ ∧ (start malformed).items.1.length = 3 ∧ item malformed 3 = none := by
    decide +kernel
  obtain ⟨first,second,third,count,ended⟩ := places
  obtain ⟨calls,increase,all,-⟩ := places_and_progress malformed
  obtain ⟨before,-,reads⟩ := calls 2
  exact ⟨first,second,third,increase 0 1 _ _ (by decide) first second,increase 1 2 _ _ (by decide) second third,
    ⟨before,(reads _ third).1⟩,count,all 3,ended⟩

end Buffer

end CFrontend
