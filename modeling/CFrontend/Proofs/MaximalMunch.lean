import CFrontend.Proofs.IntegerLiterals

/-!
Fixed spellings are read by maximal munch. A spelling opens a text when the text starts with it and, for a word, no identifier character
follows; scanning takes the longest one that does and stops right behind it, or takes nothing (`Munches`,
`Represents.scanSpelling_munches`). A spelling opens a run of identifier characters only if it is the whole run
(`Spelling.isAt_run_iff`), so a run that does not start with a digit is one token wherever a token starts. Both are said in
`Buffer.scanSpelling_longest`.
-/
namespace CFrontend

namespace Spelling

/-- The text starts with the spelling, and a word ends where the identifier characters end. -/
structure Opens (spelling : Spelling) (source : List Char) : Prop where
  start : spelling.text <+: source
  boundary : spelling.isWord → ∀ c, (source.drop spelling.text.length).head? = some c → isIdentifierChar c = false

private theorem opens_iff {spelling : Spelling} {source : List Char} : spelling.Opens source ↔ spelling.isAt source := by
  rw [isAt_iff]
  constructor
  · rintro ⟨start,boundary⟩
    refine ⟨start,fun ⟨word,goesOn⟩ => ?_⟩
    obtain ⟨c,head,own⟩ := (Option.any_eq_true _ _).mp goesOn
    simp [boundary word c head] at own
  · rintro ⟨start,ends⟩
    refine ⟨start,fun word c head => Bool.eq_false_iff.mpr fun own => ends ⟨word,?_⟩⟩
    rw [head]
    exact own

/-- What scanning finds in a text, and the characters that it takes for it. -/
inductive Munches (source : List Char) : Option TokenKind → List Char → Prop
  | longest {spelling : Spelling} : spelling ∈ all → spelling.Opens source →
    (∀ other ∈ all, other.Opens source → other.text.length ≤ spelling.text.length) →
    Munches source (some spelling.kind) spelling.text
  | nothing : (∀ spelling ∈ all, ¬ spelling.Opens source) → Munches source none []

/-- Signs start with a character that no identifier has, and words have no such character. -/
theorem signs_and_words : ∀ spelling ∈ all, if spelling.isWord then spelling.text.all isIdentifierChar
    else spelling.text.head?.any fun c => !isIdentifierChar c := by
  decide +kernel

variable {run tail : List Char}

/-- At the start of a whole run of identifier characters, a spelling is the run or is not there. -/
theorem isAt_run_iff (nonempty : run ≠ []) (own : run.all isIdentifierChar)
    (stop : ∀ c, tail.head? = some c → isIdentifierChar c = false) {spelling : Spelling} (member : spelling ∈ all) :
    spelling.isAt (run ++ tail) ↔ spelling.text = run := by
  have chars : ∀ c ∈ run, isIdentifierChar c := List.all_eq_true.mp own
  rw [← opens_iff]
  constructor
  · rintro ⟨⟨others,same⟩,boundary⟩
    have sort := signs_and_words spelling member
    split at sort
    · rename_i word
      -- The word and the run are both all of the identifier characters at the start of the text.
      have behind : ∀ c, others.head? = some c → isIdentifierChar c = false := by
        intro c head
        refine boundary word c ?_
        rw [← same,List.drop_left,head]
      rw [← takeWhile_run (List.all_eq_true.mp sort) behind,same,takeWhile_run chars stop]
    · obtain ⟨c,head,foreign⟩ := (Option.any_eq_true _ _).mp sort
      have first : run.head? = some c := by
        rw [← List.head?_append_of_ne_nil run nonempty,← same,List.head?_append,head]
        rfl
      simp [chars c (List.mem_of_head? first)] at foreign
  · rintro rfl
    refine ⟨List.prefix_append _ tail,fun _ c head => stop c ?_⟩
    rwa [List.drop_left] at head

/-- The longest spelling at a run of identifier characters is the word that is the whole run, if there is one. -/
theorem longest?_run (nonempty : run ≠ []) (own : run.all isIdentifierChar)
    (stop : ∀ c, tail.head? = some c → isIdentifierChar c = false) :
    longest? (run ++ tail) = all.find? (·.text == run) := by
  refine (longest?_isLongest _).unique ?_
  cases found : all.find? (·.text == run) with
  | none =>
    intro spelling member here
    have same := (isAt_run_iff nonempty own stop member).mp here
    exact List.find?_eq_none.mp found spelling member (beq_iff_eq.mpr same)
  | some spelling =>
    have member : spelling ∈ all := List.mem_of_find?_eq_some found
    have text : spelling.text = run := by simpa using List.find?_some found
    refine ⟨member,(isAt_run_iff nonempty own stop member).mpr text,fun other listed here => ?_⟩
    rw [(isAt_run_iff nonempty own stop listed).mp here,text]

end Spelling

/-- The token of a run of identifier characters: the word that it spells, or the identifier with this text. -/
def runPayload (run : List Char) : Payload :=
  match Spelling.lookup run with
  | some kind => { kind := kind }
  | none => { kind := .identifier,literal := Text.encode run }

private theorem read_run {first : Char} {others tail : List Char} (own : (first :: others).all isIdentifierChar)
    (digit : isDecimalDigit first = false) (stop : ∀ c, tail.head? = some c → isIdentifierChar c = false) :
    Lexeme.read first (others ++ tail) = .payload (runPayload (first :: others)) (first :: others).length := by
  have longest := Spelling.longest?_run (List.cons_ne_nil first others) own stop
  obtain ⟨start,rest⟩ : isIdentifierChar first ∧ ∀ c ∈ others, isIdentifierChar c := by simpa using own
  unfold runPayload Spelling.lookup
  cases found : Spelling.all.find? (·.text == first :: others) with
  | some spelling =>
    have text : spelling.text = first :: others := by simpa using List.find?_some found
    rw [found,List.cons_append] at longest
    rw [Lexeme.read,longest]
    simp only [Option.map_some,text]
  | none =>
    rw [found,List.cons_append] at longest
    have zero : first ≠ '0' := by
      rintro rfl
      exact absurd digit (by decide)
    rw [read_unspelled longest,if_neg (ne_of_class start (by decide)),if_neg zero,if_neg (by simp [digit]),
      if_neg (ne_of_class start (by decide)),identifierLexeme,if_pos start]
    dsimp only
    rw [takeWhile_run rest stop]
    rfl

/-- A run of identifier characters behind a gap is the next token, as a whole. -/
theorem Lexer.next_run {lexer : Lexer} {gap run tail : List Char} (text : lexer.rest = gap ++ (run ++ tail)) (blank : GapText gap)
    (nonempty : run ≠ []) (own : run.all isIdentifierChar) (digit : ∀ c, run.head? = some c → isDecimalDigit c = false)
    (stop : ∀ c, tail.head? = some c → isIdentifierChar c = false) :
    lexer.next = (some (.token { toPayload := runPayload run,pos := lexer.pos.advance gap }),
      lexer.skip (gap ++ run).length) := by
  cases run with
  | nil => exact absurd rfl nonempty
  | cons first others =>
    have read := read_run own (digit first rfl) stop
    have behind : (lexer.skip gap.length).rest = first :: (others ++ tail) := by simp [text]
    have start : isIdentifierChar first := List.all_eq_true.mp own first List.mem_cons_self
    have solid := solid_of_class start fun blank => (blank_stops blank).1
    have tight := measure_of_head solid (ne_of_class start (by decide)) (others ++ tail)
    rw [next_gap text blank]
    refine next_token_iff.mpr ⟨0,first,others ++ tail,by rw [behind,tight],behind,by rw [read]; rfl,?_,?_⟩
    · exact (pos_skip_length text).symm
    · rw [read,skip_skip,skip_skip,Nat.zero_add,List.length_append]
      rfl

namespace Buffer

open Spelling (Munches)

variable {buffer : Buffer} {lexer : Lexer}

/-- A buffer that looks for a spelling takes the one that is munched, and has the rest of the text left. -/
theorem Represents.scanSpelling_munches (represents : buffer.Represents lexer) :
    ∃ covered, Munches lexer.rest buffer.scanSpelling.1 covered ∧ lexer.rest = covered ++ buffer.scanSpelling.2.remaining ∧
      buffer.scanSpelling.2.Represents (lexer.skip covered.length) := by
  cases scanned : buffer.scanSpelling with
  | mk kind after =>
    obtain ⟨rfl,stop⟩ := represents.scanSpelling scanned
    have longest := Spelling.longest?_isLongest lexer.rest
    cases found : Spelling.longest? lexer.rest with
    | none =>
      rw [found] at stop longest
      refine ⟨[],?_,stop.rest,stop⟩
      exact .nothing fun spelling member opens => longest spelling member (Spelling.opens_iff.mp opens)
    | some spelling =>
      rw [found] at stop longest
      obtain ⟨member,here,greatest⟩ := longest
      have opens := Spelling.opens_iff.mpr here
      refine ⟨spelling.text,?_,?_,stop⟩
      · exact .longest member opens fun other listed start => greatest other listed (Spelling.opens_iff.mp start)
      · rw [← stop.rest]
        exact (List.prefix_iff_eq_append.mp opens.start).symm

/-- Scanning takes the longest spelling that opens the rest of the text and leaves what follows it, or takes nothing where no
    spelling does; what is left has its places, also when nothing was taken. Behind a gap, a run of identifier characters that ends where they
    end and does not start with a digit is one token. -/
theorem scanSpelling_longest (represents : buffer.Represents lexer) :
    (∃ covered, Munches buffer.remaining buffer.scanSpelling.1 covered ∧
      buffer.remaining = covered ++ buffer.scanSpelling.2.remaining ∧
      buffer.scanSpelling.2.position = buffer.position.advance covered ∧
      buffer.scanSpelling.2.Represents (lexer.skip covered.length)) ∧
    ∀ gap run tail : List Char, buffer.remaining = gap ++ (run ++ tail) → GapText gap → run ≠ [] → run.all isIdentifierChar →
      (∀ c, run.head? = some c → isDecimalDigit c = false) → (∀ c, tail.head? = some c → isIdentifierChar c = false) →
      buffer.nextItem.1 = some (.token { toPayload := runPayload run,pos := buffer.position.advance gap }) ∧
      buffer.nextItem.2.remaining = tail ∧ buffer.nextItem.2.position = buffer.position.advance (gap ++ run) := by
  rw [represents.position,← represents.rest]
  constructor
  · obtain ⟨covered,munches,text,stop⟩ := represents.scanSpelling_munches
    exact ⟨covered,munches,text,by rw [stop.position,Lexer.pos_skip_length text],stop⟩
  · intro gap run tail text blank nonempty own digit ends
    have next := Lexer.next_run text blank nonempty own digit ends
    obtain ⟨item,stop⟩ := represents.nextItem
    rw [next] at item stop
    rw [← List.append_assoc] at text
    refine ⟨item,?_,by rw [stop.position,Lexer.pos_skip_length text]⟩
    rw [← stop.rest,Lexer.rest_skip,text,List.drop_left]

/-- Two characters that start two other words, and an operator. -/
def shortWord : Source := .ofString "do<<=1"

/-- A blank and a name that starts with two words. -/
def longName : Source := .ofString " doubled+"

theorem scanSpelling_longest_doubled :
    (∃ covered, Munches shortWord.chars (some .kwDo) covered ∧ shortWord.chars = covered ++ (start shortWord).scanSpelling.2.remaining) ∧
    (start longName).nextItem.1 = some (.token { kind := .identifier,literal := Text.encode "doubled".toList,pos := ⟨1,2⟩ }) ∧
    (start longName).nextItem.2.remaining = ['+'] := by
  constructor
  · obtain ⟨covered,munches,text,-⟩ := (scanSpelling_longest (represents_start shortWord)).1
    have kind : (start shortWord).scanSpelling.1 = some .kwDo := by decide +kernel
    rw [kind] at munches
    exact ⟨covered,munches,text⟩
  · have blank : GapText ([' '] ++ []) := .blank (by decide) .empty
    have digit : ∀ c, "doubled".toList.head? = some c → isDecimalDigit c = false := by
      intro c head
      obtain rfl : 'd' = c := by simpa using head
      rfl
    have ends : ∀ c, ['+'].head? = some c → isIdentifierChar c = false := by
      intro c head
      obtain rfl : '+' = c := by simpa using head
      rfl
    obtain ⟨item,rest,-⟩ := (scanSpelling_longest (represents_start longName)).2 [' '] "doubled".toList ['+'] (by decide) blank
      (by decide) (by decide) digit ends
    have payload : runPayload "doubled".toList = { kind := .identifier,literal := Text.encode "doubled".toList } := by decide +kernel
    rw [payload] at item
    exact ⟨item,rest⟩

end Buffer

end CFrontend
