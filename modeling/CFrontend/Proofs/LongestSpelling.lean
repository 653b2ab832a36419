import Mathlib.Data.List.Nodup
import CFrontend.Proofs.PushBack

/-!
The longest fixed spelling at the start of a text. The lexer folds over the table of spellings; a buffer instead reads on while
a spelling starts with what was read, and then tries shorter and shorter pieces of it. No two spellings share
a text, so there is one longest spelling (`IsLongest.unique`), and both ways find it (`longest?_isLongest`,
`Represents.scanSpelling`).
-/
namespace CFrontend

namespace Spelling

/-- No two spellings share a text, and each has one. -/
theorem texts_distinct : (all.map (·.text)).Nodup ∧ ∀ spelling ∈ all, spelling.text ≠ [] := by
  decide +kernel

/-- The spelling is the longest of a list that a text starts with, or none of them is at its start. -/
def IsLongest (source : List Char) (among : List Spelling) : Option Spelling → Prop
  | none => ∀ spelling ∈ among, ¬ spelling.isAt source
  | some best => best ∈ among ∧ best.isAt source ∧
      ∀ spelling ∈ among, spelling.isAt source → spelling.text.length ≤ best.text.length

/-- A spelling is at the start of a text with all its characters, and a word only where no name goes on behind it. -/
theorem isAt_iff {spelling : Spelling} {source : List Char} : spelling.isAt source ↔
    spelling.text <+: source ∧
      ¬ (spelling.isWord ∧ (source.drop spelling.text.length).head?.any isIdentifierChar) := by
  rw [isAt,Bool.and_eq_true,List.isPrefixOf_iff_prefix,Bool.not_eq_true',Bool.and_eq_false_iff]
  simp [imp_iff_not_or]

private theorem text_of_isAt {spelling : Spelling} {source : List Char} (here : spelling.isAt source) :
    spelling.text = source.take spelling.text.length :=
  List.prefix_iff_eq_take.mp (isAt_iff.mp here).1

private theorem eq_of_text {first second : Spelling} (left : first ∈ all) (right : second ∈ all)
    (same : first.text = second.text) : first = second :=
  List.inj_on_of_nodup_map texts_distinct.1 left right same

/-- Weighing one more spelling against the longest of a list gives the longest of both. -/
theorem IsLongest.longer {source : List Char} {among : List Spelling} {best : Option Spelling}
    (longest : IsLongest source among best) (spelling : Spelling) :
    IsLongest source (among ++ [spelling]) (longer source best spelling) := by
  unfold Spelling.longer
  cases here : spelling.isAt source with
  | false =>
    cases best with
    | none => exact List.forall_mem_append.mpr ⟨longest,by simp [here]⟩
    | some other =>
      obtain ⟨member,start,greatest⟩ := longest
      exact ⟨by simp [member],start,List.forall_mem_append.mpr ⟨greatest,by simp [here]⟩⟩
  | true =>
    cases best with
    | none =>
      refine ⟨by simp,here,List.forall_mem_append.mpr ⟨?_,by simp⟩⟩
      exact fun another member start => absurd start (longest another member)
    | some other =>
      obtain ⟨member,start,greatest⟩ := longest
      by_cases more : other.text.length < spelling.text.length
      · simp only [Bool.not_true,Bool.false_eq_true,if_false,more,if_true]
        refine ⟨by simp,here,List.forall_mem_append.mpr ⟨?_,by simp⟩⟩
        exact fun another found at_ => Nat.le_trans (greatest another found at_) (Nat.le_of_lt more)
      · simp only [Bool.not_true,Bool.false_eq_true,if_false,more]
        refine ⟨by simp [member],start,List.forall_mem_append.mpr ⟨greatest,?_⟩⟩
        exact List.forall_mem_singleton.mpr fun _ => Nat.le_of_not_lt more

private theorem foldl_isLongest {source : List Char} {before : List Spelling} {best : Option Spelling}
    (longest : IsLongest source before best) (others : List Spelling) :
    IsLongest source (before ++ others) (others.foldl (longer source) best) := by
  induction others generalizing before best with
  | nil => simpa using longest
  | cons spelling others ih => simpa using ih (longest.longer spelling)

/-- The fold over the whole table finds the longest spelling at the start of a text. -/
theorem longest?_isLongest (source : List Char) : IsLongest source all (longest? source) :=
  have nothing : IsLongest source [] none := fun _ member => absurd member List.not_mem_nil
  foldl_isLongest nothing all

/-- There is one longest spelling, because two of one length at the start of a text have one text. -/
theorem IsLongest.unique {source : List Char} {first second : Option Spelling}
    (left : IsLongest source all first) (right : IsLongest source all second) : first = second := by
  cases first with
  | none =>
    cases second with
    | none => rfl
    | some other => exact absurd right.2.1 (left other right.1)
  | some spelling =>
    cases second with
    | none => exact absurd left.2.1 (right spelling left.1)
    | some other =>
      have same : spelling.text.length = other.text.length :=
        Nat.le_antisymm (right.2.2 spelling left.1 left.2.1) (left.2.2 other right.1 right.2.1)
      have texts : spelling.text = other.text := by
        rw [text_of_isAt left.2.1,text_of_isAt right.2.1,same]
      rw [eq_of_text left.1 right.1 texts]

end Spelling

namespace Buffer

open Spelling (IsLongest)

variable {buffer after : Buffer} {lexer : Lexer}

/-- A buffer reads on as long as a spelling starts with what was read; it stands behind this text when one more character fits
    none. -/
theorem Represents.readSpelling {text rest : List Char} {read : List PlacedChar}
    (represents : buffer.Represents (lexer.skip text.length)) (first : lexer.rest = text ++ rest)
    (done : Buffer.readSpelling (placed lexer.pos text) buffer = (read,after)) :
    ∃ whole others, lexer.rest = whole ++ others ∧ read = placed lexer.pos whole ∧
      after.Represents (lexer.skip whole.length) ∧ ∀ c, others.head? = some c → ¬ startsSpelling (whole ++ [c]) := by
  generalize given : placed lexer.pos text = start at done
  fun_induction Buffer.readSpelling start buffer generalizing text rest with
  | case1 start buffer next taken =>
    obtain ⟨rfl,rfl⟩ := Prod.mk.inj done
    obtain ⟨empty,same,-⟩ := represents.next_none taken
    obtain rfl : rest = [] := by simpa [first] using empty
    exact ⟨text,[],first,given.symm,same,by simp⟩
  | case2 start buffer c next taken starts ih =>
    subst given
    obtain ⟨others,rfl,grown,moved,-⟩ := represents.next_behind first taken
    exact ih moved (by simpa using first) grown.symm done
  | case3 start buffer c next taken fails =>
    subst given
    obtain ⟨rfl,rfl⟩ := Prod.mk.inj done
    obtain ⟨others,rfl,grown,-,again⟩ := represents.next_behind first taken
    rw [grown,map_placed] at fails
    refine ⟨text,_,first,rfl,again,fun d found => ?_⟩
    obtain rfl : c.char = d := by simpa using found
    exact fails

/-- No spelling goes beyond what was read. -/
theorem length_le_of_isAt {whole others : List Char}
    (stops : ∀ c, others.head? = some c → ¬ startsSpelling (whole ++ [c])) {spelling : Spelling}
    (member : spelling ∈ Spelling.all) (here : spelling.isAt (whole ++ others)) :
    spelling.text.length ≤ whole.length := by
  by_contra more
  obtain ⟨start,-⟩ := Spelling.isAt_iff.mp here
  cases others with
  | nil => exact more (by simpa using start.length_le)
  | cons c others =>
    have inside : whole ++ [c] <+: spelling.text := by
      have given : whole ++ [c] <+: whole ++ c :: others := ⟨others,by simp⟩
      refine List.prefix_of_prefix_length_le given start ?_
      rw [List.length_append,List.length_singleton]
      omega
    refine stops c rfl (List.any_eq_true.mpr ⟨spelling,member,?_⟩)
    simpa using inside

theorem drop_placed (pos : Position) (chars : List Char) (count : Nat) :
    (placed pos chars).drop count = placed (pos.advance (chars.take count)) (chars.drop count) := by
  have both := placed_append pos (chars.take count) (chars.drop count)
  rw [List.take_append_drop] at both
  by_cases short : count ≤ chars.length
  · rw [both,List.drop_left' (by simpa using Nat.min_eq_left short)]
  · rw [List.drop_of_length_le (by simpa using Nat.le_of_not_le short),
      List.drop_of_length_le (Nat.le_of_not_le short)]
    rfl

/-- What was read beyond a number of characters is pushed back, and the buffer stands behind these characters. -/
theorem Represents.backAll_drop {whole others : List Char} (represents : after.Represents (lexer.skip whole.length))
    (first : lexer.rest = whole ++ others) {count : Nat} (short : count ≤ whole.length) :
    (after.backAll ((placed lexer.pos whole).drop count)).Represents (lexer.skip count) := by
  have behind : (lexer.skip count).rest = whole.drop count ++ others := by
    rw [Lexer.rest_skip,first,List.drop_append_of_le_length short]
  have stop : after.Represents ((lexer.skip count).skip (whole.drop count).length) := by
    rwa [Lexer.skip_skip,List.length_drop,Nat.add_sub_cancel' short]
  have here : (lexer.skip count).pos = lexer.pos.advance (whole.take count) := by
    rw [Lexer.skip,first,List.take_append_of_le_length short]
  rw [drop_placed,← here]
  exact stop.backAll behind

private theorem getElem?_placed (pos : Position) (chars : List Char) (count : Nat) :
    (placed pos chars)[count]?.map (·.char) = chars[count]? := by
  rw [← List.getElem?_map,map_placed]

/-- What follows a piece of the text that was read shows in the rest of this text or in the next character; it is looked at behind
    words only. -/
theorem Represents.follow {whole others : List Char} (represents : buffer.Represents (lexer.skip whole.length))
    (first : lexer.rest = whole ++ others) {count : Nat} (short : count ≤ whole.length) {word : Bool}
    {next : Option Char} (looked : Buffer.follow word (placed lexer.pos whole)[count]? buffer = (next,after)) :
    next.any isIdentifierChar = (word && (lexer.rest.drop count).head?.any isIdentifierChar) ∧
      after.Represents (lexer.skip whole.length) := by
  unfold Buffer.follow at looked
  cases word with
  | false =>
    obtain ⟨rfl,rfl⟩ := Prod.mk.inj looked
    exact ⟨rfl,represents⟩
  | true =>
    simp only [Bool.not_true,Bool.false_eq_true,if_false] at looked
    have char := getElem?_placed lexer.pos whole count
    split at looked
    · rename_i c found
      obtain ⟨rfl,rfl⟩ := Prod.mk.inj looked
      rw [found,Option.map_some] at char
      have inside : count < whole.length := (List.getElem?_eq_some_iff.mp char.symm).1
      refine ⟨?_,represents⟩
      rw [first,List.head?_drop,List.getElem?_append_left inside,← char,Bool.true_and]
    · rename_i found
      rw [found,Option.map_none] at char
      obtain rfl : count = whole.length := Nat.le_antisymm short (List.getElem?_eq_none_iff.mp char.symm)
      obtain ⟨rfl,same⟩ := represents.peek looked
      exact ⟨rfl,same⟩

/-- Where no spelling is longer than a piece of what was read, trying shorter and shorter pieces finds the longest spelling, and
    the buffer is left behind it. -/
theorem Represents.chooseSpelling {whole others : List Char} {count : Nat} {kind : Option TokenKind}
    (represents : buffer.Represents (lexer.skip whole.length)) (first : lexer.rest = whole ++ others)
    (short : count ≤ whole.length)
    (none_longer : ∀ spelling ∈ Spelling.all, spelling.isAt lexer.rest → spelling.text.length ≤ count)
    (done : Buffer.chooseSpelling (placed lexer.pos whole) count buffer = (kind,after)) :
    ∃ best, IsLongest lexer.rest Spelling.all best ∧ kind = best.map (·.kind) ∧
      after.Represents (lexer.skip ((best.map (·.text.length)).getD 0)) := by
  induction count generalizing buffer with
  | zero =>
    obtain ⟨rfl,rfl⟩ := Prod.mk.inj done
    refine ⟨none,fun spelling member here => ?_,rfl,represents.backAll first⟩
    exact Spelling.texts_distinct.2 spelling member (List.length_eq_zero_iff.mp (Nat.le_zero.mp (none_longer spelling member here)))
  | succ count ih =>
    have piece : ((placed lexer.pos whole).take (count + 1)).map (·.char) = lexer.rest.take (count + 1) := by
      rw [List.map_take,map_placed,first,List.take_append_of_le_length short]
    -- a spelling of this length at the start of the text has this piece of it as its text
    have shorter (absent : ∀ spelling ∈ Spelling.all, spelling.isAt lexer.rest → spelling.text ≠ lexer.rest.take (count + 1)) :
        ∀ spelling ∈ Spelling.all, spelling.isAt lexer.rest → spelling.text.length ≤ count := by
      intro spelling member here
      have bound := none_longer spelling member here
      by_contra more
      have exact_ : spelling.text.length = count + 1 := by omega
      exact absent spelling member here (exact_ ▸ Spelling.text_of_isAt here)
    rw [Buffer.chooseSpelling] at done
    dsimp only at done
    rw [piece] at done
    split at done
    · rename_i missing
      refine ih represents (by omega) (shorter fun spelling member _ same => ?_) done
      simpa [same] using List.find?_eq_none.mp missing spelling member
    · rename_i spelling found
      have member : spelling ∈ Spelling.all := List.mem_of_find?_eq_some found
      have text : spelling.text = lexer.rest.take (count + 1) := by simpa using List.find?_some found
      have length : spelling.text.length = count + 1 := by
        rw [text,List.length_take_of_le (by simp [first]; omega)]
      cases looked : Buffer.follow spelling.isWord (placed lexer.pos whole)[count + 1]? buffer with
      | mk next later =>
        obtain ⟨follows,same⟩ := represents.follow first short looked
        have start : spelling.isAt lexer.rest ↔ ¬ next.any isIdentifierChar := by
          rw [Spelling.isAt_iff,length,follows]
          simp [List.prefix_iff_eq_take,text]
        rw [looked] at done
        dsimp only at done
        split at done
        · rename_i goesOn
          refine ih same (by omega) (shorter fun another other here equal => ?_) done
          obtain rfl := Spelling.eq_of_text other member (equal.trans text.symm)
          exact start.mp here goesOn
        · rename_i ends
          obtain ⟨rfl,rfl⟩ := Prod.mk.inj done
          refine ⟨some spelling,⟨member,start.mpr ends,?_⟩,rfl,?_⟩
          · simpa [length] using none_longer
          · rw [Option.map_some,Option.getD_some,length]
            exact same.backAll_drop first short

/-- A buffer finds the longest spelling of its text and stands behind it, or where it stood before if there is none. -/
theorem Represents.scanSpelling {kind : Option TokenKind} (represents : buffer.Represents lexer)
    (scanned : buffer.scanSpelling = (kind,after)) :
    kind = (Spelling.longest? lexer.rest).map (·.kind) ∧
      after.Represents (lexer.skip (((Spelling.longest? lexer.rest).map (·.text.length)).getD 0)) := by
  unfold Buffer.scanSpelling at scanned
  split at scanned
  rename_i read later done
  have fromHere : buffer.Represents (lexer.skip ([] : List Char).length) := represents
  obtain ⟨whole,others,first,rfl,there,stops⟩ := fromHere.readSpelling (List.nil_append _).symm done
  have none_longer : ∀ spelling ∈ Spelling.all, spelling.isAt lexer.rest → spelling.text.length ≤ whole.length := by
    rw [first]
    exact fun _ => length_le_of_isAt stops
  rw [length_placed] at scanned
  obtain ⟨best,longest,rfl,stop⟩ := there.chooseSpelling first (Nat.le_refl _) none_longer scanned
  rw [(Spelling.longest?_isLongest lexer.rest).unique longest]
  exact ⟨rfl,stop⟩

end Buffer

end CFrontend
