import CFrontend.Proofs.PushBack

/-!
Gaps between lexemes. A gap is measured by going through its characters with the region that each of them stands in; what is
measured is a text of blanks and finished comments, and behind it the text ends, a comment starts that never
ends, or something starts that is neither blank nor comment (`Gap.measured`). A buffer that skips a gap
stands where the measure ends (`Buffer.Represents.skipGap`).
-/
namespace CFrontend

/-- The text consists of blanks and finished comments: a line comment ends with its line, a block comment where it is closed
    for the first time. -/
inductive GapText : List Char → Prop
  | empty : GapText []
  | blank {c : Char} {rest : List Char} : isBlank c → GapText rest → GapText ([c] ++ rest)
  | line {body rest : List Char} : '\n' ∉ body → GapText rest → GapText (('/' :: '/' :: body ++ ['\n']) ++ rest)
  | block {body rest : List Char} : ¬ ['*','/'] <:+: body ++ ['*'] → GapText rest →
      GapText (('/' :: '*' :: body ++ ['*','/']) ++ rest)

/-- No blank, no line comment and no block comment that is closed stands at the start of the text. -/
structure StartsTight (text : List Char) : Prop where
  blank : ∀ c, text.head? = some c → ¬ isBlank c
  line : ¬ ['/','/'] <+: text
  block : ['/','*'] <+: text → ¬ ['*','/'] <:+: text.drop 2

namespace Gap

private theorem lineComment_cases (n : Nat) (text : List Char) :
    (∃ body rest, text = body ++ '\n' :: rest ∧ '\n' ∉ body ∧
      measureFrom .lineComment n text = measureFrom .between (n + body.length + 1) rest) ∨
    measureFrom .lineComment n text = ⟨n + text.length,false⟩ := by
  induction text generalizing n with
  | nil => exact .inr rfl
  | cons c text ih =>
    by_cases newline : c = '\n'
    · exact .inl ⟨[],text,by simp [newline],by simp,by simp [measureFrom,newline]⟩
    · rw [measureFrom,if_neg newline]
      rcases ih (n + 1) with ⟨body,rest,rfl,inside,same⟩ | same
      · refine .inl ⟨c :: body,rest,rfl,by simp [inside,Ne.symm newline],?_⟩
        rw [same,List.length_cons,Nat.add_right_comm n 1,Nat.add_assoc n]
      · refine .inr ?_
        rw [same,List.length_cons,Nat.add_right_comm,Nat.add_assoc]

/-- A star closes a block comment only together with the slash behind it. -/
theorem blockComment_cons (start n : Nat) (c : Char) (text : List Char) :
    measureFrom (.blockComment start false) n (c :: text) =
      if c = '*' ∧ text.head? = some '/' then measureFrom .between (n + 2) text.tail
      else measureFrom (.blockComment start false) (n + 1) text := by
  rw [measureFrom,Bool.false_and,if_neg Bool.false_ne_true]
  by_cases star : c = '*'
  · cases text with
    | nil => simp [measureFrom]
    | cons d text => by_cases slash : d = '/' <;> simp [measureFrom,star,slash]
  · simp [star]

theorem pair_infix_cons {c : Char} {text : List Char} :
    ['*','/'] <:+: c :: text ↔ (c = '*' ∧ text.head? = some '/') ∨ ['*','/'] <:+: text := by
  rw [List.infix_cons_iff,List.cons_prefix_cons,List.singleton_prefix_iff_head?_eq_some]
  rw [eq_comm]

private theorem blockComment_cases (start n : Nat) (text : List Char) :
    (∃ body rest, text = body ++ '*' :: '/' :: rest ∧ ¬ ['*','/'] <:+: body ++ ['*'] ∧
      measureFrom (.blockComment start false) n text = measureFrom .between (n + body.length + 2) rest) ∨
    (¬ ['*','/'] <:+: text ∧ measureFrom (.blockComment start false) n text = ⟨start,true⟩) := by
  induction text generalizing n with
  | nil => exact .inr ⟨by simp,rfl⟩
  | cons c text ih =>
    rw [blockComment_cons]
    by_cases closes : c = '*' ∧ text.head? = some '/'
    · rw [if_pos closes]
      obtain ⟨rest,rfl⟩ := List.head?_eq_some_iff.mp closes.2
      exact .inl ⟨[],rest,by rw [closes.1]; rfl,by decide,rfl⟩
    · rw [if_neg closes]
      rcases ih (n + 1) with ⟨body,rest,rfl,inside,same⟩ | ⟨never,same⟩
      · refine .inl ⟨c :: body,rest,rfl,?_,?_⟩
        · rw [List.cons_append,pair_infix_cons,not_or]
          refine ⟨fun ⟨star,slash⟩ => closes ⟨star,?_⟩,inside⟩
          cases body with
          | nil => simp at slash
          | cons d body => simpa using slash
        · rw [same,List.length_cons,Nat.add_right_comm n 1,Nat.add_assoc n]
      · exact .inr ⟨by rw [pair_infix_cons,not_or]; exact ⟨closes,never⟩,same⟩

/-- The gap that a text has behind its first `n` characters: what it covers, and what starts behind it. -/
def Measures (n : Nat) (text : List Char) (gap : Gap) : Prop :=
  ∃ covered rest, text = covered ++ rest ∧ gap.length = n + covered.length ∧
    ((rest = [] ∧ gap.unclosed = false) ∨
      (GapText covered ∧ StartsTight rest ∧ rest ≠ [] ∧ (gap.unclosed ↔ ['/','*'] <+: rest)))

theorem Measures.behind {n later : Nat} {piece text : List Char} {gap : Gap} (inner : Measures later text gap)
    (place : later = n + piece.length) (grows : ∀ covered, GapText covered → GapText (piece ++ covered)) :
    Measures n (piece ++ text) gap := by
  subst place
  obtain ⟨covered,rest,rfl,length,last⟩ := inner
  refine ⟨piece ++ covered,rest,by simp,by simp [length,Nat.add_assoc],?_⟩
  rcases last with ended | ⟨all,tight⟩
  · exact .inl ended
  · exact .inr ⟨grows covered all,tight⟩

theorem between_cons (n : Nat) {c : Char} {text : List Char} (line : ¬ ['/','/'] <+: c :: text)
    (block : ¬ ['/','*'] <+: c :: text) :
    measureFrom .between n (c :: text) = if isBlank c then measureFrom .between (n + 1) text else ⟨n,false⟩ := by
  rw [measureFrom]
  · rintro rest rfl rfl
    exact line ⟨rest,rfl⟩
  · rintro rest rfl rfl
    exact block ⟨rest,rfl⟩

private theorem measureFrom_measures (n : Nat) (text : List Char) : Measures n text (measureFrom .between n text) := by
  induction size : text.length using Nat.strongRecOn generalizing n text with
  | ind size ih =>
    subst size
    by_cases line : ['/','/'] <+: text
    · obtain ⟨text,rfl⟩ := line
      simp only [List.cons_append,List.nil_append,measureFrom]
      rcases lineComment_cases (n + 2) text with ⟨body,rest,rfl,inside,same⟩ | same
      · rw [same]
        have inner := ih rest.length (by simp; omega) (n + 2 + body.length + 1) rest rfl
        have whole : Measures n (('/' :: '/' :: body ++ ['\n']) ++ rest) _ :=
          inner.behind (by simp; omega) fun _ => .line inside
        simpa using whole
      · rw [same]
        exact ⟨'/' :: '/' :: text,[],by simp,by simp; omega,.inl ⟨rfl,rfl⟩⟩
    · by_cases block : ['/','*'] <+: text
      · obtain ⟨text,rfl⟩ := block
        simp only [List.cons_append,List.nil_append,measureFrom]
        rcases blockComment_cases n (n + 2) text with ⟨body,rest,rfl,inside,same⟩ | ⟨never,same⟩
        · rw [same]
          have inner := ih rest.length (by simp; omega) (n + 2 + body.length + 2) rest rfl
          have whole : Measures n (('/' :: '*' :: body ++ ['*','/']) ++ rest) _ :=
            inner.behind (by simp; omega) fun _ => .block inside
          simpa using whole
        · rw [same]
          exact ⟨[],_,rfl,rfl,.inr ⟨.empty,⟨by simp [isBlank],line,fun _ => never⟩,by simp,by simp⟩⟩
      · cases text with
        | nil => exact ⟨[],[],rfl,rfl,.inl ⟨rfl,rfl⟩⟩
        | cons c text =>
          rw [between_cons n line block]
          split
          · rename_i blank
            exact (ih text.length (by simp) (n + 1) text rfl).behind rfl fun _ => .blank blank
          · rename_i solid
            refine ⟨[],c :: text,rfl,rfl,.inr ⟨.empty,⟨by simpa using solid,line,?_⟩,by simp,?_⟩⟩
            · exact fun starts => absurd starts block
            · simpa using block

/-- Measuring a text finds where its gap ends. -/
theorem measured (text : List Char) : Measures 0 text (measure text) := measureFrom_measures 0 text

end Gap

namespace Lexer

theorem skip_to_end {lexer : Lexer} {count : Nat} (past : lexer.rest.drop count = []) :
    lexer.skip count = lexer.skip lexer.rest.length := by
  have all : lexer.rest.take count = lexer.rest := List.take_of_length_le (List.drop_eq_nil_iff.mp past)
  simp [skip,past,all]

end Lexer

namespace Buffer

variable {buffer after : Buffer} {lexer : Lexer}

/-- Skipping a line comment leaves the buffer where measuring goes on behind it. -/
theorem Represents.skipLine {n : Nat} (represents : buffer.Represents (lexer.skip n)) :
    ∃ stop, buffer.skipLine.Represents (lexer.skip stop) ∧
      Gap.measureFrom .lineComment n (lexer.rest.drop n) = Gap.measureFrom .between stop (lexer.rest.drop stop) := by
  fun_induction Buffer.skipLine buffer generalizing n with
  | case1 buffer c next taken newline =>
    obtain ⟨rest,first,behind,moved,-⟩ := represents.next_at taken
    exact ⟨n + 1,moved,by rw [first,behind,Gap.measureFrom,if_pos newline]⟩
  | case2 buffer c next taken inside ih =>
    obtain ⟨rest,first,behind,moved,-⟩ := represents.next_at taken
    obtain ⟨stop,there,same⟩ := ih moved
    exact ⟨stop,there,by rw [first,Gap.measureFrom,if_neg inside,← behind,same]⟩
  | case3 buffer next taken =>
    obtain ⟨empty,same,-⟩ := represents.next_none taken
    rw [Lexer.rest_skip] at empty
    exact ⟨n,same,by rw [empty]; rfl⟩

/-- Skipping a block comment leaves the buffer behind the comment, or at the end of the text if the comment is not closed. -/
theorem Represents.skipBlock {n : Nat} {star closed : Bool} (represents : buffer.Represents (lexer.skip n))
    (skipped : buffer.skipBlock star = (closed,after)) (start : Nat) :
    (closed = true ∧ ∃ stop, after.Represents (lexer.skip stop) ∧
      Gap.measureFrom (.blockComment start star) n (lexer.rest.drop n) =
        Gap.measureFrom .between stop (lexer.rest.drop stop)) ∨
    (closed = false ∧ after.Represents (lexer.skip lexer.rest.length) ∧
      Gap.measureFrom (.blockComment start star) n (lexer.rest.drop n) = ⟨start,true⟩) := by
  fun_induction Buffer.skipBlock star buffer generalizing n closed after with
  | case1 star buffer c next taken closes =>
    obtain ⟨rfl,rfl⟩ := Prod.mk.inj skipped
    obtain ⟨rest,first,behind,moved,-⟩ := represents.next_at taken
    exact .inl ⟨rfl,n + 1,moved,by rw [first,behind,Gap.measureFrom,if_pos closes]⟩
  | case2 star buffer c next taken inside ih =>
    obtain ⟨rest,first,behind,moved,-⟩ := represents.next_at taken
    rw [first,Gap.measureFrom,if_neg inside,← behind]
    exact ih moved skipped
  | case3 star buffer next taken =>
    obtain ⟨rfl,rfl⟩ := Prod.mk.inj skipped
    obtain ⟨empty,same,-⟩ := represents.next_none taken
    rw [Lexer.rest_skip] at empty
    exact .inr ⟨rfl,Lexer.skip_to_end empty ▸ same,by rw [empty]; rfl⟩

/-- Where a buffer stands that has skipped a gap: behind the gap, or at the end behind a comment that
    never ends, of which the place is given. -/
def Skipped (lexer : Lexer) (gap : Gap) (after : Buffer) : Option Position → Prop
  | none => gap.unclosed = false ∧ after.Represents (lexer.skip gap.length)
  | some pos => gap.unclosed = true ∧ pos = (lexer.skip gap.length).pos ∧ after.Represents (lexer.skip lexer.rest.length)

/-- A buffer skips the gap that is measured, and tells the start of a comment that is not closed. -/
theorem Represents.skipGap {n : Nat} {unclosed : Option Position} (represents : buffer.Represents (lexer.skip n))
    (skipped : buffer.skipGap = (unclosed,after)) :
    Skipped lexer (Gap.measureFrom .between n (lexer.rest.drop n)) after unclosed := by
  fun_induction Buffer.skipGap buffer generalizing n unclosed after with
  | case1 buffer next taken =>
    obtain ⟨rfl,rfl⟩ := Prod.mk.inj skipped
    obtain ⟨empty,same,-⟩ := represents.next_none taken
    rw [Lexer.rest_skip] at empty
    rw [empty]
    exact ⟨rfl,same⟩
  | case2 buffer c next taken blank ih =>
    obtain ⟨rest,first,behind,moved,-⟩ := represents.next_at taken
    have plain : c.char ≠ '/' := fun slash => by simp [slash,isBlank] at blank
    rw [first,Gap.between_cons n (by simp [plain.symm]) (by simp [plain.symm]),if_pos blank,← behind]
    exact ih moved skipped
  | case3 buffer c next taken solid slash last second =>
    obtain ⟨rfl,rfl⟩ := Prod.mk.inj skipped
    obtain ⟨rest,first,behind,moved,-⟩ := represents.next_at taken
    obtain ⟨empty,same,-⟩ := moved.next_none second
    rw [Lexer.rest_skip,behind] at empty
    rw [first,empty,Gap.between_cons n (by simp) (by simp),if_neg solid]
    exact ⟨rfl,represents.back_at taken same⟩
  | case4 buffer c next taken solid slash d last second line ih =>
    obtain ⟨rest,first,behind,moved,-⟩ := represents.next_at taken
    obtain ⟨others,here,inner,there,-⟩ := moved.next_at second
    obtain ⟨stop,stopped,same⟩ := there.skipLine
    rw [first,← behind,here,slash,line,Gap.measureFrom,← inner,same]
    exact ih stopped skipped
  | case5 buffer c next taken solid slash d last second line block final finished ih =>
    obtain ⟨rest,first,behind,moved,-⟩ := represents.next_at taken
    obtain ⟨others,here,inner,there,-⟩ := moved.next_at second
    rw [first,← behind,here,slash,block,Gap.measureFrom,← inner]
    rcases there.skipBlock finished n with ⟨-,stop,stopped,same⟩ | ⟨open_,-,-⟩
    · rw [same]
      exact ih stopped skipped
    · simp at open_
  | case6 buffer c next taken solid slash d last second line block final unfinished =>
    obtain ⟨rfl,rfl⟩ := Prod.mk.inj skipped
    obtain ⟨place,-,-⟩ := represents.next_some taken
    obtain ⟨rest,first,behind,moved,-⟩ := represents.next_at taken
    obtain ⟨others,here,inner,there,-⟩ := moved.next_at second
    rw [first,← behind,here,slash,block,Gap.measureFrom,← inner]
    rcases there.skipBlock unfinished n with ⟨closed,-,-⟩ | ⟨-,stopped,same⟩
    · simp at closed
    · rw [same]
      exact ⟨rfl,place,stopped⟩
  | case7 buffer c next taken solid slash d last second line block =>
    obtain ⟨rfl,rfl⟩ := Prod.mk.inj skipped
    obtain ⟨rest,first,behind,moved,-⟩ := represents.next_at taken
    obtain ⟨others,here,-,-,again⟩ := moved.next_at second
    rw [first,← behind,here,Gap.between_cons n (by simp [Ne.symm line]) (by simp [Ne.symm block]),if_neg solid]
    exact ⟨rfl,represents.back_at taken again⟩
  | case8 buffer c next taken solid other =>
    obtain ⟨rfl,rfl⟩ := Prod.mk.inj skipped
    obtain ⟨rest,first,-,-,again⟩ := represents.next_at taken
    rw [first,Gap.between_cons n (by simp [Ne.symm other]) (by simp [Ne.symm other]),if_neg solid]
    exact ⟨rfl,again⟩

end Buffer

end CFrontend
