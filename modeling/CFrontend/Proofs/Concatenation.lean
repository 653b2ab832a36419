import CFrontend.Proofs.LexemeEnds
import CFrontend.Proofs.Utf8

/-!
Texts one behind the other. A newline ends whatever a text ends with: a gap that reaches the end of the text goes on behind the newline
(`Gap.measureFrom_newline`), and a token that is read at its end is read alike (`Lexer.next_followed`). Blanks and finished
comments behind the newline are skipped (`Gap.measureFrom_gap`), and a text gives the same items wherever it starts, except for
their places (`Lexer.all_moved`). So texts with such a gap between them are read one by one (`tokenize_concatenated`).
-/
namespace CFrontend

/-! ### Gaps -/
namespace Gap

/-- The region at a distance from where it was. -/
def Region.shift (distance : Nat) : Region → Region
  | .between => .between
  | .lineComment => .lineComment
  | .blockComment start star => .blockComment (distance + start) star

private theorem between_of_blank {c : Char} (blank : isBlank c) (n : Nat) (text : List Char) :
    measureFrom .between n (c :: text) = measureFrom .between (n + 1) text := by
  have plain : c ≠ '/' := by
    rintro rfl
    simp [isBlank] at blank
  rw [between_cons n (by simp [plain.symm]) (by simp [plain.symm]),if_pos blank]

private theorem measureFrom_shift (distance : Nat) (region : Region) (n : Nat) (text : List Char) :
    measureFrom (region.shift distance) (distance + n) text =
      ⟨distance + (measureFrom region n text).length,(measureFrom region n text).unclosed⟩ := by
  fun_induction measureFrom region n text with
  | case1 n rest ih => exact ih
  | case2 n rest ih => exact ih
  | case3 n c rest line block blank ih =>
    rw [Region.shift,between_of_blank blank]
    exact ih
  | case4 n c rest line block solid =>
    rw [Region.shift,measureFrom,if_neg solid]
    · exact line
    · exact block
  | case5 n => rfl
  | case6 n c rest ih =>
    rw [← ih,Region.shift,measureFrom]
    split <;> rfl
  | case7 n => rfl
  | case8 start star n c rest closes ih =>
    rw [Region.shift,measureFrom,if_pos closes]
    exact ih
  | case9 start star n c rest inside ih =>
    rw [Region.shift,measureFrom,if_neg inside]
    exact ih
  | case10 start star n => rfl

private theorem measureFrom_between (n : Nat) (text : List Char) :
    measureFrom .between n text = ⟨n + (measure text).length,(measure text).unclosed⟩ :=
  measureFrom_shift n .between 0 text

/-- A gap that ends inside a text ends there whatever stands behind the text. -/
theorem measureFrom_inside {c : Char} (blank : isBlank c) (more : List Char) {region : Region} {n : Nat} {text : List Char}
    (closed : (measureFrom region n text).unclosed = false) (inside : (measureFrom region n text).length < n + text.length) :
    measureFrom region n (text ++ c :: more) = measureFrom region n text := by
  fun_induction measureFrom region n text with
  | case1 n rest ih =>
    simp only [List.length_cons] at inside
    exact ih closed (by omega)
  | case2 n rest ih =>
    simp only [List.length_cons] at inside
    exact ih closed (by omega)
  | case3 n d rest line block between ih =>
    simp only [List.length_cons] at inside
    rw [List.cons_append,between_of_blank between]
    exact ih closed (by omega)
  | case4 n d rest line block solid =>
    have second (mark : Char) (other : mark ≠ c) (lone : ∀ others, d = '/' → rest = mark :: others → False) :
        ¬ ['/',mark] <+: d :: (rest ++ c :: more) := by
      rintro ⟨others,same⟩
      cases rest with
      | nil => simp [other] at same
      | cons e rest => simp at same; exact lone rest same.1.symm (by rw [same.2.1])
    have slash : '/' ≠ c := by
      rintro rfl
      simp [isBlank] at blank
    have star : '*' ≠ c := by
      rintro rfl
      simp [isBlank] at blank
    rw [List.cons_append,between_cons n (second '/' slash line) (second '*' star block),if_neg solid]
  | case5 n => simp at inside
  | case6 n d rest ih =>
    simp only [List.length_cons] at inside
    exact ih closed (by omega)
  | case7 n => simp at inside
  | case8 start star n d rest closes ih =>
    simp only [List.length_cons] at inside
    rw [List.cons_append,measureFrom,if_pos closes]
    exact ih closed (by omega)
  | case9 start star n d rest open_ ih =>
    simp only [List.length_cons] at inside
    rw [List.cons_append,measureFrom,if_neg open_]
    exact ih closed (by omega)
  | case10 start star n => simp at closed

/-- A gap that reaches the end of a text goes on behind a newline; this also ends a line comment. -/
theorem measureFrom_newline (more : List Char) {region : Region} {n stop : Nat} {text : List Char}
    (whole : measureFrom region n text = ⟨stop,false⟩) (last : stop = n + text.length) :
    measureFrom region n (text ++ '\n' :: more) = measureFrom .between (stop + 1) more := by
  fun_induction measureFrom region n text with
  | case1 n rest ih => exact ih whole (by rw [last,List.length_cons,List.length_cons]; omega)
  | case2 n rest ih => exact ih whole (by rw [last,List.length_cons,List.length_cons]; omega)
  | case3 n c rest line block between ih =>
    rw [List.cons_append,between_of_blank between]
    exact ih whole (by rw [last,List.length_cons]; omega)
  | case4 n c rest line block solid =>
    obtain ⟨rfl,-⟩ := Gap.mk.inj whole
    simp at last
  | case5 n =>
    obtain ⟨rfl,-⟩ := Gap.mk.inj whole
    exact between_of_blank (by decide) n more
  | case6 n c rest ih => exact ih whole (by rw [last,List.length_cons]; omega)
  | case7 n =>
    obtain ⟨rfl,-⟩ := Gap.mk.inj whole
    rfl
  | case8 start star n c rest closes ih =>
    rw [List.cons_append,measureFrom,if_pos closes]
    exact ih whole (by rw [last,List.length_cons]; omega)
  | case9 start star n c rest open_ ih =>
    rw [List.cons_append,measureFrom,if_neg open_]
    exact ih whole (by rw [last,List.length_cons]; omega)
  | case10 start star n => simp at whole

private theorem lineComment_body {body : List Char} (inside : '\n' ∉ body) (n : Nat) (rest : List Char) :
    measureFrom .lineComment n (body ++ '\n' :: rest) = measureFrom .between (n + body.length + 1) rest := by
  induction body generalizing n with
  | nil => rfl
  | cons c body ih =>
    obtain ⟨other,later⟩ : '\n' ≠ c ∧ '\n' ∉ body := by simpa using inside
    rw [List.cons_append,measureFrom,if_neg (Ne.symm other),ih later,List.length_cons]
    congr 1
    omega

private theorem blockComment_body {body : List Char} (inside : ¬ ['*','/'] <:+: body ++ ['*']) (start n : Nat) (rest : List Char) :
    measureFrom (.blockComment start false) n (body ++ '*' :: '/' :: rest) = measureFrom .between (n + body.length + 2) rest := by
  induction body generalizing n with
  | nil => rfl
  | cons c body ih =>
    rw [List.cons_append,pair_infix_cons,not_or] at inside
    obtain ⟨apart,later⟩ := inside
    have follows : (body ++ '*' :: '/' :: rest).head? = (body ++ ['*']).head? := by cases body <;> rfl
    rw [List.cons_append,blockComment_cons,follows,if_neg apart,ih later,List.length_cons]
    congr 1
    omega

/-- A gap that is closed is measured through, whatever stands behind it. -/
theorem measureFrom_gap {gap : List Char} (blank : GapText gap) (n : Nat) (rest : List Char) :
    measureFrom .between n (gap ++ rest) = measureFrom .between (n + gap.length) rest := by
  induction blank generalizing n with
  | empty => rfl
  | blank one others ih =>
    rw [List.append_assoc,List.singleton_append,between_of_blank one,ih,List.length_append,List.length_singleton,Nat.add_assoc]
  | line inside others ih =>
    rename_i body later
    have start : ('/' :: '/' :: body ++ ['\n']) ++ later ++ rest = '/' :: '/' :: (body ++ '\n' :: (later ++ rest)) := by simp
    rw [start,measureFrom,lineComment_body inside,ih]
    congr 1
    simp
    omega
  | block inside others ih =>
    rename_i body later
    have start : ('/' :: '*' :: body ++ ['*','/']) ++ later ++ rest = '/' :: '*' :: (body ++ '*' :: '/' :: (later ++ rest)) := by
      simp
    rw [start,measureFrom,blockComment_body inside,ih]
    congr 1
    simp
    omega

end Gap

/-! ### Lexers -/

namespace Lexer

/-- The lexer with more text behind its own. -/
def followed (lexer : Lexer) (text : List Char) : Lexer := { lexer with rest := lexer.rest ++ text }

private theorem skip_followed {lexer : Lexer} {count : Nat} (short : count ≤ lexer.rest.length) (text : List Char) :
    (lexer.followed text).skip count = (lexer.skip count).followed text := by
  simp [skip,followed,List.drop_append_of_le_length short,List.take_append_of_le_length short]

private theorem next_skip {lexer : Lexer} {count : Nat}
    (measured : Gap.measure lexer.rest = Gap.measureFrom .between count (lexer.rest.drop count)) :
    lexer.next = (lexer.skip count).next := by
  rw [Gap.measureFrom_between] at measured
  have behind : (lexer.skip count).rest = lexer.rest.drop count := rfl
  unfold next
  rw [measured,behind]
  dsimp only
  rw [← skip_skip]

theorem next_gap {lexer : Lexer} {gap rest : List Char} (text : lexer.rest = gap ++ rest) (blank : GapText gap) :
    lexer.next = (lexer.skip gap.length).next := by
  apply next_skip
  rw [text,Gap.measure,Gap.measureFrom_gap blank,Nat.zero_add,List.drop_left]

/-- A token stands behind a gap that is no unfinished comment. -/
theorem next_token_iff {lexer after : Lexer} {token : Token} : lexer.next = (some (.token token),after) ↔
    ∃ count first rest, Gap.measure lexer.rest = ⟨count,false⟩ ∧ lexer.rest.drop count = first :: rest ∧
      (Lexeme.read first rest).outcome = .ok token.toPayload ∧ token.pos = (lexer.skip count).pos ∧
      after = (lexer.skip count).skip (Lexeme.read first rest).length := by
  constructor
  · intro given
    unfold next at given
    dsimp only at given
    split at given
    · simp at given
    · rename_i closed
      split at given
      · rename_i first rest behind
        unfold readLexeme at given
        dsimp only at given
        split at given
        · rename_i payload read
          obtain ⟨rfl,rfl⟩ : Token.mk payload (lexer.skip (Gap.measure lexer.rest).length).pos = token ∧
              (lexer.skip (Gap.measure lexer.rest).length).skip (Lexeme.read first rest).length = after := by
            simpa using given
          have gap : Gap.measure lexer.rest = ⟨(Gap.measure lexer.rest).length,false⟩ := by
            rw [← Bool.eq_false_iff.mpr closed]
          exact ⟨_,first,rest,gap,behind,read,rfl,rfl⟩
        · simp at given
      · split at given <;> simp at given
  · rintro ⟨count,first,rest,gap,behind,read,place,rfl⟩
    have behind : (lexer.skip count).rest = first :: rest := behind
    unfold next
    rw [gap]
    dsimp only
    rw [if_neg Bool.false_ne_true,behind]
    dsimp only [readLexeme]
    rw [read,← place]

/-- A token is read alike with a blank and anything else behind the text. -/
theorem next_followed {lexer after : Lexer} {token : Token} (given : lexer.next = (some (.token token),after)) {c : Char}
    (blank : isBlank c) (more : List Char) :
    (lexer.followed (c :: more)).next = (some (.token token),after.followed (c :: more)) := by
  obtain ⟨count,first,rest,gap,behind,read,place,rfl⟩ := next_token_iff.mp given
  have inside : count < lexer.rest.length := lt_length_of_head? (by rw [behind]; rfl)
  have short : (Lexeme.read first rest).length ≤ (lexer.skip count).rest.length := by
    rw [rest_skip,behind,List.length_cons,Nat.add_comm]
    exact (contained_read read).inside
  have same : Lexeme.read first (rest ++ c :: more) = Lexeme.read first rest := (contained_read read).same c more blank
  refine next_token_iff.mpr ⟨count,first,rest ++ c :: more,?_,?_,?_,?_,?_⟩
  · have closed : (Gap.measure lexer.rest).unclosed = false := by rw [gap]
    have length : (Gap.measure lexer.rest).length < 0 + lexer.rest.length := by rw [gap,Nat.zero_add]; exact inside
    exact (Gap.measureFrom_inside blank more closed length).trans gap
  · rw [followed,List.drop_append_of_le_length (Nat.le_of_lt inside),behind,List.cons_append]
  · rw [same,read]
  · rw [place,skip_followed (Nat.le_of_lt inside)]
    rfl
  · rw [same,skip_followed (Nat.le_of_lt inside),skip_followed short]

/-- The items of a lexer are its next one and those that come behind it. -/
theorem all_items (lexer : Lexer) : lexer.all.1 = lexer.next.1.elim [] (· :: lexer.next.2.all.1) := by
  rcases lexer.next_cases with ⟨gap,lexeme,item,given,reads⟩ | ⟨given,stop⟩
  · rw [all,take_of_pos given reads.place,take_of_enough reads.shorter (Nat.lt_succ_self _),given]
    rfl
  · have finished : lexer.next.2.all.1 = [] := by
      rw [stop,skip,List.drop_length]
      rfl
    rw [all,take_of_end given,given,finished]
    cases lexer.failure <;> rfl

/-- Blanks and comments in front of a text give no items. -/
theorem all_gap {gap : List Char} (blank : GapText gap) (rest : List Char) (pos : Position) :
    (Lexer.mk (gap ++ rest) pos none).all.1 = (Lexer.mk rest (pos.advance gap) none).all.1 := by
  have step : (Lexer.mk (gap ++ rest) pos none).next = _ := next_gap rfl blank
  rw [all_items,all_items ⟨rest,_,none⟩,step]
  simp [skip]

end Lexer

/-- The item without its place. -/
def Item.unplaced : Item → Item
  | .token read => .token { read with pos := .origin }
  | .error found => .error { found with pos := .origin }
  | .failure message => .failure message

namespace Lexer

private theorem next_moved (lexer : Lexer) (pos : Position) :
    ({ lexer with pos := pos } : Lexer).next.1.map Item.unplaced = lexer.next.1.map Item.unplaced ∧
      ∃ stop, ({ lexer with pos := pos } : Lexer).next.2 = { lexer.next.2 with pos := stop } := by
  unfold next
  dsimp only
  split
  · exact ⟨rfl,_,rfl⟩
  · dsimp only [skip]
    cases lexer.rest.drop (Gap.measure lexer.rest).length with
    | nil => cases lexer.failure <;> exact ⟨rfl,_,rfl⟩
    | cons first rest =>
      refine ⟨?_,_,rfl⟩
      dsimp only [readLexeme]
      cases (Lexeme.read first rest).outcome <;> rfl

/-- Where a text starts is nothing to its items but their places. -/
theorem all_moved (lexer : Lexer) (complete : lexer.failure = none) (pos : Position) :
    ({ lexer with pos := pos } : Lexer).all.1.map Item.unplaced = lexer.all.1.map Item.unplaced := by
  induction lexer using all_induction generalizing pos with
  | read lexer gap lexeme item given reads all ih =>
    obtain ⟨same,stop,after⟩ := lexer.next_moved pos
    rw [given,Option.map_some] at same
    obtain ⟨moved,found,unplaced⟩ := Option.map_eq_some_iff.mp same
    rw [all_items,all_items lexer,found,given,after]
    simp only [Option.elim_some,List.map_cons,unplaced,ih (reads.failure.trans complete)]
  | ended lexer given all =>
    obtain ⟨same,-⟩ := lexer.next_moved pos
    rw [complete] at given
    rw [given,Option.map_none,Option.map_none,Option.map_eq_none_iff] at same
    rw [all_items,all_items lexer,same,given,Option.map_none]
    rfl

private theorem measure_of_end {lexer : Lexer} (given : lexer.next.1 = none) :
    Gap.measure lexer.rest = ⟨lexer.rest.length,false⟩ := by
  obtain ⟨covered,rest,text,length,ending⟩ := Gap.measured lexer.rest
  rw [Nat.zero_add] at length
  have behind : (lexer.skip (Gap.measure lexer.rest).length).rest = rest := by
    rw [rest_skip,length,text,List.drop_left]
  unfold next at given
  dsimp only at given
  split at given
  · simp at given
  · rename_i closed
    rw [behind] at given
    cases rest with
    | nil =>
      have whole : (Gap.measure lexer.rest).length = lexer.rest.length := by rw [length,text,List.append_nil]
      rw [← whole,← Bool.eq_false_iff.mpr closed]
    | cons first rest => simp at given

/-- Text behind a newline gives its own items behind those of the text before, which is read to its end without an error. -/
theorem all_newline (lexer : Lexer) (complete : lexer.failure = none) (good : ∀ item ∈ lexer.all.1, ∃ token, item = .token token)
    (more : List Char) : (lexer.followed ('\n' :: more)).all.1 =
      lexer.all.1 ++ (Lexer.all ⟨more,lexer.pos.advance (lexer.rest ++ ['\n']),none⟩).1 := by
  induction lexer using all_induction with
  | read lexer gap lexeme item given reads all ih =>
    rw [all] at good
    obtain ⟨token,rfl⟩ := good _ List.mem_cons_self
    have step : lexer.next = (some (.token token),lexer.next.2) := by rw [← given]
    have place : lexer.pos.advance (lexer.rest ++ ['\n']) = lexer.next.2.pos.advance (lexer.next.2.rest ++ ['\n']) := by
      rw [reads.stop,reads.text,← Position.advance_append]
      simp
    have later := ih (reads.failure.trans complete) fun item member => good item (List.mem_cons_of_mem _ member)
    rw [all_items,next_followed step (by decide) more,all,place]
    simp only [Option.elim_some,later,List.cons_append]
  | ended lexer given all =>
    rw [complete] at given all
    have measured : Gap.measure (lexer.rest ++ '\n' :: more) = Gap.measureFrom .between (lexer.rest.length + 1) more :=
      Gap.measureFrom_newline more (measure_of_end given) (Nat.zero_add _).symm
    have text : lexer.rest ++ '\n' :: more = lexer.rest ++ ['\n'] ++ more := by simp
    have length : lexer.rest.length + 1 = (lexer.rest ++ ['\n']).length := by simp
    have behind : (lexer.rest ++ '\n' :: more).drop (lexer.rest.length + 1) = more := by rw [text,length,List.drop_left]
    have read : (lexer.rest ++ '\n' :: more).take (lexer.rest.length + 1) = lexer.rest ++ ['\n'] := by
      rw [text,length,List.take_left]
    have skipped : (lexer.followed ('\n' :: more)).skip (lexer.rest.length + 1) =
        ⟨more,lexer.pos.advance (lexer.rest ++ ['\n']),none⟩ := by
      rw [skip,followed,behind,read,complete]
    have step : (lexer.followed ('\n' :: more)).next =
        (Lexer.mk more (lexer.pos.advance (lexer.rest ++ ['\n'])) none).next := by
      rw [← skipped]
      refine next_skip ?_
      rw [followed,behind,measured]
    rw [all_items,all,all_items ⟨more,_,none⟩,step]
    rfl

end Lexer

namespace Item

private theorem tokens_append {first : List Item} (good : (Item.tokens first).2 = none) (second : List Item) :
    Item.tokens (first ++ second) = ((Item.tokens first).1 ++ (Item.tokens second).1,(Item.tokens second).2) := by
  induction first with
  | nil => rfl
  | cons item first ih =>
    cases item with
    | token read =>
      simp only [List.cons_append,Item.tokens]
      rw [ih good]
    | error found => simp [Item.tokens] at good
    | failure message => simp [Item.tokens] at good

private theorem token_of_tokens {items : List Item} (good : (Item.tokens items).2 = none) :
    ∀ item ∈ items, ∃ token, item = .token token := by
  induction items with
  | nil => simp
  | cons item items ih =>
    cases item with
    | token read => exact List.forall_mem_cons.mpr ⟨⟨read,rfl⟩,ih good⟩
    | error found => simp [Item.tokens] at good
    | failure message => simp [Item.tokens] at good

private theorem tokens_unplaced (items : List Item) : Item.tokens (items.map Item.unplaced) =
    ((Item.tokens items).1.map fun token => { token with pos := .origin },(Item.tokens items).2.map Item.unplaced) := by
  induction items with
  | nil => rfl
  | cons item items ih =>
    cases item with
    | token read =>
      simp only [List.map_cons,Item.unplaced,Item.tokens]
      rw [ih]
    | error found => rfl
    | failure message => rfl

private theorem tokens_of_unplaced {first second : List Item} (same : first.map Item.unplaced = second.map Item.unplaced) :
    (Item.tokens first).1.map (·.toPayload) = (Item.tokens second).1.map (·.toPayload) ∧
      (Item.tokens first).2.map Item.unplaced = (Item.tokens second).2.map Item.unplaced := by
  have both := congrArg Item.tokens same
  rw [tokens_unplaced,tokens_unplaced] at both
  obtain ⟨tokens,stop⟩ := Prod.mk.inj both
  have payloads := congrArg (List.map (·.toPayload)) tokens
  rw [List.map_map,List.map_map] at payloads
  exact ⟨payloads,stop⟩

end Item

/-! ### Texts -/

private theorem tokenize_newline {first : List Char} {tokens : List Token} (good : tokenize first = (tokens,none)) {gap : List Char}
    (blank : GapText gap) (second : List Char) :
    ∃ later stop, tokenize (first ++ '\n' :: (gap ++ second)) = (tokens ++ later,stop) ∧
      later.map (·.toPayload) = (tokenize second).1.map (·.toPayload) ∧
      stop.map Item.unplaced = (tokenize second).2.map Item.unplaced := by
  obtain ⟨given,whole⟩ := Prod.mk.inj good
  have front := Lexer.all_newline (.start ⟨first,none⟩) rfl (Item.token_of_tokens whole) (gap ++ second)
  generalize (Lexer.start ⟨first,none⟩).pos.advance _ = pos at front
  have moved := Lexer.all_moved (.start ⟨second,none⟩) rfl (pos.advance gap)
  obtain ⟨payloads,stop⟩ := Item.tokens_of_unplaced moved
  refine ⟨_,_,?_,payloads,stop⟩
  calc tokenize (first ++ '\n' :: (gap ++ second))
    _ = Item.tokens ((Lexer.start ⟨first,none⟩).all.1 ++ (Lexer.mk (gap ++ second) pos none).all.1) := congrArg Item.tokens front
    _ = _ := by rw [Item.tokens_append whole,Lexer.all_gap blank,given]; rfl

theorem GapText.exists_ascii_last {gap : List Char} (blank : GapText gap) {c : Char} (ascii : c.toNat < 0x80) :
    ∃ init last, c :: gap = init ++ [last] ∧ last.toNat < 0x80 := by
  induction blank generalizing c with
  | empty => exact ⟨[],c,rfl,ascii⟩
  | blank one others ih =>
    rename_i d rest
    have small : d.toNat < 0x80 := by rcases blank_cases one with rfl | rfl | rfl | rfl <;> decide
    obtain ⟨init,last,same,small⟩ := ih small
    exact ⟨c :: init,last,by rw [List.singleton_append,same,List.cons_append],small⟩
  | line inside others ih =>
    rename_i body rest
    obtain ⟨init,last,same,small⟩ := @ih '\n' (by decide)
    exact ⟨c :: '/' :: '/' :: body ++ init,last,by simp [same],small⟩
  | block inside others ih =>
    rename_i body rest
    obtain ⟨init,last,same,small⟩ := @ih '/' (by decide)
    exact ⟨c :: '/' :: '*' :: body ++ '*' :: init,last,by simp [same],small⟩

/-- The characters of texts with a gap between them are those of each of them. -/
theorem decode_concatenated {gap : List UInt8} {blank : List Char} (text : Text.decode gap = '\n' :: blank)
    (between : GapText blank) (first second : List UInt8) :
    Text.decode (first ++ gap ++ second) = Text.decode first ++ '\n' :: (blank ++ Text.decode second) := by
  have newline : '\n'.toNat < 0x80 := by decide
  obtain ⟨init,last,same,small⟩ := between.exists_ascii_last newline
  have front : Text.decode (first ++ gap) = Text.decode first ++ '\n' :: blank := by
    rw [Text.decode_append_of_head text newline,text]
  have ending : Text.decode (first ++ gap) = (Text.decode first ++ init) ++ [last] := by
    rw [front,same,List.append_assoc]
  rw [Text.decode_append_of_last ending small,front,List.append_assoc,List.cons_append]

/-- A text that is read without an error, a gap that starts with a newline, and another text: the tokens are those of the first
    text at their places, and behind them those of the second text; reading stops as it does in the second text alone. -/
theorem tokenize_concatenated (first gap second : List UInt8) (tokens : List Token) (blank : List Char)
    (good : tokenize (Text.decode first) = (tokens,none)) (text : Text.decode gap = '\n' :: blank) (between : GapText blank) :
    ∃ later stop, tokenize (Text.decode (first ++ gap ++ second)) = (tokens ++ later,stop) ∧
      later.map (·.toPayload) = (tokenize (Text.decode second)).1.map (·.toPayload) ∧
      stop.map Item.unplaced = (tokenize (Text.decode second)).2.map Item.unplaced := by
  rw [decode_concatenated text between]
  exact tokenize_newline good between (Text.decode second)

/-- A name, and a line comment without an end in which a byte belongs to no character. -/
def openComment : List UInt8 := [0x6e,0x2f,0x2f,0xff]

/-- A newline, a comment and a tab. -/
def commentGap : List UInt8 := [0x0a,0x2f,0x2a,0x2a,0x2f,0x09]

/-- A number, and a radix mark without digits. -/
def lackingDigits : List UInt8 := [0x32,0x20,0x30,0x78]

theorem tokenize_concatenated_openComment :
    tokenize (Text.decode openComment) = ([{ kind := .identifier,literal := [0x6e],pos := ⟨1,1⟩ }],none) ∧
    ∃ later stop, tokenize (Text.decode (openComment ++ commentGap ++ lackingDigits)) =
        ([{ kind := .identifier,literal := [0x6e],pos := ⟨1,1⟩ }] ++ later,stop) ∧
      later.map (·.toPayload) = [{ kind := .number,number := .integer .int 2 }] ∧
      stop.map Item.unplaced = some (.error ⟨.emptyNumber [0x30,0x78],.origin⟩) := by
  have good : tokenize (Text.decode openComment) = ([{ kind := .identifier,literal := [0x6e],pos := ⟨1,1⟩ }],none) := by
    decide +kernel
  have second : (tokenize (Text.decode lackingDigits)).1.map (·.toPayload) = [{ kind := .number,number := .integer .int 2 }] ∧
      (tokenize (Text.decode lackingDigits)).2.map Item.unplaced = some (.error ⟨.emptyNumber [0x30,0x78],.origin⟩) := by
    decide +kernel
  have text : Text.decode commentGap = '\n' :: ['/','*','*','/','\t'] := by decide +kernel
  have body : ¬ ['*','/'] <:+: [] ++ ['*'] := by decide
  have between : GapText ['/','*','*','/','\t'] := .block body (.blank (by decide) .empty)
  obtain ⟨later,stop,same,payloads,last⟩ := tokenize_concatenated _ _ lackingDigits _ _ good text between
  exact ⟨good,later,stop,same,payloads.trans second.1,last.trans second.2⟩

end CFrontend
