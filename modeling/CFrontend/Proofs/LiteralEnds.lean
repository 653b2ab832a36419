import CFrontend.Proofs.IntegerLiterals

/-!
What may stand right behind a number. Every scanner of numbers reads its digits to their end, and most of them reject a letter
behind it; `NumberEnds` says what is left. It is proved for the end of an integer (`ends_suffix`) and of a floating literal (`ends_float`),
from which it follows for every lexeme that starts with a digit (`ends_read`) and for every number of every source (`number_ends`).
-/
namespace CFrontend

/-- Whether a letter belongs to a floating suffix. -/
def isFloatLetter (c : Char) : Bool := c = 'f' || c = 'F' || c = 'l' || c = 'L'

private theorem isFloatLetter_iff {c : Char} : isFloatLetter c ↔ (c = 'f' || c = 'F') ∨ (c = 'l' || c = 'L') := by
  simp [isFloatLetter,or_assoc]

/-- The lexeme of a number has a suffix at its end. -/
def HasSuffix (number : Number) (lexeme : List Char) : Prop :=
  lexeme.getLast?.any isSuffixLetter ∨ (number.isFloating ∧ lexeme.getLast?.any isFloatLetter)

/-- Where a letter or a digit stands right behind a number: a letter only behind a zero alone and behind the suffix of a floating
    literal, a digit only behind a suffix and behind digits of a smaller radix. -/
structure NumberEnds (number : Number) (lexeme : List Char) (c : Char) : Prop where
  letter : Text.isLetter c → lexeme = ['0'] ∨ (number.isFloating ∧ lexeme.getLast?.any isFloatLetter)
  digit : isDecimalDigit c → HasSuffix number lexeme ∨
    ∃ mark radix, (mark,radix) ∈ radixMarks ∧ ['0',mark] <+: lexeme ∧ isDigitBelow radix c = false

/-- If the lexeme is a number, it ends so in the text. -/
def EndsIn (source : List Char) (lexeme : Lexeme) : Prop :=
  ∀ payload c, lexeme.outcome = .ok payload → (source.drop lexeme.length).head? = some c →
    NumberEnds payload.number (source.take lexeme.length) c

/-! ### Runs -/

private theorem head_behind_run {p : Char → Bool} {text : List Char} {c : Char}
    (head : (text.drop (text.takeWhile p).length).head? = some c) : p c = false := by
  induction text with
  | nil => simp at head
  | cons d text ih =>
    cases holds : p d with
    | true => exact ih (by simpa [holds] using head)
    | false =>
      obtain rfl : d = c := by simpa [holds] using head
      exact holds

private theorem take_run (p : Char → Bool) (text : List Char) : text.take (text.takeWhile p).length = text.takeWhile p :=
  (List.prefix_iff_eq_take.mp (List.takeWhile_prefix p)).symm

private theorem endsIn_error (source : List Char) (cause : LexCause) (length : Nat) : EndsIn source ⟨.error cause,length⟩ := by
  intro payload c read
  simp at read

private theorem not_digit_of_letter {c : Char} (letter : Text.isLetter c) : isDecimalDigit c = false := by
  rw [Bool.eq_false_iff]
  intro digit
  obtain ⟨lower,upper⟩ : '0' ≤ c ∧ c ≤ '9' := by simpa [isDecimalDigit] using digit
  obtain ⟨n,rfl⟩ := eq_ofNat_of_between 9 lower upper
  have all : ∀ n : Fin 10, Text.isLetter (Char.ofNat ('0'.toNat + n)) = false := by decide
  exact absurd letter (Bool.eq_false_iff.mp (all n))

/-! ### Integers -/

/-- Behind an integer with its suffix stands no letter, and a digit only behind letters of the suffix or where it is none of the
    radix. -/
theorem ends_suffix (source : List Char) (length value : Nat)
    (bare : ∀ c, (source.drop length).head? = some c → isDecimalDigit c →
      ∃ mark radix, (mark,radix) ∈ radixMarks ∧ ['0',mark] <+: source.take length ∧ isDigitBelow radix c = false) :
    EndsIn source (suffixLexeme value length (source.drop length)) := by
  rw [Buffer.suffixLexeme_eq]
  cases stray : ((source.drop length).drop ((source.drop length).takeWhile isSuffixLetter).length).head?.filter Text.isLetter with
  | some d => exact endsIn_error source _ _
  | none =>
    intro payload c read head
    dsimp only [Option.elim] at head ⊢
    rw [← List.drop_drop] at head
    have plain : Text.isLetter c = false := by
      rw [head] at stray
      simpa [Option.filter] using stray
    refine ⟨fun letter => by simp [plain] at letter,fun digit => ?_⟩
    rw [List.take_add,take_run]
    by_cases none : (source.drop length).takeWhile isSuffixLetter = []
    · rw [none] at head
      rw [none,List.append_nil]
      exact .inr (bare c head digit)
    · refine .inl (.inl ?_)
      rw [List.getLast?_append_of_ne_nil _ none,List.getLast?_eq_some_getLast none,Option.any_some]
      exact List.mem_takeWhile_imp (List.getLast_mem none)

private theorem ends_radix {source : List Char} {mark : Char} {radix : Nat} (listed : (mark,radix) ∈ radixMarks)
    (starts : ['0',mark] <+: source) :
    EndsIn source (radixLexeme radix ['0',mark] (source.drop 2)) := by
  unfold radixLexeme
  dsimp only
  split
  · exact endsIn_error source _ _
  · split
    · exact endsIn_error source _ _
    · rw [List.drop_drop]
      refine ends_suffix source _ _ fun c head digit => ⟨mark,radix,listed,?_,?_⟩
      · rw [List.prefix_take_iff]
        exact ⟨starts,Nat.le_add_right _ _⟩
      · rw [← List.drop_drop] at head
        exact head_behind_run head

/-! ### Floating literals -/

private theorem exponentAt_stop {text : List Char} {parts : List Char × List Char} (found : Buffer.exponentAt text = some parts)
    {c : Char}
    (head : (text.drop (parts.1.length + parts.2.length + 1)).head? = some c) : isDecimalDigit c = false := by
  have inner (tail : List Char) (same : DecimalText.signedDigits tail = parts)
      (head : (tail.drop (parts.1.length + parts.2.length)).head? = some c) : isDecimalDigit c = false := by
    subst same
    rw [← List.drop_drop] at head
    exact head_behind_run head
  unfold Buffer.exponentAt at found
  split at found
  · rename_i tail
    exact inner tail (Option.some.inj found) head
  · rename_i tail
    exact inner tail (Option.some.inj found) head
  · simp at found

private theorem fractionAt_stop {text digits : List Char} (found : fractionAt text = some digits) {c : Char}
    (head : (text.drop (digits.length + 1)).head? = some c) : isDecimalDigit c = false := by
  unfold fractionAt at found
  split at found
  · obtain rfl := Option.some.inj found
    exact head_behind_run head
  · simp at found

/-- No digit stands behind the decimal of a floating literal. -/
theorem goingOn_stop {whole rest : List Char} (follows : floatFollows rest) {c : Char}
    (head : (rest.drop ((DecimalText.goingOn whole rest).chars.length - whole.length)).head? = some c) : isDecimalDigit c = false := by
  rw [Buffer.length_chars,goingOn_eq,Nat.add_assoc,Nat.add_sub_cancel_left,← List.drop_drop] at head
  dsimp only at head
  cases exponent : Buffer.exponentAt (rest.drop (((fractionAt rest).map (·.length + 1)).getD 0)) with
  | some parts =>
    rw [exponent] at head
    exact exponentAt_stop exponent head
  | none =>
    rw [exponent] at head
    cases fraction : fractionAt rest with
    | some digits =>
      rw [fraction] at head
      exact fractionAt_stop fraction head
    | none =>
      rw [fraction] at head
      cases rest with
      | nil => simp at head
      | cons d rest =>
        obtain rfl : d = c := by simpa using head
        rw [Bool.eq_false_iff]
        intro digit
        have other : d ∉ ['.','e','E'] := not_mem_of_class digit (by decide)
        obtain ⟨period,lower,upper⟩ : d ≠ '.' ∧ d ≠ 'e' ∧ d ≠ 'E' := by simpa using other
        simp [Buffer.floatFollows_cons,period,lower,upper] at follows

private theorem isFloating_of_floating {decimal : DecimalText} {type : NumberType} (own : type.isFloating) {payload : Payload}
    (read : Buffer.floating decimal type = .ok payload) : payload.number.isFloating := by
  unfold Buffer.floating at read
  split at read
  · simp at read
  · obtain rfl := Except.ok.inj read
    exact own

private theorem ends_floatSuffix {source : List Char} {decimal : DecimalText} {d : Char}
    (here : (source.drop decimal.chars.length).head? = some d) (suffix : isFloatLetter d) {type : NumberType} (own : type.isFloating) :
    EndsIn source ⟨Buffer.floating decimal type,decimal.chars.length + 1⟩ := by
  intro payload c read _
  have floating := isFloating_of_floating own read
  have ends : (source.take (decimal.chars.length + 1)).getLast?.any isFloatLetter := by
    rw [List.head?_drop] at here
    simp [List.take_add_one,here,suffix]
  exact ⟨fun _ => .inr ⟨floating,ends⟩,fun _ => .inl (.inr ⟨floating,ends⟩)⟩

/-- Behind a floating literal stands a letter or a digit only if it has a suffix. -/
theorem ends_float (source whole : List Char) (follows : floatFollows (source.drop whole.length)) :
    EndsIn source (floatLexeme whole (source.drop whole.length)) := by
  have stop : ∀ c, ((source.drop whole.length).drop ((DecimalText.goingOn whole (source.drop whole.length)).chars.length -
      whole.length)).head? = some c → isDecimalDigit c = false := fun c head => goingOn_stop follows head
  have longer : whole.length ≤ (DecimalText.goingOn whole (source.drop whole.length)).chars.length := by
    rw [Buffer.length_chars,Nat.add_assoc]
    exact Nat.le_add_right _ _
  rw [Buffer.floatLexeme_eq whole _ _ rfl]
  generalize DecimalText.goingOn whole (source.drop whole.length) = decimal at stop longer ⊢
  rw [List.drop_drop,Nat.add_sub_cancel' longer] at stop ⊢
  split
  · exact endsIn_error source _ _
  · cases here : (source.drop decimal.chars.length).head? with
    | none =>
      intro payload c read head
      simp [here] at head
    | some d =>
      dsimp only [Option.elim]
      split
      · rename_i single
        exact ends_floatSuffix here (isFloatLetter_iff.mpr (.inl single)) rfl
      · split
        · rename_i double
          exact ends_floatSuffix here (isFloatLetter_iff.mpr (.inr double)) rfl
        · split
          · exact endsIn_error source _ _
          · rename_i plain
            intro payload c read head
            obtain rfl : d = c := Option.some.inj (here.symm.trans head)
            exact ⟨fun letter => absurd letter plain,fun digit => by simp [stop d here] at digit⟩

/-! ### Numbers -/

private theorem ends_zero (rest : List Char) : EndsIn ('0' :: rest) (zeroLexeme rest) := by
  cases rest with
  | nil =>
    intro payload c read head
    simp [zeroLexeme,Lexeme.number] at head
  | cons c rest =>
    by_cases marked : c ∈ radixMarks.map (·.1)
    · obtain ⟨⟨mark,radix⟩,listed,rfl⟩ := List.mem_map.mp marked
      rw [zeroLexeme_marked listed]
      exact ends_radix listed ⟨rest,rfl⟩
    · rw [zeroLexeme_unmarked marked]
      split
      · rename_i suffix
        refine ends_suffix ('0' :: c :: rest) 1 0 fun d head digit => ?_
        obtain rfl : c = d := by simpa using head
        exact absurd suffix (by simp [not_suffixLetter (not_mem_of_class digit (by decide))])
      · split
        · dsimp only
          split
          · exact endsIn_error _ _ _
          · refine ends_suffix ('0' :: c :: rest) _ _ fun d head digit => ?_
            rw [head_behind_run head] at digit
            simp at digit
        · rename_i other
          split
          · rename_i follows
            exact ends_float ('0' :: c :: rest) ['0'] follows
          · intro payload d read head
            have head : some c = some d := head
            obtain rfl := Option.some.inj head
            exact ⟨fun _ => .inl rfl,fun digit => absurd digit other⟩

private theorem ends_decimal (source : List Char) : EndsIn source (decimalLexeme source) := by
  unfold decimalLexeme
  dsimp only
  split
  · rename_i follows
    exact ends_float source _ follows
  · split
    · exact endsIn_error source _ _
    · refine ends_suffix source _ _ fun c head digit => ?_
      rw [head_behind_run head] at digit
      simp at digit

/-- A lexeme that starts with a decimal digit ends as a number, if it is one. -/
theorem ends_read {first : Char} (digit : isDecimalDigit first) (rest : List Char) :
    EndsIn (first :: rest) (Lexeme.read first rest) := by
  rw [read_unspelled (longest?_of_head (.inl digit) rest),if_neg (ne_of_class digit (by decide)),if_pos digit]
  split
  · rename_i zero
    rw [zero]
    exact ends_zero rest
  · exact ends_decimal _

private theorem kind_stringFrom {decoded : List UInt8} {length : Nat} {rest : List Char} {payload : Payload}
    (read : (stringFrom decoded length rest).outcome = .ok payload) : payload.kind = .string := by
  fun_induction stringFrom decoded length rest with
  | case1 => simp [Lexeme.failure] at read
  | case2 => simp [Lexeme.failure] at read
  | case3 =>
    obtain rfl := Except.ok.inj read
    rfl
  | case4 => simp [Lexeme.failure] at read
  | case5 decoded length rest escape value found newline quote ih => exact ih read
  | case6 decoded length c rest newline quote backslash ih => exact ih read

/-- Only a digit and the quote of a character literal start a number. -/
theorem first_of_number {first : Char} {rest : List Char} {payload : Payload} (read : (Lexeme.read first rest).outcome = .ok payload)
    (number : payload.kind = .number) : first = '\'' ∨ isDecimalDigit first := by
  have longest := Spelling.longest?_isLongest (first :: rest)
  have spelled : ∀ spelling ∈ Spelling.all, spelling.kind ≠ .number := by decide +kernel
  unfold Lexeme.read at read
  split at read
  · rename_i spelling found
    rw [found] at longest
    obtain rfl := Except.ok.inj read
    exact absurd number (spelled spelling longest.1)
  · split at read
    · rw [kind_stringFrom read] at number
      simp at number
    · split at read
      · rename_i zero
        exact .inr (by rw [zero]; decide)
      · split at read
        · rename_i digit
          exact .inr digit
        · split at read
          · rename_i quote
            exact .inl quote
          · unfold identifierLexeme at read
            split at read
            · obtain rfl := Except.ok.inj read
              simp at number
            · simp [Lexeme.failure] at read

/-! ### Sources -/

private theorem Lexer.next_token_text {lexer after : Lexer} {token : Token} (given : lexer.next = (some (.token token),after)) :
    ∃ gap first rest, lexer.rest = gap ++ first :: rest ∧ GapText gap ∧ (Lexeme.read first rest).outcome = .ok token.toPayload ∧
      after.rest = (first :: rest).drop (Lexeme.read first rest).length := by
  obtain ⟨count,first,rest,measured,behind,read,-,rfl⟩ := next_token_iff.mp given
  obtain ⟨gap,others,text,length,ending⟩ := Gap.measured lexer.rest
  obtain rfl : count = gap.length := by simpa [measured] using length
  obtain rfl : others = first :: rest := by simpa [text] using behind
  refine ⟨gap,first,rest,text,?_,read,?_⟩
  · rcases ending with ⟨empty,-⟩ | ⟨blank,-⟩
    · simp at empty
    · exact blank
  · rw [rest_skip,rest_skip,behind]

namespace Buffer

/-- Whatever call on whatever source gives a number, it is a character literal, or it starts with a digit and a letter or a digit stands
    right behind it only where `NumberEnds` allows it. A zero is taken for a number of its own from any letter right behind it that does not
    make a mark, a suffix or an exponent. -/
theorem number_ends (source : Source) (calls : Nat) :
    (∀ token, item source calls = some (.token token) → token.kind = .number → ∃ gap lexeme,
      (after source calls).remaining = gap ++ (lexeme ++ (after source (calls + 1)).remaining) ∧ GapText gap ∧
      (lexeme.head? = some '\'' ∨ (lexeme.head?.any isDecimalDigit ∧
        ∀ c, (after source (calls + 1)).remaining.head? = some c → NumberEnds token.number lexeme c))) ∧
    (∀ gap c rest, (after source calls).remaining = gap ++ '0' :: c :: rest → GapText gap → Text.isLetter c →
      c ∉ radixMarks.map (·.1) → isSuffixLetter c = false → floatFollows (c :: rest) = false →
      (∃ pos, item source calls = some (.token { kind := .number,number := .integer .int 0,pos := pos })) ∧
        (after source (calls + 1)).remaining = c :: rest) := by
  have here := represents_after source calls
  have there := represents_after source (calls + 1)
  have step : (Lexer.start source).after (calls + 1) = ((Lexer.start source).after calls).next.2 := rfl
  rw [item_eq,← here.rest,← there.rest,step]
  generalize (Lexer.start source).after calls = lexer
  constructor
  · intro token given number
    obtain ⟨gap,first,rest,text,blank,read,stop⟩ := Lexer.next_token_text (Prod.ext given rfl)
    have head : ((first :: rest).take (Lexeme.read first rest).length).head? = some first := by
      rw [List.head?_take,if_neg (Nat.pos_iff_ne_zero.mp (length_read_pos first rest)),List.head?_cons]
    refine ⟨gap,(first :: rest).take (Lexeme.read first rest).length,?_,blank,?_⟩
    · rw [stop,List.take_append_drop,text]
    · rcases first_of_number read number with rfl | digit
      · exact .inl head
      · refine .inr ⟨by rw [head,Option.any_some,digit],fun c behind => ?_⟩
        rw [stop] at behind
        exact ends_read digit rest token.toPayload c read behind
  · intro gap c rest text blank letter unmarked suffix float
    have digit := not_digit_of_letter letter
    have read : Lexeme.read '0' (c :: rest) = .number (.integer .int 0) 1 := by
      rw [read_unspelled (longest?_of_head (.inl rfl) _),if_neg (by decide),if_pos rfl,zeroLexeme_unmarked unmarked,suffix,digit,float]
      rfl
    rw [Lexer.next_digit text blank rfl,read]
    refine ⟨⟨_,rfl⟩,?_⟩
    rw [Lexer.rest_skip,Lexer.rest_skip,text,List.drop_left]
    rfl

/-- A zero and a letter that belongs to no number. -/
def zeroLetter : Source := .ofString "0q"

theorem number_ends_zeroLetter :
    item zeroLetter 0 = some (.token { kind := .number,number := .integer .int 0,pos := ⟨1,1⟩ }) ∧
    (after zeroLetter 1).remaining = ['q'] ∧
    item zeroLetter 1 = some (.token { kind := .identifier,literal := Text.encode ['q'],pos := ⟨1,2⟩ }) ∧
    NumberEnds (.integer .int 0) ['0'] 'q' := by
  have calls : item zeroLetter 0 = some (.token { kind := .number,number := .integer .int 0,pos := ⟨1,1⟩ }) ∧
      item zeroLetter 1 = some (.token { kind := .identifier,literal := Text.encode ['q'],pos := ⟨1,2⟩ }) := by
    decide +kernel
  obtain ⟨given,later⟩ := calls
  obtain ⟨numbers,zeros⟩ := number_ends zeroLetter 0
  obtain ⟨-,rest⟩ := zeros [] 'q' [] rfl .empty (by decide) (by decide) (by decide) (by decide)
  refine ⟨given,rest,later,?_⟩
  obtain ⟨gap,lexeme,text,-,start⟩ := numbers _ given rfl
  rw [rest] at text start
  have text : ['0'] ++ ['q'] = (gap ++ lexeme) ++ ['q'] := by rw [List.append_assoc,← text]; rfl
  have whole := List.append_cancel_right text
  rcases List.append_eq_singleton_iff.mp whole.symm with ⟨-,rfl⟩ | ⟨-,rfl⟩
  · rcases start with quote | ⟨-,ends⟩
    · simp at quote
    · exact ends 'q' rfl
  · simp at start

end Buffer

end CFrontend
