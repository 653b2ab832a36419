import CFrontend.Proofs.WrittenTokens

/-!
The value and the type of an integer literal. A numeral is a radix form with digits (`Numeral`); with any suffix behind it and the
end of the number behind that, it is one lexeme (`read_numeral`), whose outcome depends on the value of the digits and on the
letters of the suffix alone. Its type is the narrowest one that the suffix allows (`narrowestType_isNarrowest`). A buffer that stands at such a
literal gives its exact value, in a type that holds it, or one of two errors (`nextItem_integer`).
-/
namespace CFrontend

/-! ### Characters -/

private theorem isDigitBelow_iff {radix : Nat} {c : Char} :
    isDigitBelow radix c ↔ ∃ value, digitValue? c = some value ∧ value < radix := by
  simp [isDigitBelow,Option.any_eq_true]

private theorem isDigitBelow_mono {radix other : Nat} (less : radix ≤ other) {c : Char} (digit : isDigitBelow radix c) :
    isDigitBelow other c := by
  obtain ⟨value,found,small⟩ := isDigitBelow_iff.mp digit
  exact isDigitBelow_iff.mpr ⟨value,found,Nat.lt_of_lt_of_le small less⟩

private theorem isDecimalDigit_of_below {radix : Nat} (small : radix ≤ 10) {c : Char} (digit : isDigitBelow radix c) :
    isDecimalDigit c := by
  rw [← Buffer.isDigitBelow_ten]
  exact isDigitBelow_mono small digit

theorem eq_ofNat_of_between {c low : Char} (count : Nat) (lower : low ≤ c) (upper : c.toNat ≤ low.toNat + count) :
    ∃ n : Fin (count + 1), c = Char.ofNat (low.toNat + n) := by
  have lower : low.toNat ≤ c.toNat := lower
  refine ⟨⟨c.toNat - low.toNat,by omega⟩,?_⟩
  rw [Nat.add_sub_cancel' lower,Char.ofNat_toNat]

/-- A digit of a radix up to sixteen is a decimal digit or a letter that belongs to no suffix. -/
theorem digit_forms {radix : Nat} {c : Char} (digit : isDigitBelow radix c) :
    isDecimalDigit c ∨ (Text.isLetter c ∧ isSuffixLetter c = false) := by
  have letters {low : Char} (lower : low ≤ c) (upper : c.toNat ≤ low.toNat + 5) (all : ∀ n : Fin 6,
      Text.isLetter (Char.ofNat (low.toNat + n)) ∧ isSuffixLetter (Char.ofNat (low.toNat + n)) = false) :
      Text.isLetter c ∧ isSuffixLetter c = false := by
    obtain ⟨n,rfl⟩ := eq_ofNat_of_between 5 lower upper
    exact all n
  obtain ⟨value,found,-⟩ := isDigitBelow_iff.mp digit
  unfold digitValue? at found
  split at found
  · rename_i decimal
    exact .inl decimal
  · split at found
    · rename_i lowerCase
      obtain ⟨lower,upper⟩ : 'a' ≤ c ∧ c ≤ 'f' := by simpa using lowerCase
      exact .inr (letters lower upper (by decide))
    · split at found
      · rename_i upperCase
        obtain ⟨lower,upper⟩ : 'A' ≤ c ∧ c ≤ 'F' := by simpa using upperCase
        exact .inr (letters lower upper (by decide))
      · simp at found

/-- A character on one side of a class is none of those on the other side. -/
theorem not_mem_of_class {p : Char → Bool} {side : Bool} {c : Char} (own : p c = side) {others : List Char}
    (foreign : others.all (p · != side)) : c ∉ others := by
  intro member
  simpa [own] using List.all_eq_true.mp foreign c member

theorem not_suffixLetter {c : Char} (other : c ∉ ['u','U','l','L']) : isSuffixLetter c = false := by
  simpa [isSuffixLetter,and_assoc] using other

private theorem suffixLetter_cases {c : Char} (suffix : isSuffixLetter c) : c = 'u' ∨ c = 'U' ∨ c = 'l' ∨ c = 'L' := by
  simpa [isSuffixLetter,or_assoc] using suffix

theorem takeWhile_run {p : Char → Bool} {run more : List Char} (own : ∀ c ∈ run, p c)
    (stop : ∀ c, more.head? = some c → p c = false) : (run ++ more).takeWhile p = run := by
  rw [List.takeWhile_append_of_pos own]
  cases more with
  | nil => exact List.append_nil run
  | cons c more => rw [List.takeWhile_cons_of_neg (by simp [stop c rfl]),List.append_nil]

/-! ### Numerals -/

/-- The marks of the radices other than ten. -/
def radixMarks : List (Char × Nat) := [('b',2),('B',2),('o',8),('O',8),('x',16),('X',16)]

/-- An opening and digits that make a numeral of a radix. -/
inductive Numeral : (radix : Nat) → (opening digits : List Char) → Prop
  | decimal {first : Char} {rest : List Char} (nonzero : first ≠ '0') (own : (first :: rest).all isDecimalDigit) :
    Numeral 10 [] (first :: rest)
  | marked {mark : Char} {radix : Nat} {digits : List Char} (listed : (mark,radix) ∈ radixMarks) (nonempty : digits ≠ [])
    (own : digits.all (isDigitBelow radix)) : Numeral radix ['0',mark] digits
  | zero {digits : List Char} (own : digits.all (isDigitBelow 8)) : Numeral 8 ['0'] digits

theorem zeroLexeme_marked {mark : Char} {radix : Nat} (listed : (mark,radix) ∈ radixMarks) (rest : List Char) :
    zeroLexeme (mark :: rest) = radixLexeme radix ['0',mark] rest := by
  simp only [radixMarks,List.mem_cons,Prod.mk.injEq,List.not_mem_nil,or_false] at listed
  rcases listed with ⟨rfl,rfl⟩ | ⟨rfl,rfl⟩ | ⟨rfl,rfl⟩ | ⟨rfl,rfl⟩ | ⟨rfl,rfl⟩ | ⟨rfl,rfl⟩ <;> rfl

/-- What starts with a zero and goes on without a radix mark. -/
theorem zeroLexeme_unmarked {c : Char} (unmarked : c ∉ radixMarks.map (·.1)) (rest : List Char) : zeroLexeme (c :: rest) =
    if isSuffixLetter c then suffixLexeme 0 1 (c :: rest)
    else if isDecimalDigit c then
      let digits := (c :: rest).takeWhile isDecimalDigit
      if integerBound ≤ digitsValue 8 digits || digits.any fun d => d = '8' || d = '9' then
        .failure (.largeNumber (Text.encode ('0' :: digits))) (digits.length + 1)
      else suffixLexeme (digitsValue 8 digits) (digits.length + 1) ((c :: rest).drop digits.length)
    else if floatFollows (c :: rest) then floatLexeme ['0'] (c :: rest)
    else .number (.integer .int 0) 1 := by
  obtain ⟨binary,octal,hexadecimal⟩ : ¬ (c = 'b' ∨ c = 'B') ∧ ¬ (c = 'o' ∨ c = 'O') ∧ ¬ (c = 'x' ∨ c = 'X') := by
    simpa [radixMarks,not_or,and_assoc] using unmarked
  rw [zeroLexeme,if_neg (by simpa using binary),if_neg (by simpa using octal),if_neg (by simpa using hexadecimal)]

private theorem zeroLexeme_digit {c : Char} (digit : isDecimalDigit c) (rest : List Char) : zeroLexeme (c :: rest) =
    if integerBound ≤ digitsValue 8 ((c :: rest).takeWhile isDecimalDigit) ||
        ((c :: rest).takeWhile isDecimalDigit).any fun d => d = '8' || d = '9' then
      .failure (.largeNumber (Text.encode ('0' :: (c :: rest).takeWhile isDecimalDigit)))
        (((c :: rest).takeWhile isDecimalDigit).length + 1)
    else suffixLexeme (digitsValue 8 ((c :: rest).takeWhile isDecimalDigit)) (((c :: rest).takeWhile isDecimalDigit).length + 1)
      ((c :: rest).drop ((c :: rest).takeWhile isDecimalDigit).length) := by
  have unmarked : c ∉ radixMarks.map (·.1) := not_mem_of_class digit (by decide)
  have other : isSuffixLetter c = false := not_suffixLetter (not_mem_of_class digit (by decide))
  rw [zeroLexeme_unmarked unmarked,other,digit,if_neg Bool.false_ne_true,if_pos rfl]

/-- The text is empty or starts with a character that is no letter, no digit and no period. -/
def EndsNumber (tail : List Char) : Prop :=
  ∀ c, tail.head? = some c → Text.isLetter c = false ∧ isDecimalDigit c = false ∧ c ≠ '.'

section Suffix

variable {letters tail : List Char} (suffix : letters.all isSuffixLetter) (ends : EndsNumber tail)

include suffix ends

private theorem head_behind_digits {c : Char} (head : (letters ++ tail).head? = some c) :
    isSuffixLetter c ∨ (Text.isLetter c = false ∧ isDecimalDigit c = false ∧ c ≠ '.') := by
  cases letters with
  | nil => exact .inr (ends c head)
  | cons d letters =>
    obtain rfl : d = c := by simpa using head
    exact .inl (by simpa using (List.all_eq_true.mp suffix) d List.mem_cons_self)

private theorem digits_stop (radix : Nat) (c : Char) (head : (letters ++ tail).head? = some c) : isDigitBelow radix c = false := by
  rw [Bool.eq_false_iff]
  intro digit
  rcases digit_forms digit with decimal | ⟨letter,foreign⟩
  · rcases head_behind_digits suffix ends head with own | ⟨-,other,-⟩
    · rcases suffixLetter_cases own with rfl | rfl | rfl | rfl <;> exact absurd decimal (by decide)
    · simp [decimal] at other
  · rcases head_behind_digits suffix ends head with own | ⟨other,-,-⟩
    · simp [own] at foreign
    · simp [letter] at other

private theorem not_floatFollows : floatFollows (letters ++ tail) = false := by
  cases text : letters ++ tail with
  | nil => rfl
  | cons c rest =>
    have head : (letters ++ tail).head? = some c := by rw [text,List.head?_cons]
    rw [Buffer.floatFollows_cons]
    rcases head_behind_digits suffix ends head with own | ⟨letter,-,period⟩
    · rcases suffixLetter_cases own with rfl | rfl | rfl | rfl <;> rfl
    · have mark : c ∉ ['e','E'] := not_mem_of_class letter (by decide)
      obtain ⟨lower,upper⟩ : c ≠ 'e' ∧ c ≠ 'E' := by simpa using mark
      simp [period,lower,upper]

private theorem suffixLexeme_letters (value length : Nat) :
    suffixLexeme value length (letters ++ tail) = ⟨Buffer.integerOutcome value letters,length + letters.length⟩ := by
  have whole : (letters ++ tail).takeWhile isSuffixLetter = letters := by
    refine takeWhile_run (List.all_eq_true.mp suffix) fun c head => ?_
    exact not_suffixLetter (not_mem_of_class (ends c head).1 (by decide))
  have plain : tail.head?.filter Text.isLetter = none := by
    cases tail with
    | nil => rfl
    | cons c tail => simp [Option.filter,(ends c rfl).1]
  rw [Buffer.suffixLexeme_eq,whole,List.drop_left,plain]
  rfl

private theorem radixLexeme_numeral {radix : Nat} {mark digits : List Char} (nonempty : digits ≠ [])
    (own : digits.all (isDigitBelow radix)) :
    radixLexeme radix mark (digits ++ (letters ++ tail)) =
      if integerBound ≤ digitsValue radix digits then .failure (.largeNumber (Text.encode (mark ++ digits))) (mark ++ digits).length
      else ⟨Buffer.integerOutcome (digitsValue radix digits) letters,(mark ++ digits).length + letters.length⟩ := by
  have run := takeWhile_run (List.all_eq_true.mp own) (digits_stop suffix ends radix)
  unfold radixLexeme
  dsimp only
  rw [run,if_neg (by simpa using nonempty),List.drop_left,suffixLexeme_letters suffix ends,List.length_append]

private theorem decimalLexeme_numeral {digits : List Char} (own : digits.all isDecimalDigit) :
    decimalLexeme (digits ++ (letters ++ tail)) =
      if integerBound ≤ digitsValue 10 digits then .failure (.largeNumber (Text.encode digits)) digits.length
      else ⟨Buffer.integerOutcome (digitsValue 10 digits) letters,digits.length + letters.length⟩ := by
  have stop := digits_stop suffix ends 10
  rw [Buffer.isDigitBelow_ten] at stop
  have run := takeWhile_run (List.all_eq_true.mp own) stop
  unfold decimalLexeme
  dsimp only
  rw [run,List.drop_left,not_floatFollows suffix ends,if_neg Bool.false_ne_true,suffixLexeme_letters suffix ends]

private theorem zeroLexeme_bare : zeroLexeme (letters ++ tail) = ⟨Buffer.integerOutcome 0 letters,1 + letters.length⟩ := by
  have float := not_floatFollows suffix ends
  have lexeme := suffixLexeme_letters suffix ends 0 1
  cases letters with
  | cons c letters =>
    rw [← lexeme]
    have own : isSuffixLetter c := List.all_eq_true.mp suffix c List.mem_cons_self
    rcases suffixLetter_cases own with rfl | rfl | rfl | rfl <;> rfl
  | nil =>
    cases tail with
    | nil => rfl
    | cons c rest =>
      obtain ⟨plain,digit,-⟩ := ends c rfl
      have unmarked : c ∉ radixMarks.map (·.1) := not_mem_of_class plain (by decide)
      have other : isSuffixLetter c = false := not_suffixLetter (not_mem_of_class plain (by decide))
      rw [List.nil_append] at float ⊢
      rw [zeroLexeme_unmarked unmarked,other,digit,float]
      rfl

private theorem zeroLexeme_octal {digits : List Char} (own : digits.all (isDigitBelow 8)) :
    zeroLexeme (digits ++ (letters ++ tail)) =
      if integerBound ≤ digitsValue 8 digits then .failure (.largeNumber (Text.encode ('0' :: digits))) ('0' :: digits).length
      else ⟨Buffer.integerOutcome (digitsValue 8 digits) letters,('0' :: digits).length + letters.length⟩ := by
  cases digits with
  | nil =>
    rw [List.nil_append,zeroLexeme_bare suffix ends]
    rfl
  | cons c digits =>
    have octal := List.all_eq_true.mp own
    have decimal : ∀ d ∈ c :: digits, isDecimalDigit d := fun d member => isDecimalDigit_of_below (by decide) (octal d member)
    have stop := digits_stop suffix ends 10
    rw [Buffer.isDigitBelow_ten] at stop
    have run := takeWhile_run decimal stop
    have high : ((c :: digits).any fun d => d = '8' || d = '9') = false := by
      rw [List.any_eq_false]
      intro d member
      have eight : d ≠ '8' := ne_of_class (octal d member) (by decide)
      have nine : d ≠ '9' := ne_of_class (octal d member) (by decide)
      simp [eight,nine]
    rw [List.cons_append] at run ⊢
    rw [zeroLexeme_digit (decimal c List.mem_cons_self),run,high,← List.cons_append,List.drop_left]
    simp only [Bool.or_false,decide_eq_true_eq]
    rw [suffixLexeme_letters suffix ends]
    rfl

/-- A numeral with a suffix is one lexeme up to the end of the number, unless its value is too large. -/
theorem read_numeral {radix : Nat} {opening digits : List Char} (numeral : Numeral radix opening digits) :
    ∃ first rest, opening ++ (digits ++ (letters ++ tail)) = first :: rest ∧ isDecimalDigit first ∧ Lexeme.read first rest =
      if integerBound ≤ digitsValue radix digits then
        .failure (.largeNumber (Text.encode (opening ++ digits))) (opening ++ digits).length
      else ⟨Buffer.integerOutcome (digitsValue radix digits) letters,(opening ++ digits).length + letters.length⟩ := by
  cases numeral with
  | @decimal first rest nonzero own =>
    have digit : isDecimalDigit first := List.all_eq_true.mp own first List.mem_cons_self
    refine ⟨first,rest ++ (letters ++ tail),rfl,digit,?_⟩
    rw [read_unspelled (longest?_of_head (.inl digit) _),if_neg (ne_of_class digit (by decide)),if_neg nonzero,if_pos digit]
    exact decimalLexeme_numeral suffix ends own
  | @marked mark _ _ listed nonempty own =>
    refine ⟨'0',mark :: (digits ++ (letters ++ tail)),rfl,rfl,?_⟩
    rw [read_unspelled (longest?_of_head (.inl rfl) _),if_neg (by decide),if_pos rfl,zeroLexeme_marked listed]
    exact radixLexeme_numeral suffix ends nonempty own
  | zero own =>
    refine ⟨'0',digits ++ (letters ++ tail),rfl,rfl,?_⟩
    rw [read_unspelled (longest?_of_head (.inl rfl) _),if_neg (by decide),if_pos rfl]
    exact zeroLexeme_octal suffix ends own

end Suffix

/-! ### Types -/

/-- The type is the narrowest one with a sign, among the widths from `32` doubled `least` times up to `128`, that represents the
    value; where not even the widest signed type does, it is the widest unsigned one. -/
def IsNarrowest (least : Nat) (signed : Bool) (value : Nat) (type : NumberType) : Prop :=
  (∃ count, least ≤ count ∧ count ≤ 2 ∧ NumberType.integer? (32 * Nat.pow 2 count : Nat) signed = some type ∧
    fits value (32 * Nat.pow 2 count) signed ∧
    ∀ fewer, least ≤ fewer → fewer < count → fits value (32 * Nat.pow 2 fewer) signed = false) ∨
  (signed ∧ Nat.pow 2 127 ≤ value ∧ type = .unsignedLongLong)

private theorem integer?_of_few {count : Nat} (few : count < 3) (signed : Bool) :
    ∃ type, NumberType.integer? (32 * Nat.pow 2 count : Nat) signed = some type := by
  have all : ∀ count : Fin 3, ∀ signed, (NumberType.integer? (32 * Nat.pow 2 count : Nat) signed).isSome := by decide
  exact Option.isSome_iff_exists.mp (all ⟨count,few⟩ signed)

private theorem IsNarrowest.widen {least : Nat} {signed : Bool} {value : Nat} {type : NumberType}
    (narrowest : IsNarrowest (least + 1) signed value type) (large : fits value (32 * Nat.pow 2 least) signed = false) :
    IsNarrowest least signed value type := by
  rcases narrowest with ⟨count,more,most,found,own,others⟩ | widest
  · refine .inl ⟨count,Nat.le_of_succ_le more,most,found,own,fun fewer enough less => ?_⟩
    by_cases first : fewer = least
    · rw [first,large]
    · exact others fewer (by omega) less
  · exact .inr widest

theorem IsNarrowest.first {least : Nat} (few : least < 3) {signed : Bool} {value : Nat} (small : fits value (32 * Nat.pow 2 least) signed) :
    IsNarrowest least signed value ((NumberType.integer? (32 * Nat.pow 2 least : Nat) signed).getD .unsignedLongLong) := by
  obtain ⟨type,found⟩ := integer?_of_few few signed
  rw [found]
  exact .inl ⟨least,Nat.le_refl least,Nat.le_of_lt_succ few,found,small,fun fewer enough less => by omega⟩

private theorem isNarrowest_double {least : Nat} (short : least < 2) {signed : Bool} {value : Nat}
    (wider : IsNarrowest (least + 1) signed value (narrowestType value (32 * Nat.pow 2 (least + 1) : Nat) signed)) :
    IsNarrowest least signed value (narrowestType value (32 * Nat.pow 2 least : Nat) signed) := by
  have width : 32 * Nat.pow 2 least = 32 ∨ 32 * Nat.pow 2 least = 64 := by
    have all : ∀ count : Fin 2, 32 * Nat.pow 2 count = 32 ∨ 32 * Nat.pow 2 count = 64 := by decide
    exact all ⟨least,short⟩
  have double : 2 * (32 * Nat.pow 2 least) = 32 * Nat.pow 2 (least + 1) := by
    have power : Nat.pow 2 (least + 1) = Nat.pow 2 least * 2 := rfl
    omega
  rw [narrowestType_double width,double]
  split
  · rename_i small
    exact .first (by omega) small
  · rename_i large
    exact wider.widen (Bool.eq_false_iff.mpr large)

/-- The type that is chosen for a value is the narrowest one, from the width of the suffix on. -/
theorem narrowestType_isNarrowest {least : Nat} (few : least < 3) (signed : Bool) {value : Nat} (small : value < integerBound) :
    IsNarrowest least signed value (narrowestType value (32 * Nat.pow 2 least : Nat) signed) := by
  have longest : IsNarrowest 2 signed value (narrowestType value (32 * Nat.pow 2 2 : Nat) signed) := by
    have width : ((32 * Nat.pow 2 2 : Nat) : Int) = 128 := rfl
    rw [width,narrowestType_longest]
    split
    · rename_i within
      exact .first (by decide) within
    · rename_i large
      refine .inr ?_
      cases signed with
      | false => exact absurd (decide_eq_true small) large
      | true => exact ⟨rfl,Nat.le_of_not_lt (by simpa [fits] using large),rfl⟩
  have long := isNarrowest_double (by decide) longest
  rcases (by omega : least = 0 ∨ least = 1 ∨ least = 2) with rfl | rfl | rfl
  · exact isNarrowest_double (by decide) long
  · exact long
  · exact longest

/-! ### Items -/

/-- What is read at an integer literal with a value and the letters of its suffix. -/
structure ReadsInteger (item : Option Item) (pos : Position) (value : Nat) (letters : List Char) : Prop where
  large : (∃ text, item = some (.error { cause := .largeNumber text,pos := pos })) ↔ integerBound ≤ value
  oversized : (∃ width, item = some (.error { cause := .invalidSize width,pos := pos })) ↔
    value < integerBound ∧ 3 ≤ doublings letters
  typed : value < integerBound → doublings letters < 3 → ∃ number : Number,
    item = some (.token { kind := .number,number := number,pos := pos }) ∧ number.magnitude.toNat = value ∧
      IsNarrowest (doublings letters) (suffixSigned letters) value number.type

private theorem readsInteger_large {text : List UInt8} {pos : Position} {value : Nat} (large : integerBound ≤ value)
    (letters : List Char) :
    ReadsInteger (some (.error { cause := .largeNumber text,pos := pos })) pos value letters where
  large := ⟨fun _ => large,fun _ => ⟨text,rfl⟩⟩
  oversized := ⟨fun ⟨_,other⟩ => by simp at other,fun ⟨small,_⟩ => absurd small (Nat.not_lt_of_le large)⟩
  typed small := absurd small (Nat.not_lt_of_le large)

/-- The item of a lexeme at a place. -/
def Item.ofOutcome (pos : Position) : Except LexCause Payload → Item
  | .ok payload => .token { toPayload := payload,pos := pos }
  | .error cause => .error { cause := cause,pos := pos }

private theorem readsInteger_small {value : Nat} (small : value < integerBound) (pos : Position) (letters : List Char) :
    ReadsInteger (some (.ofOutcome pos (Buffer.integerOutcome value letters))) pos value letters := by
  unfold Buffer.integerOutcome
  rcases suffixWidth_cases letters with ⟨few,width⟩ | ⟨many,wide⟩
  · obtain ⟨type,found⟩ := integer?_of_few few (suffixSigned letters)
    rw [width,found]
    constructor
    · simp [Item.ofOutcome,Nat.not_le_of_lt small]
    · simp [Item.ofOutcome,few]
    · intro _ _
      refine ⟨_,rfl,Nat.mod_eq_of_lt small,?_⟩
      exact narrowestType_isNarrowest few _ small
  · rw [integer?_of_dvd wide]
    constructor
    · simp [Item.ofOutcome,Nat.not_le_of_lt small]
    · exact ⟨fun _ => ⟨small,many⟩,fun _ => ⟨_,rfl⟩⟩
    · exact fun _ few => absurd few (Nat.not_lt_of_le many)

theorem Lexer.next_digit {lexer : Lexer} {gap rest : List Char} {first : Char} (text : lexer.rest = gap ++ first :: rest)
    (blank : GapText gap) (digit : isDecimalDigit first) :
    lexer.next = (some (.ofOutcome (lexer.pos.advance gap) (Lexeme.read first rest).outcome),
      (lexer.skip gap.length).skip (Lexeme.read first rest).length) := by
  have behind : (lexer.skip gap.length).rest = first :: rest := by simp [text]
  have solid := solid_of_class digit fun blank => (blank_stops blank).2.2.2.1
  have place : (lexer.skip gap.length).pos = lexer.pos.advance gap := pos_skip_length text
  rw [next_gap text blank,← place]
  generalize lexer.skip gap.length = here at behind ⊢
  unfold next
  rw [behind,measure_of_head solid (ne_of_class digit (by decide))]
  dsimp only
  rw [if_neg Bool.false_ne_true]
  have same : here.skip 0 = here := rfl
  rw [same,behind]
  unfold readLexeme Item.ofOutcome
  rfl

namespace Buffer

/-- Every integer literal that ends where no letter, digit or period goes on is read with its exact value, in the narrowest type that its suffix
    allows, unless its value has more than 128 bits or its suffix doubles the width beyond them. A zero and digits with an eight or a
    nine among them are reported as too large. -/
theorem nextItem_integer {buffer : Buffer} {gap : List Char} (blank : GapText gap) {pos : Position} {failure : Option String} :
    (∀ radix opening digits letters tail, Numeral radix opening digits → letters.all isSuffixLetter → EndsNumber tail →
      buffer.Represents ⟨gap ++ (opening ++ (digits ++ (letters ++ tail))),pos,failure⟩ →
      ReadsInteger buffer.nextItem.1 (pos.advance gap) (digitsValue radix digits) letters) ∧
    (∀ digits tail : List Char, digits.all isDecimalDigit → (∃ c ∈ digits, c = '8' ∨ c = '9') →
      (∀ c, tail.head? = some c → isDecimalDigit c = false) →
      buffer.Represents ⟨gap ++ ('0' :: (digits ++ tail)),pos,failure⟩ →
      buffer.nextItem.1 = some (.error { cause := .largeNumber (Text.encode ('0' :: digits)),pos := pos.advance gap })) := by
  constructor
  · intro radix opening digits letters tail numeral suffix ends represents
    obtain ⟨first,rest,text,digit,read⟩ := read_numeral suffix ends numeral
    rw [text] at represents
    rw [represents.nextItem.1,Lexer.next_digit rfl blank digit,read]
    by_cases large : integerBound ≤ digitsValue radix digits
    · rw [if_pos large]
      exact readsInteger_large large letters
    · rw [if_neg large]
      exact readsInteger_small (Nat.lt_of_not_le large) _ letters
  · intro digits tail own high stop represents
    have run := takeWhile_run (List.all_eq_true.mp own) stop
    rw [represents.nextItem.1,Lexer.next_digit rfl blank rfl,read_unspelled (longest?_of_head (.inl rfl) _),if_neg (by decide),if_pos rfl]
    cases digits with
    | nil => simp at high
    | cons c digits =>
      have first : isDecimalDigit c := List.all_eq_true.mp own c List.mem_cons_self
      rw [List.cons_append] at run ⊢
      have high : ((c :: digits).any fun d => d = '8' || d = '9') := by simpa using high
      rw [zeroLexeme_digit first,run,high,Bool.or_true,if_pos rfl]
      rfl

/-- A comment, then the first value that no signed type holds, with a suffix. -/
def highestBit : Source :=
  ⟨['/','*','*','/'] ++ (['0','x'] ++ (('8' :: List.replicate 31 '0') ++ (['l'] ++ [';']))),none⟩

/-- A zero and two digits of which one is an eight. -/
def strayEight : Source := ⟨[] ++ ('0' :: (['1','8'] ++ ['u'])),none⟩

theorem nextItem_integer_highestBit :
    (∃ number : Number, (start highestBit).nextItem.1 = some (.token { kind := .number,number := number,pos := ⟨1,5⟩ }) ∧
      number.magnitude.toNat = Nat.pow 2 127 ∧ number.type = .unsignedLongLong) ∧
    (start strayEight).nextItem.1 = some (.error { cause := .largeNumber (Text.encode ['0','1','8']),pos := ⟨1,1⟩ }) := by
  constructor
  · have blank : GapText ['/','*','*','/'] := .block (show ¬ ['*','/'] <:+: [] ++ ['*'] by decide) .empty
    have numeral : Numeral 16 ['0','x'] ('8' :: List.replicate 31 '0') := .marked (by decide) (by decide) (by decide)
    have ends : EndsNumber [';'] := by
      intro c head
      obtain rfl : ';' = c := by simpa using head
      decide
    have value : digitsValue 16 ('8' :: List.replicate 31 '0') = Nat.pow 2 127 := by decide
    obtain ⟨-,-,typed⟩ := (nextItem_integer blank).1 _ _ _ ['l'] _ numeral (by decide) ends (represents_start highestBit)
    rw [value] at typed
    obtain ⟨number,given,magnitude,narrowest⟩ := typed (by decide) (by decide)
    refine ⟨number,given,magnitude,?_⟩
    rcases narrowest with ⟨count,-,few,-,small,-⟩ | ⟨-,-,widest⟩
    · have all : ∀ count : Fin 3, fits (Nat.pow 2 127) (32 * Nat.pow 2 count) true = false := by decide
      exact absurd small (Bool.eq_false_iff.mp (all ⟨count,Nat.lt_succ_of_le few⟩))
    · exact widest
  · exact (nextItem_integer .empty).2 ['1','8'] ['u'] (by decide) ⟨'8',by decide,.inl rfl⟩ (by simp [isDecimalDigit])
      (represents_start strayEight)

end Buffer

end CFrontend
