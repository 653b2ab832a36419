import CFrontend.Proofs.DoubleWord
import CFrontend.Proofs.Gaps
import CFrontend.Proofs.LongestSpelling

/-!
Scanning on a buffer gives the lexemes of the text. Each scanner reads ahead and pushes back by its own rules; where its
buffer stands at the start of a lexeme, it gives the outcome of the lexeme and leaves the buffer behind
the characters that the lexeme covers (`scanLexeme_agrees`). Digits are taken up in two words, which denote the value of the
lexeme as long as it fits (`Represents.readDigits`). With the gap before the lexeme, a
buffer gives the items of the lexer that it represents (`Represents.nextItem`).
-/
namespace CFrontend.Buffer

variable {buffer after : Buffer} {lexer : Lexer}

/-- The scan has the outcome of the lexeme at the place of the lexer and ends behind it. -/
def Agrees (scan : Scan) (lexer : Lexer) (lexeme : Lexeme) : Prop :=
  scan.1 = lexeme.outcome ∧ scan.2.Represents (lexer.skip lexeme.length)

/-! ### Integers -/

/-- The letters of a suffix are read, and one more letter if the character behind them is one; any other character is left. -/
theorem Represents.readSuffix {letters : List Char} {stray : Option Char} (represents : buffer.Represents lexer)
    (read : buffer.readSuffix = (letters,stray,after)) :
    letters = lexer.rest.takeWhile isSuffixLetter ∧
      stray = (lexer.rest.drop letters.length).head?.filter Text.isLetter ∧
      after.Represents (lexer.skip (letters.length + stray.toList.length)) := by
  fun_induction Buffer.readSuffix buffer generalizing lexer letters stray after with
  | case1 buffer next taken =>
    obtain ⟨rfl,rfl,rfl⟩ : [] = letters ∧ none = stray ∧ next = after := by simpa using read
    obtain ⟨empty,same,-⟩ := represents.next_none taken
    exact ⟨by simp [empty],by simp [empty],same⟩
  | case2 buffer c next taken suffix others extra last later ih =>
    obtain ⟨rfl,rfl,rfl⟩ : c.char :: others = letters ∧ extra = stray ∧ last = after := by simpa using read
    obtain ⟨-,⟨rest,first⟩,moved⟩ := represents.next_some taken
    obtain ⟨rfl,rfl,behind⟩ := ih moved later
    rw [skip_one_skip] at behind
    refine ⟨by simp [first,suffix],by simp [first],?_⟩
    simpa [Nat.add_right_comm] using behind
  | case3 buffer c next taken other letter =>
    obtain ⟨rfl,rfl,rfl⟩ : [] = letters ∧ some c.char = stray ∧ next = after := by simpa using read
    obtain ⟨-,⟨rest,first⟩,moved⟩ := represents.next_some taken
    exact ⟨by simp [first,other],by simp [first,Option.filter,letter],moved⟩
  | case4 buffer c next taken other mark =>
    obtain ⟨rfl,rfl,rfl⟩ : [] = letters ∧ none = stray ∧ next.back c = after := by simpa using read
    obtain ⟨place,⟨rest,first⟩,moved⟩ := represents.next_some taken
    exact ⟨by simp [first,other],by simp [first,Option.filter,mark],moved.back place first⟩

/-- What an integer literal with a value and the letters of its suffix stands for. -/
def integerOutcome (value : Nat) (letters : List Char) : Except LexCause Payload :=
  match NumberType.integer? (suffixWidth letters).toInt (suffixSigned letters) with
  | none => .error (.invalidSize (suffixWidth letters).toInt)
  | some _ =>
    .ok { kind := .number,number := .integer (narrowestType value (suffixWidth letters).toInt (suffixSigned letters)) value }

/-- The lexeme of a suffix by its letters and by the letter behind them, if there is one. -/
theorem suffixLexeme_eq (value length : Nat) (rest : List Char) : suffixLexeme value length rest =
    ((rest.drop (rest.takeWhile isSuffixLetter).length).head?.filter Text.isLetter).elim
      ⟨integerOutcome value (rest.takeWhile isSuffixLetter),length + (rest.takeWhile isSuffixLetter).length⟩
      fun stray => ⟨.error (.invalidLiteral (Text.encode (rest.takeWhile isSuffixLetter ++ [stray]))),
        length + (rest.takeWhile isSuffixLetter).length + 1⟩ := by
  unfold suffixLexeme integerOutcome
  generalize rest.takeWhile isSuffixLetter = letters
  dsimp only
  cases (rest.drop letters.length).head?.filter Text.isLetter with
  | some stray => rfl
  | none => cases NumberType.integer? (suffixWidth letters).toInt (suffixSigned letters) <;> rfl

/-- Promoting the type of a value in two words as far as needed gives the narrowest type that holds it. -/
theorem suffixed_eq (value : DoubleWord) (letters : List Char) : suffixed value letters = integerOutcome value.toNat letters := by
  unfold suffixed integerOutcome
  dsimp only
  split
  · rename_i absent
    rw [absent]
  · rename_i type found
    rcases suffixWidth_cases letters with ⟨few,width⟩ | ⟨-,wide⟩
    · have listed : (suffixWidth letters).toInt.toNat = 32 ∨ (suffixWidth letters).toInt.toNat = 64 ∨
          (suffixWidth letters).toInt.toNat = 128 := by
        rw [width,Int.toNat_natCast]
        have all : ∀ count : Fin 3, 32 * Nat.pow 2 count = 32 ∨ 32 * Nat.pow 2 count = 64 ∨ 32 * Nat.pow 2 count = 128 := by decide
        exact all ⟨_,few⟩
      have narrowest := value.integer?_promoted listed (toNat_pos_of_integer? found) (suffixSigned letters)
      have same : ((suffixWidth letters).toInt.toNat : Int) = (suffixWidth letters).toInt := by rw [width,Int.toNat_natCast]
      rw [same] at narrowest
      rw [narrowest]
      simp only [found]
    · rw [integer?_of_dvd wide] at found
      simp at found

/-- The suffix of an integer whose digits are read already. -/
theorem scanSuffix_agrees (value : DoubleWord) {length : Nat} (represents : buffer.Represents (lexer.skip length)) :
    Agrees (buffer.scanSuffix value) lexer (suffixLexeme value.toNat length (lexer.rest.drop length)) := by
  rw [suffixLexeme_eq]
  unfold scanSuffix
  rcases read : buffer.readSuffix with ⟨letters,stray,last⟩
  obtain ⟨same,found,behind⟩ := represents.readSuffix read
  rw [Lexer.rest_skip] at same found
  rw [Lexer.skip_skip,← Nat.add_assoc] at behind
  subst same
  rw [← found]
  cases stray with
  | some letter => exact ⟨rfl,behind⟩
  | none => exact ⟨suffixed_eq value _,behind⟩

private theorem isDigitBelow_eq (run : Nat) (c : Char) : isDigitBelow run c = ((digitValue? c).filter (· < run)).isSome := by
  unfold isDigitBelow
  cases digitValue? c with
  | none => rfl
  | some digit =>
    rw [Option.any_some,Option.filter]
    cases decide (digit < run) <;> rfl

theorem isDigitBelow_ten : isDigitBelow 10 = isDecimalDigit := by
  funext c
  unfold isDigitBelow isDecimalDigit digitValue?
  split
  · rename_i decimal
    obtain ⟨-,upper⟩ : '0' ≤ c ∧ c ≤ '9' := by simpa using decimal
    have small : c.toNat ≤ '9'.toNat := upper
    have below : c.toNat - '0'.toNat < 10 := by
      simp only [Char.reduceToNat] at *
      omega
    rw [decimal,Option.any_some,decide_eq_true below]
  · rename_i other
    have large (n : Nat) : ¬ n + 10 < 10 := by omega
    rw [Bool.not_eq_true] at other
    rw [other]
    split
    · simp [large]
    · split
      · simp [large]
      · rfl

/-- A run of digits is read as long as it goes on. The value of the digits in two words is the one that the text gives them, or it
    is too large for two words. -/
theorem Represents.readDigits {radix run number : Nat} {value total : Option DoubleWord} {digits : List Char} (positive : 0 < radix)
    (radixSmall : radix ≤ 16) (runSmall : run ≤ 16) (represents : buffer.Represents lexer) (denotes : DoubleWord.Denotes value number)
    (read : buffer.readDigits radix run value = (digits,total,after)) :
    digits = lexer.rest.takeWhile (isDigitBelow run) ∧
      DoubleWord.Denotes total (digits.foldl (fun value c => value * radix + (digitValue? c).getD 0) number) ∧
      after.Represents (lexer.skip digits.length) := by
  fun_induction Buffer.readDigits radix run value buffer generalizing lexer digits total after number with
  | case1 value buffer next taken =>
    obtain ⟨rfl,rfl,rfl⟩ : [] = digits ∧ value = total ∧ next = after := by simpa using read
    obtain ⟨empty,same,-⟩ := represents.next_none taken
    exact ⟨by simp [empty],denotes,same⟩
  | case2 value buffer c next taken other =>
    obtain ⟨rfl,rfl,rfl⟩ : [] = digits ∧ value = total ∧ next.back c = after := by simpa using read
    obtain ⟨place,⟨rest,first⟩,moved⟩ := represents.next_some taken
    refine ⟨?_,denotes,moved.back place first⟩
    rw [first,List.takeWhile_cons_of_neg]
    rw [isDigitBelow_eq,other]
    simp
  | case3 value buffer c next taken digit found others last behind later ih =>
    obtain ⟨rfl,rfl,rfl⟩ : c.char :: others = digits ∧ last = total ∧ behind = after := by simpa using read
    obtain ⟨-,⟨rest,first⟩,moved⟩ := represents.next_some taken
    obtain ⟨value,below⟩ : digitValue? c.char = some digit ∧ digit < run := by simpa using found
    have wide : 16 < DoubleWord.wordBound := by decide
    have taken : isDigitBelow run c.char := by rw [isDigitBelow_eq,found,Option.isSome_some]
    obtain ⟨rfl,sum,stop⟩ := ih moved (denotes.step positive (by omega) (by omega)) later
    rw [skip_one_skip] at stop
    have inner : (lexer.skip 1).rest = rest := by simp [first]
    refine ⟨by rw [first,List.takeWhile_cons_of_pos taken,inner],?_,stop⟩
    rw [List.foldl_cons,value,Option.getD_some]
    exact sum

/-- A value that is too large makes the digits in front of the suffix the lexeme. -/
theorem scanTotal_agrees {text : List Char} {total : Option DoubleWord} {value : Nat} (denotes : DoubleWord.Denotes total value)
    {length : Nat} (represents : buffer.Represents (lexer.skip length)) :
    Agrees (buffer.scanTotal text total) lexer (if integerBound ≤ value then .failure (.largeNumber (Text.encode text)) length
      else suffixLexeme value length (lexer.rest.drop length)) := by
  cases total with
  | none =>
    have large : integerBound ≤ value := denotes
    rw [if_pos large]
    exact ⟨rfl,represents⟩
  | some word =>
    obtain rfl : word.toNat = value := denotes
    rw [if_neg (Nat.not_le_of_lt word.toNat_lt)]
    exact scanSuffix_agrees word represents

/-- An integer behind its radix mark, which needs a digit. -/
theorem scanRadix_agrees {radix : Nat} (positive : 0 < radix) (small : radix ≤ 16) {mark : List Char}
    (represents : buffer.Represents (lexer.skip mark.length)) :
    Agrees (buffer.scanRadix radix mark) lexer (radixLexeme radix mark (lexer.rest.drop mark.length)) := by
  unfold scanRadix radixLexeme
  split
  rename_i digits total last read
  obtain ⟨same,denotes,behind⟩ := represents.readDigits positive small small DoubleWord.denotes_zero read
  rw [Lexer.rest_skip] at same
  subst same
  rw [Lexer.skip_skip] at behind
  dsimp only
  split
  · exact ⟨rfl,behind⟩
  · rw [List.drop_drop]
    exact scanTotal_agrees denotes behind

/-! ### Floating literals -/

theorem floatFollows_cons (c : Char) (rest : List Char) : floatFollows (c :: rest) =
    if c = '.' then rest.head?.any isDecimalDigit
    else if c = 'e' || c = 'E' then rest.head?.any fun d => isDecimalDigit d || d = '+' || d = '-'
    else false := by
  cases rest with
  | nil => simp [floatFollows]
  | cons d rest =>
    unfold floatFollows
    split
    · simp_all
    · simp_all
    · simp_all
    · rename_i period lower upper
      have first : c ≠ '.' := fun same => period d rest (by rw [same])
      have second : c ≠ 'e' := fun same => lower d rest (by rw [same])
      have third : c ≠ 'E' := fun same => upper d rest (by rw [same])
      simp [first,second,third]

/-- Whether a floating literal goes on is told by at most two characters, which both are left. -/
theorem Represents.floatAhead {float : Bool} (represents : buffer.Represents lexer)
    (read : buffer.floatAhead = (float,after)) : float = floatFollows lexer.rest ∧ after.Represents lexer := by
  unfold Buffer.floatAhead at read
  split at read
  · rename_i next taken
    obtain ⟨rfl,rfl⟩ := Prod.mk.inj read
    obtain ⟨empty,same,-⟩ := represents.next_none taken
    exact ⟨by simp [empty,floatFollows],same⟩
  · rename_i c next taken
    obtain ⟨place,⟨rest,first⟩,moved⟩ := represents.next_some taken
    rw [first,floatFollows_cons]
    -- What comes behind the first character is looked at and pushed back before that character.
    cases looked : next.peek with
    | mk follow later =>
      obtain ⟨rfl,same⟩ := moved.peek looked
      have again := same.back place first
      rw [looked] at read
      have behind : (lexer.skip 1).rest = rest := by simp [first]
      rw [behind] at read
      split at read
      · rename_i period
        obtain ⟨rfl,rfl⟩ := Prod.mk.inj read
        exact ⟨by rw [if_pos period],again⟩
      · rename_i period
        split at read
        · rename_i mark
          obtain ⟨rfl,rfl⟩ := Prod.mk.inj read
          exact ⟨by rw [if_neg period,if_pos mark],again⟩
        · rename_i mark
          obtain ⟨rfl,rfl⟩ := Prod.mk.inj read
          exact ⟨by rw [if_neg period,if_neg mark],moved.back place first⟩

theorem Represents.readFraction {fraction : Option (List Char)} (represents : buffer.Represents lexer)
    (read : buffer.readFraction = (fraction,after)) (whole : List Char) :
    fraction = (DecimalText.goingOn whole lexer.rest).fraction ∧
      after.Represents (lexer.skip ((fraction.map (·.length + 1)).getD 0)) := by
  unfold Buffer.readFraction at read
  split at read
  · rename_i next taken
    obtain ⟨rfl,rfl⟩ := Prod.mk.inj read
    obtain ⟨empty,same,-⟩ := represents.next_none taken
    exact ⟨by simp [empty,DecimalText.goingOn],same⟩
  · rename_i c next taken
    obtain ⟨place,⟨rest,first⟩,moved⟩ := represents.next_some taken
    split at read
    · rename_i period
      split at read
      rename_i digits last later
      obtain ⟨rfl,rfl⟩ := Prod.mk.inj read
      obtain ⟨same,behind⟩ := moved.readWhile later
      rw [skip_one_skip] at behind
      refine ⟨?_,behind⟩
      simp [DecimalText.goingOn,first,period,same]
    · rename_i other
      obtain ⟨rfl,rfl⟩ := Prod.mk.inj read
      refine ⟨?_,moved.back place first⟩
      simp [DecimalText.goingOn,first,other]

theorem Represents.readSign {sign : List Char} (represents : buffer.Represents lexer)
    (read : buffer.readSign = (sign,after)) :
    sign = (DecimalText.signedDigits lexer.rest).1 ∧ after.Represents (lexer.skip sign.length) := by
  unfold Buffer.readSign at read
  split at read
  · rename_i next taken
    obtain ⟨rfl,rfl⟩ := Prod.mk.inj read
    obtain ⟨empty,same,-⟩ := represents.next_none taken
    exact ⟨by simp [empty,DecimalText.signedDigits],same⟩
  · rename_i c next taken
    obtain ⟨place,⟨rest,first⟩,moved⟩ := represents.next_some taken
    split at read
    · rename_i mark
      obtain ⟨rfl,rfl⟩ := Prod.mk.inj read
      refine ⟨?_,moved⟩
      rcases (by simpa using mark : c.char = '+' ∨ c.char = '-') with plus | minus
      · simp [DecimalText.signedDigits,first,plus]
      · simp [DecimalText.signedDigits,first,minus]
    · rename_i mark
      obtain ⟨rfl,rfl⟩ := Prod.mk.inj read
      refine ⟨?_,moved.back place first⟩
      obtain ⟨plus,minus⟩ : c.char ≠ '+' ∧ c.char ≠ '-' := by simpa using mark
      simp [DecimalText.signedDigits,first,plus,minus]

/-- The exponent that a text starts with. -/
def exponentAt : List Char → Option (List Char × List Char)
  | 'e' :: tail | 'E' :: tail => some (DecimalText.signedDigits tail)
  | _ => none

/-- An exponent is read with its sign and all of its digits, also if it has none. -/
theorem Represents.readExponent {exponent : Option (List Char × List Char)} (represents : buffer.Represents lexer)
    (read : buffer.readExponent = (exponent,after)) : exponent = exponentAt lexer.rest ∧
      after.Represents (lexer.skip ((exponent.map fun parts => parts.1.length + parts.2.length + 1).getD 0)) := by
  unfold Buffer.readExponent at read
  split at read
  · rename_i next taken
    obtain ⟨rfl,rfl⟩ := Prod.mk.inj read
    obtain ⟨empty,same,-⟩ := represents.next_none taken
    exact ⟨by simp [empty,exponentAt],same⟩
  · rename_i c next taken
    obtain ⟨place,⟨rest,first⟩,moved⟩ := represents.next_some taken
    split at read
    · rename_i mark
      split at read
      rename_i sign signed marked
      split at read
      rename_i digits last later
      obtain ⟨rfl,rfl⟩ := Prod.mk.inj read
      obtain ⟨own,there⟩ := moved.readSign marked
      obtain ⟨same,behind⟩ := there.readWhile later
      have inner : (lexer.skip 1).rest = rest := by simp [first]
      rw [Lexer.rest_skip,inner] at same
      rw [inner] at own
      refine ⟨?_,?_⟩
      · have pair : (sign,digits) = DecimalText.signedDigits rest := by
          rw [same,own]
          rfl
        rw [first,pair]
        rcases (by simpa using mark : c.char = 'e' ∨ c.char = 'E') with lower | upper
        · rw [lower]
          rfl
        · rw [upper]
          rfl
      · rw [skip_one_skip,Lexer.skip_skip,Nat.add_right_comm] at behind
        exact behind
    · rename_i mark
      obtain ⟨rfl,rfl⟩ := Prod.mk.inj read
      refine ⟨?_,moved.back place first⟩
      obtain ⟨lower,upper⟩ : c.char ≠ 'e' ∧ c.char ≠ 'E' := by simpa using mark
      simp [exponentAt,first,lower,upper]

/-- The lexeme of a floating literal by the character behind its exponent. -/
theorem floatLexeme_eq (whole rest : List Char) (decimal : DecimalText)
    (read : decimal = DecimalText.goingOn whole rest) : floatLexeme whole rest =
    if decimal.isBroken then ⟨.error (.invalidLiteral (Text.encode decimal.chars)),decimal.chars.length⟩
    else (rest.drop (decimal.chars.length - whole.length)).head?.elim ⟨floating decimal .double,decimal.chars.length⟩
      fun c =>
        if c = 'f' || c = 'F' then ⟨floating decimal .float,decimal.chars.length + 1⟩
        else if c = 'l' || c = 'L' then ⟨floating decimal .double,decimal.chars.length + 1⟩
        else if Text.isLetter c then
          ⟨.error (.invalidLiteral (Text.encode (decimal.chars ++ [c]))),decimal.chars.length + 1⟩
        else ⟨floating decimal .double,decimal.chars.length⟩ := by
  unfold floatLexeme floating
  rw [← read]
  dsimp only
  split
  · rfl
  · cases found : rest.drop (decimal.chars.length - whole.length) with
    | nil => cases decimal.value? <;> rfl
    | cons c tail => cases decimal.value? <;> rfl

theorem length_chars (decimal : DecimalText) : decimal.chars.length = decimal.whole.length +
    (decimal.fraction.map (·.length + 1)).getD 0 +
    (decimal.exponent.map fun parts => parts.1.length + parts.2.length + 1).getD 0 := by
  obtain ⟨whole,fraction,exponent⟩ := decimal
  cases fraction with
  | none => cases exponent <;> simp [DecimalText.chars]
  | some digits =>
    cases exponent with
    | none => simp [DecimalText.chars]
    | some parts =>
      simp [DecimalText.chars]
      omega

/-- A floating literal whose whole part is read already. -/
theorem scanFloat_agrees {whole : List Char} (represents : buffer.Represents (lexer.skip whole.length)) :
    Agrees (buffer.scanFloat whole) lexer (floatLexeme whole (lexer.rest.drop whole.length)) := by
  unfold scanFloat
  split
  rename_i fraction second fractional
  split
  rename_i exponent third exponential
  obtain ⟨same,there⟩ := represents.readFraction fractional whole
  obtain ⟨also,behind⟩ := there.readExponent exponential
  have decimal : (⟨whole,fraction,exponent⟩ : DecimalText) = DecimalText.goingOn whole (lexer.rest.drop whole.length) := by
    rw [same] at also
    rw [same,also]
    rfl
  have stop : third.Represents (lexer.skip (DecimalText.mk whole fraction exponent).chars.length) := by
    rw [length_chars]
    simpa [Lexer.skip_skip] using behind
  have after : (lexer.rest.drop whole.length).drop ((DecimalText.mk whole fraction exponent).chars.length - whole.length) =
      lexer.rest.drop (DecimalText.mk whole fraction exponent).chars.length := by
    rw [List.drop_drop,length_chars]
    congr 1
    dsimp only
    omega
  rw [floatLexeme_eq _ _ _ decimal,after]
  dsimp only
  split
  · exact ⟨rfl,stop⟩
  · split
    · rename_i next taken
      obtain ⟨empty,last,-⟩ := stop.next_none taken
      rw [Lexer.rest_skip] at empty
      rw [empty]
      exact ⟨rfl,last⟩
    · rename_i c next taken
      obtain ⟨rest,first,-,moved,again⟩ := stop.next_at taken
      rw [first]
      dsimp only [List.head?_cons,Option.elim]
      split
      · exact ⟨rfl,moved⟩
      · split
        · exact ⟨rfl,moved⟩
        · split
          · exact ⟨rfl,moved⟩
          · exact ⟨rfl,again⟩

/-! ### Numbers -/

/-- A literal whose first zero is read already. A radix mark, a letter of a suffix, a digit or what makes it floating is looked
    for behind the zero. -/
theorem scanZero_agrees (represents : buffer.Represents (lexer.skip 1)) :
    Agrees buffer.scanZero lexer (zeroLexeme (lexer.rest.drop 1)) := by
  unfold scanZero
  split
  · rename_i next taken
    obtain ⟨empty,same,-⟩ := represents.next_none taken
    rw [Lexer.rest_skip] at empty
    rw [empty]
    exact ⟨rfl,same⟩
  · rename_i c next taken
    obtain ⟨rest,first,behind,moved,again⟩ := represents.next_at taken
    rw [first]
    unfold zeroLexeme
    dsimp only
    split
    · rw [← behind]
      exact scanRadix_agrees (by decide) (by decide) moved
    · split
      · rw [← behind]
        exact scanRadix_agrees (by decide) (by decide) moved
      · split
        · rw [← behind]
          exact scanRadix_agrees (by decide) (by decide) moved
        · split
          · rw [← first]
            exact scanSuffix_agrees .zero again
          · split
            · cases read : (next.back c).readDigits 8 10 (some .zero) with
              | mk digits later =>
                obtain ⟨total,last⟩ := later
                obtain ⟨same,denotes,stop⟩ := again.readDigits (by decide) (by decide) (by decide) DoubleWord.denotes_zero read
                rw [Lexer.rest_skip,first,isDigitBelow_ten] at same
                rw [Lexer.skip_skip,Nat.add_comm] at stop
                subst same
                dsimp only
                generalize (c.char :: rest).takeWhile isDecimalDigit = digits at denotes stop ⊢
                cases foreign : digits.any fun d => d = '8' || d = '9' with
                | true =>
                  rw [if_pos rfl,Bool.or_true,if_pos rfl]
                  exact ⟨rfl,stop⟩
                | false =>
                  rw [if_neg Bool.false_ne_true,← first,List.drop_drop,Nat.add_comm 1]
                  simp only [Bool.or_false,decide_eq_true_eq]
                  exact scanTotal_agrees denotes stop
            · cases looked : (next.back c).floatAhead with
              | mk float last =>
                obtain ⟨same,stop⟩ := again.floatAhead looked
                rw [Lexer.rest_skip,first] at same
                subst same
                dsimp only
                split
                · rw [← first]
                  exact scanFloat_agrees stop
                · exact ⟨rfl,stop⟩

/-- A literal that starts with a decimal digit other than zero. -/
theorem scanDecimal_agrees (represents : buffer.Represents lexer) :
    Agrees buffer.scanDecimal lexer (decimalLexeme lexer.rest) := by
  unfold scanDecimal decimalLexeme
  split
  rename_i digits total second read
  split
  rename_i float last looked
  obtain ⟨same,denotes,there⟩ := represents.readDigits (by decide) (by decide) (by decide) DoubleWord.denotes_zero read
  obtain ⟨also,stop⟩ := there.floatAhead looked
  rw [isDigitBelow_ten] at same
  rw [Lexer.rest_skip] at also
  subst same also
  dsimp only
  split
  · exact scanFloat_agrees stop
  · exact scanTotal_agrees denotes stop

/-! ### Quoted lexemes and identifiers -/

/-- The digits of a numeric escape are read if there are enough characters, and else everything behind the mark is left. -/
theorem Represents.scanDigits {mark : List Char} {count radix : Nat} {result : Except LexCause Nat}
    (represents : buffer.Represents (lexer.skip mark.length))
    (read : buffer.scanDigits mark count radix = (result,after)) :
    result = (Escape.numeric mark count radix (lexer.rest.drop mark.length)).outcome ∧
      after.Represents (lexer.skip (Escape.numeric mark count radix (lexer.rest.drop mark.length)).length) := by
  unfold Buffer.scanDigits at read
  unfold Escape.numeric
  have whole : buffer.Represents ((lexer.skip mark.length).skip ([] : List Char).length) := represents
  have split : (lexer.skip mark.length).rest = [] ++ lexer.rest.drop mark.length := rfl
  split at read
  · rename_i next found
    obtain ⟨rfl,rfl⟩ := Prod.mk.inj read
    rcases whole.readCount split found with ⟨-,some,-⟩ | ⟨few,-,same⟩
    · simp at some
    · have short : ((lexer.rest.drop mark.length).take count).length < count := by
        rw [List.length_take]
        omega
      rw [if_pos short]
      exact ⟨rfl,same⟩
  · rename_i digits next found
    rcases whole.readCount split found with ⟨enough,some,stop⟩ | ⟨-,none,-⟩
    · obtain rfl : digits = (lexer.rest.drop mark.length).take count := by simpa using some
      have long : ¬ ((lexer.rest.drop mark.length).take count).length < count := by
        rw [List.length_take]
        omega
      rw [if_neg long]
      rw [Lexer.skip_skip] at stop
      split at read
      · rename_i all
        obtain ⟨rfl,rfl⟩ := Prod.mk.inj read
        rw [if_pos all]
        exact ⟨rfl,by simpa using stop⟩
      · rename_i all
        obtain ⟨rfl,rfl⟩ := Prod.mk.inj read
        rw [if_neg all]
        exact ⟨rfl,by simpa using stop⟩
    · simp at none

theorem escape_cons (c : Char) (rest : List Char) : Escape.read (c :: rest) = (plainEscape? c).elim
    (if c = 'x' then Escape.numeric ['x'] 2 16 rest
      else if c = 'u' then Escape.numeric ['u'] 4 16 rest
      else if c = 'U' then Escape.numeric ['U'] 8 16 rest
      else if isDecimalDigit c then Escape.numeric [] 4 10 (c :: rest)
      else ⟨.error (.invalidEscape (Text.encode ['\\',c])),1⟩)
    fun value => ⟨.ok value,1⟩ := by
  by_cases letter : c = 'a' ∨ c = 'b' ∨ c = 'f' ∨ c = 'n' ∨ c = 'r' ∨ c = 't' ∨ c = 'v' ∨ c = 'e' ∨ c = 'x' ∨ c = 'u' ∨ c = 'U'
  · rcases letter with rfl | rfl | rfl | rfl | rfl | rfl | rfl | rfl | rfl | rfl | rfl <;> rfl
  · simp only [not_or] at letter
    simp [Escape.read,plainEscape?,letter]
    split <;> rfl

/-- The characters behind a backslash stand for the value of the escape, and are read as far as the escape goes. -/
theorem Represents.scanEscape {result : Except LexCause Nat} (represents : buffer.Represents lexer)
    (read : buffer.scanEscape = (result,after)) :
    result = (Escape.read lexer.rest).outcome ∧ after.Represents (lexer.skip (Escape.read lexer.rest).length) := by
  unfold Buffer.scanEscape at read
  split at read
  · rename_i next taken
    obtain ⟨rfl,rfl⟩ := Prod.mk.inj read
    obtain ⟨empty,same,-⟩ := represents.next_none taken
    rw [empty]
    exact ⟨rfl,same⟩
  · rename_i c next taken
    obtain ⟨place,⟨rest,first⟩,moved⟩ := represents.next_some taken
    have again := moved.back place first
    have inner : lexer.rest.drop 1 = rest := by simp [first]
    rw [first,escape_cons]
    split at read
    · rename_i value plain
      obtain ⟨rfl,rfl⟩ := Prod.mk.inj read
      rw [plain]
      exact ⟨rfl,moved⟩
    · rename_i marked
      rw [marked,Option.elim_none]
      split at read
      · rename_i mark
        rw [if_pos mark,← inner]
        exact moved.scanDigits read
      · rename_i hex
        rw [if_neg hex]
        split at read
        · rename_i mark
          rw [if_pos mark,← inner]
          exact moved.scanDigits read
        · rename_i short
          rw [if_neg short]
          split at read
          · rename_i mark
            rw [if_pos mark,← inner]
            exact moved.scanDigits read
          · rename_i long
            rw [if_neg long]
            split at read
            · rename_i digit
              rw [if_pos digit,← first]
              exact again.scanDigits read
            · rename_i digit
              obtain ⟨rfl,rfl⟩ := Prod.mk.inj read
              rw [if_neg digit]
              exact ⟨rfl,moved⟩

/-- The quote that closes a character literal. -/
theorem scanQuote_agrees (value : Nat) {length : Nat} (represents : buffer.Represents (lexer.skip length)) :
    Agrees (buffer.scanQuote value) lexer (closeCharacter value length (lexer.rest.drop length)) := by
  unfold scanQuote
  dsimp only
  split
  · rename_i next taken
    obtain ⟨empty,same,-⟩ := represents.next_none taken
    rw [Lexer.rest_skip] at empty
    rw [empty]
    exact ⟨rfl,same⟩
  · rename_i c next taken
    obtain ⟨rest,first,-,moved,again⟩ := represents.next_at taken
    rw [first]
    unfold closeCharacter
    dsimp only
    split
    · exact ⟨rfl,moved⟩
    · exact ⟨rfl,again⟩

/-- A character literal whose first quote is read already. -/
theorem scanCharacter_agrees (represents : buffer.Represents (lexer.skip 1)) :
    Agrees buffer.scanCharacter lexer (characterLexeme (lexer.rest.drop 1)) := by
  unfold scanCharacter
  split
  · rename_i next taken
    obtain ⟨empty,same,-⟩ := represents.next_none taken
    rw [Lexer.rest_skip] at empty
    rw [empty]
    exact ⟨rfl,same⟩
  · rename_i c next taken
    obtain ⟨rest,first,inner,moved,-⟩ := represents.next_at taken
    rw [first]
    unfold characterLexeme
    dsimp only
    split
    · exact ⟨rfl,moved⟩
    · split
      · split
        · rename_i cause last read
          obtain ⟨failed,stop⟩ := moved.scanEscape read
          rw [Lexer.rest_skip,inner] at failed stop
          rw [← failed]
          rw [Lexer.skip_skip] at stop
          exact ⟨rfl,stop⟩
        · rename_i value last read
          obtain ⟨done,stop⟩ := moved.scanEscape read
          rw [Lexer.rest_skip,inner] at done stop
          rw [← done,← inner,List.drop_drop]
          rw [Lexer.skip_skip,← inner] at stop
          exact scanQuote_agrees value stop
      · rw [← inner]
        exact scanQuote_agrees _ moved

/-- A string of which some characters are read already; the bytes of these come in front. -/
theorem scanString_agrees (decoded : List UInt8) {length : Nat} (represents : buffer.Represents (lexer.skip length)) :
    Agrees (buffer.scanString decoded) lexer (stringFrom decoded length (lexer.rest.drop length)) := by
  fun_induction Buffer.scanString decoded buffer generalizing length with
  | case1 decoded buffer next taken =>
    obtain ⟨empty,same,-⟩ := represents.next_none taken
    rw [Lexer.rest_skip] at empty
    rw [empty,stringFrom]
    exact ⟨rfl,same⟩
  | case2 decoded buffer c next taken newline =>
    obtain ⟨rest,first,-,moved,-⟩ := represents.next_at taken
    rw [first,stringFrom,if_pos newline]
    exact ⟨rfl,moved⟩
  | case3 decoded buffer c next taken newline quote =>
    obtain ⟨rest,first,-,moved,-⟩ := represents.next_at taken
    rw [first,stringFrom,if_neg newline,if_pos quote]
    exact ⟨rfl,moved⟩
  | case4 decoded buffer c next taken newline quote backslash cause last read =>
    obtain ⟨rest,first,inner,moved,-⟩ := represents.next_at taken
    obtain ⟨failed,stop⟩ := moved.scanEscape read
    rw [Lexer.rest_skip,inner] at failed stop
    rw [Lexer.skip_skip] at stop
    rw [first,stringFrom,if_neg newline,if_neg quote,if_pos backslash]
    dsimp only
    rw [← failed]
    exact ⟨rfl,stop⟩
  | case5 decoded buffer c next taken newline quote backslash value last read ih =>
    obtain ⟨rest,first,inner,moved,-⟩ := represents.next_at taken
    obtain ⟨done,stop⟩ := moved.scanEscape read
    rw [Lexer.rest_skip,inner] at done stop
    rw [Lexer.skip_skip] at stop
    have others := ih stop
    rw [← List.drop_drop,inner] at others
    rw [first,stringFrom,if_neg newline,if_neg quote,if_pos backslash]
    dsimp only
    rw [← done]
    exact others
  | case6 decoded buffer c next taken newline quote backslash ih =>
    obtain ⟨rest,first,inner,moved,-⟩ := represents.next_at taken
    have others := ih moved
    rw [inner] at others
    rw [first,stringFrom,if_neg newline,if_neg quote,if_neg backslash]
    exact others

/-- A name whose first character is read already. -/
theorem scanIdentifier_agrees (c : Char) (represents : buffer.Represents (lexer.skip 1)) :
    Agrees (buffer.scanIdentifier c) lexer (identifierLexeme c (lexer.rest.drop 1)) := by
  unfold scanIdentifier identifierLexeme
  split
  · split
    rename_i others last read
    obtain ⟨same,stop⟩ := represents.readWhile read
    rw [Lexer.rest_skip] at same
    subst same
    rw [skip_one_skip] at stop
    exact ⟨rfl,stop⟩
  · exact ⟨rfl,represents⟩

/-! ### Lexemes -/

/-- Every scanner starts where the lexeme does, with the spellings tried first; so a buffer scans the lexeme of its text. -/
theorem scanLexeme_agrees {c : Char} {rest : List Char} (represents : buffer.Represents lexer)
    (first : lexer.rest = c :: rest) : Agrees buffer.scanLexeme lexer (Lexeme.read c rest) := by
  unfold scanLexeme Lexeme.read
  rw [← first]
  split
  · rename_i kind last scanned
    obtain ⟨same,stop⟩ := represents.scanSpelling scanned
    obtain ⟨spelling,found,rfl⟩ := Option.map_eq_some_iff.mp same.symm
    rw [found] at stop ⊢
    exact ⟨rfl,stop⟩
  · rename_i last scanned
    obtain ⟨same,stop⟩ := represents.scanSpelling scanned
    have missing := Option.map_eq_none_iff.mp same.symm
    rw [missing] at stop ⊢
    split
    · rename_i next taken
      obtain ⟨empty,-,-⟩ := stop.next_none taken
      simp [first] at empty
    · rename_i d next taken
      obtain ⟨others,here,behind,moved,again⟩ := stop.next_at taken
      obtain ⟨rfl,rfl⟩ : c = d.char ∧ rest = others := by simpa [first] using here
      dsimp only
      split
      · rw [← behind]
        exact scanString_agrees [] moved
      · split
        · rw [← behind]
          exact scanZero_agrees moved
        · split
          · exact scanDecimal_agrees again
          · split
            · rw [← behind]
              exact scanCharacter_agrees moved
            · rw [← behind]
              exact scanIdentifier_agrees d.char moved

/-! ### Items -/

/-- A buffer gives the next item of the lexer that it represents and represents the rest of it: it skips the same gap, then scans
    the lexeme or finds the end. -/
theorem Represents.nextItem (represents : buffer.Represents lexer) :
    buffer.nextItem.1 = lexer.next.1 ∧ buffer.nextItem.2.Represents lexer.next.2 := by
  have fromHere : buffer.Represents (lexer.skip 0) := represents
  unfold Buffer.nextItem Lexer.next
  split
  · rename_i pos last skipped
    obtain ⟨unclosed,rfl,stop⟩ := fromHere.skipGap skipped
    have unclosed : (Gap.measure lexer.rest).unclosed := unclosed
    have ended : (lexer.skip (Gap.measure lexer.rest).length).skip (lexer.skip (Gap.measure lexer.rest).length).rest.length =
        lexer.skip lexer.rest.length := by
      rw [Lexer.skip_skip]
      exact Lexer.skip_to_end (by simp; omega)
    rw [if_pos unclosed,ended]
    exact ⟨rfl,stop⟩
  · rename_i later skipped
    obtain ⟨closed,there⟩ := fromHere.skipGap skipped
    have closed : (Gap.measure lexer.rest).unclosed = false := closed
    have there : later.Represents (lexer.skip (Gap.measure lexer.rest).length) := there
    rw [if_neg (by simp [closed])]
    generalize lexer.skip (Gap.measure lexer.rest).length = start at there ⊢
    split
    · rename_i c next taken
      obtain ⟨place,⟨rest,first⟩,moved⟩ := there.next_some taken
      obtain ⟨outcome,stop⟩ := scanLexeme_agrees (moved.back place first) first
      rw [first]
      dsimp only [Lexer.readLexeme]
      split
      · rename_i payload last scanned
        rw [scanned] at outcome stop
        rw [← outcome,← place]
        exact ⟨rfl,stop⟩
      · rename_i cause last scanned
        rw [scanned] at outcome stop
        rw [← outcome,← place]
        exact ⟨rfl,stop⟩
    · rename_i next taken
      obtain ⟨empty,same,ended⟩ := there.next_none taken
      have failure := same.failure
      rw [if_pos ended] at failure
      rw [empty,failure]
      cases next.failure with
      | none => exact ⟨rfl,same⟩
      | some message =>
        exact ⟨rfl,empty.symm.trans same.rest,same.pushed,same.place,same.ended,by simp [ended]⟩

end CFrontend.Buffer
