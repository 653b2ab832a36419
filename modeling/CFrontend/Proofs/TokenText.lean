import Mathlib.Data.List.TakeWhile
import CFrontend.Proofs.Concatenation
import CFrontend.Proofs.Outcome
import CFrontend.Proofs.Utf8

/-!
What the tokens of a source are shown as. No number of a source is a NaN, and the names in it consist of identifier characters
(`Payload.Genuine`), step by step for each kind of lexeme. So the text of a token is on one line, does not start with a blank, and starts
with a parenthesis only if it is this parenthesis (`Token.Legible`).
-/
namespace CFrontend

/-! ### Numbers -/
namespace Binary64

private theorem isNaN_zero : (⟨0⟩ : Binary64).isNaN = false := by decide

/-- Bit patterns up to that of infinity are numbers. -/
theorem isNaN_ofUnsignedBits {n : Nat} (small : n ≤ infinityBits) : (ofUnsignedBits n).isNaN = false := by
  have fraction : Nat.pow 2 52 = 4503599627370496 := rfl
  have sign : Nat.pow 2 63 = 9223372036854775808 := rfl
  rw [infinityBits,fraction] at small
  have bits : (ofUnsignedBits n).unsignedBits = n := by
    rw [unsignedBits,ofUnsignedBits,UInt64.toNat_ofNat',sign]
    omega
  unfold isNaN magnitude
  rw [bits,fraction]
  dsimp only
  split
  · rw [if_pos (by omega)]
    rfl
  · split <;> rfl

private theorem round_le (format : Format) (n d : Nat) : format.round n d ≤ format.infinity := by
  unfold Format.round
  split
  · exact Nat.zero_le _
  · exact Nat.min_le_right _ _

/-- Rounding a decimal gives at most infinity, which is a number. -/
theorem isNaN_ofDecimal {digits : Nat} {exponent : Int} {x : Binary64} (found : ofDecimal? digits exponent = some x) : x.isNaN = false := by
  simp only [ofDecimal?,Option.ite_none_left_eq_some,Option.some.injEq] at found
  obtain ⟨-,rfl⟩ := found
  refine isNaN_ofUnsignedBits ?_
  split <;> exact round_le double _ _

private theorem isNaN_ofSingleBits (pattern : Nat) : (ofSingleBits pattern).isNaN = false := by
  unfold ofSingleBits
  split
  · exact isNaN_ofUnsignedBits (Nat.le_refl _)
  · exact isNaN_ofUnsignedBits (round_le double _ _)

/-- A number stays one in single precision. -/
theorem isNaN_toSingle {x : Binary64} (number : x.isNaN = false) : x.toSingle.isNaN = false := by
  unfold toSingle
  split
  · exact isNaN_ofSingleBits _
  · exact number

end Binary64

/-! ### Lexemes -/

/-- What a lexeme gives: no NaN, and a name only from characters of names. -/
structure Payload.Genuine (payload : Payload) : Prop where
  number : payload.number.float.isNaN = false
  name : payload.kind = .identifier → ∃ text, (∀ c ∈ text, isIdentifierChar c) ∧ payload.literal = Text.encode text

/-- What a lexeme gives, if it gives anything, is genuine. -/
def Lexeme.Genuine (lexeme : Lexeme) : Prop := ∀ payload, lexeme.outcome = .ok payload → payload.Genuine

private theorem genuine_failure (cause : LexCause) (length : Nat) : (Lexeme.failure cause length).Genuine := by
  intro payload read
  simp [Lexeme.failure] at read

private theorem genuine_payload {payload : Payload} (own : payload.Genuine) (length : Nat) :
    (Lexeme.payload payload length).Genuine := by
  intro other read
  obtain rfl := Except.ok.inj read
  exact own

private theorem genuine_number {number : Number} (own : number.float.isNaN = false) (length : Nat) :
    (Lexeme.number number length).Genuine := by
  intro payload read
  obtain rfl := Except.ok.inj read
  exact ⟨own,by simp⟩

private theorem genuine_integer (type : NumberType) (value length : Nat) : (Lexeme.number (.integer type value) length).Genuine :=
  genuine_number Binary64.isNaN_zero length

/-- The suffix of an integer gives an integer, if it gives anything. -/
theorem genuine_suffix (value length : Nat) (rest : List Char) : (suffixLexeme value length rest).Genuine := by
  unfold suffixLexeme
  dsimp only
  split
  · exact genuine_failure _ _
  · split
    · exact genuine_failure _ _
    · exact genuine_integer _ _ _

private theorem genuine_radix (radix : Nat) (mark rest : List Char) : (radixLexeme radix mark rest).Genuine := by
  unfold radixLexeme
  dsimp only
  split
  · exact genuine_failure _ _
  · split
    · exact genuine_failure _ _
    · exact genuine_suffix _ _ _

private theorem genuine_floating {decimal : DecimalText} {value : Binary64} (found : decimal.value? = some value)
    (type : NumberType)
    (length : Nat) : (Lexeme.number (.floating type (if type = .float then value.toSingle else value)) length).Genuine := by
  have number := Binary64.isNaN_ofDecimal found
  refine genuine_number ?_ length
  unfold Number.floating
  dsimp only
  split
  · exact Binary64.isNaN_toSingle number
  · exact number

/-- A floating literal is rounded from a decimal, whatever its suffix. -/
theorem genuine_float (whole rest : List Char) : (floatLexeme whole rest).Genuine := by
  unfold floatLexeme
  dsimp only
  split
  · exact genuine_failure _ _
  · split
    · split
      · split
        · exact genuine_failure _ _
        · rename_i value found
          exact genuine_floating found .float _
      · split
        · split
          · exact genuine_failure _ _
          · rename_i value found
            exact genuine_floating found .double _
        · split
          · exact genuine_failure _ _
          · split
            · exact genuine_failure _ _
            · rename_i value found
              exact genuine_floating found .double _
    · split
      · exact genuine_failure _ _
      · rename_i value found
        exact genuine_floating found .double _

/-- A zero leads to an integer or to a floating literal. -/
theorem genuine_zero (rest : List Char) : (zeroLexeme rest).Genuine := by
  unfold zeroLexeme
  split
  · exact genuine_integer _ _ _
  · dsimp only
    split_ifs
    · exact genuine_radix _ _ _
    · exact genuine_radix _ _ _
    · exact genuine_radix _ _ _
    · exact genuine_suffix _ _ _
    · exact genuine_failure _ _
    · exact genuine_suffix _ _ _
    · exact genuine_float _ _
    · exact genuine_integer _ _ _

private theorem genuine_decimal (source : List Char) : (decimalLexeme source).Genuine := by
  unfold decimalLexeme
  dsimp only
  split_ifs
  · exact genuine_float _ _
  · exact genuine_failure _ _
  · exact genuine_suffix _ _ _

private theorem genuine_closeCharacter (value length : Nat) (rest : List Char) : (closeCharacter value length rest).Genuine := by
  unfold closeCharacter
  dsimp only
  split
  · exact genuine_failure _ _
  · split
    · exact genuine_integer _ _ _
    · exact genuine_failure _ _

private theorem genuine_character (rest : List Char) : (characterLexeme rest).Genuine := by
  unfold characterLexeme
  split
  · exact genuine_failure _ _
  · dsimp only
    split_ifs
    · exact genuine_failure _ _
    · split
      · exact genuine_failure _ _
      · exact genuine_closeCharacter _ _ _
    · exact genuine_closeCharacter _ _ _

/-- A string has no number and no name in it, from any of its characters on. -/
theorem genuine_string (decoded : List UInt8) (length : Nat) (rest : List Char) : (stringFrom decoded length rest).Genuine := by
  fun_induction stringFrom decoded length rest with
  | case1 | case2 | case4 => exact genuine_failure _ _
  | case3 => exact genuine_payload ⟨Binary64.isNaN_zero,by simp⟩ _
  | case5 decoded length rest escape value found newline quote ih => exact ih
  | case6 decoded length c rest newline quote backslash ih => exact ih

/-- A name has the characters that were read for it. -/
theorem genuine_identifier (first : Char) (rest : List Char) : (identifierLexeme first rest).Genuine := by
  unfold identifierLexeme
  split
  · rename_i own
    refine genuine_payload ⟨Binary64.isNaN_zero,fun _ => ⟨_,?_,rfl⟩⟩ _
    intro c member
    rcases List.mem_cons.mp member with rfl | later
    · exact own
    · exact List.mem_takeWhile_imp later
  · exact genuine_failure _ _

private theorem spelling_not_name : ∀ spelling ∈ Spelling.all, spelling.kind ≠ .identifier := by decide +kernel

/-- Whatever a lexeme gives is genuine. -/
theorem genuine_read (first : Char) (rest : List Char) : (Lexeme.read first rest).Genuine := by
  have longest := Spelling.longest?_isLongest (first :: rest)
  unfold Lexeme.read
  split
  · rename_i spelling found
    rw [found] at longest
    exact genuine_payload ⟨Binary64.isNaN_zero,fun name => absurd name (spelling_not_name spelling longest.1)⟩ _
  · split_ifs
    · exact genuine_string _ _ _
    · exact genuine_zero _
    · exact genuine_decimal _
    · exact genuine_character _
    · exact genuine_identifier _ _

/-! ### Sources -/

/-- Each token of a lexer comes of a lexeme. -/
theorem Lexer.genuine_all (lexer : Lexer) : ∀ token, .token token ∈ lexer.all.1 → token.toPayload.Genuine := by
  induction lexer using all_induction with
  | read lexer gap lexeme item given reads all later =>
    intro token member
    rw [all] at member
    rcases List.mem_cons.mp member with rfl | behind
    · obtain ⟨_,first,rest,_,_,read,_⟩ := next_token_iff.mp (Prod.ext given rfl)
      exact genuine_read first rest _ read
    · exact later token behind
  | ended lexer given all =>
    intro token member
    rw [all] at member
    simp at member

private theorem Item.mem_of_mem_tokens {items : List Item} {token : Token} (member : token ∈ (Item.tokens items).1) :
    .token token ∈ items := by
  induction items with
  | nil => simp [Item.tokens] at member
  | cons item items ih =>
    cases item with
    | token read =>
      rcases List.mem_cons.mp (by simpa [Item.tokens] using member) with rfl | later
      · simp
      · exact List.mem_cons_of_mem _ (ih later)
    | error found => simp [Item.tokens] at member
    | failure message => simp [Item.tokens] at member

/-- The tokens of a source are genuine. -/
theorem genuine_tokenize {chars : List Char} {token : Token} (member : token ∈ (tokenize chars).1) : token.toPayload.Genuine :=
  Lexer.genuine_all _ token (Item.mem_of_mem_tokens member)

/-! ### The texts of numbers -/

/-- A character that a number is written with. -/
def isFigure (c : Char) : Bool := c.isDigit || "+-.INaefn".toList.contains c

/-- A text of such characters. -/
def Figured (text : List Char) : Prop := text.all isFigure

instance (text : List Char) : Decidable (Figured text) := inferInstanceAs (Decidable (_ = true))

private theorem figured_toDigits (n : Nat) : Figured (Nat.toDigits 10 n) := by
  refine List.all_eq_true.mpr fun c member => ?_
  simp [isFigure,Nat.isDigit_of_mem_toDigits (by decide) (by decide) member]

private theorem figured_replicate (n : Nat) : Figured (List.replicate n '0') := by
  refine List.all_eq_true.mpr fun c member => ?_
  rw [List.eq_of_mem_replicate member]
  decide

private theorem figured_append {first second : List Char} : Figured (first ++ second) ↔ Figured first ∧ Figured second := by
  simp [Figured]

private theorem figured_cons {c : Char} {text : List Char} : Figured (c :: text) ↔ isFigure c ∧ Figured text := by
  simp [Figured]

theorem Figured.take {text : List Char} (figured : Figured text) (n : Nat) : Figured (text.take n) :=
  List.all_eq_true.mpr fun c member => List.all_eq_true.mp figured c (List.mem_of_mem_take member)

theorem Figured.drop {text : List Char} (figured : Figured text) (n : Nat) : Figured (text.drop n) :=
  List.all_eq_true.mpr fun c member => List.all_eq_true.mp figured c (List.mem_of_mem_drop member)

theorem Figured.without {text : List Char} (figured : Figured text) {c : Char} (other : isFigure c = false) : c ∉ text := by
  intro member
  have own := List.all_eq_true.mp figured c member
  simp [other] at own

namespace Binary64

private theorem figured_exponentText (exponent : Int) : Figured (exponentText exponent).toList := by
  unfold exponentText
  dsimp only
  rw [String.toList_append,figured_append,String.toList_ofList]
  constructor
  · split <;> decide
  · split
    · exact figured_cons.mpr ⟨rfl,figured_toDigits _⟩
    · exact figured_toDigits _

private theorem figured_positional {digits : List Char} (figured : Figured digits) (exponent : Int) :
    Figured (positional digits exponent).toList := by
  unfold positional
  split
  · rw [String.toList_ofList,figured_append]
    exact ⟨figured,figured_replicate _⟩
  · have padded := figured_append.mpr ⟨figured_replicate ((-exponent).toNat + 1 - digits.length),figured⟩
    rw [String.toList_ofList,figured_append,figured_cons]
    exact ⟨padded.take _,rfl,padded.drop _⟩

private theorem figured_scientific {digits : List Char} (figured : Figured digits) (exponent : Int) :
    Figured (scientific digits exponent).toList := by
  unfold scientific
  dsimp only
  rw [String.toList_append,String.toList_ofList,figured_append,figured_append]
  refine ⟨⟨figured.take _,?_⟩,figured_exponentText _⟩
  split
  · rfl
  · exact figured_cons.mpr ⟨rfl,figured.drop _⟩

private theorem Decimal.figured_text (decimal : Decimal) (layout : Option Layout) : Figured (decimal.text layout).toList := by
  unfold text
  dsimp only
  split
  · split
    · exact figured_scientific (figured_toDigits _) _
    · exact figured_positional (figured_toDigits _) _
  · exact figured_positional (figured_toDigits _) _

/-- Infinities and NaN are written with figures too. -/
theorem figured_text (x : Binary64) : Figured x.text.toList := by
  have sign : Figured (if x.isNegative then "-" else "").toList := by
    split <;> decide
  unfold text render
  split
  · decide
  · split <;> decide
  · dsimp only
    split
    · rw [String.toList_append,figured_append]
      exact ⟨sign,by decide⟩
    · rw [String.toList_append,figured_append]
      exact ⟨sign,Decimal.figured_text _ _⟩

end Binary64

/-- The value of a number is written with figures only, whatever its type. -/
theorem Number.figured_valueText (number : Number) : Figured number.valueText.toList := by
  unfold valueText
  split
  · exact Binary64.figured_text _
  · rw [Nat.toString_eq_repr,Nat.toList_repr]
    exact figured_toDigits _

/-! ### Legible texts -/

/-- A text on one line that does not start with a blank. -/
def OneLine (text : String) : Prop := '\n' ∉ text.toList ∧ text.toList.head? ≠ some ' '

instance (text : String) : Decidable (OneLine text) := inferInstanceAs (Decidable (_ ∧ _))

/-- What is shown of a token is a number, stands on one line, does not start with a blank, and as a leaf starts with a parenthesis only if
    it is this parenthesis. -/
structure Token.Legible (token : Token) : Prop where
  number : token.NoNaN
  line : OneLine token.text
  bracket : token.leafText.toList.head? = some '(' → token.leafText = "("

private theorem NumberType.oneLine_name (type : NumberType) : OneLine type.name ∧ type.name ≠ "" := by
  cases type <;> first | decide | exact (by decide : OneLine "Unknown" ∧ "Unknown" ≠ "")

/-- Every kind has a name on one line, and only the parenthesis starts with one. -/
theorem TokenKind.name_legible (kind : TokenKind) : OneLine kind.name ∧ (kind.name.toList.head? = some '(' → kind.name = "(") := by
  have spelled : ∀ spelling ∈ Spelling.all, OneLine (String.ofList spelling.text) ∧
      ((String.ofList spelling.text).toList.head? = some '(' → String.ofList spelling.text = "(") := by
    decide +kernel
  unfold name
  split
  · decide
  · decide
  · decide
  · decide
  · split
    · rename_i spelling found
      exact spelled spelling (List.mem_of_find?_eq_some found)
    · decide

private theorem newline_hexDigits (width n : Nat) : '\n' ∉ Text.hexDigits width n := by
  have digit : ∀ n : Fin 16, Nat.digitChar n ≠ '\n' := by decide
  induction width generalizing n with
  | zero => simp [Text.hexDigits]
  | succ width ih =>
    rw [Text.hexDigits,List.mem_append,List.mem_singleton]
    exact not_or.mpr ⟨ih _,(digit ⟨n % 16,Nat.mod_lt n (by decide)⟩).symm⟩

/-- A quoted line break is written as an escape. -/
theorem newline_quotedChar (c : Char) : '\n' ∉ Text.quotedChar '"' c := by
  unfold Text.quotedChar
  split
  · rename_i special
    rcases (by simpa using special : c = '"' ∨ c = '\\') with rfl | rfl <;> decide
  · split
    · rename_i printable
      rw [List.mem_singleton]
      rintro rfl
      revert printable
      decide
    · split
      iterate 7 decide
      split
      · simp [newline_hexDigits]
      · split <;> simp [newline_hexDigits]

private theorem newline_quotedChars (bytes : List UInt8) : '\n' ∉ Text.quotedChars bytes := by
  simp only [Text.quotedChars,List.mem_cons,List.mem_append,List.mem_flatMap,List.not_mem_nil,or_false,not_or]
  refine ⟨⟨by decide,?_⟩,by decide⟩
  rintro ⟨fragment,-,inside⟩
  cases fragment with
  | char c => exact newline_quotedChar c inside
  | stray byte =>
    simp [Text.quotedFragment,newline_hexDigits] at inside

/-- A name contains no line break, no blank and no parenthesis, because these are no identifier characters. -/
theorem legible_name {token : Token} (genuine : token.toPayload.Genuine) (kind : token.kind = .identifier) : token.Legible := by
  obtain ⟨name,own,literal⟩ := genuine.name kind
  have without {c : Char} (ascii : c.toNat < 0x80) (separator : isIdentifierChar c = false) : c ∉ token.text.toList := by
    rw [Token.text,kind,literal,Text.display,String.toList_ofList]
    intro member
    rw [own c (Text.mem_of_mem_decode_encode ascii member)] at separator
    cases separator
  refine ⟨genuine.number,⟨without (by decide) (by decide),fun blank => ?_⟩,fun bracket => ?_⟩
  · exact without (by decide) (by decide) (List.mem_of_head? blank)
  · have shown : token.leafText = token.text := by rw [Token.leafText,Token.text,kind]
    rw [shown] at bracket
    exact absurd (List.mem_of_head? bracket) (without (by decide) (by decide))

/-- A string starts with its quote. -/
theorem legible_string {token : Token} (genuine : token.toPayload.Genuine) (kind : token.kind = .string) : token.Legible := by
  refine ⟨genuine.number,?_,?_⟩
  · rw [Token.text,kind,OneLine,Text.quoteBytes,String.toList_ofList]
    exact ⟨newline_quotedChars _,by simp [Text.quotedChars]⟩
  · rw [Token.leafText,kind,Text.quoteBytes,String.toList_ofList]
    simp [Text.quotedChars]

/-- A number starts with its type, and as a leaf with a figure. -/
theorem legible_number {token : Token} (genuine : token.toPayload.Genuine) (kind : token.kind = .number) : token.Legible := by
  have value := token.number.figured_valueText
  obtain ⟨⟨line,start⟩,some⟩ := token.number.type.oneLine_name
  refine ⟨genuine.number,?_,?_⟩
  · rw [Token.text,kind,OneLine,Number.text]
    simp only [String.toList_append,List.mem_append,not_or]
    refine ⟨⟨⟨⟨line,by decide⟩,value.without rfl⟩,by decide⟩,?_⟩
    obtain ⟨first,rest,same⟩ := List.exists_cons_of_ne_nil (String.toList_eq_nil_iff.not.mpr some)
    simpa [same] using start
  · rw [Token.leafText,kind]
    intro bracket
    exact absurd (List.mem_of_head? bracket) (value.without rfl)

/-- What the lexer reads is legible. -/
theorem legible_of_genuine {token : Token} (genuine : token.toPayload.Genuine) : token.Legible := by
  by_cases name : token.kind = .identifier
  · exact legible_name genuine name
  · by_cases string : token.kind = .string
    · exact legible_string genuine string
    · by_cases number : token.kind = .number
      · exact legible_number genuine number
      · have shown : token.text = token.kind.name := by
          unfold Token.text
          split <;> simp_all
        have shown' : token.leafText = token.kind.name := by
          unfold Token.leafText
          split <;> simp_all
        obtain ⟨line,bracket⟩ := token.kind.name_legible
        exact ⟨genuine.number,shown ▸ line,shown' ▸ bracket⟩

/-- The tokens of a source are legible. -/
theorem legible_tokenize {chars : List Char} {token : Token} (member : token ∈ (tokenize chars).1) : token.Legible :=
  legible_of_genuine (genuine_tokenize member)

end CFrontend
