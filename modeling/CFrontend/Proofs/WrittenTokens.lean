import Mathlib.Data.List.TakeWhile
import CFrontend.Proofs.Concatenation

/-!
Tokens are read back from what is written for them. A word is a fixed spelling, a name, an integer or a byte text; each of them is
written so that the whole text is one lexeme (`Word.isLexeme`). For an integer this goes back to its digits (`toDigits_spec`), for a byte
text to the escape that stands for a character (`quotedChar_cases`). A blank ends a lexeme as the end of the text does, so the
words of a text are read one by one (`tokenize_written`).
-/
namespace CFrontend

/-! ### Digits -/

private theorem digitValue_digitChar {n : Nat} (small : n < 16) : digitValue? (Nat.digitChar n) = some n := by
  have all : ∀ n : Fin 16, digitValue? (Nat.digitChar n) = some n.val := by decide
  exact all ⟨n,small⟩

private theorem digitsValue_concat (radix : Nat) (digits : List Char) (c : Char) :
    digitsValue radix (digits ++ [c]) = digitsValue radix digits * radix + (digitValue? c).getD 0 := by
  rw [digitsValue,List.foldl_append]
  rfl

private theorem length_hexDigits (width n : Nat) : (Text.hexDigits width n).length = width := by
  induction width generalizing n with
  | zero => rfl
  | succ width ih => rw [Text.hexDigits,List.length_append,ih,List.length_singleton]

private theorem hexDigits_spec {width n : Nat} (small : n < Nat.pow 16 width) :
    (Text.hexDigits width n).all (isDigitBelow 16) ∧ digitsValue 16 (Text.hexDigits width n) = n := by
  induction width generalizing n with
  | zero => exact ⟨rfl,(Nat.lt_one_iff.mp small).symm⟩
  | succ width ih =>
    have last := digitValue_digitChar (Nat.mod_lt n (by decide : 16 > 0))
    obtain ⟨digits,value⟩ := ih (n := n / 16) (Nat.div_lt_of_lt_mul (by rw [Nat.mul_comm]; exact small))
    constructor
    · have bound := Nat.mod_lt n (by decide : 16 > 0)
      simp [Text.hexDigits,digits,isDigitBelow,last,bound]
    · rw [Text.hexDigits,digitsValue_concat,value,last,Option.getD_some]
      exact Nat.div_add_mod' n 16

/-- A numeral starts with a digit, with zero only if it is zero, and denotes its number. -/
theorem toDigits_spec (n : Nat) : (∀ c ∈ Nat.toDigits 10 n, isDecimalDigit c) ∧ digitsValue 10 (Nat.toDigits 10 n) = n ∧
    (0 < n → ∃ first rest, Nat.toDigits 10 n = first :: rest ∧ first ≠ '0') := by
  induction n using Nat.strongRecOn with
  | ind n ih =>
    by_cases small : n < 10
    · rw [Nat.toDigits_of_lt_base small]
      have all : ∀ n : Fin 10, isDecimalDigit (Nat.digitChar n) ∧ (0 < n.val → Nat.digitChar n ≠ '0') := by decide
      obtain ⟨digit,positive⟩ := all ⟨n,small⟩
      refine ⟨by simpa using digit,?_,fun some => ⟨_,[],rfl,positive some⟩⟩
      rw [← List.nil_append [Nat.digitChar n],digitsValue_concat,digitValue_digitChar (by omega)]
      simp [digitsValue]
    · have large : 10 ≤ n := Nat.le_of_not_lt small
      obtain ⟨digits,value,lead⟩ := ih (n / 10) (by omega)
      obtain ⟨first,rest,start,other⟩ := lead (by omega)
      have all : ∀ n : Fin 10, isDecimalDigit (Nat.digitChar n) := by decide
      have last := all ⟨n % 10,Nat.mod_lt n (by decide)⟩
      rw [Nat.toDigits_of_base_le (by decide) large]
      refine ⟨?_,?_,fun _ => ⟨first,rest ++ [Nat.digitChar (n % 10)],by rw [start]; rfl,other⟩⟩
      · simpa using fun c member => member.elim (digits c) fun same => same ▸ last
      · rw [digitsValue_concat,value,digitValue_digitChar (by omega)]
        exact Nat.div_add_mod' n 10

/-! ### Quoted text -/

private theorem escapeBytes_toNat (c : Char) : escapeBytes c.toNat = String.utf8EncodeChar c := by
  have valid : c.toNat.isValidChar := c.valid
  have found : Text.scalar? c.toNat = some c := by
    rw [Text.scalar?,if_pos valid,Char.ofNat_toNat]
  simp [escapeBytes,found,Text.encode]

private theorem numeric_hexDigits (mark : Char) (width : Nat) {n : Nat} (small : n < Nat.pow 16 width) (tail : List Char) :
    Escape.numeric [mark] width 16 (Text.hexDigits width n ++ tail) = ⟨.ok n,(mark :: Text.hexDigits width n).length⟩ := by
  have length := length_hexDigits width n
  obtain ⟨digits,value⟩ := hexDigits_spec small
  have taken : (Text.hexDigits width n ++ tail).take width = Text.hexDigits width n := List.take_left' length
  have whole : (mark :: Text.hexDigits width n).length = [mark].length + width := by
    rw [List.length_cons,length,List.length_singleton,Nat.add_comm]
  unfold Escape.numeric
  dsimp only
  rw [taken,whole,length,if_neg (Nat.lt_irrefl width),if_pos digits,value]

/-- A character in double quotes stands for itself, or an escape stands for it. -/
theorem quotedChar_cases (c : Char) :
    (Text.quotedChar '"' c = [c] ∧ c ≠ '\n' ∧ c ≠ '"' ∧ c ≠ '\\') ∨
    ∃ text, Text.quotedChar '"' c = '\\' :: text ∧ ∀ tail, Escape.read (text ++ tail) = ⟨.ok c.toNat,text.length⟩ := by
  unfold Text.quotedChar
  split
  · rename_i special
    refine .inr ⟨[c],rfl,fun tail => ?_⟩
    rcases (by simpa using special : c = '"' ∨ c = '\\') with rfl | rfl <;> rfl
  · rename_i plain
    obtain ⟨quote,backslash⟩ : c ≠ '"' ∧ c ≠ '\\' := by simpa using plain
    split
    · rename_i printable
      refine .inl ⟨rfl,?_,quote,backslash⟩
      rintro rfl
      revert printable
      decide
    · refine .inr ?_
      have range : c.toNat < 0x110000 := by
        have valid : c.toNat.isValidChar := c.valid
        unfold Nat.isValidChar at valid
        omega
      split
      · rename_i code
        exact ⟨['a'],rfl,fun tail => by rw [code]; rfl⟩
      · rename_i code
        exact ⟨['b'],rfl,fun tail => by rw [code]; rfl⟩
      · rename_i code
        exact ⟨['t'],rfl,fun tail => by rw [code]; rfl⟩
      · rename_i code
        exact ⟨['n'],rfl,fun tail => by rw [code]; rfl⟩
      · rename_i code
        exact ⟨['v'],rfl,fun tail => by rw [code]; rfl⟩
      · rename_i code
        exact ⟨['f'],rfl,fun tail => by rw [code]; rfl⟩
      · rename_i code
        exact ⟨['r'],rfl,fun tail => by rw [code]; rfl⟩
      · split
        · rename_i control
          have small : c.toNat < 0x100 := by
            simp only [Bool.or_eq_true,decide_eq_true_eq] at control
            omega
          exact ⟨'x' :: Text.hexDigits 2 c.toNat,rfl,numeric_hexDigits 'x' 2 small⟩
        · split
          · rename_i small
            exact ⟨'u' :: Text.hexDigits 4 c.toNat,rfl,numeric_hexDigits 'u' 4 small⟩
          · have small : c.toNat < Nat.pow 16 8 := Nat.lt_trans range (by decide)
            exact ⟨'U' :: Text.hexDigits 8 c.toNat,rfl,numeric_hexDigits 'U' 8 small⟩

private theorem stringFrom_quotedChar (c : Char) (decoded : List UInt8) (length : Nat) (tail : List Char) :
    stringFrom decoded length (Text.quotedChar '"' c ++ tail) =
      stringFrom ((String.utf8EncodeChar c).reverse ++ decoded) (length + (Text.quotedChar '"' c).length) tail := by
  rcases quotedChar_cases c with ⟨written,newline,quote,backslash⟩ | ⟨text,written,read⟩
  · rw [written,List.singleton_append,stringFrom,if_neg newline,if_neg quote,if_neg backslash]
    simp [Text.encode]
  · rw [written,List.cons_append,stringFrom,if_neg (by decide),if_neg (by decide),if_pos rfl]
    simp only [read,escapeBytes_toNat,List.drop_left,List.length_cons]
    rw [Nat.add_assoc,Nat.add_comm 1]

private theorem stringFrom_quoted {bytes : List UInt8} (valid : Text.isWellFormed bytes) (decoded : List UInt8) (length : Nat) :
    stringFrom decoded length ((Text.fragments bytes).flatMap (Text.quotedFragment '"') ++ ['"']) =
      .payload { kind := .string,literal := decoded.reverse ++ bytes }
        (length + ((Text.fragments bytes).flatMap (Text.quotedFragment '"')).length + 1) := by
  induction bytes using Text.fragments_induction generalizing decoded length with
  | nil => simp [Text.fragments,stringFrom]
  | char c rest found ih =>
    rw [Text.isWellFormed,Text.fragments_of_leading found] at valid
    have later := ih (by simpa [Text.isWellFormed] using valid)
    rw [Text.fragments_of_leading found,List.flatMap_cons,Text.quotedFragment,List.append_assoc,stringFrom_quotedChar,later]
    simp [Nat.add_assoc]
  | stray byte rest found ih =>
    rw [Text.isWellFormed,Text.fragments_of_stray found] at valid
    simp at valid

/-! ### Words -/

/-- The narrowest of the signed integer types that holds a value, or the widest unsigned one. -/
def literalType (value : Nat) : NumberType :=
  if value < Nat.pow 2 31 then .int
  else if value < Nat.pow 2 63 then .long
  else if value < Nat.pow 2 127 then .longLong
  else .unsignedLongLong

/-- The text is a run of identifier characters that does not start with a digit and is no fixed spelling. -/
structure IsName (text : List Char) : Prop where
  nonempty : text ≠ []
  chars : text.all isIdentifierChar
  start : text.head?.all fun c => !isDecimalDigit c
  unlisted : Spelling.lookup text = none

/-- What is written as one token. -/
inductive Word where
  | fixed (spelling : Spelling) (listed : spelling ∈ Spelling.all)
  | name (text : List Char) (proper : IsName text)
  | integer (value : Nat) (small : value < integerBound)
  | string (bytes : List UInt8) (valid : Text.isWellFormed bytes)

namespace Word

/-- How a word is written. -/
def text : Word → List Char
  | fixed spelling _ => spelling.text
  | name text _ => text
  | integer value _ => (toString value).toList
  | string bytes _ => Text.quotedChars bytes

/-- What the token of a word carries. -/
def payload : Word → Payload
  | fixed spelling _ => { kind := spelling.kind }
  | name text _ => { kind := .identifier,literal := Text.encode text }
  | integer value _ => { kind := .number,number := .integer (literalType value) value }
  | string bytes _ => { kind := .string,literal := bytes }

end Word

/-- The text is one lexeme with a payload, and no gap stands in front of it. -/
structure IsLexeme (text : List Char) (payload : Payload) : Prop where
  tight : Gap.measure text = ⟨0,false⟩
  read : ∃ first rest, text = first :: rest ∧ Lexeme.read first rest = .payload payload text.length

theorem ne_of_class {p : Char → Bool} {c d : Char} (own : p c) (foreign : p d = false) : c ≠ d := by
  rintro rfl
  simp [own] at foreign

theorem solid_of_class {p : Char → Bool} {c : Char} (own : p c) (blanks : isBlank c → p c = false) : isBlank c = false := by
  rw [Bool.eq_false_iff]
  intro blank
  exact absurd (blanks blank) (by simp [own])

theorem measure_of_head {first : Char} (solid : isBlank first = false) (plain : first ≠ '/') (rest : List Char) :
    Gap.measure (first :: rest) = ⟨0,false⟩ := by
  rw [Gap.measure,Gap.between_cons 0 (by simp [plain.symm]) (by simp [plain.symm]),solid]
  rfl

private theorem longest?_eq_none {source : List Char} (absent : ∀ spelling ∈ Spelling.all, ¬ spelling.isAt source) :
    Spelling.longest? source = none := by
  have nothing : Spelling.IsLongest source Spelling.all none := absent
  exact (Spelling.longest?_isLongest source).unique nothing

private theorem heads_of_spellings :
    ∀ spelling ∈ Spelling.all, spelling.text.head?.any (fun c => isDecimalDigit c || c = '"') = false := by
  decide +kernel

theorem longest?_of_head {first : Char} (other : isDecimalDigit first ∨ first = '"') (rest : List Char) :
    Spelling.longest? (first :: rest) = none := by
  refine longest?_eq_none fun spelling member here => ?_
  obtain ⟨start,-⟩ := Spelling.isAt_iff.mp here
  have head := heads_of_spellings spelling member
  cases text : spelling.text with
  | nil => exact Spelling.texts_distinct.2 spelling member text
  | cons c others =>
    rw [text] at start head
    obtain ⟨rfl,-⟩ := List.cons_prefix_cons.mp start
    simp only [List.head?_cons,Option.any_some,Bool.or_eq_false_iff,decide_eq_false_iff_not] at head
    rcases other with digit | quote
    · simp [digit] at head
    · exact head.2 quote

private theorem fixed_isLexeme {spelling : Spelling} (listed : spelling ∈ Spelling.all) :
    IsLexeme spelling.text { kind := spelling.kind } := by
  have gaps : ∀ spelling ∈ Spelling.all, Gap.measure spelling.text = ⟨0,false⟩ := by
    decide +kernel
  have here : spelling.isAt spelling.text := by
    rw [Spelling.isAt_iff]
    simp
  have longest : Spelling.longest? spelling.text = some spelling := by
    refine (Spelling.longest?_isLongest _).unique ⟨listed,here,fun other member start => ?_⟩
    exact (Spelling.isAt_iff.mp start).1.length_le
  refine ⟨gaps spelling listed,?_⟩
  cases text : spelling.text with
  | nil => exact absurd text (Spelling.texts_distinct.2 spelling listed)
  | cons first rest =>
    rw [text] at longest
    exact ⟨first,rest,rfl,by rw [Lexeme.read,longest]; simp only [text]⟩

/-- No fixed spelling stands at the start of a name: a sign has a character that no identifier has, and a word would be the whole
    name. -/
theorem longest?_of_name {text : List Char} (proper : IsName text) : Spelling.longest? text = none := by
  have signs : ∀ spelling ∈ Spelling.all, spelling.isWord || spelling.text.any fun c => !isIdentifierChar c := by
    decide +kernel
  obtain ⟨-,run,-,unlisted⟩ := proper
  have chars : ∀ c ∈ text, isIdentifierChar c := List.all_eq_true.mp run
  refine longest?_eq_none fun spelling member here => ?_
  obtain ⟨⟨others,rfl⟩,ends⟩ := Spelling.isAt_iff.mp here
  cases word : spelling.isWord with
  | false =>
    have foreign := signs spelling member
    rw [word,Bool.false_or,List.any_eq_true] at foreign
    obtain ⟨c,inside,strange⟩ := foreign
    simp [chars c (List.mem_append_left others inside)] at strange
  | true =>
    cases others with
    | nil =>
      rw [List.append_nil,Spelling.lookup,Option.map_eq_none_iff,List.find?_eq_none] at unlisted
      exact unlisted spelling member (beq_self_eq_true _)
    | cons c others =>
      refine ends ⟨word,?_⟩
      rw [List.drop_left]
      exact chars c (by simp)

private theorem name_isLexeme {text : List Char} (proper : IsName text) :
    IsLexeme text { kind := .identifier,literal := Text.encode text } := by
  have unspelled := longest?_of_name proper
  obtain ⟨nonempty,run,start,-⟩ := proper
  cases text with
  | nil => exact absurd rfl nonempty
  | cons first rest =>
    obtain ⟨own,others⟩ : isIdentifierChar first ∧ ∀ c ∈ rest, isIdentifierChar c := by simpa using run
    have digit : isDecimalDigit first = false := by simpa using start
    have zero : first ≠ '0' := by
      rintro rfl
      exact absurd digit (by decide)
    constructor
    · have solid := solid_of_class own fun blank => (blank_stops blank).1
      exact measure_of_head solid (ne_of_class own (by decide)) rest
    · refine ⟨first,rest,rfl,?_⟩
      have all : rest.takeWhile isIdentifierChar = rest := List.takeWhile_eq_self_iff.mpr others
      rw [read_unspelled unspelled,if_neg (ne_of_class own (by decide)),if_neg zero,if_neg (by simp [digit]),
        if_neg (ne_of_class own (by decide)),identifierLexeme,if_pos own]
      dsimp only
      rw [all]

private theorem narrowestType_plain (value : Nat) : narrowestType value 32 true = literalType value := by
  have widths : [32,64,128].filter (fun width : Nat => decide ((32 : Int) ≤ width)) = [32,64,128] := by decide
  unfold narrowestType literalType
  dsimp only
  rw [widths]
  simp only [List.find?_cons,List.find?_nil,fits,if_true,Nat.add_one_sub_one]
  by_cases int : value < Nat.pow 2 31
  · simp only [int,decide_true,if_true]
    rfl
  · by_cases long : value < Nat.pow 2 63
    · simp only [int,long,decide_true,decide_false,if_true,if_false]
      rfl
    · by_cases longest : value < Nat.pow 2 127
      · simp only [int,long,longest,decide_true,decide_false,if_true,if_false]
        rfl
      · simp only [int,long,longest,decide_false,if_false]

private theorem suffixLexeme_nil (value length : Nat) :
    suffixLexeme value length [] = .number (.integer (literalType value) value) length := by
  rw [← narrowestType_plain]
  rfl

private theorem integer_isLexeme {value : Nat} (small : value < integerBound) :
    IsLexeme (toString value).toList { kind := .number,number := .integer (literalType value) value } := by
  obtain ⟨digits,denotes,lead⟩ := toDigits_spec value
  have text : (toString value).toList = Nat.toDigits 10 value := Nat.toList_repr
  rw [text]
  cases value with
  | zero =>
    refine ⟨by decide,'0',[],rfl,?_⟩
    rw [read_unspelled (longest?_of_head (.inl (by decide)) [])]
    rfl
  | succ n =>
    obtain ⟨first,rest,start,other⟩ := lead (Nat.succ_pos n)
    rw [start] at digits denotes ⊢
    have digit := digits first List.mem_cons_self
    constructor
    · have solid := solid_of_class digit fun blank => (blank_stops blank).2.2.2.1
      exact measure_of_head solid (ne_of_class digit (by decide)) rest
    · refine ⟨first,rest,rfl,?_⟩
      have all : (first :: rest).takeWhile isDecimalDigit = first :: rest := List.takeWhile_eq_self_iff.mpr digits
      rw [read_unspelled (longest?_of_head (.inl digit) rest),if_neg (ne_of_class digit (by decide)),if_neg other,if_pos digit]
      rw [decimalLexeme,all,List.drop_length,denotes,if_neg (by decide),if_neg (Nat.not_le_of_lt small),suffixLexeme_nil]
      rfl

private theorem string_isLexeme {bytes : List UInt8} (valid : Text.isWellFormed bytes) :
    IsLexeme (Text.quotedChars bytes) { kind := .string,literal := bytes } := by
  constructor
  · exact measure_of_head (by decide) (by decide) _
  · refine ⟨'"',(Text.fragments bytes).flatMap (Text.quotedFragment '"') ++ ['"'],rfl,?_⟩
    rw [read_unspelled (longest?_of_head (.inr rfl) _),if_pos rfl,stringLexeme,stringFrom_quoted valid]
    simp [Text.quotedChars,Nat.add_comm]

/-- Every word is a lexeme of its own that gives its payload. -/
theorem Word.isLexeme (word : Word) : IsLexeme word.text word.payload := by
  cases word with
  | fixed spelling listed => exact fixed_isLexeme listed
  | name text proper => exact name_isLexeme proper
  | integer value small => exact integer_isLexeme small
  | string bytes valid => exact string_isLexeme valid

/-! ### Texts of words -/

theorem IsLexeme.next {text : List Char} {payload : Payload} (lexeme : IsLexeme text payload) (pos : Position) :
    (Lexer.mk text pos none).next = (some (.token { toPayload := payload,pos := pos }),⟨[],pos.advance text,none⟩) := by
  obtain ⟨tight,first,rest,rfl,read⟩ := lexeme
  refine Lexer.next_token_iff.mpr ⟨0,first,rest,tight,rfl,by rw [read]; rfl,rfl,?_⟩
  rw [read]
  simp [Lexer.skip,Lexeme.payload,Position.advance]

/-- A lexer reads one token for each word of a text of words. -/
theorem all_words (words : List Word) (pos : Position) :
    ∃ tokens : List Token, (Lexer.mk ([' '].intercalate (words.map Word.text)) pos none).all.1 = tokens.map .token ∧
      tokens.map (·.toPayload) = words.map Word.payload := by
  induction words generalizing pos with
  | nil => exact ⟨[],rfl,rfl⟩
  | cons word words ih =>
    have step := word.isLexeme.next pos
    cases words with
    | nil =>
      refine ⟨[{ toPayload := word.payload,pos := pos }],?_,rfl⟩
      rw [List.map_singleton,List.intercalate_singleton,Lexer.all_items,step]
      rfl
    | cons other words =>
      obtain ⟨tokens,later,payloads⟩ := ih ((pos.advance word.text).advance [' '])
      refine ⟨{ toPayload := word.payload,pos := pos } :: tokens,?_,by simp [payloads]⟩
      have text : [' '].intercalate ((word :: other :: words).map Word.text) =
          word.text ++ ' ' :: [' '].intercalate ((other :: words).map Word.text) := by
        rw [List.map_cons,List.map_cons,List.intercalate_cons_cons,List.append_assoc,List.singleton_append]
      rw [text]
      generalize [' '].intercalate ((other :: words).map Word.text) = written at later
      have more : (Lexer.mk (word.text ++ ' ' :: written) pos none).next =
          (some (.token { toPayload := word.payload,pos := pos }),⟨' ' :: written,pos.advance word.text,none⟩) :=
        Lexer.next_followed step (by decide) written
      have space : GapText [' '] := .blank (by decide) .empty
      have rest : (Lexer.mk (' ' :: written) (pos.advance word.text) none).all.1 = tokens.map .token :=
        (Lexer.all_gap space written _).trans later
      rw [Lexer.all_items,more]
      simp only [Option.elim_some,rest,List.map_cons]

private theorem Item.tokens_of_tokens (tokens : List Token) : Item.tokens (tokens.map .token) = (tokens,none) := by
  induction tokens with
  | nil => rfl
  | cons token tokens ih => rw [List.map_cons,Item.tokens,ih]

/-- Words with single blanks between them are read back: there is a token for each of them, in their order, with what the word
    stands for, and no error. -/
theorem tokenize_written (words : List Word) :
    ∃ tokens, tokenize ([' '].intercalate (words.map Word.text)) = (tokens,none) ∧
      tokens.map (·.toPayload) = words.map Word.payload := by
  obtain ⟨tokens,all,payloads⟩ := all_words words .origin
  refine ⟨tokens,?_,payloads⟩
  exact (congrArg Item.tokens all).trans (Item.tokens_of_tokens tokens)

example : [' '].intercalate ([Word.name ['d','o','e'] ⟨by decide +kernel,by decide +kernel,by decide +kernel,by decide +kernel⟩,
      .integer 2147483648 (by decide +kernel),.string [0x01,0x22,0xc3,0xa9] (by decide +kernel)].map Word.text) =
    "doe 2147483648 \"\\x01\\\"é\"".toList := by
  decide +kernel

end CFrontend
