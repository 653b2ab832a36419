import CFrontend.Proofs.LexerProgress

/-!
Where lexemes end. A blank ends every lexeme as the end of the text does: what is read of a text does not change when a blank and
anything else are put behind it, and lies inside the text (`Contained`). Numbers, names and fixed spellings have this
property whatever comes of them; a quotation has it once it is closed. So it holds of every lexeme that is no error
(`contained_read`).
-/
namespace CFrontend

/-- Reading a text goes the same way with a blank and anything else behind the text, and stays inside the text, of which some
    characters are behind. -/
structure Contained (read : List Char → Lexeme) (behind : Nat) (rest : List Char) : Prop where
  same : ∀ c more, isBlank c → read (rest ++ c :: more) = read rest
  inside : (read rest).length ≤ behind + rest.length

/-! ### Blanks -/

theorem blank_cases {c : Char} (blank : isBlank c) : c = ' ' ∨ c = '\t' ∨ c = '\r' ∨ c = '\n' := by
  simpa [isBlank,or_assoc] using blank

/-- A blank belongs to no class of characters that a lexeme goes on with. -/
theorem blank_stops {c : Char} (blank : isBlank c) : isIdentifierChar c = false ∧ isSuffixLetter c = false ∧
    Text.isLetter c = false ∧ isDecimalDigit c = false ∧ ∀ radix, isDigitBelow radix c = false := by
  rcases blank_cases blank with rfl | rfl | rfl | rfl
  · exact ⟨by decide,by decide,by decide,by decide,fun _ => rfl⟩
  · exact ⟨by decide,by decide,by decide,by decide,fun _ => rfl⟩
  · exact ⟨by decide,by decide,by decide,by decide,fun _ => rfl⟩
  · exact ⟨by decide,by decide,by decide,by decide,fun _ => rfl⟩

section Stop

variable {p : Char → Bool} {c : Char} (stops : p c = false) (rest more : List Char)

include stops

/-- A run of characters ends at a character that does not belong to it, whatever stands behind. -/
theorem takeWhile_append_stop : (rest ++ c :: more).takeWhile p = rest.takeWhile p := by
  induction rest with
  | nil => simp [stops]
  | cons d rest ih => cases holds : p d <;> simp [holds,ih]

private theorem head?_filter_append_stop : (rest ++ c :: more).head?.filter p = rest.head?.filter p := by
  cases rest with
  | nil => simp [Option.filter,stops]
  | cons d rest => rfl

private theorem head?_any_append_stop : (rest ++ c :: more).head?.any p = rest.head?.any p := by
  cases rest with
  | nil => simp [stops]
  | cons d rest => rfl

end Stop

private theorem drop_takeWhile_append (p : Char → Bool) (rest more : List Char) :
    (rest ++ more).drop (rest.takeWhile p).length = rest.drop (rest.takeWhile p).length ++ more :=
  List.drop_append_of_le_length (List.takeWhile_sublist p).length_le

theorem lt_length_of_head? {rest : List Char} {count : Nat} {c : Char} (found : (rest.drop count).head? = some c) :
    count < rest.length := by
  rw [List.head?_drop] at found
  exact (List.getElem?_eq_some_iff.mp found).1

/-! ### Numbers -/

/-- A blank ends a suffix, behind its letters or behind the letter that does not belong to it. -/
theorem contained_suffixLexeme (value length : Nat) (rest : List Char) : Contained (suffixLexeme value length) length rest := by
  constructor
  · intro c more blank
    obtain ⟨-,suffix,letter,-⟩ := blank_stops blank
    rw [Buffer.suffixLexeme_eq,Buffer.suffixLexeme_eq,takeWhile_append_stop suffix,drop_takeWhile_append,
      head?_filter_append_stop letter]
  · have letters := (List.takeWhile_sublist (l := rest) isSuffixLetter).length_le
    rw [Buffer.suffixLexeme_eq]
    cases found : (rest.drop (rest.takeWhile isSuffixLetter).length).head?.filter Text.isLetter with
    | none => exact Nat.add_le_add_left letters length
    | some stray =>
      have more := lt_length_of_head? (Option.filter_eq_some_iff.mp found).1
      dsimp only [Option.elim]
      omega

/-- A blank ends the digits behind a radix mark or the suffix that follows them. -/
theorem contained_radixLexeme (radix : Nat) (mark rest : List Char) : Contained (radixLexeme radix mark) mark.length rest := by
  have digits := (List.takeWhile_sublist (l := rest) (isDigitBelow radix)).length_le
  constructor
  · intro c more blank
    obtain ⟨-,-,-,-,digit⟩ := blank_stops blank
    unfold radixLexeme
    dsimp only
    rw [takeWhile_append_stop (digit radix),drop_takeWhile_append,(contained_suffixLexeme _ _ _).same c more blank]
  · unfold radixLexeme
    dsimp only
    split
    · exact Nat.add_le_add_left digits _
    · split
      · exact Nat.add_le_add_left digits _
      · refine Nat.le_trans (contained_suffixLexeme _ _ _).inside ?_
        rw [List.length_drop]
        omega

/-- Whether a number goes on as a floating literal does not depend on anything behind a blank. -/
theorem floatFollows_blank {c : Char} (blank : isBlank c) (rest more : List Char) :
    floatFollows (rest ++ c :: more) = floatFollows rest := by
  obtain ⟨-,-,-,digit,-⟩ := blank_stops blank
  cases rest with
  | nil =>
    rw [List.nil_append,Buffer.floatFollows_cons]
    rcases blank_cases blank with rfl | rfl | rfl | rfl <;> rfl
  | cons d rest =>
    have sign : (isDecimalDigit c || c = '+' || c = '-') = false := by
      rcases blank_cases blank with rfl | rfl | rfl | rfl <;> rfl
    rw [List.cons_append,Buffer.floatFollows_cons,Buffer.floatFollows_cons,head?_any_append_stop digit,
      head?_any_append_stop sign]

private theorem signedDigits_blank {c : Char} (blank : isBlank c) (rest more : List Char) :
    DecimalText.signedDigits (rest ++ c :: more) = DecimalText.signedDigits rest := by
  obtain ⟨-,-,-,digit,-⟩ := blank_stops blank
  cases rest with
  | nil => rcases blank_cases blank with rfl | rfl | rfl | rfl <;> rfl
  | cons d rest =>
    by_cases plus : d = '+'
    · simp [DecimalText.signedDigits,plus,takeWhile_append_stop digit]
    · by_cases minus : d = '-'
      · simp [DecimalText.signedDigits,minus,takeWhile_append_stop digit]
      · have unsigned (text : List Char) : DecimalText.signedDigits (d :: text) = ([],(d :: text).takeWhile isDecimalDigit) := by
          simp [DecimalText.signedDigits,plus,minus]
        rw [List.cons_append,unsigned,unsigned,← List.cons_append,takeWhile_append_stop digit]

private theorem length_signedDigits_le (rest : List Char) :
    (DecimalText.signedDigits rest).1.length + (DecimalText.signedDigits rest).2.length ≤ rest.length := by
  have digits (text : List Char) := (List.takeWhile_sublist (l := text) isDecimalDigit).length_le
  unfold DecimalText.signedDigits
  split
  · rename_i text
    exact Nat.le_trans (Nat.add_le_add_left (digits text) 1) (Nat.le_of_eq (Nat.add_comm _ _))
  · rename_i text
    exact Nat.le_trans (Nat.add_le_add_left (digits text) 1) (Nat.le_of_eq (Nat.add_comm _ _))
  · simpa using digits rest

private theorem exponentAt_blank {c : Char} (blank : isBlank c) (rest more : List Char) :
    Buffer.exponentAt (rest ++ c :: more) = Buffer.exponentAt rest := by
  cases rest with
  | nil => rcases blank_cases blank with rfl | rfl | rfl | rfl <;> rfl
  | cons d rest =>
    by_cases mark : d = 'e' ∨ d = 'E'
    · rcases mark with rfl | rfl <;> simp [Buffer.exponentAt,signedDigits_blank blank]
    · rw [not_or] at mark
      simp [Buffer.exponentAt,mark]

private theorem length_exponentAt_le (rest : List Char) :
    ((Buffer.exponentAt rest).map fun parts => parts.1.length + parts.2.length + 1).getD 0 ≤ rest.length := by
  unfold Buffer.exponentAt
  split
  · exact Nat.succ_le_succ (length_signedDigits_le _)
  · exact Nat.succ_le_succ (length_signedDigits_le _)
  · exact Nat.zero_le _

/-- The digits behind the period that a text starts with. -/
def fractionAt : List Char → Option (List Char)
  | '.' :: tail => some (tail.takeWhile isDecimalDigit)
  | _ => none

private theorem fractionAt_blank {c : Char} (blank : isBlank c) (rest more : List Char) :
    fractionAt (rest ++ c :: more) = fractionAt rest := by
  obtain ⟨-,-,-,digit,-⟩ := blank_stops blank
  cases rest with
  | nil => rcases blank_cases blank with rfl | rfl | rfl | rfl <;> rfl
  | cons d rest =>
    by_cases period : d = '.'
    · simp [fractionAt,period,takeWhile_append_stop digit]
    · simp [fractionAt,period]

private theorem length_fractionAt_le (rest : List Char) : ((fractionAt rest).map (·.length + 1)).getD 0 ≤ rest.length := by
  unfold fractionAt
  split
  · exact Nat.succ_le_succ (List.takeWhile_sublist _).length_le
  · exact Nat.zero_le _

theorem goingOn_eq (whole rest : List Char) : DecimalText.goingOn whole rest =
    ⟨whole,fractionAt rest,Buffer.exponentAt (rest.drop (((fractionAt rest).map (·.length + 1)).getD 0))⟩ := rfl

/-- The fraction and the exponent of a floating literal are found in front of a blank. -/
theorem goingOn_blank {c : Char} (blank : isBlank c) (whole rest more : List Char) :
    DecimalText.goingOn whole (rest ++ c :: more) = DecimalText.goingOn whole rest := by
  rw [goingOn_eq,goingOn_eq,fractionAt_blank blank,List.drop_append_of_le_length (length_fractionAt_le rest),
    exponentAt_blank blank]

/-- A floating literal has no more characters than the text that it is read of. -/
theorem length_goingOn_le (whole rest : List Char) :
    (DecimalText.goingOn whole rest).chars.length ≤ whole.length + rest.length := by
  have fraction := length_fractionAt_le rest
  have exponent := length_exponentAt_le (rest.drop (((fractionAt rest).map (·.length + 1)).getD 0))
  rw [List.length_drop] at exponent
  rw [Buffer.length_chars,goingOn_eq]
  dsimp only
  omega

/-- A blank ends a floating literal, also one that is broken or has a letter behind it. -/
theorem contained_floatLexeme (whole rest : List Char) : Contained (floatLexeme whole) whole.length rest := by
  have length := length_goingOn_le whole rest
  constructor
  · intro c more blank
    obtain ⟨-,-,letter,-⟩ := blank_stops blank
    rw [Buffer.floatLexeme_eq whole _ _ rfl,Buffer.floatLexeme_eq whole rest _ rfl,goingOn_blank blank,
      List.drop_append_of_le_length (by omega)]
    cases rest.drop ((DecimalText.goingOn whole rest).chars.length - whole.length) with
    | nil => rcases blank_cases blank with rfl | rfl | rfl | rfl <;> simp [letter]
    | cons d tail => rfl
  · rw [Buffer.floatLexeme_eq whole rest _ rfl]
    split
    · exact length
    · cases found : (rest.drop ((DecimalText.goingOn whole rest).chars.length - whole.length)).head? with
      | none => exact length
      | some c =>
        have more := lt_length_of_head? found
        dsimp only [Option.elim]
        split
        · dsimp only
          omega
        · split
          · dsimp only
            omega
          · split
            · dsimp only
              omega
            · exact length

/-- A blank ends whatever starts with a zero. -/
theorem contained_zeroLexeme (rest : List Char) : Contained zeroLexeme 1 rest := by
  have digits := (List.takeWhile_sublist (l := rest) isDecimalDigit).length_le
  constructor
  · intro c more blank
    obtain ⟨-,-,-,digit,-⟩ := blank_stops blank
    have float := floatFollows_blank blank rest more
    have floating := (contained_floatLexeme ['0'] rest).same c more blank
    have suffix (value length : Nat) (text : List Char) := (contained_suffixLexeme value length text).same c more blank
    cases rest with
    | nil => rcases blank_cases blank with rfl | rfl | rfl | rfl <;> rfl
    | cons d rest =>
      have octal := drop_takeWhile_append isDecimalDigit (d :: rest) (c :: more)
      have run := takeWhile_append_stop digit (d :: rest) more
      rw [List.cons_append] at float floating octal run ⊢
      unfold zeroLexeme
      dsimp only
      rw [run,octal,float,floating,suffix,(contained_radixLexeme 2 _ rest).same c more blank,
        (contained_radixLexeme 8 _ rest).same c more blank,(contained_radixLexeme 16 _ rest).same c more blank,
        ← List.cons_append,suffix]
  · cases rest with
    | nil => exact Nat.le_refl _
    | cons d rest =>
      have marked (radix : Nat) : (radixLexeme radix ['0',d] rest).length ≤ 1 + (d :: rest).length := by
        refine Nat.le_trans (contained_radixLexeme radix ['0',d] rest).inside ?_
        simp only [List.length_cons,List.length_nil]
        omega
      unfold zeroLexeme
      dsimp only
      split
      · exact marked 2
      · split
        · exact marked 8
        · split
          · exact marked 16
          · split
            · exact (contained_suffixLexeme _ _ _).inside
            · split
              · split
                · dsimp only [Lexeme.failure]
                  omega
                · refine Nat.le_trans (contained_suffixLexeme _ _ _).inside ?_
                  rw [List.length_drop]
                  omega
              · split
                · exact (contained_floatLexeme ['0'] _).inside
                · exact Nat.le_add_right _ _

/-- A blank ends a literal that starts with another decimal digit. -/
theorem contained_decimalLexeme (source : List Char) : Contained decimalLexeme 0 source := by
  have digits := (List.takeWhile_sublist (l := source) isDecimalDigit).length_le
  constructor
  · intro c more blank
    obtain ⟨-,-,-,digit,-⟩ := blank_stops blank
    unfold decimalLexeme
    dsimp only
    rw [takeWhile_append_stop digit,drop_takeWhile_append]
    rw [floatFollows_blank blank,(contained_floatLexeme _ _).same c more blank,(contained_suffixLexeme _ _ _).same c more blank]
  · have total : (source.takeWhile isDecimalDigit).length + (source.drop (source.takeWhile isDecimalDigit).length).length ≤
        0 + source.length := by
      rw [List.length_drop]
      omega
    unfold decimalLexeme
    dsimp only
    split
    · exact Nat.le_trans (contained_floatLexeme _ _).inside total
    · split
      · dsimp only [Lexeme.failure]
        omega
      · exact Nat.le_trans (contained_suffixLexeme _ _ _).inside total

/-! ### Names and fixed spellings -/

/-- A blank ends a name, and is no part of a character that starts no lexeme. -/
theorem contained_identifierLexeme (first : Char) (rest : List Char) : Contained (identifierLexeme first) 1 rest := by
  have others := (List.takeWhile_sublist (l := rest) isIdentifierChar).length_le
  constructor
  · intro c more blank
    unfold identifierLexeme
    dsimp only
    rw [takeWhile_append_stop (blank_stops blank).1]
  · unfold identifierLexeme
    split
    · simp only [Lexeme.payload,List.length_cons]
      omega
    · exact Nat.le_add_right _ _

namespace Spelling

private theorem texts_without_blank : ∀ spelling ∈ all, spelling.text.any isBlank = false := by
  decide +kernel

/-- A spelling does not reach over a blank, as none contains one. -/
theorem isAt_blank {spelling : Spelling} (member : spelling ∈ all) {c : Char} (blank : isBlank c) (source more : List Char) :
    spelling.isAt (source ++ c :: more) ↔ spelling.isAt source := by
  have start : spelling.text <+: source ++ c :: more ↔ spelling.text <+: source := by
    constructor
    · intro here
      refine List.prefix_of_prefix_length_le here (List.prefix_append _ _) ?_
      by_contra long
      -- else the blank would be one of its characters
      have inside : source ++ [c] <+: spelling.text := by
        refine List.prefix_of_prefix_length_le ⟨more,by simp⟩ here ?_
        rw [List.length_append,List.length_singleton]
        omega
      have solid := List.any_eq_false.mp (texts_without_blank spelling member) c (inside.subset (by simp))
      exact solid blank
    · exact fun here => here.trans (List.prefix_append _ _)
  rw [isAt_iff,isAt_iff,start]
  refine and_congr_right fun here => ?_
  rw [List.drop_append_of_le_length here.length_le,head?_any_append_stop (blank_stops blank).1]

/-- The longest spelling at the start of a text stays the same with a blank and anything else behind the text. -/
theorem longest?_blank {c : Char} (blank : isBlank c) (source more : List Char) :
    longest? (source ++ c :: more) = longest? source := by
  have longest := longest?_isLongest source
  refine (longest?_isLongest _).unique ?_
  cases found : longest? source with
  | none =>
    rw [found] at longest
    exact fun spelling member here => longest spelling member ((isAt_blank member blank source more).mp here)
  | some best =>
    rw [found] at longest
    obtain ⟨member,start,greatest⟩ := longest
    refine ⟨member,(isAt_blank member blank source more).mpr start,fun spelling other here => ?_⟩
    exact greatest spelling other ((isAt_blank other blank source more).mp here)

end Spelling

/-! ### Quotations -/

/-- A numeric escape that is complete reads the same in a longer text. -/
theorem numeric_append {mark : List Char} {count radix value : Nat} {rest : List Char}
    (read : (Escape.numeric mark count radix rest).outcome = .ok value) (more : List Char) :
    Escape.numeric mark count radix (rest ++ more) = Escape.numeric mark count radix rest ∧
      (Escape.numeric mark count radix rest).length ≤ mark.length + rest.length := by
  unfold Escape.numeric at *
  dsimp only at *
  split at read
  · simp at read
  · rename_i enough
    have short : count ≤ rest.length := by
      rw [List.length_take] at enough
      omega
    rw [List.take_append_of_le_length short]
    refine ⟨rfl,?_⟩
    split
    · exact Nat.le_add_right _ _
    · split <;> exact Nat.add_le_add_left short _

/-- The character behind a backslash is an escape by itself, or tells which digits belong to the escape. -/
theorem escape_forms (c : Char) : (∃ outcome, ∀ rest, Escape.read (c :: rest) = ⟨outcome,1⟩) ∨
    ∃ mark count radix, mark.length ≤ 1 ∧
      ∀ rest, Escape.read (c :: rest) = Escape.numeric mark count radix ((c :: rest).drop mark.length) := by
  simp only [Buffer.escape_cons]
  cases Buffer.plainEscape? c with
  | some value => exact .inl ⟨.ok value,fun _ => rfl⟩
  | none =>
    dsimp only [Option.elim]
    split
    · exact .inr ⟨['x'],2,16,Nat.le_refl 1,fun _ => rfl⟩
    · split
      · exact .inr ⟨['u'],4,16,Nat.le_refl 1,fun _ => rfl⟩
      · split
        · exact .inr ⟨['U'],8,16,Nat.le_refl 1,fun _ => rfl⟩
        · split
          · exact .inr ⟨[],4,10,Nat.zero_le 1,fun _ => rfl⟩
          · exact .inl ⟨_,fun _ => rfl⟩

/-- An escape that stands for a value reads the same in a longer text, and lies inside the text. -/
theorem escape_append {rest : List Char} {value : Nat} (read : (Escape.read rest).outcome = .ok value) (more : List Char) :
    Escape.read (rest ++ more) = Escape.read rest ∧ (Escape.read rest).length ≤ rest.length := by
  cases rest with
  | nil => simp [Escape.read] at read
  | cons c rest =>
    rw [List.cons_append]
    rcases escape_forms c with ⟨outcome,alone⟩ | ⟨mark,count,radix,short,digits⟩
    · rw [alone,alone]
      exact ⟨rfl,Nat.succ_le_succ (Nat.zero_le _)⟩
    · have inside : mark.length ≤ (c :: rest).length := Nat.le_trans short (Nat.succ_le_succ (Nat.zero_le _))
      rw [digits] at read
      obtain ⟨same,length⟩ := numeric_append read more
      rw [List.length_drop,Nat.add_sub_cancel' inside] at length
      rw [digits rest,digits (rest ++ more),← List.cons_append,List.drop_append_of_le_length inside]
      exact ⟨same,length⟩

/-- A character literal is over at its closing quote. -/
theorem contained_closeCharacter {value length : Nat} {rest : List Char} {payload : Payload}
    (read : (closeCharacter value length rest).outcome = .ok payload) : Contained (closeCharacter value length) length rest := by
  cases rest with
  | nil => simp [closeCharacter,Lexeme.failure] at read
  | cons c rest =>
    refine ⟨fun _ _ _ => rfl,?_⟩
    unfold closeCharacter
    dsimp only
    split
    · exact Nat.add_le_add_left (Nat.succ_le_succ (Nat.zero_le _)) _
    · exact Nat.le_add_right _ _

/-- A character literal that is closed reads the same with anything behind it. -/
theorem contained_characterLexeme {rest : List Char} {payload : Payload}
    (read : (characterLexeme rest).outcome = .ok payload) : Contained characterLexeme 1 rest := by
  cases rest with
  | nil => simp [characterLexeme,Lexeme.failure] at read
  | cons c rest =>
    rw [characterLexeme] at read
    split at read
    · simp [Lexeme.failure] at read
    · rename_i other
      split at read
      · rename_i backslash
        cases escaped : (Escape.read rest).outcome with
        | error cause => simp [escaped,Lexeme.failure] at read
        | ok value =>
          obtain ⟨-,short⟩ := escape_append escaped []
          simp only [escaped] at read
          have close := contained_closeCharacter read
          constructor
          · intro d more blank
            obtain ⟨same,-⟩ := escape_append escaped (d :: more)
            rw [List.cons_append,characterLexeme,characterLexeme,if_neg other,if_neg other,if_pos backslash,if_pos backslash,
              same]
            simp only [escaped]
            rw [List.drop_append_of_le_length short,close.same d more blank]
          · have inside := close.inside
            rw [List.length_drop] at inside
            rw [characterLexeme,if_neg other,if_pos backslash]
            simp only [escaped,List.length_cons]
            omega
      · rename_i plain
        have close := contained_closeCharacter read
        constructor
        · intro d more blank
          rw [List.cons_append,characterLexeme,characterLexeme,if_neg other,if_neg other,if_neg plain,if_neg plain,
            close.same d more blank]
        · rw [characterLexeme,if_neg other,if_neg plain]
          have inside := close.inside
          rw [List.length_cons]
          omega

/-- A string that is closed reads the same with anything behind it, from any of its characters on. -/
theorem contained_stringFrom {decoded : List UInt8} {length : Nat} {rest : List Char} {payload : Payload}
    (read : (stringFrom decoded length rest).outcome = .ok payload) : Contained (stringFrom decoded length) length rest := by
  fun_induction stringFrom decoded length rest with
  | case1 => simp [Lexeme.failure] at read
  | case2 => simp [Lexeme.failure] at read
  | case3 decoded length rest newline =>
    constructor
    · intro d more blank
      rw [List.cons_append,stringFrom,stringFrom,if_neg newline,if_neg newline,if_pos rfl,if_pos rfl]
    · rw [stringFrom,if_neg newline,if_pos rfl]
      exact Nat.add_le_add_left (Nat.succ_le_succ (Nat.zero_le _)) _
  | case4 => simp [Lexeme.failure] at read
  | case5 decoded length rest escape value escaped newline quote ih =>
    obtain ⟨-,short⟩ := escape_append escaped []
    have later := ih read
    constructor
    · intro d more blank
      obtain ⟨same,-⟩ := escape_append escaped (d :: more)
      rw [List.cons_append,stringFrom,stringFrom,if_neg newline,if_neg newline,if_neg quote,if_neg quote,if_pos rfl,if_pos rfl,
        same]
      simp only [escape] at escaped
      simp only [escaped]
      rw [List.drop_append_of_le_length short]
      exact later.same d more blank
    · have inside := later.inside
      rw [List.length_drop] at inside
      simp only [escape] at escaped inside
      rw [stringFrom,if_neg newline,if_neg quote,if_pos rfl]
      simp only [escaped,List.length_cons]
      omega
  | case6 decoded length c rest newline quote backslash ih =>
    have later := ih read
    constructor
    · intro d more blank
      rw [List.cons_append,stringFrom,stringFrom,if_neg newline,if_neg newline,if_neg quote,if_neg quote,if_neg backslash,
        if_neg backslash,later.same d more blank]
    · have inside := later.inside
      rw [stringFrom,if_neg newline,if_neg quote,if_neg backslash,List.length_cons]
      omega

theorem read_unspelled {first : Char} {rest : List Char} (unspelled : Spelling.longest? (first :: rest) = none) :
    Lexeme.read first rest =
      if first = '"' then stringLexeme rest
      else if first = '0' then zeroLexeme rest
      else if isDecimalDigit first then decimalLexeme (first :: rest)
      else if first = '\'' then characterLexeme rest
      else identifierLexeme first rest := by
  rw [Lexeme.read,unspelled]

/-- Every lexeme that is no error ends at a blank as at the end of the text. Only a quotation that is not closed goes on into what
    is put behind it. -/
theorem contained_read {first : Char} {rest : List Char} {payload : Payload}
    (read : (Lexeme.read first rest).outcome = .ok payload) : Contained (Lexeme.read first) 1 rest := by
  have longest := Spelling.longest?_isLongest (first :: rest)
  have spelled {c : Char} (more : List Char) (blank : isBlank c) :
      Spelling.longest? (first :: (rest ++ c :: more)) = Spelling.longest? (first :: rest) := by
    rw [← List.cons_append,Spelling.longest?_blank blank]
  cases found : Spelling.longest? (first :: rest) with
  | some spelling =>
    rw [found] at longest
    constructor
    · intro c more blank
      rw [Lexeme.read,Lexeme.read,spelled more blank,found]
    · rw [Lexeme.read,found]
      have inside := (Spelling.isAt_iff.mp longest.2.1).1.length_le
      rw [List.length_cons] at inside
      dsimp only [Lexeme.payload]
      omega
  | none =>
    have whole {lexeme : List Char → Lexeme} (contained : Contained lexeme 1 rest)
        (same : ∀ text, Spelling.longest? (first :: text) = none → Lexeme.read first text = lexeme text) :
        Contained (Lexeme.read first) 1 rest := by
      constructor
      · intro c more blank
        rw [same _ (by rw [spelled more blank,found]),same _ found,contained.same c more blank]
      · rw [same _ found]
        exact contained.inside
    rw [read_unspelled found] at read
    split at read
    · rename_i quote
      refine whole (contained_stringFrom read) fun text unspelled => ?_
      rw [read_unspelled unspelled,if_pos quote,stringLexeme]
    · rename_i quote
      split at read
      · rename_i zero
        refine whole (contained_zeroLexeme rest) fun text unspelled => ?_
        rw [read_unspelled unspelled,if_neg quote,if_pos zero]
      · rename_i zero
        split at read
        · rename_i digit
          have decimal := contained_decimalLexeme (first :: rest)
          have behind : Contained (fun text => decimalLexeme (first :: text)) 1 rest := by
            refine ⟨decimal.same,Nat.le_trans decimal.inside ?_⟩
            rw [List.length_cons]
            omega
          refine whole behind fun text unspelled => ?_
          rw [read_unspelled unspelled,if_neg quote,if_neg zero,if_pos digit]
        · rename_i digit
          split at read
          · rename_i apostrophe
            refine whole (contained_characterLexeme read) fun text unspelled => ?_
            rw [read_unspelled unspelled,if_neg quote,if_neg zero,if_neg digit,if_pos apostrophe]
          · rename_i apostrophe
            refine whole (contained_identifierLexeme first rest) fun text unspelled => ?_
            rw [read_unspelled unspelled,if_neg quote,if_neg zero,if_neg digit,if_neg apostrophe]

end CFrontend
