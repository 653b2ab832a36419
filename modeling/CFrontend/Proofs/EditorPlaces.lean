import CFrontend.Diagnostic
import CFrontend.Proofs.LexerProgress
import CFrontend.Proofs.Outcome
import CFrontend.Proofs.Utf8
import Mathlib

/-!
Diagnostics stand where the error is. An error is found at a token, at a piece of text that is none, or at the end of the text
(`run_error_cases`), and each of these has the place that belongs to the characters before it (`Lexer.mem_all`,
`Lexer.all_stop`). An editor counts differently: it splits the bytes of the text into lines and decodes only the line that it
needs. No character lies across a line break, so it finds the same line (`lineAt_decode`), and in it the UTF-16 code units that
stand before the error (`editorPosition_behind`).
-/
namespace CFrontend

/-! ### Lines -/

private theorem takeWhile_ne {α : Type} [DecidableEq α] {stop : α} {first : List α} (one : stop ∉ first) :
    first.takeWhile (· ≠ stop) = first := by
  rw [List.takeWhile_eq_self_iff]
  intro element member
  have other : element ≠ stop := by
    rintro rfl
    exact one member
  simpa using other

private theorem takeWhile_ne_append {α : Type} [DecidableEq α] {stop : α} {first : List α} (one : stop ∉ first) (rest : List α) :
    (first ++ rest).takeWhile (· ≠ stop) = first ++ rest.takeWhile (· ≠ stop) ∧
      (first ++ rest).dropWhile (· ≠ stop) = rest.dropWhile (· ≠ stop) := by
  have all : ∀ element ∈ first, decide (element ≠ stop) = true := List.takeWhile_eq_self_iff.mp (takeWhile_ne one)
  exact ⟨List.takeWhile_append_of_pos all,List.dropWhile_append_of_pos all⟩

private theorem decode_lineBreak (rest : List UInt8) : Text.decode (lineBreak :: rest) = '\n' :: Text.decode rest :=
  Text.decode_ascii (by decide) rest

private theorem mem_of_newline {bytes : List UInt8} (newline : '\n' ∈ Text.decode bytes) : lineBreak ∈ bytes :=
  Text.mem_of_mem_decode (by decide) newline

/-- The bytes have a line break where the decoded text has a newline. -/
theorem decode_lines (text : List UInt8) :
    Text.decode (text.takeWhile (· ≠ lineBreak)) = (Text.decode text).takeWhile (· ≠ '\n') ∧
    ∀ rest, (Text.decode text).dropWhile (· ≠ '\n') = '\n' :: rest →
      ∃ others, text.dropWhile (· ≠ lineBreak) = lineBreak :: others ∧ Text.decode others = rest := by
  by_cases several : lineBreak ∈ text
  · obtain ⟨first,others,rfl,one⟩ := List.eq_append_cons_of_mem several
    have single : '\n' ∉ Text.decode first := fun newline => one (mem_of_newline newline)
    rw [Text.decode_append (by decide),decode_lineBreak]
    obtain ⟨front,back⟩ := takeWhile_ne_append one (lineBreak :: others)
    obtain ⟨frontChars,backChars⟩ := takeWhile_ne_append single ('\n' :: Text.decode others)
    rw [front,back,frontChars,backChars]
    refine ⟨by simp,fun rest found => ⟨others,by simp,?_⟩⟩
    simpa using found
  · have single : '\n' ∉ Text.decode text := fun newline => several (mem_of_newline newline)
    refine ⟨by rw [takeWhile_ne several,takeWhile_ne single],fun rest found => ?_⟩
    have newline : '\n' ∈ Text.decode text := (List.dropWhile_subset _) (by rw [found]; simp)
    exact absurd newline single

/-- The characters behind the last newline of a text. -/
def lastLine (before : List Char) : List Char := (before.reverse.takeWhile (· ≠ '\n')).reverse

private theorem lastLine_of_not_mem {before : List Char} (one : '\n' ∉ before) : lastLine before = before := by
  rw [lastLine,takeWhile_ne (by simpa using one),List.reverse_reverse]

private theorem lastLine_append (first second : List Char) : lastLine (first ++ '\n' :: second) = lastLine second := by
  unfold lastLine
  rw [List.reverse_append,List.reverse_cons,List.append_assoc,List.takeWhile_append]
  split
  · rename_i all
    have whole : second.reverse.takeWhile (· ≠ '\n') = second.reverse := (List.takeWhile_sublist _).eq_of_length all
    rw [whole]
    simp
  · rfl

/-- An editor finds the line in which a piece of the decoded text ends. -/
theorem lineAt_decode {number : Nat} {text : List UInt8} {before after : List Char} (split : Text.decode text = before ++ after)
    (count : before.count '\n' = number) :
    ∃ line, lineAt? number text = some line ∧ Text.decode line = lastLine before ++ after.takeWhile (· ≠ '\n') := by
  induction number generalizing text before with
  | zero =>
    have one : '\n' ∉ before := List.count_eq_zero.mp count
    refine ⟨_,rfl,?_⟩
    rw [(decode_lines text).1,split,lastLine_of_not_mem one,(takeWhile_ne_append one after).1]
  | succ number ih =>
    have several : '\n' ∈ before := List.count_pos_iff.mp (by omega)
    obtain ⟨first,later,rfl,one⟩ := List.eq_append_cons_of_mem several
    have rest : (Text.decode text).dropWhile (· ≠ '\n') = '\n' :: (later ++ after) := by
      rw [split,List.append_assoc,(takeWhile_ne_append one _).2]
      simp
    obtain ⟨others,found,decoded⟩ := (decode_lines text).2 _ rest
    have fewer : later.count '\n' = number := by
      simpa [List.count_eq_zero.mpr one] using count
    obtain ⟨line,there,same⟩ := ih decoded fewer
    refine ⟨line,?_,by rw [same,lastLine_append]⟩
    rw [lineAt?,found]
    exact there

/-! ### Code units -/

private theorem unitsBefore_length (first rest : List Char) :
    unitsBefore (first ++ rest) (1 + first.length) = utf16Units first := by
  have count : ((1 + first.length : Int) - 1).toNat = first.length := by omega
  unfold unitsBefore
  rw [count]
  dsimp only
  rw [List.take_left,List.length_append,Nat.sub_eq_zero_of_le (Nat.le_add_right _ _),Nat.add_zero]

/-- An editor finds the place behind a piece of the decoded text: behind its newlines, and behind the code units of its last
    line. -/
theorem editorPosition_behind {text : List UInt8} {before after : List Char} (split : Text.decode text = before ++ after) :
    editorPosition text (.behind before) = ⟨.ofNat (before.count '\n'),.ofNat (utf16Units (lastLine before))⟩ := by
  have number : ((Position.behind before).line - 1).toNat = before.count '\n' := by
    simp only [Position.behind]
    omega
  have column : (Position.behind before).column = 1 + ((lastLine before).length : Int) := by
    simp [Position.behind,lastLine]
  obtain ⟨line,found,decoded⟩ := lineAt_decode split rfl
  unfold editorPosition
  rw [number,column]
  dsimp only
  rw [found]
  dsimp only
  rw [decoded,unitsBefore_length]

private theorem foldl_units (chars : List Char) (units : Nat) :
    chars.foldl (fun units c => units + utf16Length c) units = units + utf16Units chars := by
  induction chars generalizing units with
  | nil => rfl
  | cons c chars ih =>
    rw [utf16Units,List.foldl_cons,List.foldl_cons,ih,ih]
    omega

theorem utf16Units_cons (c : Char) (chars : List Char) : utf16Units (c :: chars) = utf16Length c + utf16Units chars := by
  rw [utf16Units,List.foldl_cons,foldl_units,Nat.zero_add]

theorem utf16Units_append (first second : List Char) : utf16Units (first ++ second) = utf16Units first + utf16Units second := by
  rw [utf16Units,List.foldl_append,foldl_units]
  rfl

private theorem utf16Length_le (c : Char) : utf16Length c ≤ (String.utf8EncodeChar c).length := by
  by_cases plane : c.toNat < 0x10000
  · rw [utf16Length,if_pos plane]
    exact List.length_pos_iff.mpr String.utf8EncodeChar_ne_nil
  · rw [utf16Length,if_neg plane]
    unfold String.utf8EncodeChar
    rw [Char.toNat_val,if_neg (by omega),if_neg (by omega),if_neg (by omega)]
    simp

/-- A text has no more code units than bytes. -/
theorem utf16Units_decode_le (text : List UInt8) : utf16Units (Text.decode text) ≤ text.length := by
  induction text using Text.fragments_induction with
  | nil => simp [Text.decode,Text.fragments,utf16Units]
  | char c rest found ih =>
    have width := utf16Length_le c
    rw [Text.decode,Text.fragments_of_leading found,List.map_cons,utf16Units_cons,List.length_append]
    exact Nat.add_le_add width ih
  | stray byte rest found ih =>
    rw [Text.decode,Text.fragments_of_stray found,List.map_cons,utf16Units_cons,List.length_cons,Nat.add_comm]
    exact Nat.add_le_add ih (by simp [Text.Fragment.toChar,Text.replacement,utf16Length])

private theorem length_le_utf16Units (chars : List Char) : chars.length ≤ utf16Units chars := by
  induction chars with
  | nil => exact Nat.le_refl _
  | cons c chars ih =>
    have width : 1 ≤ utf16Length c := by
      unfold utf16Length
      split
      · exact Nat.le_refl _
      · exact Nat.le_succ _
    rw [utf16Units_cons,List.length_cons]
    omega

theorem utf16Units_lastLine_le (before : List Char) : utf16Units (lastLine before) ≤ utf16Units before := by
  obtain ⟨rest,whole⟩ := List.takeWhile_prefix (l := before.reverse) (· ≠ '\n')
  have split : before = rest.reverse ++ lastLine before := by
    rw [lastLine,← List.reverse_append,whole,List.reverse_reverse]
  have units := utf16Units_append rest.reverse (lastLine before)
  rw [← split] at units
  omega

/-! ### The places of items -/
namespace Lexer

/-- Every item that has a place stands behind a piece of the text. -/
theorem mem_all {lexer : Lexer} {item : Item} {pos : Position} (member : item ∈ lexer.all.1) (located : item.pos? = some pos) :
    ∃ before after, lexer.rest = before ++ after ∧ pos = lexer.pos.advance before := by
  induction lexer using all_induction with
  | read lexer gap lexeme first given reads all ih =>
    rw [all] at member
    rcases List.mem_cons.mp member with rfl | later
    · exact ⟨gap,_,reads.text,Option.some.inj (located.symm.trans reads.place)⟩
    · obtain ⟨before,after,text,place⟩ := ih later
      refine ⟨gap ++ lexeme ++ before,after,?_,?_⟩
      · rw [reads.text,text]
        simp
      · rw [place,reads.stop,← Position.advance_append]
  | ended lexer given all =>
    rw [all] at member
    cases failure : lexer.failure with
    | none => simp [failure] at member
    | some message =>
      obtain rfl : item = .failure message := by simpa [failure] using member
      simp [Item.pos?] at located

/-- The lexer ends behind the whole text. -/
theorem all_stop (lexer : Lexer) : lexer.all.2.pos = lexer.pos.advance lexer.rest := by
  induction lexer using all_induction with
  | read lexer gap lexeme first given reads all ih =>
    rw [all,ih,reads.stop,← Position.advance_append,reads.text,List.append_assoc]
  | ended lexer given all =>
    rw [all]
    simp [skip]

end Lexer

private theorem Item.mem_of_tokens (items : List Item) :
    (∀ token ∈ (tokens items).1, .token token ∈ items) ∧ ∀ stop, (tokens items).2 = some stop → stop ∈ items := by
  fun_induction Item.tokens items with
  | case1 => simp
  | case2 first rest others stop same ih =>
    obtain ⟨members,last⟩ := ih
    rw [same] at members last
    refine ⟨?_,fun found stopped => List.mem_cons_of_mem _ (last found stopped)⟩
    intro token member
    rcases List.mem_cons.mp member with rfl | later
    · simp
    · exact List.mem_cons_of_mem _ (members token later)
  | case3 item rest other => simp

namespace Parser

/-- Where a parse fails: at a token, at what stands behind the last token and is none, or at the end. -/
theorem run_error_cases {table : Table} {options : Options} {ending : Ending} {current : Nat} {live : List State}
    {tokens : List Token} {error : ParseError} (failed : run table options ending current live tokens = .error error) :
    (∃ token ∈ tokens, error.position? = some token.pos ∧ ∀ pos expected, error ≠ .incomplete pos expected) ∨
    ending = .broken error ∨
    ∃ pos, ending = .finished pos ∧ ∀ place, error.position? = some place → place = pos := by
  induction tokens generalizing current live with
  | nil =>
    simp only [run] at failed
    split at failed
    · obtain rfl := Except.error.inj failed
      exact .inr (.inl rfl)
    · rename_i pos
      refine .inr (.inr ⟨pos,rfl,fun place located => ?_⟩)
      split at failed
      · obtain rfl := Except.error.inj failed
        exact (Option.some.inj located).symm
      · rename_i result _
        rcases settle_cases options.ambiguity pos result with ⟨tree,same⟩ | ⟨trees,same⟩ | ⟨expected,same⟩
        · simp [same] at failed
        · obtain rfl := Except.error.inj (same.symm.trans failed)
          simp [ParseError.position?] at located
        · obtain rfl := Except.error.inj (same.symm.trans failed)
          exact (Option.some.inj located).symm
  | cons token tokens ih =>
    simp only [run] at failed
    split at failed
    · obtain rfl := Except.error.inj failed
      exact .inl ⟨token,by simp,rfl,by simp⟩
    · split at failed
      · obtain rfl := Except.error.inj failed
        exact .inl ⟨token,by simp,rfl,by simp⟩
      · rcases ih failed with ⟨later,member,located⟩ | others
        · exact .inl ⟨later,List.mem_cons_of_mem token member,located⟩
        · exact .inr others

/-- The tokens of a text and what is none among them have the places behind the characters before them, and the tokens end
    behind all characters. -/
theorem ofSource_places (chars : List Char) :
    (∀ token ∈ (TokenStream.ofSource ⟨chars,none⟩).tokens, ∃ before after, chars = before ++ after ∧ token.pos = .behind before) ∧
    match (TokenStream.ofSource ⟨chars,none⟩).ending with
    | .finished pos => pos = .behind chars
    | .broken error => ∀ pos, error.position? = some pos → (∀ place expected, error ≠ .incomplete place expected) ∧
        ∃ before after, chars = before ++ after ∧ pos = .behind before := by
  have placed {item : Item} {pos : Position} (member : item ∈ (Lexer.start ⟨chars,none⟩).all.1) (located : item.pos? = some pos) :
      ∃ before after, chars = before ++ after ∧ pos = .behind before := by
    obtain ⟨before,after,text,place⟩ := Lexer.mem_all member located
    exact ⟨before,after,text,place.trans (Position.advance_origin before)⟩
  have stop : (Lexer.start ⟨chars,none⟩).all.2.pos = .behind chars :=
    (Lexer.all_stop _).trans (Position.advance_origin chars)
  obtain ⟨members,last⟩ := Item.mem_of_tokens (Lexer.start ⟨chars,none⟩).all.1
  have tokens : ∀ token ∈ (Item.tokens (Lexer.start ⟨chars,none⟩).all.1).1,
      ∃ before after, chars = before ++ after ∧ token.pos = .behind before :=
    fun token member => placed (members token member) rfl
  unfold TokenStream.ofSource
  dsimp only
  split
  · rename_i error found
    refine ⟨tokens,fun pos located => ⟨by simp,placed (last _ found) ?_⟩⟩
    exact located
  · exact ⟨tokens,by simp [ParseError.position?]⟩
  · exact ⟨tokens,stop⟩

private theorem parse_error_place {grammar : Grammar} {options : Options} {chars : List Char} {error : ParseError} {pos : Position}
    (failed : parse grammar options (.ofSource ⟨chars,none⟩) = .error error) (located : error.position? = some pos) :
    ∃ before after, chars = before ++ after ∧ pos = .behind before ∧
      ((∃ place expected, error = .incomplete place expected) → after = []) := by
  obtain ⟨tokens,ending⟩ := ofSource_places chars
  rcases run_error_cases failed with ⟨token,member,place,other⟩ | broken | ⟨stop,finished,only⟩
  · obtain ⟨before,after,text,same⟩ := tokens token member
    refine ⟨before,after,text,?_,fun ⟨_,_,incomplete⟩ => absurd incomplete (other _ _)⟩
    rw [← same]
    exact Option.some.inj (located.symm.trans place)
  · rw [broken] at ending
    obtain ⟨other,before,after,text,same⟩ := ending pos located
    exact ⟨before,after,text,same,fun ⟨_,_,incomplete⟩ => absurd incomplete (other _ _)⟩
  · rw [finished] at ending
    refine ⟨chars,[],by simp,?_,fun _ => rfl⟩
    rw [only pos located]
    exact ending

end Parser

namespace Diagnostic

/-- The one diagnostic of a text that fails to parse at a place. The place is the one behind some characters of the decoded
    text, all of them where the text ends too early, and the diagnostic starts behind their newlines and behind the UTF-16 code
    units of their last line, as 32-bit numbers, which are exact for texts of fewer than 4 GiB. -/
theorem diagnose_start (grammar : Grammar) (options : Parser.Options) (text : List UInt8) (error : ParseError) (pos : Position)
    (failed : Parser.parse grammar options (.ofSource ⟨Text.decode text,none⟩) = .error error)
    (located : error.position? = some pos) :
    ∃ before after diagnostic, Text.decode text = before ++ after ∧ pos = .behind before ∧
      ((∃ place expected, error = .incomplete place expected) → after = []) ∧
      diagnose grammar options text = [diagnostic] ∧
      diagnostic.start = ⟨.ofNat (before.count '\n'),.ofNat (utf16Units (lastLine before))⟩ ∧
      (text.length < UInt32.size → diagnostic.start.line.toNat = before.count '\n' ∧
        diagnostic.start.character.toNat = utf16Units (lastLine before)) := by
  obtain ⟨before,after,split,rfl,ended⟩ := Parser.parse_error_place failed located
  have start : (ofError text error).start = ⟨.ofNat (before.count '\n'),.ofNat (utf16Units (lastLine before))⟩ := by
    rw [ofError,located]
    exact editorPosition_behind split
  refine ⟨before,after,ofError text error,split,rfl,ended,?_,start,fun short => ?_⟩
  · rw [diagnose,failed]
  · have units := utf16Units_decode_le text
    rw [split,utf16Units_append] at units
    have lines : before.count '\n' ≤ utf16Units before := Nat.le_trans List.count_le_length (length_le_utf16Units before)
    have last := utf16Units_lastLine_le before
    rw [start]
    exact ⟨UInt32.toNat_ofNat_of_lt (by omega),UInt32.toNat_ofNat_of_lt (by omega)⟩

/-- Two identifiers. -/
def twoNames : Grammar := ⟨"S",[⟨"S",[.terminal .identifier,.terminal .identifier]⟩],by decide +kernel⟩

/-- An identifier, and in the next line a plus sign behind a comment with a character beyond the first plane and a byte that belongs
    to no character. -/
def brokenComment : List UInt8 := [0x61,0x0a,0x2f,0x2a,0xf0,0x9d,0x84,0x9e,0xff,0x2a,0x2f,0x2b]

theorem diagnose_start_brokenComment :
    Parser.parse twoNames {} (.ofSource ⟨Text.decode brokenComment,none⟩) =
      .error (.unexpected { kind := .plus,pos := ⟨2,7⟩ } [.identifier] false) ∧
    ∃ before after diagnostic, Text.decode brokenComment = before ++ after ∧ ⟨2,7⟩ = Position.behind before ∧
      diagnose twoNames {} brokenComment = [diagnostic] ∧ diagnostic.start = ⟨1,7⟩ ∧
      diagnostic.start.line.toNat = before.count '\n' ∧ diagnostic.start.character.toNat = utf16Units (lastLine before) := by
  have failed : Parser.parse twoNames {} (.ofSource ⟨Text.decode brokenComment,none⟩) =
      .error (.unexpected { kind := .plus,pos := ⟨2,7⟩ } [.identifier] false) := by
    cbv
  have located : (ParseError.unexpected { kind := .plus,pos := ⟨2,7⟩ } [.identifier] false).position? = some ⟨2,7⟩ := rfl
  have short : brokenComment.length < UInt32.size := by
    simp [brokenComment,UInt32.size]
  have start : editorPosition brokenComment ⟨2,7⟩ = ⟨1,7⟩ := by
    decide +kernel
  obtain ⟨before,after,diagnostic,split,place,-,only,-,numbers⟩ := diagnose_start twoNames {} brokenComment _ ⟨2,7⟩ failed located
  have given : diagnostic = ofError brokenComment (.unexpected { kind := .plus,pos := ⟨2,7⟩ } [.identifier] false) := by
    rw [diagnose,failed] at only
    exact (List.head_eq_of_cons_eq only).symm
  refine ⟨failed,before,after,diagnostic,split,place,only,?_,numbers short⟩
  rw [given,ofError,located]
  exact start

end Diagnostic

end CFrontend
