import Mathlib.Data.List.Basic
import CFrontend.Grammar.Ebnf
import CFrontend.Proofs.RuleOrder

/-!
A grammar is read back from its EBNF. The lines of the text and the words of a line stand between line breaks and blanks, which
no word contains (`wordsOf_lines`). On a line of a nonterminal the word `|` stands between alternatives only, `[` in front of an
option only, and every other word between the equals sign and the period is that of a symbol (`expressionWords_inj`), which is
determined by its word (`Symbol.Plain.read`). The lines of token classes start with their names.
-/
namespace CFrontend

/-! ### Symbols -/

/-- A name of a nonterminal that is not taken for anything else. -/
structure PlainName (name : String) : Prop where
  filled : name ≠ ""
  characters : ∀ c ∈ name.toList, c.isAlphanum ∨ c = '_'
  classless : name ∉ ["Identifier","NumericLiteral","StringLiteral"]

-- by a test of the list: the instance for all characters is found first and goes through them
instance (name : String) : Decidable (PlainName name) :=
  decidable_of_iff (name ≠ "" ∧ name.toList.all (fun c => c.isAlphanum || c = '_') ∧
      name ∉ ["Identifier","NumericLiteral","StringLiteral"])
    ⟨fun plain => ⟨plain.1,by simpa using plain.2.1,plain.2.2⟩,fun plain => ⟨plain.filled,by simpa using plain.characters,plain.classless⟩⟩

/-- A symbol of a kind in use or with a plain name. -/
def Symbol.Plain : Symbol → Prop
  | .terminal kind => kind ∈ TokenKind.named ∧ kind ≠ .invalid
  | .nonterminal name => PlainName name

theorem PlainName.first {name : String} (plain : PlainName name) : ∃ c rest, name.toList = c :: rest ∧ (c.isAlphanum ∨ c = '_') := by
  cases characters : name.toList with
  | nil => exact absurd (String.toList_eq_nil_iff.mp characters) plain.filled
  | cons c rest => exact ⟨c,rest,rfl,plain.characters c (by simp [characters])⟩

theorem PlainName.without {name : String} (plain : PlainName name) {c : Char} (sign : ¬ (c.isAlphanum ∨ c = '_')) : c ∉ name.toList :=
  fun member => sign (plain.characters c member)

/-- A terminal is read back from its text, which is one word and none of the signs of the notation. -/
theorem terminal_spec : ∀ kind ∈ TokenKind.named,
    (kind ≠ .invalid → (Symbol.read (Symbol.terminal kind).text).toOption = some (.terminal kind)) ∧
    ' ' ∉ (Symbol.terminal kind).text.toList ∧ '\n' ∉ (Symbol.terminal kind).text.toList ∧
    (Symbol.terminal kind).text.toList ∉ [['|'],['['],['"','"']] := by
  decide +kernel

/-- A symbol is read back from its text. -/
theorem Symbol.Plain.read {symbol : Symbol} (plain : symbol.Plain) : (Symbol.read symbol.text).toOption = some symbol := by
  cases symbol with
  | terminal kind => exact (terminal_spec kind plain.1).1 plain.2
  | nonterminal name =>
    have plain : PlainName name := plain
    obtain ⟨c,rest,characters,letter⟩ := plain.first
    have bare : Symbol.unquoted? name.toList = none := by
      rw [characters]
      unfold Symbol.unquoted?
      split
      · simp_all
      · rfl
    have classless : Symbol.classes.lookup name = none := by
      have other := plain.classless
      simp only [List.mem_cons,List.not_mem_nil,or_false,not_or] at other
      simp [Symbol.classes,List.lookup,beq_false_of_ne other.1,beq_false_of_ne other.2.1,beq_false_of_ne other.2.2]
    have whole : Symbol.hasDelimiter name.toList = false := by
      rw [Symbol.hasDelimiter,List.any_eq_false]
      intro c member delimiter
      simp only [Bool.or_eq_true,decide_eq_true_eq] at delimiter
      rcases delimiter with ((rfl | rfl) | rfl) | rfl <;> exact plain.without (by decide) member
    simp [Symbol.read,Symbol.text,bare,classless,whole,plain.filled,Except.toOption]

theorem Symbol.Plain.word {symbol : Symbol} (plain : symbol.Plain) : ' ' ∉ symbol.text.toList ∧ '\n' ∉ symbol.text.toList ∧
    symbol.text.toList ∉ [['|'],['['],['"','"']] := by
  cases symbol with
  | terminal kind => exact (terminal_spec kind plain.1).2
  | nonterminal name =>
    have plain : PlainName name := plain
    obtain ⟨c,rest,characters,letter⟩ := plain.first
    refine ⟨plain.without (by decide),plain.without (by decide),fun taken => ?_⟩
    simp only [Symbol.text,characters,List.mem_cons,List.cons.injEq,List.not_mem_nil,or_false] at taken
    rcases taken with ⟨rfl,-⟩ | ⟨rfl,-⟩ | ⟨rfl,-⟩ <;> exact absurd letter (by decide)

/-! ### Words and lines -/

/-- A line with a blank between each two of its words. -/
def lineOf (words : List (List Char)) : List Char := [' '].intercalate words ++ ['\n']

/-- The words of each line of a text. -/
def wordsOf (text : List Char) : List (List (List Char)) := (text.splitOn '\n').dropLast.map (·.splitOn ' ')

private theorem mem_intercalate {α : Type} {c : α} {separator : List α} {texts : List (List α)}
    (member : c ∈ separator.intercalate texts) :
    c ∈ separator ∨ ∃ text ∈ texts, c ∈ text := by
  induction texts with
  | nil => simp at member
  | cons text texts ih =>
    cases texts with
    | nil => exact .inr ⟨text,by simp,by simpa using member⟩
    | cons other texts =>
      rw [List.intercalate_cons_cons,List.mem_append,List.mem_append] at member
      rcases member with (own | between) | later
      · exact .inr ⟨text,by simp,own⟩
      · exact .inl between
      · rcases ih later with between | ⟨text,listed,inside⟩
        · exact .inl between
        · exact .inr ⟨text,by simp [listed],inside⟩

private theorem lines_eq_intercalate (lines : List (List Char)) :
    lines.flatMap (· ++ ['\n']) = ['\n'].intercalate (lines ++ [[]]) := by
  induction lines with
  | nil => rfl
  | cons line lines ih =>
    obtain ⟨next,rest,same⟩ : ∃ next rest, lines ++ [[]] = next :: rest := List.exists_cons_of_ne_nil (by simp)
    rw [List.flatMap_cons,ih,List.cons_append,same,List.intercalate_cons_cons]

/-- Words without blanks and line breaks are read back from their lines. -/
theorem wordsOf_lines {lines : List (List (List Char))}
    (solid : ∀ line ∈ lines, line ≠ [] ∧ ∀ word ∈ line, ' ' ∉ word ∧ '\n' ∉ word) : wordsOf (lines.flatMap lineOf) = lines := by
  have texts : lines.flatMap lineOf = ['\n'].intercalate (lines.map ([' '].intercalate ·) ++ [[]]) := by
    rw [← lines_eq_intercalate,List.flatMap_map]
    rfl
  have unbroken : ∀ text ∈ lines.map ([' '].intercalate ·) ++ [[]], '\n' ∉ text := by
    simp only [List.mem_append,List.mem_map,List.mem_singleton]
    rintro text (⟨line,listed,rfl⟩ | rfl) broken
    · rcases mem_intercalate broken with blank | ⟨word,own,inside⟩
      · simp at blank
      · exact (solid line listed).2 word own |>.2 inside
    · simp at broken
  rw [wordsOf,texts,List.splitOn_intercalate '\n' unbroken (by simp),List.dropLast_concat,List.map_map]
  refine (List.map_congr_left fun line listed => ?_).trans (List.map_id _)
  exact List.splitOn_intercalate ' ' (fun word own => ((solid line listed).2 word own).1) (solid line listed).1

private theorem intercalate_append (separator : List Char) {front back : List (List Char)} (begun : front ≠ [])
    (ended : back ≠ []) :
    separator.intercalate (front ++ back) = separator.intercalate front ++ separator ++ separator.intercalate back := by
  induction front with
  | nil => exact absurd rfl begun
  | cons text front ih =>
    cases front with
    | nil =>
      obtain ⟨next,rest,rfl⟩ := List.exists_cons_of_ne_nil ended
      simp [List.intercalate_cons_cons]
    | cons other front =>
      have later := ih (by simp)
      rw [List.cons_append] at later
      simp [List.intercalate_cons_cons,later]

/-- Texts of words with a word between each two. -/
theorem intercalate_intercalate (separator word : List Char) {lists : List (List (List Char))} (filled : [] ∉ lists) :
    separator.intercalate ([word].intercalate lists) =
      (separator ++ word ++ separator).intercalate (lists.map (separator.intercalate ·)) := by
  induction lists with
  | nil => rfl
  | cons list lists ih =>
    simp only [List.mem_cons,not_or] at filled
    cases lists with
    | nil => simp
    | cons other lists =>
      have later : [word].intercalate (other :: lists) ≠ [] := by
        cases lists with
        | nil => simpa [eq_comm] using filled.2
        | cons => simp [List.intercalate_cons_cons]
      rw [List.intercalate_cons_cons,List.append_assoc,intercalate_append separator (Ne.symm filled.1) (by simp),
        intercalate_append separator (by simp) later,ih filled.2]
      simp [List.intercalate_cons_cons]

private theorem separated_toList (separator : String) (texts : List String) :
    (Text.separated separator texts).toList = separator.toList.intercalate (texts.map String.toList) := by
  induction texts with
  | nil => rfl
  | cons text texts ih =>
    cases texts with
    | nil => simp [Text.separated]
    | cons other texts => simp [Text.separated,ih,List.intercalate_cons_cons]

namespace Grammar

/-! ### Expressions -/

/-- The words of the symbols of a right-hand side. -/
def sideWords (side : List Symbol) : List (List Char) := side.map (·.text.toList)

/-- The words of a choice. -/
def choiceWords (sides : List (List Symbol)) : List (List Char) := [['|']].intercalate (sides.map sideWords)

/-- The words of the expression of some right-hand sides. -/
def expressionWords (sides : List (List Symbol)) : List (List Char) :=
  let filled := sides.filter (!·.isEmpty)
  if sides.any (·.isEmpty) then
    if filled.isEmpty then [['['],['"','"'],[']']] else ['['] :: choiceWords filled ++ [[']']]
  else choiceWords filled

private theorem choice_toList {sides : List (List Symbol)} (filled : [] ∉ sides) :
    (Text.separated " | " (sides.map fun side => Text.separated " " (side.map Symbol.text))).toList =
      [' '].intercalate (choiceWords sides) := by
  have words : [] ∉ sides.map sideWords := by simpa [sideWords] using filled
  rw [choiceWords,intercalate_intercalate _ _ words,separated_toList,List.map_map,List.map_map]
  refine congrArg _ (List.map_congr_left fun side _ => ?_)
  simp [separated_toList,sideWords,Function.comp_def]

private theorem choiceWords_eq_nil_iff {sides : List (List Symbol)} (filled : [] ∉ sides) :
    choiceWords sides = [] ↔ sides = [] := by
  rcases sides with _ | ⟨side,_ | ⟨other,sides⟩⟩
  · simp [choiceWords]
  · have own : side ≠ [] := by
      rintro rfl
      simp at filled
    simp [choiceWords,sideWords,own]
  · simp [choiceWords,List.intercalate_cons_cons]

private theorem ebnfExpression_toList (alternatives : List Production) :
    (ebnfExpression alternatives).toList = [' '].intercalate (expressionWords (alternatives.map (·.rule.rhs))) := by
  have filled : [] ∉ (alternatives.map (·.rule.rhs)).filter (!·.isEmpty) := by simp
  have choice := choice_toList filled
  unfold ebnfExpression expressionWords
  generalize alternatives.map (·.rule.rhs) = sides at filled choice ⊢
  dsimp only
  by_cases optional : sides.any (·.isEmpty)
  · by_cases lone : sides.filter (!·.isEmpty) = []
    · rw [if_pos optional,if_pos optional,if_pos (by simp [lone]),if_pos (by simp [lone])]
      rfl
    · have begun : choiceWords (sides.filter (!·.isEmpty)) ≠ [] := by rwa [ne_eq,choiceWords_eq_nil_iff filled]
      rw [if_pos optional,if_pos optional,if_neg (by simpa using lone),if_neg (by simpa using lone),List.cons_append,
        ← List.singleton_append (x := ['[']),intercalate_append _ (by simp) (by simp),intercalate_append _ begun (by simp),← choice]
      simp
  · rw [if_neg optional,if_neg optional]
    exact choice

/-! ### Reading -/

/-- The symbols of words. -/
def readSide (words : List (List Char)) : List (Option Symbol) := words.map fun word => (Symbol.read (String.ofList word)).toOption

/-- The right-hand sides of a choice. -/
def readChoice (words : List (List Char)) : List (List (Option Symbol)) :=
  if words = [] then [] else (words.splitOn ['|']).map readSide

/-- The right-hand sides of an expression but an empty one, and whether there is an empty one. -/
def readExpression : List (List Char) → List (List (Option Symbol)) × Bool
  | [['['],['"','"'],[']']] => ([],true)
  | ['['] :: words => (readChoice words.dropLast,true)
  | words => (readChoice words,false)

/-- A nonterminal with its expression. -/
def readLine : List (List Char) → List Char × List (List (Option Symbol)) × Bool
  | name :: _ :: words => (name,readExpression words.dropLast)
  | _ => ([],[],false)

private theorem readSide_words {side : List Symbol} (plain : ∀ symbol ∈ side, symbol.Plain) :
    readSide (sideWords side) = side.map some := by
  rw [readSide,sideWords,List.map_map]
  refine List.map_congr_left fun symbol member => ?_
  simpa using (plain symbol member).read

private theorem readChoice_words {sides : List (List Symbol)} (filled : [] ∉ sides)
    (plain : ∀ side ∈ sides, ∀ symbol ∈ side, symbol.Plain) :
    readChoice (choiceWords sides) = sides.map (·.map some) := by
  unfold readChoice
  by_cases none : sides = []
  · simp [none,choiceWords]
  · have solid : ∀ words ∈ sides.map sideWords, ['|'] ∉ words := by
      simp only [List.mem_map,sideWords]
      rintro words ⟨side,member,rfl⟩ bar
      obtain ⟨symbol,own,same⟩ := List.mem_map.mp bar
      simpa [same] using (plain side member symbol own).word.2.2
    rw [if_neg (by rwa [choiceWords_eq_nil_iff filled]),choiceWords,List.splitOn_intercalate ['|'] solid (by simpa using none),List.map_map]
    exact List.map_congr_left fun side member => readSide_words (plain side member)

/-- A choice starts with the word of a symbol. -/
theorem choiceWords_cons {sides : List (List Symbol)} (filled : [] ∉ sides) (some : sides ≠ []) :
    ∃ symbol side rest words, sides = (symbol :: side) :: rest ∧ choiceWords sides = symbol.text.toList :: words := by
  rcases sides with _ | ⟨_ | ⟨symbol,side⟩,rest⟩
  · exact absurd rfl some
  · simp at filled
  · cases rest with
    | nil => exact ⟨symbol,side,[],_,rfl,by simp [choiceWords,sideWords]; rfl⟩
    | cons other rest => exact ⟨symbol,side,_,_,rfl,by simp [choiceWords,sideWords,List.intercalate_cons_cons]; rfl⟩

private theorem readExpression_words {sides : List (List Symbol)} (plain : ∀ side ∈ sides, ∀ symbol ∈ side, symbol.Plain) :
    readExpression (expressionWords sides) = ((sides.filter (!·.isEmpty)).map (·.map some),sides.any (·.isEmpty)) := by
  have filled : [] ∉ sides.filter (!·.isEmpty) := by simp
  have inner : ∀ side ∈ sides.filter (!·.isEmpty), ∀ symbol ∈ side, symbol.Plain := fun side member =>
    plain side (List.mem_of_mem_filter member)
  have read := readChoice_words filled inner
  -- a choice starts with the word of a symbol, which is neither a bracket nor the empty text of an option without a choice
  unfold expressionWords
  dsimp only
  by_cases optional : sides.any (·.isEmpty)
  · by_cases lone : sides.filter (!·.isEmpty) = []
    · rw [if_pos optional,if_pos (by simp [lone]),lone,optional]
      rfl
    · rw [if_pos optional,if_neg (by simpa using lone),optional]
      obtain ⟨symbol,side,rest,words,same,start⟩ := choiceWords_cons filled lone
      have own := (inner (symbol :: side) (by simp [same]) symbol (by simp)).word.2.2
      have other : symbol.text.toList ≠ ['"','"'] := fun taken => own (by simp [taken])
      rw [← read,start,List.cons_append,List.cons_append,readExpression]
      · rw [← List.cons_append,List.dropLast_concat]
      · simp [other]
  · rw [if_neg optional]
    rw [← read,Bool.eq_false_of_not_eq_true optional]
    by_cases lone : sides.filter (!·.isEmpty) = []
    · rw [lone]
      rfl
    · obtain ⟨symbol,side,rest,words,same,start⟩ := choiceWords_cons filled lone
      have own := (inner (symbol :: side) (by simp [same]) symbol (by simp)).word.2.2
      have other : symbol.text.toList ≠ ['['] := fun taken => own (by simp [taken])
      rw [start,readExpression]
      · simp [other]
      · simp [other]

/-! ### The whole text -/

/-- The right-hand sides of a nonterminal, in order. -/
def sides (grammar : Grammar) (name : String) : List (List Symbol) := (grammar.alternatives name).map (·.rule.rhs)

/-- A grammar that the notation can show: its names are plain and its terminals are kinds in use. -/
def Plain (grammar : Grammar) : Prop :=
  ∀ rule ∈ grammar.rules, PlainName rule.lhs ∧ ∀ kind, .terminal kind ∈ rule.rhs → kind ∈ TokenKind.named

/-- The words of the line of a nonterminal. -/
def lineWords (grammar : Grammar) (name : String) : List (List Char) :=
  name.toList :: ['='] :: (expressionWords (grammar.sides name) ++ [['.']])

/-- The words of the line of a token class. -/
def classWords (kind : TokenKind) : List (List Char) := [kind.name.toList,['='],(placeholder kind).toList,['.']]

/-- Whether a line is that of a token class. -/
def isClassLine (line : List (List Char)) : Bool :=
  line.head?.any (["Identifier","NumericLiteral","StringLiteral"].map String.toList).contains

/-- What the lines of a text say of nonterminals. -/
def readLines (text : List Char) : List (List Char × List (List (Option Symbol)) × Bool) :=
  ((wordsOf text).filter (!isClassLine ·)).map readLine

private theorem exists_rule {grammar : Grammar} {name : String} (defined : name ∈ grammar.nonterminals) :
    ∃ rule ∈ grammar.rules, rule.lhs = name := by
  simpa [nonterminals] using defined

private theorem sides_ne_nil {grammar : Grammar} {name : String} (defined : name ∈ grammar.nonterminals) :
    grammar.sides name ≠ [] := by
  obtain ⟨rule,member,rfl⟩ := exists_rule defined
  obtain ⟨production,own,-⟩ := exists_alternative member
  exact List.ne_nil_of_mem (List.mem_map_of_mem own)

theorem Plain.side {grammar : Grammar} (plain : grammar.Plain) {name : String} {side : List Symbol} (member : side ∈ grammar.sides name)
    {symbol : Symbol} (inside : symbol ∈ side) : symbol.Plain := by
  obtain ⟨production,own,rfl⟩ := List.mem_map.mp member
  have rule := rule_of_mem_alternatives own
  cases symbol with
  | terminal kind =>
    have sound := rightFault?_eq_none_iff _ |>.mp (fault?_eq_none_iff _ _ |>.mp grammar.valid).2.2 _ rule _ inside
    rw [symbolFault?_eq_none_iff] at sound
    exact ⟨(plain _ rule).2 kind inside,sound⟩
  | nonterminal name =>
    obtain ⟨other,listed,rfl⟩ := exists_rule (nonterminal_defined rule inside)
    exact (plain other listed).1

private theorem expressionWords_ne_nil {sides : List (List Symbol)} (some : sides ≠ []) : expressionWords sides ≠ [] := by
  unfold expressionWords
  dsimp only
  by_cases optional : sides.any (·.isEmpty)
  · rw [if_pos optional]
    split <;> simp
  · have all : sides.filter (!·.isEmpty) = sides := by
      refine List.filter_eq_self.mpr fun side member => ?_
      have empty := List.any_eq_false.mp (Bool.eq_false_of_not_eq_true optional) side member
      simpa using empty
    rwa [if_neg optional,ne_eq,choiceWords_eq_nil_iff (by simp),all]

private theorem mem_choiceWords {sides : List (List Symbol)} {word : List Char} (member : word ∈ choiceWords sides) :
    word = ['|'] ∨ ∃ side ∈ sides, ∃ symbol ∈ side, word = symbol.text.toList := by
  rcases mem_intercalate member with bar | ⟨words,listed,inside⟩
  · exact .inl (by simpa using bar)
  · obtain ⟨side,own,rfl⟩ := List.mem_map.mp listed
    obtain ⟨symbol,among,rfl⟩ := List.mem_map.mp inside
    exact .inr ⟨side,own,symbol,among,rfl⟩

private theorem mem_expressionWords {sides : List (List Symbol)} {word : List Char} (member : word ∈ expressionWords sides) :
    word ∈ [['|'],['['],['"','"'],[']']] ∨ ∃ side ∈ sides, ∃ symbol ∈ side, word = symbol.text.toList := by
  have inner (own : word ∈ choiceWords (sides.filter (!·.isEmpty))) :
      word ∈ [['|'],['['],['"','"'],[']']] ∨ ∃ side ∈ sides, ∃ symbol ∈ side, word = symbol.text.toList := by
    obtain bar | ⟨side,filled,symbol,inside,same⟩ := mem_choiceWords own
    · exact .inl (by simp [bar])
    · exact .inr ⟨side,List.mem_of_mem_filter filled,symbol,inside,same⟩
  unfold expressionWords at member
  dsimp only at member
  split at member
  · split at member
    · refine .inl ?_
      simp only [List.mem_cons,List.not_mem_nil,or_false] at member ⊢
      tauto
    · simp only [List.cons_append,List.mem_cons,List.mem_append,List.not_mem_nil,or_false] at member
      rcases member with rfl | own | rfl
      · exact .inl (by simp)
      · exact inner own
      · exact .inl (by simp)
  · exact inner member

private theorem line_toList {grammar : Grammar} {name : String} (defined : name ∈ grammar.nonterminals) :
    (name ++ " = " ++ ebnfExpression (grammar.alternatives name) ++ " .\n").toList = lineOf (grammar.lineWords name) := by
  have words := expressionWords_ne_nil (sides_ne_nil defined)
  have expression : (ebnfExpression (grammar.alternatives name)).toList = [' '].intercalate (expressionWords (grammar.sides name)) :=
    ebnfExpression_toList _
  have tail : [' '].intercalate (['='] :: (expressionWords (grammar.sides name) ++ [['.']])) =
      ['=',' '] ++ [' '].intercalate (expressionWords (grammar.sides name)) ++ [' ','.'] := by
    rw [← List.singleton_append (x := ['=']),intercalate_append _ (by simp) (by simp),intercalate_append _ words (by simp)]
    simp
  rw [lineOf,lineWords,List.intercalate_cons_cons,tail,← expression]
  simp

private theorem ebnf_toList (grammar : Grammar) :
    grammar.ebnf.toList = (grammar.nonterminals.map grammar.lineWords ++ grammar.classes.map classWords).flatMap lineOf := by
  simp only [ebnf,String.toList_join,List.flatMap_append,List.flatMap_map]
  congr 1
  · exact List.flatMap_congr fun name defined => line_toList defined
  · exact List.flatMap_congr fun kind _ => by simp [classWords,lineOf,List.intercalate_cons_cons]

private theorem isClass_of_mem_classes {grammar : Grammar} {kind : TokenKind} (used : kind ∈ grammar.classes) : kind.isClass := by
  simp only [classes,classesOf,List.mem_eraseDups,List.mem_flatMap,List.mem_filterMap] at used
  obtain ⟨_,_,_,_,symbol,_,same⟩ := used
  cases symbol with
  | nonterminal name => simp at same
  | terminal own =>
    simp only [Option.ite_none_right_eq_some,Option.some.injEq] at same
    exact same.2 ▸ same.1

private theorem class_cases {kind : TokenKind} (named : kind.isClass) : kind = .string ∨ kind = .number ∨ kind = .identifier := by
  unfold TokenKind.isClass at named
  split at named
  · exact .inl rfl
  · exact .inr (.inl rfl)
  · exact .inr (.inr rfl)
  · cases named

private theorem isClassLine_classWords {kind : TokenKind} (named : kind.isClass) : isClassLine (classWords kind) := by
  rcases class_cases named with rfl | rfl | rfl <;> rfl

private theorem isClassLine_lineWords {grammar : Grammar} {name : String} (plain : PlainName name) :
    isClassLine (grammar.lineWords name) = false := by
  have other := plain.classless
  rw [← Bool.not_eq_true]
  intro taken
  simp only [isClassLine,lineWords,List.head?_cons,Option.any_some,List.contains_iff_mem,List.mem_map,String.toList_inj] at taken
  obtain ⟨label,listed,rfl⟩ := taken
  exact other listed

/-- No word of a line has a blank or a line break in it. -/
theorem solid_lineWords {grammar : Grammar} (plain : grammar.Plain) {name : String} (own : PlainName name) :
    ∀ word ∈ grammar.lineWords name, ' ' ∉ word ∧ '\n' ∉ word := by
  intro word member
  simp only [lineWords,List.mem_cons,List.mem_append,List.not_mem_nil,or_false] at member
  rcases member with rfl | rfl | inside | rfl
  · exact ⟨own.without (by decide),own.without (by decide)⟩
  · decide
  · rcases mem_expressionWords inside with sign | ⟨side,listed,symbol,among,rfl⟩
    · clear inside
      revert word
      decide
    · have word := (plain.side listed among).word
      exact ⟨word.1,word.2.1⟩
  · decide

private theorem solid_classWords {kind : TokenKind} (named : kind.isClass) :
    ∀ word ∈ classWords kind, ' ' ∉ word ∧ '\n' ∉ word := by
  rcases class_cases named with rfl | rfl | rfl <;> decide +kernel

private theorem readLine_lineWords {grammar : Grammar} (plain : grammar.Plain) (name : String) : readLine (grammar.lineWords name) =
    (name.toList,((grammar.sides name).filter (!·.isEmpty)).map (·.map some),(grammar.sides name).any (·.isEmpty)) := by
  rw [lineWords,readLine,List.dropLast_concat,readExpression_words fun side member symbol inside => plain.side member inside]

/-- The lines of the text are read back. -/
theorem readLines_ebnf {grammar : Grammar} (plain : grammar.Plain) : readLines grammar.ebnf.toList =
    grammar.nonterminals.map fun name =>
      (name.toList,((grammar.sides name).filter (!·.isEmpty)).map (·.map some),(grammar.sides name).any (·.isEmpty)) := by
  have named : ∀ name ∈ grammar.nonterminals, PlainName name := by
    intro name defined
    obtain ⟨rule,member,rfl⟩ := exists_rule defined
    exact (plain rule member).1
  have solid : ∀ line ∈ grammar.nonterminals.map grammar.lineWords ++ grammar.classes.map classWords,
      line ≠ [] ∧ ∀ word ∈ line, ' ' ∉ word ∧ '\n' ∉ word := by
    simp only [List.mem_append,List.mem_map]
    rintro line (⟨name,defined,rfl⟩ | ⟨kind,used,rfl⟩)
    · exact ⟨by simp [lineWords],solid_lineWords plain (named name defined)⟩
    · exact ⟨by simp [classWords],solid_classWords (isClass_of_mem_classes used)⟩
  rw [readLines,ebnf_toList,wordsOf_lines solid,List.filter_append,List.filter_eq_self.mpr,List.filter_eq_nil_iff.mpr,List.append_nil,
    List.map_map]
  · exact List.map_congr_left fun name _ => readLine_lineWords plain name
  · simp only [List.mem_map]
    rintro line ⟨kind,used,rfl⟩
    simp [isClassLine_classWords (isClass_of_mem_classes used)]
  · simp only [List.mem_map]
    rintro line ⟨name,defined,rfl⟩
    simp [isClassLine_lineWords (named name defined)]

/-- Grammars with one text have the same nonterminals with the same alternatives, but for the place of an empty one. -/
theorem ebnf_injective {first second : Grammar} (plain : first.Plain) (plain' : second.Plain) (same : first.ebnf = second.ebnf) :
    first.nonterminals = second.nonterminals ∧ ∀ name ∈ first.nonterminals,
      (first.sides name).filter (!·.isEmpty) = (second.sides name).filter (!·.isEmpty) ∧
      ([] ∈ first.sides name ↔ [] ∈ second.sides name) := by
  have tables := readLines_ebnf plain
  rw [same,readLines_ebnf plain'] at tables
  have names : second.nonterminals = first.nonterminals := by
    have heads := congrArg (List.map Prod.fst) tables
    rw [List.map_map,List.map_map] at heads
    exact List.map_injective_iff.mpr (fun _ _ => String.toList_inj.mp) heads
  refine ⟨names.symm,fun name member => ?_⟩
  rw [names] at tables
  have row := List.map_inj_left.mp tables name member
  simp only [Prod.mk.injEq,true_and] at row
  refine ⟨?_,?_⟩
  · exact List.map_injective_iff.mpr (List.map_injective_iff.mpr (Option.some_injective _)) row.1.symm
  · simpa using congrArg (· = true) row.2.symm

/-- Signs in front of an identifier, the empty alternative first. -/
def signs : Grammar := ⟨"S",[⟨"S",[.nonterminal "A",.terminal .identifier]⟩,⟨"A",[]⟩,⟨"A",[.terminal .plus,.nonterminal "A"]⟩],by decide +kernel⟩

/-- The same with the empty alternative last. -/
def signsLast : Grammar :=
  ⟨"S",[⟨"S",[.nonterminal "A",.terminal .identifier]⟩,⟨"A",[.terminal .plus,.nonterminal "A"]⟩,⟨"A",[]⟩],by decide +kernel⟩

theorem ebnf_injective_signs : signs.Plain ∧ signsLast.Plain ∧ signs.ebnf = signsLast.ebnf ∧ signs.nonterminals = signsLast.nonterminals ∧
    ∀ name ∈ signs.nonterminals, (signs.sides name).filter (!·.isEmpty) = (signsLast.sides name).filter (!·.isEmpty) ∧
      ([] ∈ signs.sides name ↔ [] ∈ signsLast.sides name) := by
  have names : PlainName "S" ∧ PlainName "A" := by decide
  have plain : signs.Plain := by simp [Plain,signs,names,TokenKind.named]
  have plain' : signsLast.Plain := by simp [Plain,signsLast,names,TokenKind.named]
  have same : signs.ebnf = signsLast.ebnf := by
    rw [← String.toList_inj,ebnf_toList,ebnf_toList]
    decide +kernel
  exact ⟨plain,plain',same,ebnf_injective plain plain' same⟩

end Grammar
end CFrontend
