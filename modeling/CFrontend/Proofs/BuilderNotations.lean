import CFrontend.Grammar.Builder
import CFrontend.Text.Separated
import Mathlib.Data.List.Basic

/-!
The two notations of a builder. A symbol that is read has the text that it was read from (`Symbol.text_of_read`), so symbols
joined with blanks are read back as they were exactly when each of their texts is one word. Reading a symbol refuses blanks,
tabs and line feeds only, while words also end at every other kind of white space: a name that contains one is a symbol as it
stands, and several words in an alternative (`alternatives_eq_rule_iff`).
-/
namespace CFrontend

/-! ### Words -/
namespace Text

/-- White space ends what is read before it and leaves nothing of it to what follows. -/
theorem wordsFrom_append (word front rest : List Char) {c : Char} (space : isSpace c = true) :
    wordsFrom word (front ++ c :: rest) = wordsFrom word front ++ wordsFrom [] rest := by
  induction front generalizing word with
  | nil =>
    simp only [List.nil_append,wordsFrom,if_pos space]
    by_cases empty : word.isEmpty = true
    · rw [if_pos empty,if_pos empty,List.nil_append]
    · rw [if_neg empty,if_neg empty,List.singleton_append]
  | cons d front ih =>
    rw [List.cons_append,wordsFrom,wordsFrom]
    by_cases between : isSpace d = true
    · rw [if_pos between,if_pos between]
      by_cases empty : word.isEmpty = true
      · rw [if_pos empty,if_pos empty,ih]
      · rw [if_neg empty,if_neg empty,ih,List.cons_append]
    · rw [if_neg between,if_neg between,ih]

private theorem wordsFrom_solid {word chars : List Char} (solid : ∀ c ∈ chars, isSpace c = false) (filled : chars ++ word ≠ []) :
    wordsFrom word chars = [word.reverse ++ chars] := by
  induction chars generalizing word with
  | nil =>
    have some : ¬ word.isEmpty = true := by simpa using filled
    rw [wordsFrom,if_neg some,List.append_nil]
  | cons c chars ih =>
    obtain ⟨own,others⟩ := List.forall_mem_cons.mp solid
    rw [wordsFrom,if_neg (by simp [own]),ih others (by simp),List.reverse_cons,List.append_assoc,List.singleton_append]

/-- No word contains white space. -/
theorem solid_of_mem_wordsFrom {word text found : List Char} (begun : ∀ c ∈ word, isSpace c = false)
    (member : found ∈ wordsFrom word text) : ∀ c ∈ found, isSpace c = false := by
  induction text generalizing word with
  | nil =>
    rw [wordsFrom] at member
    split at member
    · simp at member
    · obtain rfl := List.mem_singleton.mp member
      intro c inside
      exact begun c (List.mem_reverse.mp inside)
  | cons c text ih =>
    rw [wordsFrom] at member
    split at member
    · split at member
      · exact ih (by simp) member
      · rcases List.mem_cons.mp member with rfl | later
        · intro d inside
          exact begun d (List.mem_reverse.mp inside)
        · exact ih (by simp) later
    · rename_i letter
      exact ih (List.forall_mem_cons.mpr ⟨by simpa using letter,begun⟩) member

/-- Whether a text is free of white space. -/
def IsSolid (text : String) : Prop := ∀ c ∈ text.toList, isSpace c = false

private theorem words_of_solid {text : String} (filled : text ≠ "") (solid : IsSolid text) : words text = [text] := by
  rw [words,wordsFrom_solid solid (by simpa using filled)]
  simp

private theorem solid_of_mem_words {text word : String} (member : word ∈ words text) : IsSolid word := by
  obtain ⟨found,own,rfl⟩ := List.mem_map.mp member
  intro c inside
  exact solid_of_mem_wordsFrom (by simp) own c (by simpa using inside)

private theorem words_append (first rest : String) : words (first ++ " " ++ rest) = words first ++ words rest := by
  have chars : (first ++ " " ++ rest).toList = first.toList ++ ' ' :: rest.toList := by simp
  rw [words,chars,wordsFrom_append [] _ _ (by decide),List.map_append]
  rfl

private theorem words_separated (texts : List String) : words (separated " " texts) = texts.flatMap words := by
  induction texts with
  | nil => rfl
  | cons text rest ih =>
    cases rest with
    | nil => simp [separated]
    | cons next others =>
      have joined : separated " " (text :: next :: others) = text ++ " " ++ separated " " (next :: others) := rfl
      rw [joined,words_append,ih]
      rfl

/-- Texts joined with blanks are the words of what they are joined to exactly when each of them is a word. -/
theorem flatMap_words_eq_iff {texts : List String} (filled : ∀ text ∈ texts, text ≠ "") :
    texts.flatMap words = texts ↔ ∀ text ∈ texts, IsSolid text := by
  constructor
  · intro same text listed
    rw [← same] at listed
    obtain ⟨source,-,member⟩ := List.mem_flatMap.mp listed
    exact solid_of_mem_words member
  · intro solid
    induction texts with
    | nil => rfl
    | cons text rest ih =>
      obtain ⟨own,others⟩ := List.forall_mem_cons.mp filled
      obtain ⟨first,later⟩ := List.forall_mem_cons.mp solid
      rw [List.flatMap_cons,words_of_solid own first,ih others later,List.singleton_append]

end Text

/-! ### Symbols -/

namespace Symbol

/-- The spelling of a terminal in double quotes is its text. -/
theorem text_of_spelling : ∀ spelling ∈ Spelling.all,
    (Symbol.terminal spelling.kind).text = String.ofList ('"' :: spelling.text ++ ['"']) := by
  decide +kernel

private theorem text_of_class : ∀ entry ∈ classes, (Symbol.terminal entry.2).text = entry.1 := by
  decide +kernel

private theorem eq_of_unquoted {text spelling : List Char} (quoted : unquoted? text = some spelling) :
    text = '"' :: spelling ++ ['"'] := by
  unfold unquoted? at quoted
  split at quoted
  · rename_i rest
    split at quoted
    · rename_i last
      obtain rfl := Option.some.inj quoted
      obtain ⟨front,rfl⟩ := List.getLast?_eq_some_iff.mp last
      simp
    · simp at quoted
  · simp at quoted

private theorem mem_of_lookup {spelling : List Char} {kind : TokenKind} (found : Spelling.lookup spelling = some kind) :
    ∃ entry ∈ Spelling.all, entry.text = spelling ∧ entry.kind = kind := by
  obtain ⟨entry,first,rfl⟩ := Option.map_eq_some_iff.mp found
  exact ⟨entry,List.mem_of_find?_eq_some first,by simpa using List.find?_some first,rfl⟩

/-- A symbol that is read has the text that it is read from. -/
theorem text_of_read {text : String} {symbol : Symbol} (accepted : read text = .ok symbol) : symbol.text = text := by
  unfold read at accepted
  split at accepted
  · rename_i spelling quoted
    split at accepted
    · rename_i kind found
      obtain rfl := Except.ok.inj accepted
      obtain ⟨entry,listed,rfl,rfl⟩ := mem_of_lookup found
      rw [text_of_spelling entry listed,← eq_of_unquoted quoted,String.ofList_toList]
    · simp at accepted
  · split at accepted
    · rename_i kind found
      obtain rfl := Except.ok.inj accepted
      obtain ⟨front,back,split,-⟩ := List.lookup_eq_some_iff.mp found
      exact text_of_class (text,kind) (by rw [split]; simp)
    · split at accepted
      · simp at accepted
      · obtain rfl := Except.ok.inj accepted
        rfl

private theorem ne_empty_of_read {text : String} {symbol : Symbol} (accepted : read text = .ok symbol) : text ≠ "" := by
  rintro rfl
  have refused : read "" = .error (.invalidName "") := rfl
  simp [refused] at accepted

end Symbol

/-! ### Rules -/

namespace Grammar.Builder

private theorem readSymbols_total {texts : List String} (accepted : ∀ text ∈ texts, ∃ symbol, Symbol.read text = .ok symbol) :
    ∃ symbols, readSymbols texts = .ok symbols := by
  induction texts with
  | nil => exact ⟨[],rfl⟩
  | cons text rest ih =>
    obtain ⟨⟨symbol,first⟩,others⟩ := List.forall_mem_cons.mp accepted
    obtain ⟨symbols,later⟩ := ih others
    exact ⟨symbol :: symbols,by simp [readSymbols,first,later]⟩

private theorem texts_of_readSymbols {texts : List String} {symbols : List Symbol} (accepted : readSymbols texts = .ok symbols) :
    symbols.map Symbol.text = texts := by
  induction texts generalizing symbols with
  | nil =>
    obtain rfl := Except.ok.inj accepted
    rfl
  | cons text rest ih =>
    rw [readSymbols] at accepted
    split at accepted
    · simp at accepted
    · rename_i symbol first
      split at accepted
      · simp at accepted
      · rename_i others later
        obtain rfl := Except.ok.inj accepted
        rw [List.map_cons,Symbol.text_of_read first,ih later]

private theorem rule_of_fault {builder : Builder} {fault : BuildFault} (stopped : builder.added = .error fault) (lhs : String)
    (texts : List String) : builder.rule lhs texts = builder := by
  simp only [rule,stopped]

private theorem rule_of_symbols {builder : Builder} {rules : List Rule} {texts : List String} {symbols : List Symbol}
    (going : builder.added = .ok rules) (accepted : readSymbols texts = .ok symbols) (lhs : String) :
    builder.rule lhs texts = { builder with added := .ok (⟨lhs,symbols⟩ :: rules) } := by
  simp only [rule,going,accepted]

/-- Other texts for symbols that are read add another rule. -/
theorem rule_inj {builder : Builder} {rules : List Rule} {texts others : List String} {symbols : List Symbol} {lhs : String}
    (going : builder.added = .ok rules) (accepted : readSymbols texts = .ok symbols)
    (same : builder.rule lhs others = builder.rule lhs texts) : others = texts := by
  rw [rule_of_symbols going accepted] at same
  cases read : readSymbols others with
  | error fault => simp [rule,going,read] at same
  | ok found =>
    rw [rule_of_symbols going read] at same
    have equal : found = symbols := by simpa using same
    rw [← texts_of_readSymbols read,equal,texts_of_readSymbols accepted]

/-- An alternative written with blanks between symbols, each of which can be read, adds the rule of these symbols, unless one
    of their texts contains white space: then it does so only if the builder has a fault already, which stays with either. Every
    symbol that is read has the text that it is read from. -/
theorem alternatives_eq_rule_iff (builder : Builder) (lhs : String) (texts : List String)
    (accepted : ∀ text ∈ texts, ∃ symbol, Symbol.read text = .ok symbol) :
    (builder.alternatives lhs [Text.separated " " texts] = builder.rule lhs texts ↔
      (∃ fault, builder.added = .error fault) ∨ ∀ text ∈ texts, ∀ c ∈ text.toList, Text.isSpace c = false) ∧
    ∀ text symbol, Symbol.read text = .ok symbol → symbol.text = text := by
  have filled : ∀ text ∈ texts, text ≠ "" := by
    intro text listed
    obtain ⟨symbol,read⟩ := accepted text listed
    exact Symbol.ne_empty_of_read read
  have joined : builder.alternatives lhs [Text.separated " " texts] = builder.rule lhs (texts.flatMap Text.words) := by
    rw [← Text.words_separated]
    rfl
  refine ⟨?_,fun text symbol => Symbol.text_of_read⟩
  rw [joined]
  cases going : builder.added with
  | error fault => simp [rule_of_fault going]
  | ok rules =>
    obtain ⟨symbols,read⟩ := readSymbols_total accepted
    have exact_words := Text.flatMap_words_eq_iff filled
    constructor
    · intro same
      exact .inr (exact_words.mp (rule_inj going read same))
    · rintro (⟨fault,stopped⟩ | solid)
      · simp at stopped
      · rw [exact_words.mpr solid]

/-- A name with a carriage return is a symbol, and no longer one in an alternative. -/
theorem alternatives_eq_rule_iff_carriageReturn :
    (∀ text ∈ ["A\rB","\"+\""], ∃ symbol, Symbol.read text = .ok symbol) ∧
    alternatives ⟨"S",.ok []⟩ "S" [Text.separated " " ["A\rB","\"+\""]] ≠ rule ⟨"S",.ok []⟩ "S" ["A\rB","\"+\""] ∧
    alternatives ⟨"S",.ok []⟩ "S" [Text.separated " " ["A","\"+\""]] = rule ⟨"S",.ok []⟩ "S" ["A","\"+\""] ∧
    (Symbol.nonterminal "A\rB").text = "A\rB" := by
  have name : Symbol.read "A\rB" = .ok (.nonterminal "A\rB") := by rfl
  have plain : Symbol.read "A" = .ok (.nonterminal "A") := by rfl
  have plus : Symbol.read "\"+\"" = .ok (.terminal .plus) := by rfl
  have broken : ∀ text ∈ ["A\rB","\"+\""], ∃ symbol, Symbol.read text = .ok symbol := by
    simp [name,plus]
  have whole : ∀ text ∈ ["A","\"+\""], ∃ symbol, Symbol.read text = .ok symbol := by
    simp [plain,plus]
  obtain ⟨differs,texts⟩ := alternatives_eq_rule_iff ⟨"S",.ok []⟩ "S" _ broken
  obtain ⟨agrees,-⟩ := alternatives_eq_rule_iff ⟨"S",.ok []⟩ "S" _ whole
  have solid : ∀ text ∈ ["A","\"+\""], ∀ c ∈ text.toList, Text.isSpace c = false := by simp [Text.isSpace]
  refine ⟨broken,?_,agrees.mpr (.inr solid),texts _ _ name⟩
  intro same
  rcases differs.mp same with ⟨fault,stopped⟩ | solid
  · cases stopped
  · exact absurd (solid "A\rB" (by simp) '\r' (by decide)) (by decide)

end Grammar.Builder

end CFrontend
