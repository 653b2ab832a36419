import CFrontend.Proofs.CTables
import CFrontend.Proofs.Unrepeated

/-!
The grammar of C is unambiguous. Its tables show that no two valid items clash, so every list of tokens has at most
one derivation. A parse finds every derivation once, so it has no two trees to
report, whatever the source text is (`unambiguous`).
-/
namespace CFrontend.Parser

variable {grammar : Grammar}

/-- Where no tokens have two derivations and no rule is listed twice, a parse of given tokens has no two trees. -/
theorem parse_ne_ambiguous (unambiguous : grammar.Unambiguous) (once : grammar.rules.Nodup) (options : Options)
    (tokens : List Token) (pos : Position) (trees : List Tree) :
    parse grammar options ⟨tokens,.finished pos⟩ ≠ .error (.ambiguous trees) := by
  rcases parse_cases grammar options tokens pos with ⟨result,last,settled,members⟩ | ⟨_,_,_,rejected,-⟩ | ⟨_,_,limited⟩
  · rw [settled]
    match found : result.complete with
    | [] => simp [settle,found]
    | [only] => simp [settle,choose,found]
    | left :: right :: others =>
      have unrepeated : result.complete.Nodup :=
        lastPass_nodup once tokens 0 (initial grammar) (scattered_initial grammar tokens) rfl last
      have derivation : ∀ tree ∈ result.complete, grammar.DerivationOf tokens tree := fun tree member =>
        found_derivation ((members tree).mp member)
      rw [found] at unrepeated derivation
      have same := unambiguous tokens left right (derivation left (by simp)) (derivation right (by simp))
      simp [same] at unrepeated
  · simp [rejected]
  · simp [limited]

/-- The same for a source text, with or without lexical errors. -/
theorem parse_ofSource_ne_ambiguous (unambiguous : grammar.Unambiguous) (once : grammar.rules.Nodup)
    (options : Options) (source : Source) (trees : List Tree) :
    parse grammar options (.ofSource source) ≠ .error (.ambiguous trees) := by
  -- Neither a lexical error nor a failure to read on is an ambiguity.
  have broken : ∀ (tokens : List Token) (error : ParseError), (∀ trees, error ≠ .ambiguous trees) →
      parse grammar options ⟨tokens,.broken error⟩ ≠ .error (.ambiguous trees) := by
    intro tokens error other ambiguous
    obtain ⟨reported,failed,same⟩ := run_broken (Table.of grammar) options error tokens 0 (initial grammar)
    exact other trees (same trees (Except.error.inj (failed.symm.trans ambiguous)))
  simp only [TokenStream.ofSource]
  split
  · exact broken _ _ (by simp)
  · exact broken _ _ (by simp)
  · exact parse_ne_ambiguous unambiguous once options _ _ trees

end CFrontend.Parser

namespace CFrontend.CLanguage
open Grammar

/-- Every list of tokens has at most one derivation in the grammar of C, and no source text is reported as
    ambiguous. -/
theorem unambiguous :
    (∀ tokens first second, grammar.DerivationOf tokens first → grammar.DerivationOf tokens second → first = second) ∧
    ∀ options source trees, Parser.parse grammar options (.ofSource source) ≠ .error (.ambiguous trees) := by
  have apart : grammar.Apart := ItemTable.apart_of_checked lookaheads_closed items_checked
  have unused : ∀ rule ∈ grammar.rules, Symbol.nonterminal grammar.start ∉ rule.rhs := by decide +kernel
  have single : grammar.Unambiguous := unambiguous_of_apart apart unused
  exact ⟨single,Parser.parse_ofSource_ne_ambiguous single (ItemTable.nodup_of_checked items_checked)⟩

/-- The declaration of an integer. -/
def plainDeclaration : Tree :=
  .branch "Declaration" [
    .branch "TypeWithIdentifier" [
      .branch "Type" [.branch "Specifiers" [.branch "Specifier" [.leaf (.bare .kwInt)]],.branch "Pointers" []],
      .leaf (.bare .identifier)],
    .branch "Arrays" [],.branch "Init" []]

/-- The declaration of an integer alone, which has no other derivation. -/
theorem unambiguous_plainDeclaration : ∃ tree,
    grammar.DerivationOf [.bare .kwInt,.bare .identifier,.bare .semicolon] tree ∧
    ∀ other, grammar.DerivationOf [.bare .kwInt,.bare .identifier,.bare .semicolon] other → other = tree := by
  have declared : grammar.Derives (.nonterminal "Declaration") plainDeclaration :=
    derives_of_getElem? 20 rfl
      ⟨derives_of_getElem? 32 rfl
        ⟨derives_of_getElem? 33 rfl
          ⟨derives_of_getElem? 34 rfl ⟨derives_of_getElem? 39 rfl ⟨rfl,trivial⟩,trivial⟩,
            derives_of_getElem? 59 rfl trivial,trivial⟩,rfl,trivial⟩,
        derives_of_getElem? 29 rfl trivial,derives_of_getElem? 21 rfl trivial,trivial⟩
  have derivation : grammar.DerivationOf [.bare .kwInt,.bare .identifier,.bare .semicolon]
      (.branch "Start" [.branch "TopStatements" [
        .branch "TopStatement" [plainDeclaration,.leaf (.bare .semicolon)],.branch "TopStatements" []]]) :=
    ⟨derives_of_getElem? 0 rfl
      ⟨derives_of_getElem? 2 rfl
        ⟨derives_of_getElem? 3 rfl ⟨declared,rfl,trivial⟩,derives_of_getElem? 1 rfl trivial,trivial⟩,trivial⟩,rfl⟩
  exact ⟨_,derivation,fun other another => unambiguous.1 _ other _ another derivation⟩

end CFrontend.CLanguage
