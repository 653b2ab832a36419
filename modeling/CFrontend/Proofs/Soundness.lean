import CFrontend.Proofs.Outcome
import CFrontend.Proofs.PartialDerivation
import Mathlib

/-!
The parser is sound: every tree that it returns, and every tree that it lists as ambiguous, is a
derivation tree of exactly the tokens it was given.
-/
namespace CFrontend.Parser

variable {grammar : Grammar}

/-- A complete state that all tokens lead to has a derivation of them. -/
theorem found_derivation {tokens : List Token} {tree : Tree} (found : Found grammar tokens tree) :
    grammar.DerivationOf tokens tree := by
  obtain ⟨state,reached,finished,alone,rfl⟩ := found
  obtain ⟨-,derivation⟩ := reached.partialDerivation
  rw [alone,List.take_length] at derivation
  cases derivation with
  | root valid named _ => exact ⟨named ▸ valid.derives finished,rfl⟩

/-- A parse that gets to the last pass settles on its trees, which are those found. -/
theorem parse_cases (grammar : Grammar) (options : Options) (tokens : List Token) (pos : Position) :
    (∃ result, lastPass (Table.of grammar) options.maxStates pos 0 (initial grammar) tokens = .ok result ∧
      parse grammar options ⟨tokens,.finished pos⟩ = settle options.ambiguity pos result ∧
      ∀ tree, tree ∈ result.complete ↔ Found grammar tokens tree) ∨
    (∃ token expected canEnd, parse grammar options ⟨tokens,.finished pos⟩ =
        .error (.unexpected token expected canEnd) ∧ ∀ tree, ¬ Found grammar tokens tree) ∨
    ∃ limit place, parse grammar options ⟨tokens,.finished pos⟩ = .error (.stateLimit limit place) := by
  have correct := lastPass_spec grammar options.maxStates pos tokens
  rw [parse_eq_lastPass]
  rcases lastPass_cases (Table.of grammar) options.maxStates pos tokens 0 (initial grammar) with
    ⟨result,last⟩ | ⟨token,expected,canEnd,last⟩ | ⟨limit,place,last⟩
  · rw [last] at correct ⊢
    exact .inl ⟨result,rfl,rfl,correct⟩
  · rw [last] at correct ⊢
    exact .inr (.inl ⟨token,expected,canEnd,rfl,correct⟩)
  · rw [last]
    exact .inr (.inr ⟨limit,place,rfl⟩)

/-- A parse before an unreadable rest fails, there or earlier, and an earlier error has no trees. -/
theorem run_broken (table : Table) (options : Options) (error : ParseError) (tokens : List Token) (current : Nat)
    (live : List State) : ∃ reported, run table options (.broken error) current live tokens = .error reported ∧
      ∀ trees, reported = .ambiguous trees → error = .ambiguous trees := by
  induction tokens generalizing current live with
  | nil => exact ⟨error,rfl,fun _ same => same⟩
  | cons token rest ih =>
    simp only [run]
    split
    · exact ⟨_,rfl,by simp⟩
    · split
      · exact ⟨_,rfl,by simp⟩
      · exact ih _ _

theorem derivation_of_parse {options : Options} {stream : TokenStream} {tree : Tree}
    (parsed : parse grammar options stream = .ok tree) : grammar.DerivationOf stream.tokens tree := by
  obtain ⟨tokens,ending⟩ := stream
  cases ending with
  | broken error =>
    obtain ⟨reported,failed,-⟩ := run_broken (Table.of grammar) options error tokens 0 (initial grammar)
    rw [parse,failed] at parsed
    simp at parsed
  | finished pos =>
    rcases parse_cases grammar options tokens pos with ⟨result,-,settled,members⟩ | ⟨_,_,_,rejected,-⟩ | ⟨_,_,limited⟩
    · rw [settled] at parsed
      have taken := mem_of_chosen ((settle_ok_iff options.ambiguity pos result tree).mp parsed)
      exact found_derivation ((members tree).mp (mem_of_mem_distinct taken))
    · simp [rejected] at parsed
    · simp [limited] at parsed

/-- Each tree of an outcome is a derivation tree of the grammar from its start symbol, and its leaves
    are the tokens in order. -/
theorem parse_sound (grammar : Grammar) (options : Options) (tokens : List Token) (pos : Position) :
    (∀ tree, parse grammar options ⟨tokens,.finished pos⟩ = .ok tree → grammar.DerivationOf tokens tree) ∧
    ∀ trees, parse grammar options ⟨tokens,.finished pos⟩ = .error (.ambiguous trees) →
      ∀ tree ∈ trees, grammar.DerivationOf tokens tree := by
  rcases parse_cases grammar options tokens pos with ⟨result,-,settled,members⟩ | ⟨_,_,_,rejected,-⟩ | ⟨_,_,limited⟩
  · rw [settled]
    constructor
    · intro tree ok
      have taken := mem_of_chosen ((settle_ok_iff options.ambiguity pos result tree).mp ok)
      exact found_derivation ((members tree).mp (mem_of_mem_distinct taken))
    · intro trees ambiguous tree member
      obtain ⟨rfl,-⟩ := (settle_ambiguous_iff options.ambiguity pos result trees).mp ambiguous
      exact found_derivation ((members tree).mp (mem_of_mem_distinct member))
  · simp [rejected]
  · simp [limited]

/-- Identifiers with plus signs behind them; the left recursion is direct as well as through `F`, so
    that each plus sign has two readings. -/
def marked : Grammar :=
  ⟨"S",[⟨"S",[.nonterminal "E"]⟩,⟨"E",[.nonterminal "E",.terminal .plus]⟩,⟨"E",[.nonterminal "F"]⟩,
    ⟨"E",[.terminal .identifier]⟩,⟨"F",[.nonterminal "E",.terminal .plus]⟩],by decide +kernel⟩

/-- An identifier alone. -/
def plain : Tree := .branch "E" [.leaf (.bare .identifier)]

/-- An identifier has one tree, an identifier with a plus sign two; all of them are derivations. -/
theorem parse_sound_marked :
    (parse marked {} ⟨[.bare .identifier],.finished .origin⟩ = .ok (.branch "S" [plain]) ∧
      marked.DerivationOf [.bare .identifier] (.branch "S" [plain])) ∧
    (parse marked {} ⟨[.bare .identifier,.bare .plus],.finished .origin⟩ =
        .error (.ambiguous [.branch "S" [.branch "E" [plain,.leaf (.bare .plus)]],
          .branch "S" [.branch "E" [.branch "F" [plain,.leaf (.bare .plus)]]]]) ∧
      marked.DerivationOf [.bare .identifier,.bare .plus]
        (.branch "S" [.branch "E" [.branch "F" [plain,.leaf (.bare .plus)]]])) := by
  have one : parse marked {} ⟨[.bare .identifier],.finished .origin⟩ = .ok (.branch "S" [plain]) := by cbv
  have two : parse marked {} ⟨[.bare .identifier,.bare .plus],.finished .origin⟩ =
      .error (.ambiguous [.branch "S" [.branch "E" [plain,.leaf (.bare .plus)]],
        .branch "S" [.branch "E" [.branch "F" [plain,.leaf (.bare .plus)]]]]) := by cbv
  exact ⟨⟨one,(parse_sound marked {} _ _).1 _ one⟩,two,(parse_sound marked {} _ _).2 _ two _ (by simp)⟩

end CFrontend.Parser
