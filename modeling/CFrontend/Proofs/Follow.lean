import CFrontend.Proofs.Derivation

/-!
What can stand behind a nonterminal. `Follows` has, for all derivations from the start symbol, the kind of
the token right behind a tree of a nonterminal, or that the tokens end there. A subtree of a
derivation is always followed by what `Follows` allows for its nonterminal (`follows_of_occurs`).
-/
namespace CFrontend

/-- The kind of the first token, if there is one. -/
def lookahead (tokens : List Token) : Option TokenKind := tokens.head?.map (·.kind)

theorem lookahead_append (first second : List Token) :
    lookahead (first ++ second) = (lookahead first).or (lookahead second) := by
  cases first with
  | nil => rfl
  | cons token rest => rfl

namespace Tree

/-- The part stands somewhere in the tree, behind the tokens `before` and in front of the tokens `after`. -/
inductive Occurs (part : Tree) : Tree → (before after : List Token) → Prop
  | here : Occurs part part [] []
  | child {name : String} {front back : List Tree} {tree : Tree} {before after : List Token} :
    Occurs part tree before after →
    Occurs part (.branch name (front ++ tree :: back)) (forestTokens front ++ before) (after ++ forestTokens back)

theorem Occurs.tokens {part tree : Tree} {before after : List Token} (occurs : Occurs part tree before after) :
    tree.tokens = before ++ part.tokens ++ after := by
  induction occurs with
  | here => simp
  | child _ ih => simp [Tree.tokens,forestTokens_append,forestTokens,ih]

end Tree

namespace Grammar

variable {grammar : Grammar}

/-- In a derivation from the start symbol, a tree of the nonterminal can have a token of the kind right
    behind it; without a kind, it can stand at the end. -/
inductive Follows (grammar : Grammar) : String → Option TokenKind → Prop
  | start : Follows grammar grammar.start none
  | inside {rule : Rule} {before after : List Symbol} {name : String} {trees : List Tree}
    {next : Option TokenKind} : Follows grammar rule.lhs next → rule ∈ grammar.rules →
    rule.rhs = before ++ .nonterminal name :: after → grammar.DerivesAll after trees →
    Follows grammar name ((lookahead (Tree.forestTokens trees)).or next)

private theorem derivesAll_split {symbols : List Symbol} {front back : List Tree} {tree : Tree}
    (derived : grammar.DerivesAll symbols (front ++ tree :: back)) :
    ∃ before symbol after, symbols = before ++ symbol :: after ∧ grammar.Derives symbol tree ∧
      grammar.DerivesAll after back := by
  induction front generalizing symbols with
  | nil =>
    obtain ⟨symbol,after,rfl,own,others⟩ := (derivesAll_tree_cons_iff symbols tree back).mp derived
    exact ⟨[],symbol,after,rfl,own,others⟩
  | cons first front ih =>
    obtain ⟨head,tail,rfl,-,others⟩ := (derivesAll_tree_cons_iff symbols first _).mp derived
    obtain ⟨before,symbol,after,rfl,own,behind⟩ := ih others
    exact ⟨head :: before,symbol,after,rfl,own,behind⟩

/-- What stands behind a subtree of a tree can follow the nonterminal of the subtree, when what stands
    behind the tree can follow the nonterminal of the tree. -/
theorem follows_of_occurs {inner name : String} {children : List Tree} {tree : Tree} {before after rest : List Token}
    (occurs : Tree.Occurs (.branch inner children) tree before after)
    (derived : grammar.Derives (.nonterminal name) tree) (behind : grammar.Follows name (lookahead rest)) :
    grammar.Follows inner (lookahead (after ++ rest)) := by
  induction occurs generalizing name rest with
  | here =>
    obtain ⟨rfl,-⟩ := derived
    exact behind
  | @child label front back tree before after occurs ih =>
    obtain ⟨rfl,rule,member,rfl,spelled⟩ := derived
    obtain ⟨left,symbol,right,rhs,own,others⟩ := derivesAll_split spelled
    cases symbol with
    | nonterminal next =>
      have nearer := Follows.inside behind member rhs others
      rw [← lookahead_append] at nearer
      simpa using ih own nearer
    | terminal kind =>
      -- Nothing but a leaf derives a terminal, and no branch stands in a leaf.
      obtain ⟨token,rfl,-⟩ := (derives_terminal_iff kind tree).mp own
      cases occurs

/-- In a derivation from the start symbol, what stands behind a subtree can follow its nonterminal. -/
theorem DerivationOf.follows {inner : String} {children : List Tree} {tree : Tree} {tokens before after : List Token}
    (derivation : grammar.DerivationOf tokens tree)
    (occurs : Tree.Occurs (.branch inner children) tree before after) :
    grammar.Follows inner (lookahead after) := by
  have closing : grammar.Follows grammar.start (lookahead []) := .start
  simpa using follows_of_occurs occurs derivation.1 closing

end Grammar

end CFrontend
