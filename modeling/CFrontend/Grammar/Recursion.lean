import CFrontend.Grammar.Nullable

/-!
A cycle is a chain of productions, each starting with the nonterminal of the next, that returns to
the nonterminal it starts from. The index of a grammar has, for each nonterminal, the cycles that
pass no nonterminal twice and need at least one token.
-/
namespace CFrontend.Grammar

/-- A chain of productions that returns to the left-hand side of the first. -/
abbrev Cycle := List Production

/-- Whether one turn through a cycle needs a token: some production has more after its first symbol
    than what derives the empty text. -/
def consumes (nullable : List String) (cycle : Cycle) : Bool :=
  cycle.any fun production => !allNullable nullable production.rule.rhs.tail

/-- The cycles of `root` that go on from a path, last production first, which leads to `name`. The
    path passes no nonterminal twice, so `depth` need not exceed the number of nonterminals. -/
def cyclesThrough (grammar : Grammar) (nullable : List String) (root : String) :
    (depth : Nat) → (path : List Production) → (name : String) → List Cycle
  | 0, _, _ => []
  | depth + 1, path, name =>
    (grammar.alternatives name).flatMap fun production =>
      match production.rule.rhs with
      | .nonterminal next :: _ =>
        let path := production :: path
        if next = root then if consumes nullable path then [path.reverse] else []
        else if path.any fun step => step.rule.lhs == next then []
        else cyclesThrough grammar nullable root depth path next
      | _ => []

/-- The cycles of a nonterminal, in the order of their productions. -/
def cyclesOf (grammar : Grammar) (nullable : List String) (name : String) : List Cycle :=
  cyclesThrough grammar nullable name grammar.rules.length [] name

/-- The cycles of a nonterminal of a grammar. -/
def cycles (grammar : Grammar) (name : String) : List Cycle :=
  grammar.cyclesOf grammar.nullable name

/-- The cycles of every nonterminal. -/
abbrev RecursionIndex := List (String × List Cycle)

/-- The index of a grammar. -/
def recursionIndex (grammar : Grammar) : RecursionIndex :=
  let nullable := grammar.nullable
  grammar.nonterminals.map fun name => (name,grammar.cyclesOf nullable name)

/-- The cycles that an index has for a nonterminal. -/
def RecursionIndex.get (index : RecursionIndex) (name : String) : List Cycle :=
  (index.lookup name).getD []

end CFrontend.Grammar
