import CFrontend.Grammar.Basic
import CFrontend.Text.Separated

/-!
One production a nonterminal, in order. The notation has no empty alternative: a nonterminal with
one has its other alternatives in an option. Each token class in use becomes a production of its
own, which expands to a placeholder.
-/
namespace CFrontend.Grammar

/-- The expression of the alternatives of a nonterminal. -/
def ebnfExpression (alternatives : List Production) : String :=
  let sides := alternatives.map (·.rule.rhs)
  let texts := (sides.filter (!·.isEmpty)).map fun side => Text.separated " " (side.map Symbol.text)
  let choice := Text.separated " | " texts
  if sides.any (·.isEmpty) then if texts.isEmpty then "[ \"\" ]" else "[ " ++ choice ++ " ]"
  else choice

/-- The token classes on the right-hand sides of productions, in order. -/
def classesOf (productions : List Production) : List TokenKind :=
  productions.flatMap fun production => production.rule.rhs.filterMap fun
    | .terminal kind => if kind.isClass then some kind else none
    | .nonterminal _ => none

/-- The token classes in use, in the order of their first use. -/
def classes (grammar : Grammar) : List TokenKind :=
  (grammar.nonterminals.flatMap fun name => classesOf (grammar.alternatives name)).eraseDups

/-- The placeholder of a token class. -/
def placeholder (kind : TokenKind) : String := Text.quote (kind.name.map Char.toLower)

/-- The number of EBNF productions. -/
def ebnfSize (grammar : Grammar) : Nat := grammar.nonterminals.length + grammar.classes.length

/-- The nonterminals on the right-hand sides of some nonterminals. -/
def successors (grammar : Grammar) (names : List String) : List String :=
  names.flatMap fun name => (grammar.alternatives name).flatMap fun production =>
    production.rule.rhs.filterMap fun
      | .nonterminal next => some next
      | .terminal _ => none

/-- The nonterminals in at most `steps` steps from some nonterminals. -/
def within (grammar : Grammar) : (steps : Nat) → List String → List String
  | 0, names => names
  | steps + 1, names => within grammar steps (names ++ grammar.successors names).eraseDups

/-- Whether every nonterminal can be reached from the start. No path needs more steps than there are
    nonterminals. -/
def isConnected (grammar : Grammar) : Bool :=
  let reached := grammar.within grammar.nonterminals.length [grammar.start]
  grammar.nonterminals.all reached.contains

/-- The grammar as EBNF. -/
def ebnf (grammar : Grammar) : String :=
  let named := grammar.nonterminals.map fun name =>
    name ++ " = " ++ ebnfExpression (grammar.alternatives name) ++ " .\n"
  let classed := grammar.classes.map fun kind => kind.name ++ " = " ++ placeholder kind ++ " .\n"
  String.join (named ++ classed)

end CFrontend.Grammar
