import CFrontend.Grammar.Basic

/-!
The nonterminals that derive the empty text, as the least set closed under the rules.
-/
namespace CFrontend.Grammar

/-- Whether all symbols are nonterminals among the given ones. -/
def allNullable (nullable : List String) (symbols : List Symbol) : Bool :=
  symbols.all fun
    | .terminal _ => false
    | .nonterminal name => nullable.contains name

/-- Adds the left-hand side of a rule whose symbols are all known to be nullable. -/
def addNullable (nullable : List String) (rule : Rule) : List String :=
  if nullable.contains rule.lhs || !allNullable nullable rule.rhs then nullable
  else rule.lhs :: nullable

/-- Repeats passes over the rules until one adds nothing. -/
def saturate (rules : List Rule) : (passes : Nat) → List String → List String
  | 0, nullable => nullable
  | passes + 1, nullable =>
    let next := rules.foldl addNullable nullable
    if next.length = nullable.length then nullable else saturate rules passes next

/-- The nonterminals that derive the empty text. Every pass but the last adds a left-hand side, so
    one pass more than there are rules is enough. -/
def nullable (grammar : Grammar) : List String :=
  saturate grammar.rules (grammar.rules.length + 1) []

end CFrontend.Grammar
