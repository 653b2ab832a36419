import CFrontend.Grammar.Symbol

/-!
A grammar is a list of rules and a start symbol with exactly one rule. Every nonterminal on a
right-hand side has a rule, and every terminal is one that a token can match. Rules keep their
order, which is the order in which the alternatives of a nonterminal are tried.
-/
namespace CFrontend

/-- One alternative of a nonterminal. With no symbols it derives the empty text. -/
structure Rule where
  lhs : String
  rhs : List Symbol
deriving DecidableEq, Repr, Inhabited

/-- The rule on one line. -/
def Rule.text (rule : Rule) : String :=
  rule.lhs ++ " ->" ++
    if rule.rhs.isEmpty then " ε" else rule.rhs.foldl (fun line s => line ++ " " ++ s.text) ""

/-- A rule together with its place in the list. -/
structure Production where
  index : Nat
  rule : Rule
deriving DecidableEq, Repr, Inhabited

namespace Grammar

/-- Why a list of rules is no grammar. -/
inductive Fault where
  | emptyName (index : Nat)
  | startAlternatives (start : String) (count : Nat)
  | invalidTerminal (index : Nat) (rule : Rule)
  | undefined (index : Nat) (rule : Rule) (name : String)
deriving DecidableEq, Repr

def Fault.message : Fault → String
  | .emptyName index => "rule " ++ toString index ++ ": empty left-hand side"
  | .startAlternatives start count =>
    "start symbol " ++ Text.quote start ++ " must have exactly one alternative, has " ++
      toString count
  | .invalidTerminal index rule =>
    "rule " ++ toString index ++ " (" ++ rule.text ++ "): invalid terminal"
  | .undefined index rule name =>
    "rule " ++ toString index ++ " (" ++ rule.text ++ "): undefined nonterminal " ++ Text.quote name

/-- Whether a name has a rule. -/
def defines (rules : List Rule) (name : String) : Bool := rules.any fun rule => rule.lhs == name

/-- What is wrong with a symbol of a rule. -/
def symbolFault? (rules : List Rule) (index : Nat) (rule : Rule) : Symbol → Option Fault
  | .terminal kind => if kind = .invalid then some (.invalidTerminal index rule) else none
  | .nonterminal name => if defines rules name then none else some (.undefined index rule name)

/-- The first rule without a name. -/
def nameFault? (rules : List Rule) : Option Fault :=
  rules.zipIdx.findSome? fun (rule,index) =>
    if rule.lhs = "" then some (.emptyName index) else none

/-- Whether the start symbol has other than one rule. -/
def startFault? (start : String) (rules : List Rule) : Option Fault :=
  let count := rules.countP fun rule => rule.lhs == start
  if count = 1 then none else some (.startAlternatives start count)

/-- The first symbol that is wrong. -/
def rightFault? (rules : List Rule) : Option Fault :=
  rules.zipIdx.findSome? fun (rule,index) => rule.rhs.findSome? (symbolFault? rules index rule)

/-- What is wrong with a list of rules: empty names come first, then the start symbol, then the
    right-hand sides. -/
def fault? (start : String) (rules : List Rule) : Option Fault :=
  match nameFault? rules with
  | some fault => some fault
  | none => match startFault? start rules with
    | some fault => some fault
    | none => rightFault? rules

end Grammar

/-- A checked list of rules. -/
structure Grammar where
  start : String
  rules : List Rule
  valid : Grammar.fault? start rules = none

namespace Grammar

/-- Checks a list of rules. -/
def ofRules (start : String) (rules : List Rule) : Except Fault Grammar :=
  match h : fault? start rules with
  | some fault => .error fault
  | none => .ok ⟨start,rules,h⟩

/-- The productions of a name among rules numbered from `index` on. -/
def productionsFrom (name : String) (index : Nat) : List Rule → List Production
  | [] => []
  | rule :: rest =>
    if rule.lhs = name then ⟨index,rule⟩ :: productionsFrom name (index + 1) rest
    else productionsFrom name (index + 1) rest

/-- The alternatives of a nonterminal, in order. -/
def alternatives (grammar : Grammar) (name : String) : List Production :=
  productionsFrom name 0 grammar.rules

/-- The nonterminals in the order of their first rules. -/
def nonterminals (grammar : Grammar) : List String := (grammar.rules.map (·.lhs)).eraseDups

end Grammar

end CFrontend
