import CFrontend.Grammar.Basic
import CFrontend.Text.Space

/-!
Rules are added one alternative at a time, their symbols in written form. The first fault stays,
and nothing is added after it.
-/
namespace CFrontend.Grammar

/-- Why written rules are no grammar. -/
inductive BuildFault where
  /-- A symbol of a rule for `lhs` cannot be read. -/
  | symbol (lhs : String) (fault : Symbol.Fault)
  | rules (fault : Fault)
deriving DecidableEq, Repr

def BuildFault.message : BuildFault → String
  | .symbol lhs fault => "rule " ++ lhs ++ ": " ++ fault.message
  | .rules fault => fault.message

/-- The rules so far, the last one first, or the fault. -/
structure Builder where
  start : String
  added : Except BuildFault (List Rule) := .ok []

namespace Builder

/-- Reads written symbols up to the first fault. -/
def readSymbols : List String → Except Symbol.Fault (List Symbol)
  | [] => .ok []
  | text :: rest =>
    match Symbol.read text with
    | .error fault => .error fault
    | .ok symbol => match readSymbols rest with
      | .error fault => .error fault
      | .ok symbols => .ok (symbol :: symbols)

/-- Adds an alternative given by its symbols. -/
def rule (builder : Builder) (lhs : String) (symbols : List String) : Builder :=
  match builder.added with
  | .error _ => builder
  | .ok rules => match readSymbols symbols with
    | .error fault => { builder with added := .error (.symbol lhs fault) }
    | .ok rhs => { builder with added := .ok (⟨lhs,rhs⟩ :: rules) }

/-- Adds alternatives, each written as one text with white space between its symbols. -/
def alternatives (builder : Builder) (lhs : String) (texts : List String) : Builder :=
  texts.foldl (fun builder text => builder.rule lhs (Text.words text)) builder

/-- The grammar of the rules. -/
def build (builder : Builder) : Except BuildFault Grammar :=
  match builder.added with
  | .error fault => .error fault
  | .ok rules => match ofRules builder.start rules.reverse with
    | .error fault => .error (.rules fault)
    | .ok grammar => .ok grammar

end Builder

end CFrontend.Grammar
