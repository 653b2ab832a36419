import CFrontend.Token.Basic

/-!
The elements of right-hand sides and their written form: a terminal in double quotes, the name of
a token class, or the name of a nonterminal.
-/
namespace CFrontend

/-- One element of a right-hand side. -/
inductive Symbol where
  /-- A token of the given kind. -/
  | terminal (kind : TokenKind)
  | nonterminal (name : String)
deriving DecidableEq, Repr, Inhabited

namespace Symbol

/-- The nonterminal of a name. No nonterminal has the empty name, which stands for the terminal
    that no token matches. -/
def ofName (name : String) : Symbol :=
  if name = "" then .terminal .invalid else .nonterminal name

/-- The written form. -/
def text : Symbol → String
  | .terminal kind => if kind.isClass then kind.name else Text.quote kind.name
  | .nonterminal name => name

/-- Why a text is no symbol. -/
inductive Fault where
  | unknownTerminal (text : String)
  | invalidName (text : String)
deriving DecidableEq, Repr

def Fault.message : Fault → String
  | .unknownTerminal text => "unknown terminal " ++ text
  | .invalidName text => "invalid nonterminal name " ++ Text.quote text

/-- The token classes that are written by name. -/
def classes : List (String × TokenKind) :=
  [("Identifier",.identifier),("NumericLiteral",.number),("StringLiteral",.string)]

/-- The text between double quotes. -/
def unquoted? (text : List Char) : Option (List Char) :=
  match text with
  | '"' :: rest => if rest.getLast? = some '"' then some rest.dropLast else none
  | _ => none

/-- Whether a name contains a character that would end it. -/
def hasDelimiter (text : List Char) : Bool :=
  text.any fun c => c = '"' || c = ' ' || c = '\t' || c = '\n'

/-- Reads the written form of a symbol. -/
def read (text : String) : Except Fault Symbol :=
  match unquoted? text.toList with
  | some spelling => match Spelling.lookup spelling with
    | some kind => .ok (.terminal kind)
    | none => .error (.unknownTerminal text)
  | none => match classes.lookup text with
    | some kind => .ok (.terminal kind)
    | none =>
      if text.isEmpty || hasDelimiter text.toList then .error (.invalidName text)
      else .ok (.nonterminal text)

end Symbol

end CFrontend
