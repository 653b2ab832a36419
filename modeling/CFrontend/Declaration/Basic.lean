import CFrontend.Text.Separated
import CFrontend.Tree.Node

/-!
The top level of a C source. Function bodies and initializers stay trees.
-/
namespace CFrontend

/-- A type: specifiers in order, the tag of the last tagged struct, union or enum among them, and
    the number of pointers. -/
structure TypeName where
  specifiers : List TokenKind := []
  tag : List UInt8 := []
  pointers : Nat := 0
deriving DecidableEq, Repr, Inhabited

namespace TypeName

/-- Whether a specifier can have a tag. -/
def takesTag : TokenKind → Bool
  | .kwStruct | .kwUnion | .kwEnum => true
  | _ => false

/-- A specifier, with the tag if it can have one. -/
def specifierText (tag : List UInt8) (specifier : TokenKind) : String :=
  if !tag.isEmpty && takesTag specifier then specifier.name ++ " " ++ Text.display tag
  else specifier.name

def text (type : TypeName) : String :=
  let specifiers := Text.separated " " (type.specifiers.map (specifierText type.tag))
  if type.pointers = 0 then specifiers
  else specifiers ++ " " ++ String.ofList (List.replicate type.pointers '*')

/-- Whether the type is plain `void`. -/
def isVoid (type : TypeName) : Bool := type.specifiers == [.kwVoid] && type.pointers == 0

end TypeName

/-- A parameter; its name is empty if it has none. -/
structure Parameter where
  type : TypeName
  name : List UInt8 := []
deriving DecidableEq, Repr, Inhabited

def Parameter.text (parameter : Parameter) : String :=
  if parameter.name.isEmpty then parameter.type.text
  else parameter.type.text ++ " " ++ Text.display parameter.name

/-- The part of a function before its body. -/
structure Header where
  type : TypeName
  name : List UInt8
  parameters : List Parameter
deriving DecidableEq, Repr, Inhabited

def Header.text (header : Header) : String :=
  let parameters := Text.separated ", " (header.parameters.map Parameter.text)
  header.type.text ++ " " ++ Text.display header.name ++ "(" ++ parameters ++ ")"

/-- A declaration at the top level. -/
inductive Declaration where
  | forward (header : Header)
  | function (header : Header) (body : Node)
  /-- An object with its number of array dimensions and its initializer, if it has one. -/
  | object (type : TypeName) (name : List UInt8) (arrays : Nat) (initializer : Option Node)
  | typedef (type : TypeName) (name : List UInt8) (arrays : Nat)
  /-- A struct, union or enum on its own. -/
  | typeOnly (type : TypeName)
  | empty
deriving Repr, Inhabited

namespace Declaration

/-- A name with its array dimensions. -/
def dimensioned (type : TypeName) (name : List UInt8) (arrays : Nat) : String :=
  type.text ++ " " ++ Text.display name ++ String.join (List.replicate arrays "[]")

/-- The declaration on one line. -/
def text : Declaration → String
  | .forward header => "declare " ++ header.text
  | .function header _ => "define " ++ header.text
  | .object type name arrays initializer =>
    "var " ++ dimensioned type name arrays ++ if initializer.isSome then " = ..." else ""
  | .typedef type name arrays => "typedef " ++ dimensioned type name arrays
  | .typeOnly type => "type " ++ type.text
  | .empty => "empty"

end Declaration

end CFrontend
