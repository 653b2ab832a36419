import CFrontend.Declaration.Basic

/-!
Reads the top level of a tree of the C grammar. A tree of another shape is reported with what was
expected in place of the first node that does not fit. Only a node that is there can be looked into;
a look into any other one is a fault of its own.
-/
namespace CFrontend.Declaration

/-- Why a tree cannot be read. -/
inductive Fault where
  /-- Something else was expected in place of a node. -/
  | shape (node : Node) (want : String)
  /-- A node that had to be looked into is missing. -/
  | missing
deriving Repr

namespace Fault

/-- What a node is called in a message. -/
def describe : Node → String
  | .absent => "nil"
  | .leaf token _ _ => "token " ++ token.text
  | .branch name _ => name

/-- What is said of a fault, with the place of the node that does not fit. The place is looked for in the node, where a
    look into a missing one fails again. -/
def report : Fault → Except MissingNode String
  | .shape .absent want => return "expected " ++ want ++ ", found " ++ describe .absent
  | .shape node want => do
    let found := "expected " ++ want ++ ", found " ++ describe node
    match ← node.position? with
    | some pos => return pos.text ++ ": " ++ found
    | none => return found
  | .missing => throw {}

/-- The text of a report, or of the fault that it ends in. -/
def message (fault : Fault) : String :=
  match fault.report with
  | .ok text => text
  | .error absence => absence.message

end Fault

/-- A list of numbers in brackets. -/
def lengthsText (lengths : List Nat) : String :=
  "[" ++ Text.separated " " (lengths.map fun length => toString length) ++ "]"

/-- Expects an inner node with a name, and if lengths are given one of these numbers of
    children. -/
def expect (node : Node) (name : String) (lengths : List Nat) : Except Fault Unit :=
  match node with
  | .branch found children =>
    if found ≠ name then .error (.shape node name)
    else if lengths.isEmpty || lengths.contains children.length then .ok ()
    else .error (.shape node (name ++ " with " ++ lengthsText lengths ++ " children"))
  | _ => .error (.shape node name)

/-- Expects a leaf of a kind. -/
def expectToken (node : Node) (kind : TokenKind) : Except Fault Token :=
  match node with
  | .leaf token _ _ => if token.kind = kind then .ok token else .error (.shape node kind.name)
  | _ => .error (.shape node kind.name)

/-- The children of a node that is looked into. -/
def childrenOf (node : Node) : Except Fault (List Node) :=
  match node with
  | .absent => .error .missing
  | .leaf _ _ children | .branch _ children => .ok children

/-- The child with a number of a node that is looked into, absent where there is none. -/
def childOf (node : Node) (index : Int) : Except Fault Node :=
  match node with
  | .absent => .error .missing
  | node => .ok (node.child index)

@[simp] theorem childrenOf_branch (name : String) (children : List Node) :
    childrenOf (.branch name children) = .ok children := rfl

@[simp] theorem childOf_branch (name : String) (children : List Node) (index : Int) :
    childOf (.branch name children) index = .ok ((Node.branch name children).child index) := rfl

/-- The number of pointers: the links of the chain. -/
def countPointers (node : Node) : Except Fault Nat := do
  expect node "Pointers" [0,2,3]
  match node with
  | .absent => throw .missing
  | .branch _ [_,next] | .branch _ [_,_,next] => return (← countPointers next) + 1
  | _ => return 0

/-- The number of array dimensions: the links of the chain. -/
def countArrays (node : Node) : Except Fault Nat := do
  expect node "Arrays" [0,3,4]
  match node with
  | .absent => throw .missing
  | .branch _ [_,_,next] | .branch _ [_,_,_,next] => return (← countArrays next) + 1
  | _ => return 0

/-- Adds one specifier to a type: a keyword, or a struct, union or enum that starts with its keyword
    and may go on with its tag. Which of them it is shows only inside of it. -/
def readSpecifier (type : TypeName) (node : Node) : Except Fault TypeName := do
  expect node "Specifier" [1]
  match ← childOf node 0 with
  | .absent => throw .missing
  | .leaf token _ _ => return { type with specifiers := type.specifiers ++ [token.kind] }
  | .branch name children =>
    match children.head?.bind Node.token? with
    | none => throw (.shape (.branch name children) "struct, union or enum keyword")
    | some keyword =>
      let type := { type with specifiers := type.specifiers ++ [keyword.kind] }
      match ← childOf (.branch name children) 1 with
      | .leaf tag _ _ =>
        return if tag.kind = .identifier then { type with tag := tag.literal } else type
      | _ => return type

/-- The specifiers of a type, in order. -/
def readSpecifiers (node : Node) : Except Fault TypeName := do
  expect node "Specifiers" [1,2]
  match node with
  | .absent => throw .missing
  | .branch _ [init,specifier] => readSpecifier (← readSpecifiers init) specifier
  | .branch _ [specifier] => readSpecifier {} specifier
  | _ => return {}

/-- A type. -/
def readType (node : Node) : Except Fault TypeName := do
  expect node "Type" [2]
  let type ← readSpecifiers (← childOf node 0)
  let pointers ← countPointers (← childOf node 1)
  return { type with pointers := pointers }

/-- A type and the name that follows it. -/
def readNamed (node : Node) : Except Fault (TypeName × List UInt8) := do
  expect node "TypeWithIdentifier" [2]
  let type ← readType (← childOf node 0)
  let name ← expectToken (← childOf node 1) .identifier
  return (type,name.literal)

/-- A parameter. An array parameter is a pointer. -/
def readParameter (node : Node) : Except Fault Parameter := do
  expect node "Parameter" [1,2]
  if (← childrenOf node).length = 1 then return { type := ← readType (← childOf node 0) }
  else
    let (type,name) ← readNamed (← childOf node 0)
    let arrays ← countArrays (← childOf node 1)
    return { type := { type with pointers := type.pointers + arrays },name := name }

/-- The parameters of a list, in order. The last one stands outermost. -/
def readParameters (node : Node) : Except Fault (List Parameter) := do
  expect node "Parameters" [1,3]
  match node with
  | .absent => throw .missing
  | .branch _ [init,_,last] =>
    let parameter ← readParameter last
    return (← readParameters init) ++ [parameter]
  | .branch _ [last] => return [← readParameter last]
  | _ => return []

/-- The parameters of a function; a lone `void` without a name stands for none. -/
def readParameterList (node : Node) : Except Fault (List Parameter) := do
  expect node "ParameterList" [0,1]
  match node with
  | .absent => throw .missing
  | .branch _ [parameters] =>
    match ← readParameters parameters with
    | [parameter] =>
      return if parameter.name.isEmpty && parameter.type.isVoid then [] else [parameter]
    | parameters => return parameters
  | _ => return []

/-- The part of a function before its body. -/
def readHeader (node : Node) : Except Fault Header := do
  expect node "FunctionHeader" [4]
  let (type,name) ← readNamed (← childOf node 0)
  let parameters ← readParameterList (← childOf node 2)
  return ⟨type,name,parameters⟩

/-- An object. -/
def readObject (node : Node) : Except Fault Declaration := do
  expect node "Declaration" [3]
  let (type,name) ← readNamed (← childOf node 0)
  let arrays ← countArrays (← childOf node 1)
  let init ← childOf node 2
  expect init "Init" [0,2]
  if (← childrenOf init).length = 2 then
    let initializer ← childOf init 1
    expect initializer "Initializer" []
    return .object type name arrays (some initializer)
  else return .object type name arrays none

/-- A type definition. -/
def readTypedef (node : Node) : Except Fault Declaration := do
  expect node "Typedef" [3]
  let _ ← expectToken (← childOf node 0) .kwTypedef
  let (type,name) ← readNamed (← childOf node 1)
  let arrays ← countArrays (← childOf node 2)
  return .typedef type name arrays

/-- A function without a body. -/
def readForward (node : Node) : Except Fault Declaration := do
  expect node "ForwardDeclaration" [1]
  return .forward (← readHeader (← childOf node 0))

/-- A function with a body. -/
def readFunction (node : Node) : Except Fault Declaration := do
  expect node "FunctionDefinition" [2]
  let header ← readHeader (← childOf node 0)
  let body ← childOf node 1
  expect body "Block" []
  return .function header body

/-- A type on its own. -/
def readTypeDeclaration (node : Node) : Except Fault Declaration := do
  expect node "TypeDeclaration" [1]
  return .typeOnly (← readType (← childOf node 0))

/-- One declaration of the top level. What it declares shows only inside of its first child. -/
def readStatement (node : Node) : Except Fault Declaration := do
  expect node "TopStatement" [1,2]
  match ← childOf node 0 with
  | .absent => throw .missing
  | .leaf token name children =>
    let _ ← expectToken (.leaf token name children) .semicolon
    return .empty
  | .branch name children =>
    if (← childrenOf node).length = 2 then
      let _ ← expectToken (← childOf node 1) .semicolon
    let inner := Node.branch name children
    if name = "Declaration" then readObject inner
    else if name = "ForwardDeclaration" then readForward inner
    else if name = "FunctionDefinition" then readFunction inner
    else if name = "Typedef" then readTypedef inner
    else if name = "TypeDeclaration" then readTypeDeclaration inner
    else throw (.shape inner "top-level declaration")

/-- The declarations of the top level, in order. -/
def readStatements (node : Node) : Except Fault (List Declaration) := do
  expect node "TopStatements" [0,2]
  match node with
  | .absent => throw .missing
  | .branch _ [first,rest] =>
    let declaration ← readStatement first
    return declaration :: (← readStatements rest)
  | _ => return []

/-- The declarations of a whole source. -/
def read (root : Node) : Except Fault (List Declaration) := do
  expect root "Start" [1]
  readStatements (← childOf root 0)

end CFrontend.Declaration
