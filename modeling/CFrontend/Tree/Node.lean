import CFrontend.Tree.Basic

/-!
Trees as they may come from elsewhere: any node may be missing, and a leaf may carry a name and
children besides its token.
-/
namespace CFrontend

/-- A node of a loose tree. -/
inductive Node where
  | absent
  | leaf (token : Token) (name : String) (children : List Node)
  | branch (name : String) (children : List Node)
deriving Repr, Inhabited

/-- The fault of a look into a node that is missing. -/
structure MissingNode where
deriving DecidableEq, Repr, Inhabited

/-- What is reported of the fault. -/
def MissingNode.message (_ : MissingNode) : String := "runtime error: invalid memory address or nil pointer dereference"

namespace Node

/-- The token of a leaf. -/
def token? : Node → Option Token
  | .leaf token _ _ => some token
  | _ => none

def children : Node → List Node
  | .absent => []
  | .leaf _ _ children | .branch _ children => children

/-- The child with a number, absent where there is none. -/
def child (node : Node) (index : Int) : Node :=
  if index < 0 then .absent else (node.children[index.toNat]?).getD .absent

mutual

/-- The place of the first leaf, which is looked for from left to right. No missing node may stand in front of it. -/
def position? : Node → Except MissingNode (Option Position)
  | .absent => .error {}
  | .leaf token _ _ => .ok (some token.pos)
  | .branch _ children => positions? children

/-- The place of the first leaf of several nodes. -/
def positions? : List Node → Except MissingNode (Option Position)
  | [] => .ok none
  | node :: rest => do
    match ← node.position? with
    | some pos => return some pos
    | none => positions? rest

end

mutual

/-- Whether two nodes have the same shape and the same tokens. What a leaf carries besides its
    token does not count. -/
def same : Node → Node → Bool
  | .absent, .absent => true
  | .leaf a _ _, .leaf b _ _ => a.same b
  | .branch name children, .branch name' children' =>
    name == name' && sameAll children children'
  | _, _ => false

/-- Whether two lists of nodes agree node by node. -/
def sameAll : List Node → List Node → Bool
  | [], [] => true
  | node :: rest, node' :: rest' => node.same node' && sameAll rest rest'
  | _, _ => false

end

mutual

/-- The parse tree of a node, if no node of it is missing. -/
def toTree? : Node → Option Tree
  | .absent => none
  | .leaf token _ _ => some (.leaf token)
  | .branch name children => (toTrees? children).map (Tree.branch name)

/-- The parse trees of several nodes. -/
def toTrees? : List Node → Option (List Tree)
  | [] => some []
  | node :: rest => match node.toTree?, toTrees? rest with
    | some tree, some trees => some (tree :: trees)
    | _, _ => none

end

end Node

namespace Tree

mutual

/-- A parse tree as a loose node. -/
def toNode : Tree → Node
  | .leaf token => .leaf token "" []
  | .branch name children => .branch name (toNodes children)

/-- Parse trees as loose nodes. -/
def toNodes : List Tree → List Node
  | [] => []
  | tree :: rest => tree.toNode :: toNodes rest

end

end Tree

end CFrontend
