import CFrontend.Token.Basic

/-!
A leaf is a token; an inner node has the name of the nonterminal it derives and its children in
order.
-/
namespace CFrontend

/-- A parse tree. -/
inductive Tree where
  | leaf (token : Token)
  | branch (name : String) (children : List Tree)
deriving Repr, Inhabited

namespace Tree

mutual

/-- The leaves from left to right. -/
def tokens : Tree → List Token
  | .leaf token => [token]
  | .branch _ children => forestTokens children

/-- The leaves of several trees from left to right. -/
def forestTokens : List Tree → List Token
  | [] => []
  | tree :: rest => tree.tokens ++ forestTokens rest

end

mutual

/-- Whether two trees have the same shape and the same tokens. -/
def same : Tree → Tree → Bool
  | .leaf a, .leaf b => a.same b
  | .branch name children, .branch name' children' =>
    name == name' && sameForest children children'
  | _, _ => false

/-- Whether two lists of trees agree tree by tree. -/
def sameForest : List Tree → List Tree → Bool
  | [], [] => true
  | tree :: rest, tree' :: rest' => tree.same tree' && sameForest rest rest'
  | _, _ => false

end

end Tree

end CFrontend
