import CFrontend.Json
import CFrontend.Tree.Basic

/-!
Three forms: an outline with one node a line, a one-line form with parentheses, and JSON.
-/
namespace CFrontend.Tree

/-- The start of a line of the outline, two blanks for each level. -/
def indentation (depth : Nat) : String := String.ofList (List.replicate (2 * depth) ' ')

mutual

/-- The lines of the outline, one for each node, indented by depth; a leaf is shown with its
    place. -/
def outlineAt (depth : Nat) : Tree → List String
  | .leaf token => [indentation depth ++ token.text ++ " @" ++ token.pos.text ++ "\n"]
  | .branch name children => (indentation depth ++ name ++ "\n") :: outlinesAt (depth + 1) children

/-- The lines of the outlines of several trees. -/
def outlinesAt (depth : Nat) : List Tree → List String
  | [] => []
  | tree :: rest => outlineAt depth tree ++ outlinesAt depth rest

end

/-- One node a line. -/
def outline (tree : Tree) : String := String.join (outlineAt 0 tree)

mutual

/-- The tree on one line, such as `(Expr (Expr (Term a)) + (Term b))`. -/
def sexpr : Tree → String
  | .leaf token => token.leafText
  | .branch name children => "(" ++ name ++ sexprs children ++ ")"

/-- Several trees, each after a blank. -/
def sexprs : List Tree → String
  | [] => ""
  | tree :: rest => " " ++ tree.sexpr ++ sexprs rest

end

/-- A leaf as JSON: kind, text and place, and the type of a number. -/
def leafJson (token : Token) : Json :=
  let kind := ("kind",Json.text (Text.bytesOf token.kind.name))
  let text := ("text",Json.text token.leafBytes)
  let type := if token.kind = .number
    then [("type",Json.text (Text.bytesOf token.number.type.name))] else []
  let position := ("position",Json.object [
    ("line",.integer token.pos.line),("column",.integer token.pos.column)])
  .object [("kind",.text (Text.bytesOf "Token")),
    ("token",.object ([kind,text] ++ type ++ [position]))]

mutual

/-- The tree as JSON; a node without children has no list of them. -/
def json : Tree → Json
  | .leaf token => leafJson token
  | .branch name children =>
    let kind := ("kind",Json.text (Text.bytesOf name))
    match children with
    | [] => .object [kind]
    | _ => .object [kind,("children",.array (jsons children))]

/-- Several trees as JSON. -/
def jsons : List Tree → List Json
  | [] => []
  | tree :: rest => tree.json :: jsons rest

end

end CFrontend.Tree

namespace CFrontend

/-- A form in which trees are shown. -/
inductive Rendering where
  | outline
  | sexpr
  | json
deriving DecidableEq, Repr

namespace Rendering

/-- The rendering with a name. -/
def ofName? (name : String) : Option Rendering :=
  if name = "tree" then some .outline
  else if name = "sexpr" then some .sexpr
  else if name = "json" then some .json
  else none

/-- What is said of a name that no rendering has. -/
def unknownMessage (name : String) : String := "unknown format: " ++ name

/-- A tree in a form, ending with a line break. -/
def render (rendering : Rendering) (tree : Tree) : String :=
  match rendering with
  | .outline => tree.outline
  | .sexpr => tree.sexpr ++ "\n"
  | .json => tree.json.pretty ++ "\n"

end Rendering

end CFrontend
