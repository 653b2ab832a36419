import CFrontend.Settings.Number
import CFrontend.Settings.Yaml.Fault
import CFrontend.Settings.Yaml.Timestamp

/-!
A plain text stands for a word with a meaning, a timestamp, a number or itself. A tag in front of a
scalar demands one of these kinds.
-/
namespace CFrontend.Settings.Yaml

/-- The kinds of scalars. -/
inductive Tag where
  | null
  | bool
  | int
  | float
  | timestamp
  | str
deriving DecidableEq, Repr

namespace Tag

def all : List Tag := [.null,.bool,.int,.float,.timestamp,.str]

def name : Tag → String
  | .null => "!!null"
  | .bool => "!!bool"
  | .int => "!!int"
  | .float => "!!float"
  | .timestamp => "!!timestamp"
  | .str => "!!str"

/-- The kind with a name. -/
def ofName? (name : String) : Option Tag := all.find? (·.name == name)

end Tag

/-- A scalar: its text, its kind and its value. -/
structure Scalar where
  text : List Char
  tag : Tag
  value : Value
deriving DecidableEq, Repr

/-- The words with a meaning. -/
def words : List (String × Tag × Value) :=
  let each (tag : Tag) (value : Value) (spellings : List String) : List (String × Tag × Value) :=
    spellings.map (·,tag,value)
  each .null .null ["","~","null","Null","NULL"] ++
    each .bool (.bool true) ["true","True","TRUE"] ++
    each .bool (.bool false) ["false","False","FALSE"] ++
    each .float (.float Binary64.nan) [".nan",".NaN",".NAN"] ++
    each .float (infinite false) [".inf",".Inf",".INF","+.inf","+.Inf","+.INF"] ++
    each .float (infinite true) ["-.inf","-.Inf","-.INF"]

/-- Whether every underscore stands between two digits; `afterDigit` tells of the character
    before. -/
def underscoresSeparate (afterDigit : Bool) : List Char → Bool
  | [] => true
  | '_' :: c :: rest => afterDigit && isDecimalDigit c && underscoresSeparate true rest
  | ['_'] => false
  | c :: rest => underscoresSeparate (isDecimalDigit c) rest

/-- The number that a text is. It starts with a digit, a sign or a period. Underscores do not count,
    but after a period at the start they must separate digits. -/
def number? (text : List Char) : Option (Tag × Value) :=
  let bare := text.filter (· ≠ '_')
  match text with
  | '.' :: _ =>
    if underscoresSeparate false text then (float? bare).map fun x => (.float,.float x) else none
  | c :: _ =>
    if isDecimalDigit c || c = '+' || c = '-' then
      match integer? bare with
      | some n => some (.int,.integer n)
      | none => (float? bare).map fun x => (.float,.float x)
    else none
  | [] => none

/-- What a text stands for apart from timestamps. -/
def resolvePlain (text : List Char) : Scalar :=
  let word := String.ofList text
  match words.lookup word with
  | some (tag,value) => ⟨text,tag,value⟩
  | none => match number? text with
    | some (tag,value) => ⟨text,tag,value⟩
    | none => ⟨text,.str,.text word⟩

/-- What a plain text stands for. -/
def resolve (text : List Char) : Scalar :=
  match timestamp? text with
  | some timestamp => ⟨text,.timestamp,.text timestamp.text⟩
  | none => resolvePlain text

/-- A text that stands for itself. -/
def Scalar.quoted (text : List Char) : Scalar := ⟨text,.str,.text (String.ofList text)⟩

/-- What a text under a tag stands for. An integer is also a floating number. -/
def resolveAs (tag : Tag) (text : List Char) : Except YamlFault Scalar :=
  let found := if tag = .timestamp then resolve text else resolvePlain text
  if tag = .str then .ok (.quoted text)
  else if found.tag = tag then .ok found
  else match tag, found.value with
    | .float, .integer n => match Binary64.ofDecimal? n.natAbs 0 with
      | some x => .ok ⟨text,.float,.float (if n < 0 then x.negate else x)⟩
      | none => .ok found
    | _, _ => .error (.wrongTag found.tag.name (String.ofList text) tag.name)

/-- A scalar as messages show it, by its kind and its text, which is cut after seven bytes if it has
    more than ten. -/
def Scalar.shown (scalar : Scalar) : String :=
  let bytes := Text.encode scalar.text
  let short := if 10 < bytes.length then Text.display (bytes.take 7) ++ "..."
    else String.ofList scalar.text
  scalar.tag.name ++ " \x60" ++ short ++ "\x60"

end CFrontend.Settings.Yaml
