import CFrontend.Settings.JsonDocument
import CFrontend.Settings.Value

/-!
A file of settings is one object. Numbers are floating; arrays and nested objects are no values of
settings.
-/
namespace CFrontend.Settings

namespace JsonDocument

/-- The word for the kind of a document. -/
def kind : JsonDocument → String
  | .null => "null"
  | .bool _ => "bool"
  | .number _ _ => "number"
  | .string _ => "string"
  | .array _ => "array"
  | .object _ => "object"

/-- The value of a setting. -/
def toValue : JsonDocument → Value
  | .null => .null
  | .bool value => .bool value
  | .number _ value => (value.map .float).getD .null
  | .string value => .text value
  | .array _ | .object _ => .compound

mutual

/-- The first number that is too large. -/
def tooLarge? : JsonDocument → Option String
  | .null | .bool _ | .string _ => none
  | .number text value => if value.isNone then some text else none
  | .array items => tooLargeItem? items
  | .object members => tooLargeMember? members

/-- The first number among items that is too large. -/
def tooLargeItem? : List JsonDocument → Option String
  | [] => none
  | item :: rest => (tooLarge? item).or (tooLargeItem? rest)

/-- The first number among members that is too large. -/
def tooLargeMember? : List (String × JsonDocument) → Option String
  | [] => none
  | (_,value) :: rest => (tooLarge? value).or (tooLargeMember? rest)

end

end JsonDocument

/-- Why a JSON text has no settings. -/
inductive JsonFileFault where
  | syntactic (fault : JsonFault)
  | notObject (kind : String)
  | tooLarge (number : String)
deriving DecidableEq, Repr

def JsonFileFault.message : JsonFileFault → String
  | .syntactic fault => fault.message
  | .notObject kind =>
    "json: cannot unmarshal " ++ kind ++ " into Go value of type map[string]interface \x7b\x7d"
  | .tooLarge number =>
    "json: cannot unmarshal number " ++ number ++ " into Go value of type float64"

/-- The settings of a JSON file; a file of nothing but null has none. -/
def readJson (text : List Char) : Except JsonFileFault (List (String × Value)) :=
  match JsonDocument.read text with
  | .error fault => .error (.syntactic fault)
  | .ok .null => .ok []
  | .ok (.object members) => match JsonDocument.tooLargeMember? members with
    | some number => .error (.tooLarge number)
    | none => .ok (members.map fun (name,document) => (name,document.toValue))
  | .ok document => .error (.notObject document.kind)

end CFrontend.Settings
