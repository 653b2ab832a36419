import CFrontend.Settings.Yaml.Quoted
import CFrontend.Settings.Yaml.Scalar

/-!
Lists in brackets and mappings in braces, over any number of lines.
-/
namespace CFrontend.Settings.Yaml

/-- A setting and its line. -/
structure Entry where
  line : Nat
  name : String
  value : Value
deriving DecidableEq, Repr

/-- A node of a flow collection. -/
inductive FlowNode where
  | scalar (scalar : Scalar)
  | sequence
  | mapping (entries : List Entry)
deriving Repr

namespace FlowNode

/-- The value of a setting. -/
def value : FlowNode → Value
  | .scalar content => content.value
  | .sequence | .mapping _ => .compound

/-- The name that a node is as a key. -/
def name : FlowNode → String
  | .scalar content => String.ofList content.text
  | .sequence | .mapping _ => ""

end FlowNode

/-- Passes over blanks, line breaks and comments. -/
def skipGaps : (fuel : Nat) → Cursor → Cursor
  | 0, cursor => cursor
  | fuel + 1, cursor => match cursor.text with
    | c :: _ =>
      if isGap c then skipGaps fuel (cursor.drop 1)
      else if c = '#' then skipGaps fuel (cursor.drop cursor.lineText.length)
      else cursor
    | [] => cursor

/-- The next thing in a flow collection. -/
def nextThing (cursor : Cursor) : Cursor := skipGaps cursor.text.length cursor

/-- Whether a character ends a plain scalar in a flow collection. -/
def isFlowMark (c : Char) : Bool := c = ',' || c = '[' || c = ']' || c = '\x7b' || c = '\x7d'

/-- The characters of a plain scalar in a flow collection, last one first. -/
def readFlowPlain : (fuel : Nat) → (read : List Char) → Cursor → List Char × Cursor
  | 0, read, cursor => (read,cursor)
  | fuel + 1, read, cursor => match cursor.text with
    | [] => (read,cursor)
    | c :: rest =>
      if isGap c then
        let gap := cursor.text.takeWhile isGap
        let after := cursor.drop gap.length
        match after.text with
        | [] => (read,after)
        | next :: more =>
          if next = '#' || isFlowMark next || (next = ':' && endsMark more) then (read,after)
          else readFlowPlain fuel ((foldGap gap).reverse ++ read) after
      else if isFlowMark c || (c = ':' && endsMark rest) then (read,cursor)
      else readFlowPlain fuel (c :: read) (cursor.drop 1)

mutual

/-- A node; one that is not written is null. -/
def readFlowNode : (fuel : Nat) → Cursor → Except YamlFault (FlowNode × Cursor)
  | 0, cursor => .ok (.scalar (resolve []),cursor)
  | fuel + 1, cursor => match cursor.text with
    | '[' :: _ =>
      (readFlowItems fuel cursor.line (nextThing (cursor.drop 1))).map (.sequence,·)
    | '\x7b' :: _ =>
      (readFlowMembers fuel cursor.line (nextThing (cursor.drop 1))).map fun (entries,after) =>
        (.mapping entries,after)
    | text =>
      if startsQuoted text then
        (readQuoted cursor).map fun (text,after) => (.scalar (.quoted text),after)
      else
        let (read,after) := readFlowPlain (text.length + 1) [] cursor
        .ok (.scalar (resolve read.reverse),after)

/-- The items of a list up to its end. -/
def readFlowItems : (fuel : Nat) → (start : Nat) → Cursor → Except YamlFault Cursor
  | 0, start, cursor => .error (.order start cursor.line .noItemEnd)
  | fuel + 1, start, cursor => match cursor.text with
    | ']' :: _ => .ok (cursor.drop 1)
    | ',' :: _ | '\x7d' :: _ => .error (.order cursor.line cursor.line .noContent)
    | _ => match readFlowPair fuel cursor with
      | .error fault => .error fault
      | .ok (_,after) => match (nextThing after).text with
        | ',' :: _ => readFlowItems fuel start (nextThing ((nextThing after).drop 1))
        | ']' :: _ => .ok ((nextThing after).drop 1)
        | _ => .error (.order start (nextThing after).line .noItemEnd)

/-- The members of a mapping up to its end. -/
def readFlowMembers : (fuel : Nat) → (start : Nat) → Cursor → Except YamlFault (List Entry × Cursor)
  | 0, start, cursor => .error (.order start cursor.line .noMemberEnd)
  | fuel + 1, start, cursor => match cursor.text with
    | '\x7d' :: _ => .ok ([],cursor.drop 1)
    | ',' :: _ | ']' :: _ => .error (.order cursor.line cursor.line .noContent)
    | _ => match readFlowPair fuel cursor with
      | .error fault => .error fault
      | .ok ((key,value),after) =>
        let entry : Entry := ⟨cursor.line,key.name,value.value⟩
        match (nextThing after).text with
        | ',' :: _ =>
          (readFlowMembers fuel start (nextThing ((nextThing after).drop 1))).map
            fun (entries,after) => (entry :: entries,after)
        | '\x7d' :: _ => .ok ([entry],(nextThing after).drop 1)
        | _ => .error (.order start (nextThing after).line .noMemberEnd)

/-- A node and the one after its colon, which is null without a colon on the line where the pair
    starts. -/
def readFlowPair : (fuel : Nat) → Cursor → Except YamlFault ((FlowNode × FlowNode) × Cursor)
  | 0, cursor => .error (.order cursor.line cursor.line .noContent)
  | fuel + 1, cursor => match readFlowNode fuel cursor with
    | .error fault => .error fault
    | .ok (key,after) =>
      let colon := nextThing after
      if colon.text.head? = some ':' && colon.line = cursor.line then
        (readFlowNode fuel (nextThing (colon.drop 1))).map fun (value,after) =>
          ((key,value),after)
      else .ok ((key,.scalar (resolve [])),after)

end

/-- A flow collection from its opening mark on, and what follows it. -/
def readFlow (cursor : Cursor) : Except YamlFault (FlowNode × Cursor) :=
  readFlowNode (3 * cursor.text.length) cursor

end CFrontend.Settings.Yaml
