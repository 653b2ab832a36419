import CFrontend.CommandLine.Flag
import CFrontend.Text.LowerCase

/-!
The first argument that is neither a flag nor the value of one names the command. Names near to a
wrong one are suggested.
-/
namespace CFrontend.CommandLine

/-- What the program can do. -/
inductive Command where
  /-- Prints the tokens of a source. -/
  | lex
  /-- Prints the tree of a source. -/
  | parse
  /-- Prints the declarations of a source. -/
  | declarations
  /-- Prints the grammar. -/
  | grammar
  /-- Serves an editor. -/
  | serve
  /-- Prints a script for the completion of commands. -/
  | completion
  /-- Prints what commands there are. -/
  | help
deriving DecidableEq, Repr

namespace Command

def name : Command → String
  | .lex => "lex"
  | .parse => "parse"
  | .declarations => "ast"
  | .grammar => "grammar"
  | .serve => "lsp"
  | .completion => "completion"
  | .help => "help"

/-- The commands in the order in which they are suggested, which help is not. -/
def suggested : List Command := [.lex,.parse,.declarations,.grammar,.serve,.completion]

/-- The command with a name. -/
def ofName? (name : String) : Option Command :=
  (suggested ++ [Command.help]).find? (·.name == name)

/-- The flags of a command, or of the program without one. -/
def flags : Option Command → List Flag
  | none => Flag.shared ++ [.help,.version]
  | some .parse => Flag.shared ++ [.format,.help]
  | some .grammar => Flag.shared ++ [.verify,.help]
  | some _ => Flag.shared ++ [.help]

end Command

/-! ## Finding the command -/

/-- Whether an argument is a flag that takes the next one as its value. The flags of single
    commands are not known before the command is. -/
def takesNext (text : String) : Bool :=
  let implied (flag : Option Flag) : Bool := (flag.bind Flag.implied?).isSome
  match text.toList with
  | '-' :: '-' :: name =>
    !name.contains '=' && !implied (Flag.named? Flag.shared (String.ofList name))
  | ['-',letter] =>
    letter.toNat < 0x80 && letter ≠ '=' && !implied (Flag.lettered? Flag.shared letter)
  | _ => false

/-- Whether an argument starts like a flag. -/
def looksLikeFlag (text : String) : Bool := text.toList.head? = some '-'

/-- The argument in the place of the command. -/
def commandWord? : List String → Option String
  | [] => none
  | text :: rest =>
    if text = "--" then none
    else if takesNext text then
      match rest with
      | _ :: next :: rest => commandWord? (next :: rest)
      | _ => none
    else if text.isEmpty || looksLikeFlag text then commandWord? rest
    else some text

/-- The arguments without the one in the place of the command. -/
def withoutWord (word : String) : List String → List String
  | [] => []
  | text :: rest =>
    if text = "--" then text :: rest
    else if takesNext text then
      match rest with
      | [] => [text]
      | value :: rest => text :: value :: withoutWord word rest
    else if text = word then rest
    else text :: withoutWord word rest

/-! ## Suggestions -/

/-- The next row of the table of edit distances: `row` has the distances of the word so far to the
    starts of `target`, and `last` is the distance on the left. -/
def nextRow (byte : UInt8) (last : Nat) : (row : List Nat) → (target : List UInt8) → List Nat
  | above :: right :: row, other :: target =>
    let cost := if byte = other then above else min (min above right) last + 1
    cost :: nextRow byte cost (right :: row) target
  | _, _ => []

/-- The rows of the table for the rest of a word. -/
def lastRow (target : List UInt8) : (row : List Nat) → List UInt8 → List Nat
  | row, [] => row
  | row, byte :: rest =>
    let first := (row.head?.getD 0) + 1
    lastRow target (first :: nextRow byte first row target) rest

/-- The least number of bytes to insert, delete or replace to turn one text into another. -/
def editDistance (word target : List UInt8) : Nat :=
  ((lastRow target (List.range (target.length + 1)) word).getLast?).getD 0

/-- Whether a command is suggested for a word: its name starts like the word in lower case or is two
    edits away from it at most. -/
def isSuggestedFor (word : String) (command : Command) : Bool :=
  let word := Text.bytesOf (Text.lower word)
  let name := Text.bytesOf command.name
  word.isPrefixOf name || editDistance word name ≤ 2

/-- The suggestions for a wrong word, as its message ends with them. -/
def suggestions (word : String) : String :=
  let found := Command.suggested.filter (isSuggestedFor word)
  if found.isEmpty then ""
  else "\n\nDid you mean this?\n" ++
    String.join (found.map fun command => "\t" ++ command.name ++ "\n")

end CFrontend.CommandLine
