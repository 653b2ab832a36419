import CFrontend.Text.Integer
import CFrontend.Text.Quoted

/-!
Flags have a name and some also a letter. A flag takes its value from the same argument or from the
next one; a flag with an implied value takes none from the next argument. Letters may be joined
behind one hyphen.
-/
namespace CFrontend.CommandLine

/-- A flag. -/
inductive Flag where
  | config
  | maxStates
  | ambiguity
  | verbose
  | logFile
  | format
  | verify
  | help
  | version
deriving DecidableEq, Repr

namespace Flag

def name : Flag → String
  | .config => "config"
  | .maxStates => "max-states"
  | .ambiguity => "ambiguity"
  | .verbose => "verbose"
  | .logFile => "log-file"
  | .format => "format"
  | .verify => "verify"
  | .help => "help"
  | .version => "version"

def letter? : Flag → Option Char
  | .verbose => some 'v'
  | .format => some 'f'
  | .help => some 'h'
  | _ => none

/-- The text that counts once more. -/
def oneMore : String := "+1"

/-- The value of a flag that is given without one. -/
def implied? : Flag → Option String
  | .verbose => some oneMore
  | .verify | .help | .version => some "true"
  | _ => none

/-- The flag as messages show it. -/
def label (flag : Flag) : String :=
  match flag.letter? with
  | some letter => "-" ++ String.singleton letter ++ ", --" ++ flag.name
  | none => "--" ++ flag.name

/-- The flags of every command. -/
def shared : List Flag := [.config,.maxStates,.ambiguity,.verbose,.logFile]

/-- The flag with a name among some. -/
def named? (known : List Flag) (name : String) : Option Flag := known.find? (·.name == name)

/-- The flag with a letter among some. -/
def lettered? (known : List Flag) (letter : Char) : Option Flag :=
  known.find? (·.letter? == some letter)

end Flag

/-- Why arguments cannot be read. -/
inductive FlagFault where
  | malformed (text : String)
  | unknownName (name : String)
  /-- A letter that no flag has, which starts the given letters. -/
  | unknownLetter (letters : List Char)
  | noValue (text : String)
  | noValueForLetter (letters : List Char)
  | notInteger (flag : Flag) (value : String) (fault : Text.IntegerFault)
  | notTruthValue (flag : Flag) (value : String)
deriving DecidableEq, Repr

namespace FlagFault

/-- The first of some letters in quotes, and all of them. A letter is one byte, so of a longer
    character the first byte counts as the letter; it is shown by the first byte of its own encoding. -/
def quotedLetters (letters : List Char) : String :=
  Text.quoteChar (Text.firstByte [Text.firstByte letters]) ++ " in -" ++ String.ofList letters

/-- The message for a value of the wrong form. -/
def invalid (flag : Flag) (value reader reason : String) : String :=
  "invalid argument " ++ Text.quote value ++ " for " ++ Text.quote flag.label ++
    " flag: strconv." ++ reader ++ ": parsing " ++ Text.quote value ++ ": " ++ reason

def message : FlagFault → String
  | .malformed text => "bad flag syntax: " ++ text
  | .unknownName name => "unknown flag: --" ++ name
  | .unknownLetter letters => "unknown shorthand flag: " ++ quotedLetters letters
  | .noValue text => "flag needs an argument: " ++ text
  | .noValueForLetter letters => "flag needs an argument: " ++ quotedLetters letters
  | .notInteger flag value fault => invalid flag value "ParseInt" fault.message
  | .notTruthValue flag value => invalid flag value "ParseBool" "invalid syntax"

end FlagFault

/-- Arguments that have been read: the values of the flags that were given, and the operands. -/
structure Arguments where
  operands : List String := []
  config : String := ""
  maxStates : Option Int := none
  ambiguity : Option String := none
  verbosity : Option Int := none
  logFile : Option String := none
  format : Option String := none
  verify : Bool := false
  help : Bool := false
  version : Bool := false
deriving DecidableEq, Repr

/-- A truth value. -/
def truthValue? (text : String) : Option Bool :=
  if ["1","t","T","TRUE","true","True"].contains text then some true
  else if ["0","f","F","FALSE","false","False"].contains text then some false
  else none

/-- An integer for a flag. -/
def integerFor (flag : Flag) (value : String) : Except FlagFault Int :=
  match Text.readInteger value.toList with
  | .ok n => .ok n
  | .error fault => .error (.notInteger flag value fault)

/-- A truth value for a flag. -/
def truthValueFor (flag : Flag) (value : String) : Except FlagFault Bool :=
  match truthValue? value with
  | some b => .ok b
  | none => .error (.notTruthValue flag value)

namespace Arguments

/-- Gives a flag its value. -/
def assign (arguments : Arguments) (flag : Flag) (value : String) : Except FlagFault Arguments :=
  match flag with
  | .config => .ok { arguments with config := value }
  | .ambiguity => .ok { arguments with ambiguity := some value }
  | .logFile => .ok { arguments with logFile := some value }
  | .format => .ok { arguments with format := some value }
  | .maxStates => (integerFor flag value).map fun n => { arguments with maxStates := some n }
  | .verbose =>
    if value = Flag.oneMore then
      .ok { arguments with verbosity := some (arguments.verbosity.getD 0 + 1) }
    else (integerFor flag value).map fun n => { arguments with verbosity := some n }
  | .verify => (truthValueFor flag value).map fun b => { arguments with verify := b }
  | .help => (truthValueFor flag value).map fun b => { arguments with help := b }
  | .version => (truthValueFor flag value).map fun b => { arguments with version := b }

/-- Reads a flag by its name, `text` without the hyphens, and tells how many further arguments it
    takes. -/
def readName (known : List Flag) (arguments : Arguments) (text : List Char) (next : Option String) :
    Except FlagFault (Arguments × Nat) :=
  let name := String.ofList (text.takeWhile (· ≠ '='))
  let written := text.drop name.length
  let whole := "--" ++ String.ofList text
  if text.isEmpty || text.head? = some '-' || text.head? = some '=' then .error (.malformed whole)
  else match Flag.named? known name with
    | none => .error (.unknownName name)
    | some flag =>
      match written, flag.implied?, next with
      | _ :: value, _, _ => (arguments.assign flag (String.ofList value)).map (·,0)
      | [], some value, _ => (arguments.assign flag value).map (·,0)
      | [], none, some value => (arguments.assign flag value).map (·,1)
      | [], none, none => .error (.noValue whole)

/-- How letters start that are meant for a test runner. -/
def testMark : List Char := "test.".toList

/-- Reads flags by their letters, and tells how many further arguments they take. Letters for a test
    runner are passed over. -/
def readLetters (known : List Flag) (arguments : Arguments) (next : Option String) :
    List Char → Except FlagFault (Arguments × Nat)
  | [] => .ok (arguments,0)
  | letter :: rest => if testMark.isPrefixOf (letter :: rest) then .ok (arguments,0)
    else match Flag.lettered? known letter with
    | none => .error (.unknownLetter (letter :: rest))
    | some flag =>
      match rest, flag.implied?, next with
      | '=' :: c :: value, _, _ => (arguments.assign flag (String.ofList (c :: value))).map (·,0)
      | rest, some value, _ => match arguments.assign flag value with
        | .ok arguments => readLetters known arguments next rest
        | .error fault => .error fault
      | c :: value, none, _ => (arguments.assign flag (String.ofList (c :: value))).map (·,0)
      | [], none, some value => (arguments.assign flag value).map (·,1)
      | [], none, none => .error (.noValueForLetter [letter])

/-- Reads arguments. Flags and operands may come in any order; after two hyphens there are only
    operands. -/
def readFrom (known : List Flag) (arguments : Arguments) : List String → Except FlagFault Arguments
  | [] => .ok arguments
  | text :: rest => match text.toList with
    | ['-','-'] => .ok { arguments with operands := arguments.operands ++ rest }
    | '-' :: '-' :: name => match arguments.readName known name rest.head? with
      | .error fault => .error fault
      | .ok (arguments,taken) => arguments.readFrom known (rest.drop taken)
    | '-' :: c :: letters => match arguments.readLetters known rest.head? (c :: letters) with
      | .error fault => .error fault
      | .ok (arguments,taken) => arguments.readFrom known (rest.drop taken)
    | _ => { arguments with operands := arguments.operands ++ [text] }.readFrom known rest
termination_by texts => texts.length
decreasing_by all_goals simp only [List.length_cons,List.length_drop]; omega

/-- Reads all arguments. -/
def read (known : List Flag) (texts : List String) : Except FlagFault Arguments :=
  readFrom known {} texts

end Arguments

end CFrontend.CommandLine
