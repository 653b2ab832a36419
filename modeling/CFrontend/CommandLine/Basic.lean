import CFrontend.CommandLine.Command
import CFrontend.Declaration.Reader
import CFrontend.Grammar.CLanguage
import CFrontend.Grammar.Ebnf
import CFrontend.Settings.Basic
import CFrontend.Tree.Rendering

/-!
A request is read from the arguments alone, and tells which files it needs. Carrying it out gives
two texts and, if it fails, one reason. Of several faults the first counts in this order: flags,
number of operands, settings, the source file, its text.
-/
namespace CFrontend.CommandLine

/-- The name of the program. -/
def programName : String := "ucc"

def programVersion : String := "0.1.0"

/-- Why a request fails. -/
inductive Fault where
  | unknownCommand (word : String)
  | flag (fault : FlagFault)
  /-- A command that wants one operand got another number of them. -/
  | operandCount (received : Nat)
  /-- A command that wants no operand got one. -/
  | unwanted (command : Command) (operand : String)
  | settingsFile (fault : Settings.FileFault)
  | config (fault : Config.Fault)
  | unreadable (path : String) (fault : PathFault)
  | lexErrors (path : String) (count : Nat)
  | parse (path : String) (error : ParseError)
  | declarations (path : String) (fault : Declaration.Fault)
  | unknownFormat (name : String)
  /-- Some production cannot be reached from the start symbol. -/
  | unverified (start : String)

namespace Fault

def message : Fault → String
  | .unknownCommand word =>
    "unknown command " ++ Text.quote word ++ " for " ++ Text.quote programName ++ suggestions word
  | .flag fault => fault.message
  | .operandCount received => "accepts 1 arg(s), received " ++ toString received
  | .unwanted command operand =>
    "unknown command " ++ Text.quote operand ++ " for " ++
      Text.quote (programName ++ " " ++ command.name)
  | .settingsFile fault => fault.message
  | .config fault => fault.message
  | .unreadable path fault => "read " ++ path ++ ": " ++ fault.message path
  | .lexErrors path count => path ++ ": " ++ toString count ++ " lex errors"
  | .parse path error => path ++ ": " ++ error.message
  | .declarations path fault => path ++ ": " ++ fault.message
  | .unknownFormat name => Rendering.unknownMessage name
  | .unverified start => "grammar does not verify from " ++ start

/-- What is printed for a fault. -/
def report (fault : Fault) : String :=
  let hint := match fault with
    | .unknownCommand _ => "Run '" ++ programName ++ " --help' for usage.\n"
    | _ => ""
  "Error: " ++ fault.message ++ "\n" ++ hint

end Fault

/-! ## Requests -/

/-- What the arguments ask for. -/
inductive Request where
  | version
  /-- Shows what commands there are; the text is left to the terminal. -/
  | help
  | grammar (arguments : Arguments)
  | serve (arguments : Arguments)
  /-- Prints what a command makes of a source. -/
  | source (command : Command) (arguments : Arguments) (path : String)

/-- The request of a command with its arguments. -/
def requestOf (command : Command) (arguments : Arguments) : Except Fault Request :=
  match command with
  | .completion | .help => .ok .help
  | .grammar | .serve => match arguments.operands with
    | [] => .ok (if command = .grammar then .grammar arguments else .serve arguments)
    | operand :: _ => .error (.unwanted command operand)
  | .lex | .parse | .declarations => match arguments.operands with
    | [path] => .ok (.source command arguments path)
    | operands => .error (.operandCount operands.length)

/-- Reads the arguments of a command. -/
def readCommand (command : Command) (texts : List String) : Except Fault Request :=
  match Arguments.read (Command.flags (some command)) texts with
  | .error fault => .error (.flag fault)
  | .ok arguments => if arguments.help then .ok .help else requestOf command arguments

/-- Reads the arguments of the program without a command. -/
def readAlone (texts : List String) : Except Fault Request :=
  match Arguments.read (Command.flags none) texts with
  | .error fault => .error (.flag fault)
  | .ok arguments =>
    .ok (if arguments.version && !arguments.help then .version else .help)

/-- Reads the arguments of the program. -/
def readRequest (texts : List String) : Except Fault Request :=
  match commandWord? texts with
  | none => readAlone texts
  | some word => match Command.ofName? word with
    | none => .error (.unknownCommand word)
    | some command => readCommand command (withoutWord word texts)

/-- The path that stands for the standard input. -/
def standardInput : String := "-"

/-- The files that a request reads. -/
def Request.paths : Request → List String
  | .version | .help => []
  | .grammar arguments | .serve arguments => [arguments.config]
  | .source _ arguments path => [arguments.config,path]

/-! ## Carrying out requests -/

/-- What is there for a request to read. -/
structure Inputs where
  /-- The text of the standard input. -/
  standard : String := ""
  environment : List (String × String) := []
  /-- The text at a path. -/
  file : String → Except PathFault String := fun _ => .error .missing

/-- What carrying out a request gives. -/
structure Outcome where
  output : String := ""
  /-- What is said of the source, apart from the fault. -/
  remarks : String := ""
  fault : Option Fault := none

namespace Outcome

/-- An outcome with nothing but a fault. -/
def failed (fault : Fault) : Outcome := { fault := some fault }

/-- All that goes to the standard error. -/
def errors (outcome : Outcome) : String :=
  outcome.remarks ++ (outcome.fault.map Fault.report).getD ""

end Outcome

/-- The values of the flags as settings. -/
def Arguments.overrides (arguments : Arguments) : Settings.Layer :=
  let entry (key : String) (value : Option Settings.Value) : Settings.Layer :=
    (value.map (key,·)).toList
  entry Settings.maxStatesKey (arguments.maxStates.map .integer) ++
    entry Settings.ambiguityKey (arguments.ambiguity.map .text) ++
    entry Settings.verboseKey (arguments.verbosity.map .integer) ++
    entry Settings.logFileKey (arguments.logFile.map .text) ++
    entry Settings.formatKey (arguments.format.map .text)

/-- The configuration under the given flags. -/
def configure (inputs : Inputs) (arguments : Arguments) : Except Fault Config :=
  let settings : Settings := { overrides := arguments.overrides }
  match (settings.withDefaults inputs.environment).withFile inputs.file arguments.config with
  | .error fault => .error (.settingsFile fault)
  | .ok settings => match Config.load settings with
    | .error fault => .error (.config fault)
    | .ok config => .ok config

/-- The text at a path. -/
def readSource (inputs : Inputs) (path : String) : Except Fault String :=
  if path = standardInput then .ok inputs.standard
  else match inputs.file path with
    | .ok text => .ok text
    | .error fault => .error (.unreadable path fault)

/-- A line for a token: its place, its kind and its text. -/
def tokenLine (token : Token) : String :=
  token.pos.text ++ "\t" ++ token.kind.name ++ "\t" ++ token.text ++ "\n"

/-- The lines for the tokens among items. -/
def tokenLines (items : List Item) : List String :=
  items.filterMap fun
    | .token token => some (tokenLine token)
    | _ => none

/-- The lines for the errors among items. -/
def errorLines (path : String) (items : List Item) : List String :=
  items.filterMap fun
    | .error error => some (path ++ ": " ++ error.message ++ "\n")
    | _ => none

/-- Prints the tokens of a source. -/
def printTokens (path text : String) : Outcome :=
  let items := (Lexer.start (.ofString text)).all.1
  let errors := errorLines path items
  { output := String.join (tokenLines items)
    remarks := String.join errors
    fault := if errors.isEmpty then none else some (.lexErrors path errors.length) }

/-- The tree of a source. -/
def parseText (config : Config) (path text : String) : Except Fault Tree :=
  match Parser.parse CLanguage.grammar config.options (.ofSource (.ofString text)) with
  | .ok tree => .ok tree
  | .error error => .error (.parse path error)

/-- Prints the tree of a source. -/
def printTree (config : Config) (path text : String) : Outcome :=
  match parseText config path text with
  | .error fault => .failed fault
  | .ok tree => match Rendering.ofName? config.format with
    | none => .failed (.unknownFormat config.format)
    | some rendering => { output := rendering.render tree }

/-- Prints the declarations of a source, one a line. -/
def printDeclarations (config : Config) (path text : String) : Outcome :=
  match parseText config path text with
  | .error fault => .failed fault
  | .ok tree => match Declaration.read tree.toNode with
    | .error fault => .failed (.declarations path fault)
    | .ok declarations =>
      { output := String.join (declarations.map fun declaration => declaration.text ++ "\n") }

/-- Checks that every production of the grammar can be reached. -/
def verify (grammar : Grammar) : Outcome :=
  if grammar.isConnected then
    let count := toString grammar.ebnfSize
    { output := "ok: " ++ count ++ " productions reachable from " ++ grammar.start ++ "\n" }
  else .failed (.unverified grammar.start)

/-- Prints what a command makes of a source. -/
def printSource (inputs : Inputs) (config : Config) (command : Command) (path : String) : Outcome :=
  match readSource inputs path with
  | .error fault => .failed fault
  | .ok text => match command with
    | .lex => printTokens path text
    | .declarations => printDeclarations config path text
    | _ => printTree config path text

/-- Carries out a request. -/
def Request.run (request : Request) (inputs : Inputs) : Outcome :=
  match request with
  | .version => { output := programName ++ " version " ++ programVersion ++ "\n" }
  | .help => {}
  | .serve arguments => match configure inputs arguments with
    | .error fault => .failed fault
    | .ok _ => {}
  | .grammar arguments => match configure inputs arguments with
    | .error fault => .failed fault
    | .ok _ =>
      if arguments.verify then verify CLanguage.grammar
      else { output := CLanguage.grammar.ebnf }
  | .source command arguments path => match configure inputs arguments with
    | .error fault => .failed fault
    | .ok config => printSource inputs config command path

/-- Runs the program. -/
def run (texts : List String) (inputs : Inputs) : Outcome :=
  match readRequest texts with
  | .error fault => .failed fault
  | .ok request => request.run inputs

end CFrontend.CommandLine
