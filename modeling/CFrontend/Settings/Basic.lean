import CFrontend.Directory
import CFrontend.Parser.Basic
import CFrontend.Settings.AssignmentFile
import CFrontend.Settings.JsonFile
import CFrontend.Settings.Toml.Reader
import CFrontend.Settings.Yaml.Reader
import CFrontend.Text.LowerCase

/-!
Settings come in layers: values set by hand, environment variables, a file, and defaults. A layer
without a value leaves the setting to the next one.
-/
namespace CFrontend

namespace Settings

/-- The values of one layer. Of two values of one name the later counts. -/
abbrev Layer := List (String × Value)

/-- A name in the one form under which settings are kept. -/
def canonical (name : String) : String := Text.lower name

/-- The value of a name in a layer, unless it has none. -/
def Layer.value? (layer : Layer) (name : String) : Option Value :=
  match layer.reverse.find? fun entry => canonical entry.1 == name with
  | some (_,.null) | none => none
  | some (_,value) => some value

end Settings

open Settings in
/-- All layers. -/
structure Settings where
  overrides : Layer := []
  /-- The environment variables, once they count. -/
  environment : List (String × String) := []
  file : Layer := []
  defaults : Layer := []

namespace Settings

def maxStatesKey : String := "max_states"
def ambiguityKey : String := "ambiguity"
def verboseKey : String := "verbose"
def logFileKey : String := "log_file"
def formatKey : String := "format"

/-- What holds where nothing is said. -/
def defaultLayer : Layer := [
  (maxStatesKey,.integer 1000000),(ambiguityKey,.text "error"),(verboseKey,.integer 0),
  (logFileKey,.text ""),(formatKey,.text "tree")]

/-- Adds the defaults and the environment. -/
def withDefaults (settings : Settings) (environment : List (String × String)) : Settings :=
  { settings with defaults := defaultLayer,environment := environment }

/-- What setting a name sets. A name with a period is a part of a compound value, which has the name
    up to the period. -/
def entryOf (name : String) (value : Value) : String × Value :=
  let first := name.toList.takeWhile (· ≠ '.')
  if first.length < name.length then (String.ofList first,.compound) else (name,value)

/-- Sets a value by hand. -/
def set (settings : Settings) (name : String) (value : Value) : Settings :=
  { settings with overrides := settings.overrides ++ [entryOf name value] }

/-- The environment variable of a setting. -/
def variableName (name : String) : String := "UCC_" ++ name.map Char.toUpper

/-- The value of an environment variable; an empty one counts as missing. -/
def fromEnvironment? (settings : Settings) (name : String) : Option Value :=
  match settings.environment.lookup (variableName name) with
  | some text => if text.isEmpty then none else some (.text text)
  | none => none

/-- The value of a setting. -/
def get (settings : Settings) (name : String) : Value :=
  let found := [settings.overrides.value? name,settings.fromEnvironment? name,
    settings.file.value? name,settings.defaults.value? name]
  (found.findSome? id).getD .null

/-! ## Files -/

/-- Why the text of a file has no settings. -/
inductive TextFault where
  | json (fault : JsonFileFault)
  | yaml (fault : YamlFault)
  | toml (fault : TomlFault)
  | assignment (fault : AssignmentFault)
deriving DecidableEq, Repr

def TextFault.message : TextFault → String
  | .json fault => fault.message
  | .yaml fault => fault.message
  | .toml fault => fault.message
  | .assignment fault => fault.message

/-- Why a settings file cannot be read. -/
inductive FileFault where
  | unsupported (path extension : String)
  | unreadable (path : String) (fault : PathFault)
  | malformed (path : String) (fault : TextFault)
deriving DecidableEq, Repr

def FileFault.message : FileFault → String
  | .unsupported path extension =>
    "reading config " ++ path ++ ": Unsupported Config Type " ++ Text.quote extension
  | .unreadable path fault => "reading config " ++ path ++ ": " ++ fault.message path
  | .malformed path fault =>
    "reading config " ++ path ++ ": While parsing config: " ++ fault.message

/-- A format of settings files. -/
inductive FileFormat where
  | json
  | yaml
  | toml
  | properties
  | variables
  | sections
deriving DecidableEq, Repr

namespace FileFormat

/-- The format of the files with an extension. Formats that agree on flat files share a reader. -/
def ofExtension? (extension : String) : Option FileFormat :=
  [("json",.json),("yaml",.yaml),("yml",.yaml),("toml",.toml),("hcl",.toml),
    ("tfvars",.toml),("properties",.properties),("props",.properties),
    ("prop",.properties),("env",.variables),("dotenv",.variables),
    ("ini",.sections)].lookup extension

/-- The settings in a text of a format. -/
def read (format : FileFormat) (text : List Char) : Except TextFault Layer :=
  match format with
  | .json => (readJson text).mapError .json
  | .yaml => (readYaml text).mapError .yaml
  | .toml => (readToml text).mapError .toml
  | .properties => .ok (readProperties text)
  | .variables => (readVariables text).mapError .assignment
  | .sections => .ok (readSections text)

end FileFormat

/-- What follows the last period of the last part of a path. -/
def extensionOf (path : String) : String :=
  let name := (path.toList.reverse.takeWhile (· ≠ '/')).reverse
  match (name.reverse.takeWhile (· ≠ '.')).reverse with
  | text => if text.length < name.length then String.ofList text else ""

/-- Reads a file into its layer, in place of an earlier one. An empty path stands for no file. -/
def withFile (settings : Settings) (files : String → Except PathFault String) (path : String) :
    Except FileFault Settings :=
  if path.isEmpty then .ok settings
  else match FileFormat.ofExtension? (extensionOf path) with
    | none => .error (.unsupported path (extensionOf path))
    | some format => match files path with
      | .error fault => .error (.unreadable path fault)
      | .ok text => match format.read text.toList with
        | .error fault => .error (.malformed path fault)
        | .ok layer => .ok { settings with file := layer }

end Settings

/-! ## Configurations -/

/-- Checked settings. -/
structure Config where
  maxStates : Int
  ambiguity : Parser.AmbiguityPolicy
  verbosity : Int
  logFile : String
  format : String
deriving DecidableEq, Repr

namespace Config

/-- Why settings are no configuration. -/
inductive Fault where
  | maxStates (count : Int)
  | ambiguity (name : String)
  | format (name : String)
deriving DecidableEq, Repr

def Fault.message : Fault → String
  | .maxStates count =>
    Settings.maxStatesKey ++ " must be positive, got " ++ toString count
  | .ambiguity name =>
    "unknown ambiguity policy " ++ Text.quote name ++ " (want error or first)"
  | .format name =>
    "unknown format " ++ Text.quote name ++ " (want one of [tree sexpr json])"

/-- The formats of parse trees. -/
def formats : List String := ["tree","sexpr","json"]

/-- Checks settings. -/
def load (settings : Settings) : Except Fault Config :=
  let maxStates := (settings.get Settings.maxStatesKey).toInteger
  let policy := (settings.get Settings.ambiguityKey).toText
  let format := (settings.get Settings.formatKey).toText
  if maxStates ≤ 0 then .error (.maxStates maxStates)
  else match Parser.AmbiguityPolicy.ofName? policy with
    | none => .error (.ambiguity policy)
    | some ambiguity =>
      if !formats.contains format then .error (.format format)
      else .ok {
        maxStates := maxStates
        ambiguity := ambiguity
        verbosity := (settings.get Settings.verboseKey).toInteger
        logFile := (settings.get Settings.logFileKey).toText
        format := format }

/-- What a configuration changes of the parser's options. -/
def adjustments (config : Config) : List (Parser.Options → Parser.Options) :=
  [fun options => options.withMaxStates config.maxStates,
    fun options => { options with ambiguity := config.ambiguity }]

/-- The parser's options under a configuration. -/
def options (config : Config) : Parser.Options :=
  config.adjustments.foldl (fun options adjust => adjust options) {}

/-- The file for the log, if it does not go to the terminal. -/
def logPath? (config : Config) : Option String :=
  if config.logFile.isEmpty then none else some config.logFile

end Config

end CFrontend
