import CFrontend.Text.Quoted
import CFrontend.Text.Separated

/-!
A text can be no YAML at all, or it can be YAML without settings. Lines are counted from one. A
message mentions the line where the faulty thing starts, or if that is the first line, the line of
the fault itself, and no line if that is the first one, too.
-/
namespace CFrontend.Settings

/-- What is wrong with the characters of a text. -/
inductive YamlCause where
  | noColon
  | strayColon
  | unclosedQuote
  | documentInQuote
  | unknownEscape
  | badEscapeDigit
  | badEscapeCode
  | badStart
  | strayItem
  | strayKey
  | tabIndent
  | badBlockHead
  | zeroIndent
  | badReference
deriving DecidableEq, Repr

def YamlCause.text : YamlCause → String
  | .noColon => "could not find expected ':'"
  | .strayColon => "mapping values are not allowed in this context"
  | .unclosedQuote => "found unexpected end of stream"
  | .documentInQuote => "found unexpected document indicator"
  | .unknownEscape => "found unknown escape character"
  | .badEscapeDigit => "did not find expected hexdecimal number"
  | .badEscapeCode => "found invalid Unicode character escape code"
  | .badStart => "found character that cannot start any token"
  | .strayItem => "block sequence entries are not allowed in this context"
  | .strayKey => "mapping keys are not allowed in this context"
  | .tabIndent => "found a tab character that violates indentation"
  | .badBlockHead => "did not find expected comment or line break"
  | .zeroIndent => "found an indentation indicator equal to 0"
  | .badReference => "did not find expected alphabetic or numeric character"

/-- What is wrong with the order of things in a text. -/
inductive YamlDisorder where
  | noKey
  | noContent
  | noItemEnd
  | noMemberEnd
  | noDocument
deriving DecidableEq, Repr

def YamlDisorder.text : YamlDisorder → String
  | .noKey => "did not find expected key"
  | .noContent => "did not find expected node content"
  | .noItemEnd => "did not find expected ',' or ']'"
  | .noMemberEnd => "did not find expected ',' or '\x7d'"
  | .noDocument => "did not find expected <document start>"

/-- Two lines with settings of one name. -/
structure YamlRepetition where
  name : String
  first : Nat
  second : Nat
deriving DecidableEq, Repr

/-- Why a YAML text has no settings. -/
inductive YamlFault where
  | control
  /-- Something from line `start` on cannot go on as it does on line `here`. -/
  | characters (start here : Nat) (cause : YamlCause)
  | order (start here : Nat) (disorder : YamlDisorder)
  | unknownAnchor (name : String)
  /-- A value of one kind is marked as another. -/
  | wrongTag (found : String) (text : String) (wanted : String)
  /-- The text is a list or a single value, given as messages show it. -/
  | notMapping (line : Nat) (shown : String)
  | repeated (repetitions : List YamlRepetition)
deriving DecidableEq, Repr

namespace YamlFault

/-- The mention of a line, counted from zero and shifted. The first line goes without. -/
def place (shift start here : Nat) : String :=
  let line := if 1 < start then start else here
  if 1 < line then "line " ++ toString (line - 1 + shift) ++ ": " else ""

/-- The message for a well-formed text that has no settings. -/
def unfit (reasons : List String) : String :=
  "unmarshal errors:\n  " ++ Text.separated "\n  " reasons

/-- The message without its first word. -/
def reason : YamlFault → String
  | .control => "control characters are not allowed"
  | .characters start here cause => place 1 start here ++ cause.text
  | .order start here disorder => place 0 start here ++ disorder.text
  | .unknownAnchor name => "unknown anchor '" ++ name ++ "' referenced"
  | .wrongTag found text wanted =>
    "cannot decode " ++ found ++ " \x60" ++ text ++ "\x60 as a " ++ wanted
  | .notMapping line shown =>
    unfit ["line " ++ toString line ++ ": cannot unmarshal " ++ shown ++
      " into map[string]interface \x7b\x7d"]
  | .repeated repetitions =>
    unfit (repetitions.map fun repetition =>
      "line " ++ toString repetition.second ++ ": mapping key " ++ Text.quote repetition.name ++
        " already defined at line " ++ toString repetition.first)

def message (fault : YamlFault) : String := "yaml: " ++ fault.reason

end YamlFault

end CFrontend.Settings
