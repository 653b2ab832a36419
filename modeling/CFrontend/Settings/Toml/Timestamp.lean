import CFrontend.Settings.Toml.Fault
import CFrontend.Timestamp

/-!
A day, a time of day, both, or both with a zone. Without a zone a text in the common form is all
that there is of it.
-/
namespace CFrontend.Settings.Toml

/-- The number of some digits. -/
def digits (text : List Char) : Except TomlValueFault Nat :=
  if text.all isDecimalDigit then .ok (digitsValue 10 text) else .error .notDigit

/-- The characters of a part of a text. -/
def part (start size : Nat) (text : List Char) : List Char := (text.drop start).take size

/-- A day. -/
def date (text : List Char) : Except TomlValueFault Date := do
  if text.length ≠ 10 || text[4]? ≠ some '-' || text[7]? ≠ some '-' then throw .badDate
  let date : Date := ⟨← digits (part 0 4 text),← digits (part 5 2 text),← digits (part 8 2 text)⟩
  if date.isValid then return date else throw .impossibleDate

/-- A time of day and what follows it. -/
def clock (text : List Char) : Except TomlValueFault (Clock × List Char) := do
  if text.length < 8 then throw .badTime
  let hour ← digits (part 0 2 text)
  if 23 < hour then throw .badHour
  if text[2]? ≠ some ':' then throw .noHourColon
  let minute ← digits (part 3 2 text)
  if 59 < minute then throw .badMinute
  if text[5]? ≠ some ':' then throw .noMinuteColon
  let second ← digits (part 6 2 text)
  if 60 < second then throw .badSecond
  match text.drop 8 with
  | '.' :: rest =>
    let fraction := rest.takeWhile isDecimalDigit
    if fraction.isEmpty then throw .noFraction
    return (⟨hour,minute,second,fraction⟩,rest.drop fraction.length)
  | rest => return (⟨hour,minute,second,[]⟩,rest)

/-- A day with a time, and what follows them. -/
def dateClock (text : List Char) : Except TomlValueFault (Date × Clock × List Char) := do
  if text.length < 11 then throw .shortDateTime
  let date ← date (text.take 10)
  match text[10]? with
  | some 'T' | some 't' | some ' ' =>
    let (clock,rest) ← clock (text.drop 11)
    return (date,clock,rest)
  | _ => throw .badSeparator

/-- A zone, as minutes ahead of universal time. -/
def zone (text : List Char) : Except TomlValueFault Int := do
  if text.head? = some 'Z' || text.head? = some 'z' then
    if text.length = 1 then return 0 else throw .extraAfterZone
  if text.length ≠ 6 then throw .badZone
  if text.head? ≠ some '+' && text.head? ≠ some '-' then throw .badZoneSign
  if text[3]? ≠ some ':' then throw .noZoneColon
  let hours ← digits (part 1 2 text)
  if 23 < hours then throw .badZoneHour
  let minutes ← digits (part 4 2 text)
  if 59 < minutes then throw .badZoneMinute
  let offset : Int := (hours * 60 + minutes : Nat)
  return if text.head? = some '-' then -offset else offset

/-- The text of a day. -/
def dateText (text : List Char) : Except TomlValueFault String := (date text).map Date.text

/-- The text of a time of day. -/
def clockText (text : List Char) : Except TomlValueFault String := do
  let (clock,rest) ← clock text
  if rest.isEmpty then return clock.text else throw .extraAfterTime

/-- The text of a day with a time. -/
def dateClockText (text : List Char) : Except TomlValueFault String := do
  let (date,clock,rest) ← dateClock text
  if rest.isEmpty then return date.text ++ "T" ++ clock.text else throw .extraAfterDateTime

/-- The text of a timestamp. -/
def timestampText (text : List Char) : Except TomlValueFault String := do
  let (date,clock,rest) ← dateClock text
  return (⟨date,clock,← zone rest⟩ : Timestamp).withoutLeapSecond.text

end CFrontend.Settings.Toml
