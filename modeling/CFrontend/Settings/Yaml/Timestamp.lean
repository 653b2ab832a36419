import CFrontend.Timestamp

/-!
A day, alone or with a time after it. Between the two stands a letter T, and then a zone follows the
time, or there are blanks, and then the time is universal time.
-/
namespace CFrontend.Settings.Yaml

/-- A number of one or two digits. -/
def shortNumber? : List Char → Option (Nat × List Char)
  | a :: b :: rest =>
    if !isDecimalDigit a then none
    else if isDecimalDigit b then some (digitsValue 10 [a,b],rest)
    else some (digitsValue 10 [a],b :: rest)
  | [a] => if isDecimalDigit a then some (digitsValue 10 [a],[]) else none
  | [] => none

/-- A number of one or two digits after a mark. -/
def markedNumber? (mark : Char) : List Char → Option (Nat × List Char)
  | c :: rest => if c = mark then shortNumber? rest else none
  | [] => none

/-- A day whose year has four digits. -/
def readDate? (text : List Char) : Option (Date × List Char) := do
  let year := text.takeWhile isDecimalDigit
  if year.length ≠ 4 then none
  else
    let (month,rest) ← markedNumber? '-' (text.drop 4)
    let (day,rest) ← markedNumber? '-' rest
    let date : Date := ⟨digitsValue 10 year,month,day⟩
    if date.isValid then some (date,rest) else none

/-- The digits of a fraction, if there is one, after a period or a comma. -/
def fractionOf : List Char → List Char
  | mark :: rest => if mark = '.' || mark = ',' then rest.takeWhile isDecimalDigit else []
  | [] => []

/-- A time of day. -/
def readClock? (text : List Char) : Option (Clock × List Char) := do
  let (hour,rest) ← shortNumber? text
  let (minute,rest) ← markedNumber? ':' rest
  let (second,rest) ← markedNumber? ':' rest
  let fraction := fractionOf rest
  let clock : Clock := ⟨hour,minute,second,fraction⟩
  if clock.isValid then
    some (clock,if fraction.isEmpty then rest else rest.drop (fraction.length + 1))
  else none

/-- The zone that makes up a text, as minutes ahead of universal time. -/
def zone? : List Char → Option Int
  | ['Z'] => some 0
  | [sign,a,b,':',c,d] =>
    let hours := digitsValue 10 [a,b]
    let minutes := digitsValue 10 [c,d]
    if !([a,b,c,d].all isDecimalDigit) || 24 < hours || 60 < minutes then none
    else if sign = '+' then some (hours * 60 + minutes : Nat)
    else if sign = '-' then some (-(hours * 60 + minutes : Nat))
    else none
  | _ => none

/-- The timestamp that makes up a text. -/
def timestamp? (text : List Char) : Option Timestamp := do
  let (date,rest) ← readDate? text
  match rest with
  | [] => some { date }
  | mark :: tail =>
    if mark = 'T' || mark = 't' then
      let (clock,rest) ← readClock? tail
      let offset ← zone? rest
      some ⟨date,clock,offset⟩
    else if mark = ' ' then
      let (clock,rest) ← readClock? (tail.dropWhile (· = ' '))
      if rest.isEmpty then some { date,clock } else none
    else none

end CFrontend.Settings.Yaml
