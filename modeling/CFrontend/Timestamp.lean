import CFrontend.Text.Digits

/-!
Days of the calendar, times of day and the two together with their distance from universal time.
-/
namespace CFrontend

/-- A number in decimal digits, filled up with zeros on the left. -/
def paddedText (width n : Nat) : String :=
  let digits := Nat.toDigits 10 n
  String.ofList (List.replicate (width - digits.length) '0' ++ digits)

/-- A day, which need not be one of the calendar. -/
structure Date where
  year : Nat
  month : Nat
  day : Nat
deriving DecidableEq, Repr

namespace Date

/-- Whether a year has a leap day. -/
def isLeap (year : Nat) : Bool := year % 4 = 0 && (year % 100 ≠ 0 || year % 400 = 0)

/-- The number of days of a month. -/
def daysIn (year month : Nat) : Nat :=
  if month = 2 then (if isLeap year then 29 else 28)
  else if month = 4 || month = 6 || month = 9 || month = 11 then 30
  else 31

/-- Whether the calendar has the day. -/
def isValid (date : Date) : Bool :=
  1 ≤ date.month && date.month ≤ 12 && 1 ≤ date.day && date.day ≤ daysIn date.year date.month

/-- The day after. -/
def next (date : Date) : Date :=
  if date.day < daysIn date.year date.month then { date with day := date.day + 1 }
  else if date.month < 12 then ⟨date.year,date.month + 1,1⟩
  else ⟨date.year + 1,1,1⟩

def text (date : Date) : String :=
  paddedText 4 date.year ++ "-" ++ paddedText 2 date.month ++ "-" ++ paddedText 2 date.day

end Date

/-- A time of day. -/
structure Clock where
  hour : Nat := 0
  minute : Nat := 0
  second : Nat := 0
  /-- The digits of the fraction of a second. -/
  fraction : List Char := []
deriving DecidableEq, Repr

namespace Clock

/-- Whether a day has the time. -/
def isValid (clock : Clock) : Bool := clock.hour < 24 && clock.minute < 60 && clock.second < 60

/-- The time up to nanoseconds, with the given digits of the fraction. -/
def textWith (clock : Clock) (fraction : List Char) : String :=
  paddedText 2 clock.hour ++ ":" ++ paddedText 2 clock.minute ++ ":" ++
    paddedText 2 clock.second ++
    (if fraction.isEmpty then "" else "." ++ String.ofList fraction)

/-- The digits of the fraction up to nanoseconds. -/
def nanoseconds (clock : Clock) : List Char := clock.fraction.take 9

/-- The time with all its digits up to nanoseconds. -/
def text (clock : Clock) : String := clock.textWith clock.nanoseconds

/-- The time without zeros at the end of its fraction. -/
def shortText (clock : Clock) : String :=
  clock.textWith (clock.nanoseconds.reverse.dropWhile (· = '0')).reverse

end Clock

/-- A moment: a time on a day, ahead of universal time by some minutes. -/
structure Timestamp where
  date : Date
  clock : Clock := {}
  offset : Int := 0
deriving DecidableEq, Repr

namespace Timestamp

/-- The same moment with a leap second counted into the next minute. -/
def withoutLeapSecond (timestamp : Timestamp) : Timestamp :=
  let clock := timestamp.clock
  if clock.second < 60 then timestamp
  else
    let minutes := clock.hour * 60 + clock.minute + 1
    { timestamp with
      date := if minutes < 24 * 60 then timestamp.date else timestamp.date.next
      clock := { clock with
        hour := minutes / 60 % 24
        minute := minutes % 60
        second := clock.second - 60 } }

/-- The distance from universal time in hours and minutes. -/
def offsetText (timestamp : Timestamp) : String :=
  let minutes := timestamp.offset.natAbs
  (if timestamp.offset < 0 then "-" else "+") ++ paddedText 2 (minutes / 60) ++
    paddedText 2 (minutes % 60)

/-- The name of the zone. Only universal time has one; of others the distance is repeated. -/
def zoneText (timestamp : Timestamp) : String :=
  if timestamp.offset = 0 then "UTC" else timestamp.offsetText

def text (timestamp : Timestamp) : String :=
  timestamp.date.text ++ " " ++ timestamp.clock.shortText ++ " " ++ timestamp.offsetText ++ " " ++
    timestamp.zoneText

end Timestamp

end CFrontend
