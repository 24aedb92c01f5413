import Stencil.Toml.Digits

/-!
# Dates and times in TOML

A moment is a date, a time of day, or both, with or without the distance from universal time. It
is read as its text in a normal form: a `T` between date and time, no zeros at the end of the
fraction of a second, and at most nine digits of it.

* `moment?` reads a moment that takes up all of a text.
-/

namespace Stencil.Toml

/-- The number of days in a month. -/
def daysIn (year month : Nat) : Nat :=
  if month = 2 then
    if (year % 4 = 0 && year % 100 ≠ 0) || year % 400 = 0 then 29 else 28
  else if month = 4 || month = 6 || month = 9 || month = 11 then 30
  else 31

/-- A date, as its text. -/
def date? : Reader String := fun input => do
  let (year, rest) ← field? 4 0 9999 input
  let (_, rest) ← expect? '-' rest
  let (month, rest) ← field? 2 1 12 rest
  let (_, rest) ← expect? '-' rest
  let (day, rest) ← field? 2 1 (daysIn year month) rest
  return (padded 4 year ++ "-" ++ padded 2 month ++ "-" ++ padded 2 day, rest)

/-- The fraction of a second, as its text: at most nine digits, without zeros at the end. -/
def fraction? : Reader String
  | '.' :: rest =>
    let digits := rest.takeWhile Char.isDigit
    if digits.isEmpty then none
    else
      let kept := ((digits.take 9).reverse.dropWhile (· == '0')).reverse
      let text := if kept.isEmpty then "" else String.ofList ('.' :: kept)
      some (text, rest.dropWhile Char.isDigit)
  | rest => some ("", rest)

/-- A time of day, as its text. -/
def time? : Reader String := fun input => do
  let (hour, rest) ← field? 2 0 23 input
  let (_, rest) ← expect? ':' rest
  let (minute, rest) ← field? 2 0 59 rest
  let (_, rest) ← expect? ':' rest
  let (second, rest) ← field? 2 0 60 rest
  let (part, rest) ← fraction? rest
  return (padded 2 hour ++ ":" ++ padded 2 minute ++ ":" ++ padded 2 second ++ part, rest)

/-- The distance from universal time, as its text; there may be none. No distance at all is written
with a plus. -/
def offset? : Reader String
  | [] => some ("", [])
  | c :: rest =>
    if c = 'Z' || c = 'z' then some ("Z", rest)
    else if c = '+' || c = '-' then do
      let (hours, rest) ← field? 2 0 23 rest
      let (_, rest) ← expect? ':' rest
      let (minutes, rest) ← field? 2 0 59 rest
      let sign := if c = '-' && (hours, minutes) ≠ (0, 0) then "-" else "+"
      return (sign ++ padded 2 hours ++ ":" ++ padded 2 minutes, rest)
    else some ("", c :: rest)

/-- A date, a time, or both, as its text. -/
def moment? (text : List Char) : Option String :=
  match date? text with
  | none =>
    match time? text with
    | some (time, []) => some time
    | _ => none
  | some (date, []) => some date
  | some (date, mark :: rest) => do
    if mark = 'T' || mark = 't' || mark = ' ' then
      let (time, rest) ← time? rest
      match ← offset? rest with
      | (offset, []) => some (date ++ "T" ++ time ++ offset)
      | _ => none
    else none

end Stencil.Toml
