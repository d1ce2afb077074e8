import TemplateEngine.Decimal.Reading
import TemplateEngine.Text.Blank
import TemplateEngine.Text.Search
import TemplateEngine.Time.Instant

-- Instants as text: a day, a time of day and an offset from universal time.
namespace TemplateEngine.Instant

def digits (width n : Nat) : List Char :=
  let all := Nat.toDigits 10 n
  List.replicate (width - all.length) '0' ++ all

-- Years of more than four digits and years before the first have a sign.
def yearText (year : Int) : List Char :=
  if 0 ≤ year ∧ year ≤ 9999 then digits 4 year.toNat
  else (if year < 0 then '-' else '+') :: digits 4 year.natAbs

def dayText (d : Day) : List Char := yearText d.year ++ '-' :: (digits 2 d.month ++ '-' :: digits 2 d.day)

-- Hours, minutes and seconds. A leap second counts as the sixtieth.
def clockText (t : Instant) : List Char :=
  let second := (t.seconds % 86400).toNat
  let leap := t.nanos / 1000000000
  digits 2 (second / 3600) ++ ':' :: (digits 2 (second / 60 % 60) ++ ':' :: digits 2 (second % 60 + leap))

def day (t : Instant) : Day := Day.ofNumber (t.seconds / 86400)

-- The fraction of a second in the fewest of zero, three, six or nine digits that hold it.
def fractionText (nanos : Nat) : List Char :=
  if nanos = 0 then []
  else if nanos % 1000000 = 0 then '.' :: digits 3 (nanos / 1000000)
  else if nanos % 1000 = 0 then '.' :: digits 6 (nanos / 1000)
  else '.' :: digits 9 nanos

def stamp (t : Instant) : String :=
  String.ofList (dayText t.day ++ 'T' :: (clockText t ++ fractionText (t.nanos % 1000000000) ++ ['Z']))

-- The stamp for readers, without a fraction.
def plainStamp (t : Instant) : String :=
  String.ofList (dayText t.day ++ ' ' :: clockText t) ++ " UTC"

-- Between one and `width` digits at the front of a text, after any blanks.
def takeNumber (width : Nat) (cs : List Char) : Option (Nat × List Char) :=
  let text := Text.trimLeft cs
  let taken := (text.take width).takeWhile Char.isDigit
  if taken.isEmpty then none else some (Decimal.ofDigits taken, text.drop taken.length)

def expect (c : Char) (cs : List Char) : Option (List Char) :=
  match Text.trimLeft cs with
  | d :: rest => if d = c then some rest else none
  | [] => none

-- A year, which a sign may stand before; then it may have any number of digits.
def takeYear (cs : List Char) : Option (Int × List Char) :=
  let signed (negative : Bool) (rest : List Char) :=
    let taken := rest.takeWhile Char.isDigit
    if taken.isEmpty then none
    else
      let year : Int := Decimal.ofDigits taken
      some (if negative then -year else year, rest.drop taken.length)
  match Text.trimLeft cs with
  | '-' :: rest => signed true rest
  | '+' :: rest => signed false rest
  | rest => (takeNumber 4 rest).map fun (year, after) => ((year : Int), after)

-- A fraction in nanoseconds; digits after the ninth are dropped.
def takeFraction (cs : List Char) : Option (Nat × List Char) :=
  match cs with
  | '.' :: rest =>
    let all := rest.takeWhile Char.isDigit
    if all.isEmpty then none
    else
      let taken := all.take 9
      some (Decimal.ofDigits (taken ++ List.replicate (9 - taken.length) '0'), rest.drop all.length)
  | rest => some (0, rest)

def twoDigits (cs : List Char) : Option (Nat × List Char) :=
  match cs with
  | a :: b :: rest => if a.isDigit && b.isDigit then some (Decimal.ofDigits [a, b], rest) else none
  | _ => none

-- An offset in seconds: a letter for universal time or its name, or a sign, hours and minutes.
def takeOffset (cs : List Char) : Option (Int × List Char) :=
  let text := Text.trimLeft cs
  if (text.take 3).map Char.toUpper == "UTC".toList then some (0, text.drop 3)
  else
    match text with
    | [] => none
    | c :: rest =>
      if c = 'Z' || c = 'z' then some (0, rest)
      else if c = '+' || c = '-' || c.toNat = 0x2212 then do
        let (hours, rest) ← twoDigits rest
        let (minutes, rest) ← twoDigits (rest.dropWhile fun d => d == ':' || Text.isBlank d)
        if 60 ≤ minutes then none
        let size : Int := hours * 3600 + minutes * 60
        if 86400 ≤ size then none
        return (if c = '+' then size else -size, rest)
      else none

-- The days of the calendar that stamps may name, by their numbers.
def inCalendar (day : Int) : Bool :=
  (⟨-262143, 1, 1⟩ : Day).number ≤ day && day ≤ (⟨262142, 12, 31⟩ : Day).number

-- The instant that a stamp stands for, if it is in the calendar both where the stamp was written
-- and in universal time. Blanks may stand between its parts, and a blank in place
-- of the letter between day and time.
def ofStamp? (s : String) : Option Instant := do
  let (year, rest) ← takeYear s.toList
  let (month, rest) ← takeNumber 2 (← expect '-' rest)
  let (day, rest) ← takeNumber 2 (← expect '-' rest)
  let rest ←
    match rest with
    | c :: rest => if c = 'T' || c = 't' || c = ' ' then some rest else none
    | [] => none
  let (hour, rest) ← takeNumber 2 rest
  let (minute, rest) ← takeNumber 2 (← expect ':' rest)
  let (second, rest) ← takeNumber 2 (← expect ':' rest)
  let (nanos, rest) ← takeFraction rest
  let (offset, rest) ← takeOffset rest
  let date : Day := ⟨year, month, day⟩
  let leap := second == 60
  let time : Int := hour * 3600 + minute * 60 + (if leap then 59 else second)
  let seconds := date.number * 86400 + time - offset
  if (Text.trimLeft rest).isEmpty && date.isValid && hour < 24 && minute < 60 && second ≤ 60
      && inCalendar date.number && inCalendar (seconds / 86400) then
    return ⟨seconds, if leap then nanos + 1000000000 else nanos⟩
  else none

end TemplateEngine.Instant
