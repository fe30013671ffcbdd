import Cutscene.Number.Reader

/-!
Moments, as a settings document gives them: a date, a time of day, or both with an optional offset
from universal time. A reader gives what it read and the text behind it; each field has a fixed
number of digits and a range. A moment is written in one form, whichever of its spellings was read.

Correspondence (engine ↔ here):
  a date or time that `Config` is given ↔ `Moment`
  its reader and its display            ↔ `Moment.read`, `Moment.write`
-/
namespace Cutscene

/-- A day of the calendar. -/
structure Date where
  year : Nat
  month : Nat
  day : Nat
  deriving DecidableEq, Repr

/-- A time of day. The sixtieth second is a leap second. -/
structure Time where
  hour : Nat
  minute : Nat
  second : Nat
  nanosecond : Nat
  deriving DecidableEq, Repr

/-- How far a clock is from universal time. -/
inductive Offset where
  | universal
  /-- By so many minutes, fewer than none to the west. -/
  | east (minutes : Int)
  deriving DecidableEq, Repr

/-- A moment. An offset is given only with a date and a time. -/
inductive Moment where
  | onDate (date : Date)
  | atTime (time : Time)
  | both (date : Date) (time : Time) (offset : Option Offset)
  deriving DecidableEq, Repr

/-! ## Reading -/

/-- Read a number of `width` digits between two bounds. -/
def readField (width least most : Nat) (text : List Char) : Option (Nat × List Char) :=
  let digits := text.take width
  let n := Number.ofDigits digits
  if digits.length = width && digits.all Char.isDigit && least ≤ n && n ≤ most then
    some (n, text.drop width)
  else none

/-- The text behind a character that must come next. -/
def readMark (c : Char) : List Char → Option (List Char)
  | [] => none
  | d :: rest => if c = d then some rest else none

/-- What a reader gave, or nothing read. -/
def readOptional {α : Type} (read : List Char → Option (α × List Char)) (text : List Char) :
    Option α × List Char :=
  match read text with
  | some (value, rest) => (some value, rest)
  | none => (none, text)

/-- Whether a year has a day more: each fourth has, but of the hundredth ones only each fourth. -/
def Date.isLeap (year : Nat) : Bool := year % 4 = 0 && (year % 100 ≠ 0 || year % 400 = 0)

/-- How many days a month has. -/
def Date.daysIn (year month : Nat) : Nat :=
  if month = 2 then (if isLeap year then 29 else 28)
  else if month = 4 || month = 6 || month = 9 || month = 11 then 30
  else 31

/-- Read a date: the year, the month and the day, with dashes between them. -/
def Date.read (text : List Char) : Option (Date × List Char) := do
  let (year, rest) ← readField 4 0 9999 text
  let (month, rest) ← readField 2 1 12 (← readMark '-' rest)
  let (day, rest) ← readField 2 1 (daysIn year month) (← readMark '-' rest)
  return (⟨year, month, day⟩, rest)

/-- Read the part of a second behind a point. Digits past the ninth are dropped. -/
def Time.readFraction (text : List Char) : Option (Nat × List Char) := do
  let rest ← readMark '.' text
  let digits := rest.takeWhile Char.isDigit
  if digits.isEmpty then none
  else some (Number.ofDigits ((digits ++ List.replicate 9 '0').take 9), rest.dropWhile Char.isDigit)

/-- Read a time: the hour, the minute and the second, with colons between them. -/
def Time.read (text : List Char) : Option (Time × List Char) := do
  let (hour, rest) ← readField 2 0 23 text
  let (minute, rest) ← readField 2 0 59 (← readMark ':' rest)
  let (second, rest) ← readField 2 0 60 (← readMark ':' rest)
  let (nanosecond, rest) := readOptional readFraction rest
  return (⟨hour, minute, second, nanosecond.getD 0⟩, rest)

/-- Read the size of an offset in minutes. -/
def Offset.readSize (text : List Char) : Option (Nat × List Char) := do
  let (hours, rest) ← readField 2 0 23 text
  let (minutes, rest) ← readField 2 0 59 (← readMark ':' rest)
  return (60 * hours + minutes, rest)

/-- Read an offset. -/
def Offset.read : List Char → Option (Offset × List Char)
  | 'Z' :: rest | 'z' :: rest => some (.universal, rest)
  | '+' :: rest => (readSize rest).map fun (n, rest) => (.east n, rest)
  | '-' :: rest => (readSize rest).map fun (n, rest) => (.east (-n), rest)
  | _ => none

/-- Read the time that follows a date: behind the letter T or a space. -/
def Time.readAfterDate : List Char → Option (Time × List Char)
  | 'T' :: rest | 't' :: rest | ' ' :: rest => read rest
  | _ => none

/-- Read a moment. -/
def Moment.read (text : List Char) : Option (Moment × List Char) :=
  match Date.read text with
  | some (date, rest) =>
    match Time.readAfterDate rest with
    | some (time, rest) =>
      let (offset, rest) := readOptional Offset.read rest
      some (.both date time offset, rest)
    | none => some (.onDate date, rest)
  | none => (Time.read text).map fun (time, rest) => (.atTime time, rest)

/-! ## Writing -/

/-- The digits of a number, with zeros before them up to a width. -/
def writeField (width n : Nat) : List Char :=
  let digits := Nat.toDigits 10 n
  List.replicate (width - digits.length) '0' ++ digits

/-- The written form of a date. -/
def Date.write (date : Date) : List Char :=
  writeField 4 date.year ++ '-' :: writeField 2 date.month ++ '-' :: writeField 2 date.day

/-- The written form of the part of a second, without the zeros at its end. -/
def Time.writeFraction (nanosecond : Nat) : List Char :=
  if nanosecond = 0 then []
  else '.' :: ((writeField 9 nanosecond).reverse.dropWhile (· = '0')).reverse

/-- The written form of a time. -/
def Time.write (time : Time) : List Char :=
  writeField 2 time.hour ++ ':' :: writeField 2 time.minute ++ ':' :: writeField 2 time.second ++
    writeFraction time.nanosecond

/-- The written form of an offset. -/
def Offset.write : Offset → List Char
  | universal => ['Z']
  | east n =>
    (if n < 0 then '-' else '+') :: writeField 2 (n.natAbs / 60) ++
      ':' :: writeField 2 (n.natAbs % 60)

/-- The written form of a moment. -/
def Moment.write : Moment → List Char
  | onDate d => d.write
  | atTime t => t.write
  | both d t offset => d.write ++ 'T' :: t.write ++ (offset.map Offset.write).getD []

end Cutscene
