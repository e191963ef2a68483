import Geocast.Decimal.Numeral

/-! # Days and times

A moment is a day of the calendar, a time of the day, or both, then with or without an offset from
universal time. `Moment.ofChars?` reads one and refuses days and times that do not exist;
`Moment.chars` writes it. -/

namespace Geocast

namespace Toml

structure Day where
  year : Nat
  month : Nat
  day : Nat
deriving Repr, DecidableEq

structure Clock where
  hour : Nat
  minute : Nat
  second : Option Nat
  /-- The digits after the point; without any there is no point. -/
  fraction : List Digit
deriving Repr, DecidableEq

/-- How far a local time is from universal time. -/
inductive Offset
  | universal
  | minutes (m : Int)
deriving Repr, DecidableEq

/-- A day, a time of the day, or a time on a day. -/
inductive Moment
  | day (d : Day)
  | clock (c : Clock)
  | both (d : Day) (c : Clock) (offset : Option Offset)
deriving Repr, DecidableEq

/-! ## Reading -/

/-- Reads a number of exactly `width` digits. -/
def readDigits (width : Nat) (cs : List Char) : Option (Nat × List Char) :=
  let ds := (Digit.span (cs.take width)).1
  if ds.length = width then some (Digit.value ds, cs.drop width) else none

/-- Reads a character that must come next, and two digits after it. -/
def readPart (mark : Char) : List Char → Option (Nat × List Char)
  | c :: cs => if c = mark then readDigits 2 cs else none
  | [] => none

namespace Day

/-- Whether a year has a day more: every fourth has, but of the full centuries only every
fourth. -/
def isLeap (year : Nat) : Bool := year % 4 = 0 && (year % 100 ≠ 0 || year % 400 = 0)

/-- How many days a month has. -/
def daysOfMonth (year month : Nat) : Nat :=
  if month = 2 then if isLeap year then 29 else 28
  else if month ∈ [4, 6, 9, 11] then 30
  else 31

/-- Whether the day stands in the calendar. -/
def isValid (d : Day) : Bool :=
  1 ≤ d.month && d.month ≤ 12 && 1 ≤ d.day && d.day ≤ daysOfMonth d.year d.month

/-- Reads a day, such as `1979-05-27`. -/
def read (cs : List Char) : Option (Day × List Char) := do
  let (year, cs) ← readDigits 4 cs
  let (month, cs) ← readPart '-' cs
  let (day, cs) ← readPart '-' cs
  let d : Day := ⟨year, month, day⟩
  if d.isValid then some (d, cs) else none

end Day

namespace Clock

/-- Whether the time occurs on a day. A minute may end with a leap second. -/
def isValid (c : Clock) : Bool :=
  c.hour ≤ 23 && c.minute ≤ 59 && c.second.all (· ≤ 60)

/-- The digits of a fraction that are kept: nine at most, without the zeros at the end, but at
least one. -/
def trim (ds : List Digit) : List Digit :=
  match ((ds.take 9).reverse.dropWhile (·.val = 0)).reverse with
  | [] => [⟨0, by decide⟩]
  | ds => ds

/-- Reads the fraction of a second, if there is one. -/
def readFraction : List Char → Option (List Digit × List Char)
  | '.' :: cs =>
    match Digit.span cs with
    | ([], _) => none
    | (ds, rest) => some (trim ds, rest)
  | cs => some ([], cs)

/-- Reads a time, such as `07:32` or `07:32:00.5`. -/
def read (cs : List Char) : Option (Clock × List Char) := do
  let (hour, cs) ← readDigits 2 cs
  let (minute, cs) ← readPart ':' cs
  let (c, cs) ← match cs with
    | ':' :: _ => do
      let (second, cs) ← readPart ':' cs
      let (fraction, cs) ← readFraction cs
      some ((⟨hour, minute, some second, fraction⟩ : Clock), cs)
    | cs => some (⟨hour, minute, none, []⟩, cs)
  if c.isValid then some (c, cs) else none

end Clock

namespace Offset

/-- Reads hours and minutes of an offset. -/
def readMinutes (cs : List Char) : Option (Nat × List Char) := do
  let (hours, cs) ← readDigits 2 cs
  let (rest, cs) ← readPart ':' cs
  if hours ≤ 23 ∧ rest ≤ 59 then some (60 * hours + rest, cs) else none

/-- Reads an offset, if there is one. -/
def read : List Char → Option (Option Offset × List Char)
  | [] => some (none, [])
  | c :: cs =>
    if c = 'Z' ∨ c = 'z' then some (some universal, cs)
    else if c = '+' then (readMinutes cs).map fun (m, rest) => (some (minutes m), rest)
    else if c = '-' then (readMinutes cs).map fun (m, rest) => (some (minutes (-m)), rest)
    else none

end Offset

namespace Moment

/-- The moment that a whole text writes. Day and time stand apart by a `T` or a space. -/
def ofChars? (cs : List Char) : Option Moment :=
  match Day.read cs with
  | some (d, []) => some (day d)
  | some (d, c :: cs) =>
    if c = 'T' ∨ c = 't' ∨ c = ' ' then do
      let (c, cs) ← Clock.read cs
      match ← Offset.read cs with
      | (offset, []) => some (both d c offset)
      | _ => none
    else none
  | none =>
    match Clock.read cs with
    | some (c, []) => some (clock c)
    | _ => none

end Moment

/-! ## Writing -/

/-- A number with zeros in front up to `width` digits. -/
def padded (width n : Nat) : List Char :=
  let ds := decimalDigits n
  List.replicate (width - ds.length) '0' ++ ds

def Day.chars (d : Day) : List Char :=
  padded 4 d.year ++ '-' :: padded 2 d.month ++ '-' :: padded 2 d.day

def Clock.chars (c : Clock) : List Char :=
  let second := match c.second with
    | some s => ':' :: padded 2 s
    | none => []
  let fraction := if c.fraction.isEmpty then [] else '.' :: c.fraction.map Digit.toChar
  padded 2 c.hour ++ ':' :: padded 2 c.minute ++ second ++ fraction

/-- The written form of an offset. One of no minutes counts as ahead. -/
def Offset.chars : Offset → List Char
  | universal => ['Z']
  | minutes m =>
    let n := m.natAbs
    (if m < 0 then '-' else '+') :: padded 2 (n / 60) ++ ':' :: padded 2 (n % 60)

def Moment.chars : Moment → List Char
  | day d => d.chars
  | clock c => c.chars
  | both d c offset => d.chars ++ 'T' :: c.chars ++ (offset.map Offset.chars).getD []

end Toml

end Geocast
