import Slidewalk.Toml.Lexeme

/-!
# Dates and times of TOML

Dates, times, and both together with an optional offset are recognized; no setting takes one, so
what they say is not kept. Readers give the text behind what they recognized.
-/

namespace Slidewalk.Toml

open Text (digitValue?)

def twoDigits (low high : Nat) : Reader Nat
  | a :: b :: rest => do
      let value := 10 * (← digitValue? a) + (← digitValue? b)
      if low ≤ value ∧ value ≤ high then some (value, rest) else none
  | _ => none

def after (c : Char) : List Char → Option (List Char)
  | d :: rest => if d = c then some rest else none
  | [] => none

def isLeapYear (year : Nat) : Bool := year % 4 == 0 && (year % 100 != 0 || year % 400 == 0)

def daysIn (year month : Nat) : Nat :=
  if month = 2 then (if isLeapYear year then 29 else 28)
  else if month = 4 ∨ month = 6 ∨ month = 9 ∨ month = 11 then 30
  else 31

def beginsDate : List Char → Bool
  | a :: b :: c :: d :: '-' :: _ => [a, b, c, d].all fun digit => (digitValue? digit).isSome
  | _ => false

def beginsTime (text : List Char) : Bool :=
  match twoDigits 0 23 text with
  | some (_, ':' :: _) => true
  | _ => false

def afterDate (text : List Char) : Option (List Char) := do
  let (century, rest) ← twoDigits 0 99 text
  let (year, rest) ← twoDigits 0 99 rest
  let (month, rest) ← twoDigits 1 12 (← after '-' rest)
  let (_, rest) ← twoDigits 1 (daysIn (100 * century + year) month) (← after '-' rest)
  return rest

/-- The text behind the fraction of a second, which may be missing. -/
def afterSecondFraction : List Char → Option (List Char)
  | '.' :: c :: rest =>
      if (digitValue? c).isSome then some (rest.dropWhile fun c => (digitValue? c).isSome) else none
  | '.' :: [] => none
  | text => some text

def afterTime (text : List Char) : Option (List Char) := do
  let (_, rest) ← twoDigits 0 23 text
  let (_, rest) ← twoDigits 0 59 (← after ':' rest)
  let (_, rest) ← twoDigits 0 60 (← after ':' rest)
  afterSecondFraction rest

/-- The text behind an offset, which may be missing. -/
def afterOffset : List Char → Option (List Char)
  | c :: rest =>
      if c = 'Z' ∨ c = 'z' then some rest
      else if c = '+' ∨ c = '-' then do
        let (_, rest) ← twoDigits 0 23 rest
        let (_, rest) ← twoDigits 0 59 (← after ':' rest)
        return rest
      else some (c :: rest)
  | [] => some []

/-- The text behind a time of a day, which may be missing. -/
def afterTimeOfDay : List Char → Option (List Char)
  | c :: rest =>
      if (c = 'T' ∨ c = 't' ∨ c = ' ') ∧ beginsTime rest then (afterTime rest).bind afterOffset
      else some (c :: rest)
  | [] => some []

def beginsMoment (text : List Char) : Bool := beginsDate text || beginsTime text

def afterMoment (text : List Char) : Option (List Char) :=
  if beginsDate text then (afterDate text).bind afterTimeOfDay else afterTime text

end Slidewalk.Toml
