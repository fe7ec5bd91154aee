import Slidewalk.Binary64.Rounding

/-!
# Configuration values

The values a configuration is written in, and how they are read as what a setting needs. Reading is
strict: a fraction is no integer, and nothing is converted to or from text. Values come from JSON or
from TOML, which is the more lenient of the two.
-/

namespace Slidewalk.Config

/-- Where values come from. -/
inductive Dialect where
  | json
  | toml
  deriving DecidableEq, Repr

/-- Whether a list may go on behind the last value that is asked for. -/
def Dialect.allowsSurplus : Dialect → Bool
  | json => false
  | toml => true

inductive Value where
  | null
  | boolean (value : Bool)
  | integer (value : Int)
  | fraction (value : Binary64)
  | text (value : String)
  /-- A date or a time; no setting takes one. -/
  | moment
  | list (items : List Value)
  /-- Entries under different names. -/
  | table (entries : List (String × Value))
  deriving Inhabited

namespace Value

def boolean? : Value → Option Bool
  | boolean value => some value
  | _ => none

/-- An integer from zero up to `max`. -/
def nat? (max : Nat) : Value → Option Nat
  | integer value => if 0 ≤ value ∧ value ≤ max then some value.toNat else none
  | _ => none

def uint64? (value : Value) : Option UInt64 := (value.nat? (UInt64.size - 1)).map UInt64.ofNat

def uint8? (value : Value) : Option UInt8 := (value.nat? (UInt8.size - 1)).map UInt8.ofNat

/-- A number; integers count. -/
def number? : Value → Option Binary64
  | integer value => some (Binary64.ofInt value)
  | fraction value => some value
  | _ => none

def list? : Value → Option (List Value)
  | list items => some items
  | _ => none

/-- Whether a value says nothing: null in JSON; TOML has no null, but lists and tables without
entries. -/
def isVoid : Dialect → Value → Bool
  | .json, null => true
  | .toml, list [] | .toml, table [] => true
  | _, _ => false

/-- One of some named choices: its name, or a table with its name and nothing under it. -/
def choice? (dialect : Dialect) (choices : List (String × α)) : Value → Option α
  | text name => choices.lookup name
  | table [(name, content)] => if content.isVoid dialect then choices.lookup name else none
  | _ => none

end Value

end Slidewalk.Config
