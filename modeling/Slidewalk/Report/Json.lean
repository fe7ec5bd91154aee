import Slidewalk.Decimal.Layout

/-!
# Indented JSON text

Fields stand in the order they are given. Every item and every field is on a line of its own, two
blanks deeper than what holds it; empty lists and objects are one word.
-/

namespace Slidewalk.Report

/-- JSON data. Names of fields need no escapes. -/
inductive Json where
  | null
  | integer (value : Int)
  | number (value : Binary64)
  | list (items : List Json)
  | object (fields : List (String × Json))

namespace Json

def ofNat (n : Nat) : Json := .integer n

def ofOption (encode : α → Json) : Option α → Json
  | none => .null
  | some value => encode value

def indent (depth : Nat) : String := String.ofList (List.replicate (2 * depth) ' ')

def enclosed (opening closing : String) (depth : Nat) (parts : List String) : String :=
  if parts.isEmpty then opening ++ closing
  else
    let lines := parts.map fun part => indent (depth + 1) ++ part
    opening ++ "\n" ++ ",\n".intercalate lines ++ "\n" ++ indent depth ++ closing

/-- A double that is no number has no JSON text of its own. -/
def numberText (value : Binary64) : String := (Decimal.marked? value).getD "null"

mutual

def textAt (depth : Nat) : Json → String
  | null => "null"
  | integer value => toString value
  | number value => numberText value
  | list items => enclosed "[" "]" depth (itemTexts (depth + 1) items)
  | object fields => enclosed "\x7b" "\x7d" depth (fieldTexts (depth + 1) fields)

def itemTexts (depth : Nat) : List Json → List String
  | [] => []
  | item :: rest => item.textAt depth :: itemTexts depth rest

def fieldTexts (depth : Nat) : List (String × Json) → List String
  | [] => []
  | (name, value) :: rest =>
      ("\"" ++ name ++ "\": " ++ value.textAt depth) :: fieldTexts depth rest

end

def text (json : Json) : String := json.textAt 0

end Json

end Slidewalk.Report
