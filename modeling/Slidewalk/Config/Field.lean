import Slidewalk.Config.Value

/-!
# Records in a configuration

A record is written as a table of its fields by name, or as a list of their values in order. What is
left out keeps its standard value; what is not a field is refused.
-/

namespace Slidewalk.Config

/-- A field of a record: its name, and how a value for it is stored. -/
structure Field (ρ : Type) where
  name : String
  store : Value → ρ → Option ρ

namespace Field

/-- A field whose values are read by a reader. -/
def of (name : String) (read : Value → Option α) (set : α → ρ → ρ) : Field ρ where
  name
  store := fun value record => (read value).map fun read => set read record

/-- Stores the entries of a table. -/
def storeNamed (fields : List (Field ρ)) (record : ρ) : List (String × Value) → Option ρ
  | [] => some record
  | (name, value) :: rest =>
      match fields.find? (·.name == name) with
      | none => none
      | some field =>
          match field.store value record with
          | none => none
          | some record => storeNamed fields record rest

def storeOrdered (dialect : Dialect) (record : ρ) : List (Field ρ) → List Value → Option ρ
  | _, [] => some record
  | [], _ :: _ => if dialect.allowsSurplus then some record else none
  | field :: fields, value :: rest =>
      match field.store value record with
      | none => none
      | some record => storeOrdered dialect record fields rest

/-- Reads a record over its standard value. -/
def readRecord? (dialect : Dialect) (fields : List (Field ρ)) (standard : ρ) : Value → Option ρ
  | .table entries => storeNamed fields standard entries
  | .list items => storeOrdered dialect standard fields items
  | _ => none

end Field

end Slidewalk.Config
