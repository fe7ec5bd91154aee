import Slidewalk.Config.Value

/-!
# Tables of a TOML document

While a document is put together its tables remember how they came about, because that decides
whether more may be said about them. A table that only stands on the way to another one can still
get a header of its own. A table made by a dotted key takes more dotted keys from the same header,
but no header. A table with a header is complete, and so is every value.
-/

namespace Slidewalk.Toml

open Config (Value)

inductive Origin where
  /-- It has a header, or is the document. -/
  | header
  /-- It is on the way of a header. -/
  | headerPath
  /-- It is on the way of a dotted key. -/
  | keyPath
  deriving DecidableEq, Repr

inductive Node where
  | value (value : Value)
  | table (origin : Origin) (entries : List (String × Node))
  /-- Tables under one key, each with the same kind of header. -/
  | tables (list : List (List (String × Node)))

abbrev Entries := List (String × Node)

namespace Entries

/-- Entries with another node under a key that is there. -/
def replace (key : String) (node : Node) (entries : Entries) : Entries :=
  entries.map fun entry => if entry.1 = key then (key, node) else entry

/-- Changes the last of a list of tables. -/
def changeLast (change : Entries → Option Entries) :
    List Entries → Option (List Entries)
  | [] => none
  | [table] => (change table).map fun table => [table]
  | table :: rest => (changeLast change rest).map fun rest => table :: rest

/-- Puts a value under a key of the table at a path, which ends at a table of `origin`. -/
def put (origin : Origin) (entries : Entries) : (path : List String) → (key : String) → Value →
    Option Entries
  | [], key, value =>
      if origin = .headerPath ∨ (entries.lookup key).isSome then none
      else some (entries ++ [(key, .value value)])
  | step :: path, key, value =>
      match entries.lookup step with
      -- tables on the way of a dotted key are made as needed
      | none =>
          (put .keyPath [] path key value).map fun inner =>
            entries ++ [(step, .table .keyPath inner)]
      | some (.value _) => none
      -- dotted keys add nothing to a table with a header
      | some (.table .header _) => none
      | some (.table origin inner) =>
          (put origin inner path key value).map fun inner =>
            entries.replace step (.table origin inner)
      -- dotted keys add nothing to the last table of a list itself, only below it
      | some (.tables list) =>
          (changeLast (fun inner => put .headerPath inner path key value) list).map fun list =>
            entries.replace step (.tables list)

/-- A value that a line of a document gives to a dotted key. -/
structure Pair where
  path : List String
  key : String
  value : Value

def putAll (entries : Entries) : List Pair → Option Entries
  | [] => some entries
  | pair :: rest => (put .header entries pair.path pair.key pair.value).bind fun entries =>
      putAll entries rest

/-- Changes the entries of the table at the path of a header. -/
def descend (change : Entries → Option Entries) (entries : Entries) :
    (path : List String) → Option Entries
  | [] => change entries
  | step :: path =>
      match entries.lookup step with
      -- tables on the way of a header are made as needed
      | none => (descend change [] path).map fun inner =>
          entries ++ [(step, .table .headerPath inner)]
      | some (.value _) => none
      | some (.table origin inner) => (descend change inner path).map fun inner =>
          entries.replace step (.table origin inner)
      -- a header leads into the last table of a list
      | some (.tables list) => (changeLast (fun inner => descend change inner path) list).map
          fun list => entries.replace step (.tables list)

def define (key : String) (pairs : List Pair) (entries : Entries) : Option Entries :=
  match entries.lookup key with
  | none => (putAll [] pairs).map fun inner => entries ++ [(key, .table .header inner)]
  | some (.table .headerPath inner) => (putAll inner pairs).map fun inner =>
      entries.replace key (.table .header inner)
  | some _ => none

/-- Adds a table to the ones under a key. -/
def append (key : String) (pairs : List Pair) (entries : Entries) : Option Entries :=
  match entries.lookup key with
  | none => (putAll [] pairs).map fun inner => entries ++ [(key, .tables [inner])]
  | some (.tables list) => (putAll [] pairs).map fun inner =>
      entries.replace key (.tables (list ++ [inner]))
  | some _ => none

end Entries

mutual

def Node.toValue : Node → Value
  | .value value => value
  | .table _ entries => .table (entriesToValues entries)
  | .tables list => .list (tablesToValues list)

def entriesToValues : List (String × Node) → List (String × Value)
  | [] => []
  | (key, node) :: rest => (key, node.toValue) :: entriesToValues rest

def tablesToValues : List (List (String × Node)) → List Value
  | [] => []
  | entries :: rest => .table (entriesToValues entries) :: tablesToValues rest

end

end Slidewalk.Toml
