import Slidewalk.Toml.Moment
import Slidewalk.Toml.Number
import Slidewalk.Toml.Table

/-!
# TOML documents

A document is lines: pairs of a dotted key and a value, and headers that say which table the pairs
behind them belong to. Loops over a text are bounded by its length, which they use up.
-/

namespace Slidewalk.Toml

open Config (Value)
open Entries (Pair)

/-- How many parts a key may have, and how deep values may nest. -/
def maxNesting : Nat := 79

/-! ## Keys -/

/-- The parts of a dotted key, with blanks around them. -/
def keyParts : (fuel : Nat) → List Char → Option (List String × List Char)
  | 0, _ => none
  | fuel + 1, text => do
      let (part, rest) ← keyPart (skipBlanks text)
      match skipBlanks rest with
      | '.' :: rest =>
          let (parts, rest) ← keyParts fuel rest
          return (part :: parts, rest)
      | rest => return ([part], rest)

/-- A key, split into the path of a table and its name there. -/
structure Key where
  path : List String
  name : String

def key (text : List Char) : Option (Key × List Char) := do
  let (parts, rest) ← keyParts (text.length + 1) text
  let name ← parts.getLast?
  if parts.length ≤ maxNesting then some ({ path := parts.dropLast, name }, rest) else none

/-! ## Values -/

/-- The values of an array from one of them, or from its end, on. -/
def arrayItems (readValue : List Char → Option (Value × List Char)) :
    (fuel : Nat) → List Char → Option (List Value × List Char)
  | 0, _ => none
  | fuel + 1, text => do
      match ← afterGap false text with
      | ']' :: rest => return ([], rest)
      | text =>
          let (value, rest) ← readValue text
          match ← afterGap false rest with
          | ',' :: rest =>
              let (values, rest) ← arrayItems readValue fuel rest
              return (value :: values, rest)
          | ']' :: rest => return ([value], rest)
          | _ => none

/-- The pairs of an inline table from one of them on. -/
def inlinePairs (readValue : List Char → Option (Value × List Char)) :
    (fuel : Nat) → List Char → Option (List Pair × List Char)
  | 0, _ => none
  | fuel + 1, text => do
      let (key, rest) ← key text
      let (value, rest) ← readValue (skipBlanks (← after '=' rest))
      let pair : Pair := { path := key.path, key := key.name, value }
      match skipBlanks rest with
      -- no comma may stand behind the last pair
      | ',' :: rest =>
          let (pairs, rest) ← inlinePairs readValue fuel rest
          return (pair :: pairs, rest)
      | '\x7d' :: rest => return ([pair], rest)
      | _ => none

def inlineTable (readValue : List Char → Option (Value × List Char)) (text : List Char) :
    Option (Value × List Char) :=
  match skipBlanks text with
  | '\x7d' :: rest => some (.table [], rest)
  | text => do
      let (pairs, rest) ← inlinePairs readValue (text.length + 1) text
      let entries ← Entries.putAll [] pairs
      return (.table (entriesToValues entries), rest)

/-- A value that is no array and no inline table. -/
def scalar (text : List Char) : Option (Value × List Char) :=
  match text with
  | '"' :: _ | '\'' :: _ =>
      (string text).map fun (text, rest) => (.text (String.ofList text), rest)
  | 't' :: 'r' :: 'u' :: 'e' :: rest => some (.boolean true, rest)
  | 'f' :: 'a' :: 'l' :: 's' :: 'e' :: rest => some (.boolean false, rest)
  | text =>
      -- a date begins with digits as a number does, so it is tried first
      if beginsMoment text then (afterMoment text).map fun rest => (.moment, rest)
      else number text

/-- A value with at most `nesting` arrays and inline tables around its parts. -/
def value : (nesting : Nat) → List Char → Option (Value × List Char)
  | 0, text => scalar text
  | nesting + 1, text =>
      match text with
      | '[' :: rest =>
          (arrayItems (value nesting) (rest.length + 1) rest).map fun (items, rest) =>
            (.list items, rest)
      | '\x7b' :: rest => inlineTable (value nesting) rest
      | text => scalar text

/-! ## Lines -/

/-- A header names a table, or one more table of a list. -/
structure Header where
  key : Key
  isListed : Bool

inductive Line where
  | pair (pair : Pair)
  | header (header : Header)

def header (isListed : Bool) (text : List Char) : Option (Line × List Char) := do
  let (key, rest) ← key text
  let rest ← after ']' rest
  let rest ← if isListed then after ']' rest else some rest
  return (.header { key, isListed }, rest)

def pair (text : List Char) : Option (Line × List Char) := do
  let (key, rest) ← key text
  let (value, rest) ← value maxNesting (skipBlanks (← after '=' rest))
  return (.pair { path := key.path, key := key.name, value }, rest)

def line : List Char → Option (Line × List Char)
  | '[' :: '[' :: rest => header true rest
  | '[' :: rest => header false rest
  | text => pair text

def lines : (fuel : Nat) → List Char → Option (List Line)
  | 0, _ => none
  | fuel + 1, text => do
      match skipBlanks text with
      | [] => return []
      | c :: rest =>
          -- a line that says nothing
          if c = '#' ∨ c = '\n' ∨ c = '\r' then lines fuel (← afterLine (c :: rest))
          else
            let (line, rest) ← line (c :: rest)
            let lines ← lines fuel (← afterLine rest)
            return line :: lines

/-! ## Sections -/

/-- A header and the pairs behind it. -/
structure Section where
  header : Header
  pairs : List Pair

/-- The pairs in front of the first header, and the sections. -/
def sections : List Line → List Pair × List Section
  | [] => ([], [])
  | .pair pair :: rest =>
      let (pairs, sections) := sections rest
      (pair :: pairs, sections)
  | .header header :: rest =>
      let (pairs, sections) := sections rest
      ([], { header, pairs } :: sections)

def Section.addTo (block : Section) (document : Entries) : Option Entries :=
  let { header, pairs } := block
  let add := if header.isListed then Entries.append else Entries.define
  document.descend (add header.key.name pairs) header.key.path

def addAll (document : Entries) : List Section → Option Entries
  | [] => some document
  | first :: rest => (first.addTo document).bind fun document => addAll document rest

/-- The text behind a byte-order mark. -/
def skipMark : List Char → List Char
  | '\ufeff' :: rest => rest
  | text => text

def read? (text : List Char) : Option Value := do
  let text := skipMark text
  let (pairs, sections) := sections (← lines (text.length + 1) text)
  let document ← addAll (← Entries.putAll [] pairs) sections
  return .table (entriesToValues document)

end Slidewalk.Toml
