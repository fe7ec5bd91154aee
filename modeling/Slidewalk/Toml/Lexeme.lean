import Slidewalk.Text.Integer

/-!
# Blanks, line ends and strings of TOML

Readers take the text in front of them and give what they read with the text behind it, or nothing
if the text does not fit. Control characters other than the tab appear only as line ends.
-/

namespace Slidewalk.Toml

abbrev Reader (α : Type) := List Char → Option (α × List Char)

def isBlank (c : Char) : Bool := c == ' ' || c == '\t'

/-- A character that a comment, and so a line, can hold. -/
def isInLine (c : Char) : Bool := c == '\t' || (0x20 ≤ c.toNat && c.toNat != 0x7f)

def skipBlanks (text : List Char) : List Char := text.dropWhile isBlank

/-- The text behind a line end, which is a line feed with or without a carriage return. -/
def afterLineEnd : List Char → Option (List Char)
  | '\n' :: rest => some rest
  | '\r' :: '\n' :: rest => some rest
  | _ => none

/-- The text behind the rest of a line that says nothing more. -/
def afterLine (text : List Char) : Option (List Char) :=
  let rest := match skipBlanks text with
    | '#' :: rest => rest.dropWhile isInLine
    | rest => rest
  match rest with
  | [] => some []
  | rest => afterLineEnd rest

/-- The text behind blanks, line ends and comments. A comment runs to a line end. -/
def afterGap (inComment : Bool) : List Char → Option (List Char)
  | [] => if inComment then none else some []
  | '\n' :: rest => afterGap false rest
  | '\r' :: '\n' :: rest => afterGap false rest
  | c :: rest =>
      if inComment then (if isInLine c then afterGap true rest else none)
      else if isBlank c then afterGap false rest
      else if c = '#' then afterGap true rest
      else some (c :: rest)

/-! ## Strings -/

/-- Puts a character in front of what a reader reads. -/
def prepend (c : Char) (read : Option (List Char × List Char)) : Option (List Char × List Char) :=
  read.map fun (text, rest) => (c :: text, rest)

/-- The character that a letter behind a backslash stands for. -/
def shorthand? : Char → Option Char
  | 'b' => some '\x08'
  | 't' => some '\t'
  | 'n' => some '\n'
  | 'f' => some '\x0c'
  | 'r' => some '\r'
  | '"' => some '"'
  | '\\' => some '\\'
  | _ => none

def hexDigit? (c : Char) : Option Nat :=
  if '0' ≤ c ∧ c ≤ '9' then some (c.toNat - '0'.toNat)
  else if 'a' ≤ c ∧ c ≤ 'f' then some (c.toNat - 'a'.toNat + 10)
  else if 'A' ≤ c ∧ c ≤ 'F' then some (c.toNat - 'A'.toNat + 10)
  else none

def number? (base : Nat) (digit? : Char → Option Nat) (digits : List Char) : Option Nat :=
  digits.foldl
    (fun value c => value.bind fun value => (digit? c).map fun digit => base * value + digit)
    (some 0)

def numbered? (digits : List Char) : Option Char :=
  (number? 16 hexDigit? digits).bind fun n => if n.isValidChar then some (Char.ofNat n) else none

/-- A string in double quotes, behind the opening one. -/
def basicString : Reader (List Char)
  | [] => none
  | '"' :: rest => some ([], rest)
  | '\\' :: 'u' :: a :: b :: c :: d :: rest =>
      (numbered? [a, b, c, d]).bind fun char => prepend char (basicString rest)
  | '\\' :: 'U' :: a :: b :: c :: d :: e :: f :: g :: h :: rest =>
      (numbered? [a, b, c, d, e, f, g, h]).bind fun char => prepend char (basicString rest)
  | '\\' :: c :: rest => (shorthand? c).bind fun char => prepend char (basicString rest)
  | c :: rest => if isInLine c then prepend c (basicString rest) else none

/-- A string in single quotes, behind the opening one. -/
def literalString : Reader (List Char)
  | [] => none
  | '\'' :: rest => some ([], rest)
  | c :: rest => if isInLine c then prepend c (literalString rest) else none

/-- Up to two quotes behind the three that close a string are its last characters. -/
def lastQuotes (quote : Char) : List Char → List Char × List Char
  | a :: b :: rest =>
      if a = quote then
        if b = quote then ([quote, quote], rest) else ([quote], b :: rest)
      else ([], a :: b :: rest)
  | [a] => if a = quote then ([quote], []) else ([], [a])
  | [] => ([], [])

/-- What a backslash at the end of a line leaves out: the blanks up to the line end, then all blanks
and line ends. -/
inductive Fold where
  | nothing
  | toLineEnd
  | pastLineEnd

/-- A string in three double quotes, behind the opening ones. -/
def longBasicString : Fold → Reader (List Char)
  | _, [] => none
  | .toLineEnd, c :: rest =>
      if isBlank c then longBasicString .toLineEnd rest
      else if c = '\n' then longBasicString .pastLineEnd rest
      else match c, rest with
        | '\r', '\n' :: rest => longBasicString .pastLineEnd rest
        | _, _ => none
  | .pastLineEnd, '\r' :: '\n' :: rest => longBasicString .pastLineEnd rest
  -- a line end is one line feed however it is written
  | .nothing, '\r' :: '\n' :: rest => prepend '\n' (longBasicString .nothing rest)
  | _, '"' :: '"' :: '"' :: rest => some (lastQuotes '"' rest)
  | _, '\\' :: 'u' :: a :: b :: c :: d :: rest =>
      (numbered? [a, b, c, d]).bind fun char => prepend char (longBasicString .nothing rest)
  | _, '\\' :: 'U' :: a :: b :: c :: d :: e :: f :: g :: h :: rest =>
      (numbered? [a, b, c, d, e, f, g, h]).bind fun char =>
        prepend char (longBasicString .nothing rest)
  | _, '\\' :: c :: rest =>
      if isBlank c then longBasicString .toLineEnd rest
      else if c = '\n' then longBasicString .pastLineEnd rest
      else match c, rest with
        | '\r', '\n' :: rest => longBasicString .pastLineEnd rest
        | _, rest => (shorthand? c).bind fun char => prepend char (longBasicString .nothing rest)
  | .pastLineEnd, c :: rest =>
      if isBlank c ∨ c = '\n' then longBasicString .pastLineEnd rest
      else if isInLine c then prepend c (longBasicString .nothing rest)
      else none
  | .nothing, c :: rest =>
      if isInLine c ∨ c = '\n' then prepend c (longBasicString .nothing rest) else none

/-- A string in three single quotes, behind the opening ones. -/
def longLiteralString : Reader (List Char)
  | [] => none
  | '\'' :: '\'' :: '\'' :: rest => some (lastQuotes '\'' rest)
  | '\r' :: '\n' :: rest => prepend '\n' (longLiteralString rest)
  | c :: rest => if isInLine c ∨ c = '\n' then prepend c (longLiteralString rest) else none

/-- The text behind a line end, if there is one first. -/
def skipLineEnd (text : List Char) : List Char := (afterLineEnd text).getD text

def shortString : Reader (List Char)
  | '"' :: rest => basicString rest
  | '\'' :: rest => literalString rest
  | _ => none

/-- A string, with its quotes. A line end right behind three quotes is no part of it. -/
def string : Reader (List Char)
  | '"' :: '"' :: '"' :: rest => longBasicString .nothing (skipLineEnd rest)
  | '\'' :: '\'' :: '\'' :: rest => longLiteralString (skipLineEnd rest)
  | text => shortString text

/-! ## Keys -/

def isBareKeyChar (c : Char) : Bool :=
  ('A' ≤ c && c ≤ 'Z') || ('a' ≤ c && c ≤ 'z') || ('0' ≤ c && c ≤ '9') || c == '_' || c == '-'

/-- One part of a key: a string on one line, or a bare word. -/
def keyPart (text : List Char) : Option (String × List Char) :=
  match text with
  | '"' :: _ | '\'' :: _ => (shortString text).map fun (key, rest) => (String.ofList key, rest)
  | text =>
      match text.takeWhile isBareKeyChar with
      | [] => none
      | key => some (String.ofList key, text.dropWhile isBareKeyChar)

end Slidewalk.Toml
