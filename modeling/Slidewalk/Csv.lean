import Slidewalk.Text.Utf8

/-!
# Records of comma-separated values

Bytes are cut into records of fields. A record ends at a line feed, a carriage return, or both;
empty lines are no records. A field in quotes may hold commas and line ends, and a quote as two;
behind the closing quote it goes on like one without quotes. Records need not have the same number
of fields.
-/

namespace Slidewalk.Csv

structure Position where
  record : Nat
  /-- Lines in front of it, and one more. -/
  line : Nat
  byte : Nat
  deriving DecidableEq, Repr

namespace Position

def zero : Position := { record := 0, line := 1, byte := 0 }

end Position

/-- A record, and where reading it began: where the record before it was complete. -/
structure Record where
  start : Position
  fields : List (List UInt8)
  deriving DecidableEq, Repr

inductive Phase where
  | betweenRecords
  /-- Behind a carriage return that ended a record. -/
  | afterReturn
  | startOfField
  | inField
  | inQuotes
  /-- Behind a quote in a quoted field: it closes the field, or is half of a doubled one. -/
  | afterQuote
  deriving DecidableEq, Repr

inductive Action where
  | skip
  | keep
  | endField
  | endRecord
  deriving DecidableEq, Repr

def comma : UInt8 := 0x2c

def quote : UInt8 := 0x22

def lineFeed : UInt8 := 0x0a

def carriageReturn : UInt8 := 0x0d

namespace Phase

/-- A byte outside quotes, in a field. -/
def bare (byte : UInt8) : Phase × Action :=
  if byte = comma then (startOfField, .endField)
  else if byte = lineFeed then (betweenRecords, .endRecord)
  else if byte = carriageReturn then (afterReturn, .endRecord)
  else (inField, .keep)

/-- The first byte of a field. -/
def first (byte : UInt8) : Phase × Action :=
  if byte = quote then (inQuotes, .skip) else bare byte

/-- A byte outside all records. -/
def between (byte : UInt8) : Phase × Action :=
  if byte = lineFeed ∨ byte = carriageReturn then (betweenRecords, .skip) else first byte

def step : Phase → UInt8 → Phase × Action
  | betweenRecords, byte => between byte
  -- the line feed behind a carriage return belongs to the same line end
  | afterReturn, byte => if byte = lineFeed then (betweenRecords, .skip) else between byte
  | startOfField, byte => first byte
  | inField, byte => bare byte
  | inQuotes, byte => if byte = quote then (afterQuote, .skip) else (inQuotes, .keep)
  | afterQuote, byte => if byte = quote then (inQuotes, .keep) else bare byte

/-- Whether a record has begun, so that the end of the bytes completes it. -/
def isInside : Phase → Bool
  | betweenRecords | afterReturn => false
  | _ => true

end Phase

/-- How far reading has come. Fields and bytes are kept last first. -/
structure Progress where
  phase : Phase
  start : Position
  line : Nat
  byte : Nat
  fields : List (List UInt8)
  field : List UInt8

namespace Progress

/-- Before the first byte, of which some may have been dropped. -/
def initial (dropped : Nat) : Progress where
  phase := .betweenRecords
  start := .zero
  line := 1
  byte := dropped
  fields := []
  field := []

def record (progress : Progress) : Record where
  start := progress.start
  fields := (progress.field.reverse :: progress.fields).reverse

/-- Past one more byte; all that depends on the phase is left as it was. -/
def pass (progress : Progress) (byte : UInt8) (phase : Phase) : Progress :=
  { progress with
    phase
    line := progress.line + if byte = lineFeed then 1 else 0
    byte := progress.byte + 1 }

def next (progress : Progress) : Progress :=
  { progress with
    start :=
      { record := progress.start.record + 1, line := progress.line, byte := progress.byte }
    fields := []
    field := [] }

/-- The records that are completed by the bytes that follow. -/
def run (progress : Progress) : List UInt8 → List Record
  | [] => if progress.phase.isInside then [progress.record] else []
  | byte :: rest =>
      let (phase, action) := progress.phase.step byte
      let passed := progress.pass byte phase
      match action with
      | .skip => run passed rest
      | .keep => run { passed with field := byte :: passed.field } rest
      | .endField =>
          run { passed with fields := passed.field.reverse :: passed.fields, field := [] } rest
      | .endRecord => passed.record :: run passed.next rest

end Progress

/-- The records of a text. A byte-order mark in front of it is dropped. -/
def records : List UInt8 → List Record
  -- the mark is no part of the first field, but its bytes are counted
  | 0xef :: 0xbb :: 0xbf :: rest => (Progress.initial 3).run rest
  | bytes => (Progress.initial 0).run bytes

/-- A field that is not UTF-8, and how many of its bytes are before the fault. -/
structure Garbled where
  start : Position
  field : Nat
  index : Nat
  deriving DecidableEq, Repr

namespace Garbled

def message (garbled : Garbled) : String :=
  let { start, field, index } := garbled
  s!"CSV parse error: record {start.record} (line {start.line}, field: {field}, " ++
    s!"byte: {start.byte}): invalid utf-8: " ++
    s!"invalid UTF-8 in field {field} near byte index {index}"

end Garbled

def decodeFields (start : Position) (field : Nat) :
    List (List UInt8) → Except Garbled (List (List Char))
  | [] => .ok []
  | bytes :: rest =>
      match Text.Utf8.decode 0 bytes with
      | .error index => .error { start, field, index }
      | .ok text =>
          match decodeFields start (field + 1) rest with
          | .error garbled => .error garbled
          | .ok texts => .ok (text :: texts)

def Record.texts (record : Record) : Except Garbled (List (List Char)) :=
  decodeFields record.start 0 record.fields

@[simp] theorem Progress.run_nil (progress : Progress) :
    progress.run [] = if progress.phase.isInside then [progress.record] else [] := rfl

end Slidewalk.Csv
