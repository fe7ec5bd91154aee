import Slidewalk.Csv
import Slidewalk.Graph
import Slidewalk.Text.Blank
import Slidewalk.Text.Integer

/-!
# Importing edges

A text of comma-separated values is read as one edge per record. The first record names the columns;
blanks around names and values do not matter. The edges of the records in front of a fault stay in
the graph.
-/

namespace Slidewalk

/-- The columns edges are read from, and what is done about gaps and refusals. -/
structure ImportLayout where
  leftColumn : String
  rightColumn : String
  /-- Edges get `defaultKind` where it is absent or blank. -/
  kindColumn : Option String
  /-- Edges get their row number where it is absent or blank. -/
  timeColumn : Option String
  defaultKind : EdgeType
  /-- Whether edges that the graph refuses are counted instead of ending the import. -/
  skipRejected : Bool
  deriving DecidableEq, Repr

namespace ImportLayout

def standard : ImportLayout where
  leftColumn := "left"
  rightColumn := "right"
  kindColumn := some "type"
  timeColumn := some "timestamp"
  defaultKind := 0
  skipRejected := false

end ImportLayout

inductive RowField where
  | left
  | right
  | kind
  | time
  deriving DecidableEq, Repr

def RowField.label : RowField → String
  | left => "left id"
  | right => "right id"
  | kind => "edge type"
  | time => "timestamp"

/-- Reasons for ending an import. Rows are numbered from zero, without the header. -/
inductive ImportFault where
  | missingColumn (name : String)
  | missing (row : Nat) (field : RowField)
  | malformed (row : Nat) (field : RowField) (text : String)
  | refused (row : Nat) (fault : Fault)
  | unreadable (cause : Csv.Garbled)
  deriving DecidableEq, Repr

namespace ImportFault

def message : ImportFault → String
  | missingColumn name => s!"column '{name}' not found in CSV header"
  | missing row field => s!"row {row}: missing {field.label}"
  | malformed row field text => s!"row {row}: invalid {field.label} '{text}'"
  | refused row fault => s!"row {row}: {fault.message}"
  | unreadable cause => cause.message

/-- Whether the text itself could not be read. -/
def isUnreadable : ImportFault → Bool
  | unreadable _ => true
  | _ => false

end ImportFault

structure ImportSummary where
  rows : Nat
  imported : Nat
  rejected : Nat
  deriving DecidableEq, Repr

namespace Import

structure Columns where
  left : Nat
  right : Nat
  kind : Option Nat
  time : Option Nat
  deriving DecidableEq, Repr

def findColumn (header : List (List Char)) (name : String) : Option Nat :=
  header.findIdx? fun field => Text.trim field == name.toList

def requireColumn (header : List (List Char)) (name : String) : Except ImportFault Nat :=
  match findColumn header name with
  | some position => .ok position
  | none => .error (.missingColumn name)

def Columns.of (layout : ImportLayout) (header : List (List Char)) :
    Except ImportFault Columns := do
  let left ← requireColumn header layout.leftColumn
  let right ← requireColumn header layout.rightColumn
  return {
    left, right
    kind := layout.kindColumn.bind (findColumn header)
    time := layout.timeColumn.bind (findColumn header) }

/-- The value in a column of a record, without blanks around it; nothing if none is left. -/
def value? (record : List (List Char)) (column : Option Nat) : Option (List Char) :=
  (column.bind fun position => record[position]?.map Text.trim).filter (!·.isEmpty)

def read (row : Nat) (field : RowField) (reader : List Char → Option α) (text : List Char) :
    Except ImportFault α :=
  match reader text with
  | some value => .ok value
  | none => .error (.malformed row field (String.ofList text))

def require (row : Nat) (field : RowField) (reader : List Char → Option α) :
    Option (List Char) → Except ImportFault α
  | none => .error (.missing row field)
  | some text => read row field reader text

def readOr (standard : α) (row : Nat) (field : RowField) (reader : List Char → Option α) :
    Option (List Char) → Except ImportFault α
  | none => .ok standard
  | some text => read row field reader text

def edge (layout : ImportLayout) (columns : Columns) (row : Nat) (record : List (List Char)) :
    Except ImportFault Edge := do
  let left ← require row .left Text.readUInt64? (value? record columns.left)
  let right ← require row .right Text.readUInt64? (value? record columns.right)
  let kind ← readOr layout.defaultKind row .kind Text.readUInt8? (value? record columns.kind)
  let time ← readOr (Int64.ofNat row) row .time Text.readInt64? (value? record columns.time)
  return { left, right, kind, time }

/-- The edge of a record, which must be text. -/
def edgeOf (layout : ImportLayout) (columns : Columns) (row : Nat) (record : Csv.Record) :
    Except ImportFault Edge :=
  match record.texts with
  | .error cause => .error (.unreadable cause)
  | .ok texts => edge layout columns row texts

def isSkipped (layout : ImportLayout) (fault : Fault) : Bool :=
  layout.skipRejected && !fault.isConfiguration

def addRows (layout : ImportLayout) (columns : Columns) (graph : Graph) (summary : ImportSummary) :
    List Csv.Record → Graph × Except ImportFault ImportSummary
  | [] => (graph, .ok summary)
  | record :: rest =>
      -- rows are numbered by how many were read before
      let row := summary.rows
      match edgeOf layout columns row record with
      | .error fault => (graph, .error fault)
      | .ok edge =>
          match graph.add edge with
          | (graph, .ok ()) =>
              addRows layout columns graph
                { summary with rows := row + 1, imported := summary.imported + 1 } rest
          | (graph, .error fault) =>
              if isSkipped layout fault then
                addRows layout columns graph
                  { summary with rows := row + 1, rejected := summary.rejected + 1 } rest
              else (graph, .error (.refused row fault))

/-- The columns that the first record names; there are none without a record. -/
def columnsOf (layout : ImportLayout) : List Csv.Record → Except ImportFault Columns
  | [] => Columns.of layout []
  | header :: _ =>
      match header.texts with
      | .error cause => .error (.unreadable cause)
      | .ok names => Columns.of layout names

end Import

def Graph.importEdges (graph : Graph) (layout : ImportLayout) (bytes : List UInt8) :
    Graph × Except ImportFault ImportSummary :=
  let records := Csv.records bytes
  match Import.columnsOf layout records with
  | .error fault => (graph, .error fault)
  | .ok columns =>
      Import.addRows layout columns graph { rows := 0, imported := 0, rejected := 0 }
        (records.drop 1)

end Slidewalk
