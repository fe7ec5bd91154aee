import Slidewalk.Command.Switch
import Slidewalk.Decimal.Read
import Slidewalk.Import

/-!
# Arguments of the command

A command is a task with a file of edges: recommend for a query node, or report the occupancy of the
window. Switches that hold for every task may stand in front of the task or behind it; behind it
they win.
-/

namespace Slidewalk.Command

inductive Format where
  | text
  | json
  deriving DecidableEq, Repr

/-- What holds for every task. -/
structure Globals where
  config : Option String
  format : Option Format
  deriving DecidableEq, Repr

def Globals.none : Globals := { config := .none, format := .none }

/-- What a recommendation is asked to do differently from the settings. -/
structure Wishes where
  seeds : List (List Char)
  excluded : List NodeId
  walkLength : Option Nat
  resetProbability : Option Binary64
  queryWeight : Option Binary64
  walks : Option Nat
  results : Option Nat
  proofTypes : List EdgeType
  /-- The seed of the random draws, for walkers. -/
  sampled : Option UInt64
  cosine : Bool
  deriving DecidableEq, Repr

def Wishes.none : Wishes where
  seeds := []
  excluded := []
  walkLength := .none
  resetProbability := .none
  queryWeight := .none
  walks := .none
  results := .none
  proofTypes := []
  sampled := .none
  cosine := false

inductive Task where
  | recommend (query : NodeId) (wishes : Wishes)
  | stats
  deriving DecidableEq, Repr

structure Invocation where
  config : Option String
  format : Format
  edges : String
  layout : ImportLayout
  /-- Whether sealed segments are repacked after the import. -/
  optimize : Bool
  task : Task
  deriving DecidableEq, Repr

/-- What is known while the arguments of a task are read. -/
structure Draft where
  globals : Globals
  edges : Option String
  layout : ImportLayout
  optimize : Bool
  query : Option NodeId
  wishes : Wishes

def Draft.blank : Draft where
  globals := .none
  edges := none
  layout := .standard
  optimize := false
  query := none
  wishes := .none

/-! ## Values -/

def readText? (text : List Char) : Option String := some (String.ofList text)

/-- A path is not empty. -/
def readPath? (text : List Char) : Option String :=
  if text.isEmpty then none else some (String.ofList text)

def readFormat? (text : List Char) : Option Format :=
  [("text", .text), ("json", .json)].lookup (String.ofList text)

def readSize? (text : List Char) : Option Nat := Text.readUnsigned? (UInt64.size - 1) text

/-- A type of edges; a minus sign in front of zero does not matter. -/
def readKind? (text : List Char) : Option EdgeType :=
  (Text.readSigned? 0 255 text).map fun n => UInt8.ofNat n.toNat

/-! ## Switches -/

/-- The switches for every task, for a record that holds what they set. -/
def globalSwitches (page : Page) (modify : (Globals → Globals) → ρ → ρ) : List (Switch ρ) := [
  .value "config" readPath? fun path => modify ({ · with config := some path }),
  .value "format" readFormat? fun format => modify ({ · with format := some format }),
  .value "log" readText? fun _ => id,
  .halt "help" 'h' (.help page)]

def overviewSwitches : List (Switch Globals) :=
  .halt "version" 'V' .version :: globalSwitches .overview id

def modifyGlobals (change : Globals → Globals) (draft : Draft) : Draft :=
  { draft with globals := change draft.globals }

def modifyLayout (change : ImportLayout → ImportLayout) (draft : Draft) : Draft :=
  { draft with layout := change draft.layout }

def modifyWishes (change : Wishes → Wishes) (draft : Draft) : Draft :=
  { draft with wishes := change draft.wishes }

/-- The switches of all tasks about the file of edges. -/
def loadSwitches : List (Switch Draft) := [
  .value "left-column" readText? fun name => modifyLayout ({ · with leftColumn := name }),
  .value "right-column" readText? fun name => modifyLayout ({ · with rightColumn := name }),
  .value "type-column" readText? fun name => modifyLayout ({ · with kindColumn := some name }),
  .value "timestamp-column" readText? fun name => modifyLayout ({ · with timeColumn := some name }),
  .value "default-type" readKind? fun kind => modifyLayout ({ · with defaultKind := kind }),
  .flag "skip-rejected" (modifyLayout ({ · with skipRejected := true })),
  .flag "optimize" ({ · with optimize := true })]

def statsSwitches : List (Switch Draft) := globalSwitches .stats modifyGlobals ++ loadSwitches

def wishSwitches : List (Switch Draft) := [
  .value "query" Text.readUInt64? fun node draft => { draft with query := some node },
  .values "seed" some fun seed =>
    modifyWishes fun wishes => { wishes with seeds := wishes.seeds ++ [seed] },
  .values "exclude" Text.readUInt64? fun node =>
    modifyWishes fun wishes => { wishes with excluded := wishes.excluded ++ [node] },
  .value "walk-length" readSize? fun length => modifyWishes ({ · with walkLength := some length }),
  .value "reset-probability" Decimal.read? fun probability =>
    modifyWishes ({ · with resetProbability := some probability }),
  .value "query-weight" Decimal.read? fun weight =>
    modifyWishes ({ · with queryWeight := some weight }),
  .value "walks" readSize? fun walks => modifyWishes ({ · with walks := some walks }),
  .value "results" readSize? fun results => modifyWishes ({ · with results := some results }),
  .values "proof-type" readKind? fun kind =>
    modifyWishes fun wishes => { wishes with proofTypes := wishes.proofTypes ++ [kind] },
  .value "sampled" Text.readUInt64? fun seed => modifyWishes ({ · with sampled := some seed }),
  .flag "cosine" (modifyWishes ({ · with cosine := true }))]

def recommendSwitches : List (Switch Draft) :=
  globalSwitches .recommend modifyGlobals ++ loadSwitches ++ wishSwitches

/-- The only operand of a task is its file. -/
def storeEdges (text : List Char) (draft : Draft) : Option Draft :=
  match draft.edges, readPath? text with
  | none, some path => some { draft with edges := some path }
  | _, _ => none

/-! ## Reading -/

/-- The configuration file: the one given last, or else the one the environment names. An empty name
in the environment is an error wherever it would be looked at: in front of the task and behind it,
unless a file is given there. -/
def chooseConfig (front back environment : Option String) : Except Stop (Option String) :=
  if environment = some "" ∧ (front.isNone ∨ back.isNone) then .error .usage
  else .ok (back.or (front.or environment))

def Draft.finish (draft : Draft) (front : Globals) (environment : Option String)
    (task : Draft → Option Task) : Except Stop Invocation := do
  let config ← chooseConfig front.config draft.globals.config environment
  match draft.edges, task draft with
  | some edges, some task =>
      return {
        config, edges, task
        format := (draft.globals.format.or front.format).getD .text
        layout := draft.layout
        optimize := draft.optimize }
  | _, _ => throw .usage

/-- Reads the arguments of a task. They can ask for help even if those in front of the task turn out
to be unusable. -/
def readTask (front : Option Globals) (environment : Option String)
    (switches : List (Switch Draft)) (task : Draft → Option Task)
    (arguments : List (List Char)) : Except Stop Invocation := do
  let (draft, _) ← scan switches (.store storeEdges) [] .blank arguments
  match draft, front with
  | some draft, some front => draft.finish front environment task
  | _, _ => throw .usage

def recommendTask (draft : Draft) : Option Task :=
  draft.query.map fun query => .recommend query draft.wishes

/-- Reads the arguments of a command, with the configuration file that the environment names. -/
def readArguments (environment : Option String) (arguments : List String) :
    Except Stop Invocation := do
  let (front, rest) ← scan overviewSwitches .leave [] .none (arguments.map String.toList)
  match rest with
  | [] => throw .usage
  | name :: rest =>
      match String.ofList name with
      | "recommend" => readTask front environment recommendSwitches recommendTask rest
      | "stats" => readTask front environment statsSwitches (fun _ => some .stats) rest
      | _ => throw .usage

end Slidewalk.Command
