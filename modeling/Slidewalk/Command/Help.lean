import Slidewalk.Command.Switch

/-!
# What the command says about itself
-/

namespace Slidewalk.Command

def programName : String := "walkrank"

/-- The variable of the environment that names a configuration file. -/
def configVariable : String := "WALKRANK_CONFIG"

def versionText : String := s!"{programName} 0.1.0\n"

/-- What is printed about arguments that cannot be used. -/
def usageText : String := "error: invalid arguments\n\nFor more information, try '--help'.\n"

namespace Help

/-- How the help shows the variable of the environment. -/
def variableText (environment : Option String) : String :=
  let held := environment.getD ""
  s!"[env: {configVariable}={held}]"

/-- A switch with its explanation on the next line. -/
def entry (item explanation : String) : String := s!"  {item}\n          {explanation}\n"

def configText (environment : Option String) : String :=
  s!"TOML file with [graph] and [salsa] tables {variableText environment}"

def formatText : String :=
  "Output format for structured responses [default: text] [possible values: text, json]"

def logText : String := "Log filter used when RUST_LOG is unset [default: warn]"

def overview (environment : Option String) : String := String.join [
  "Load an edge stream and run SALSA recommendations over it\n\n",
  s!"Usage: {programName} [OPTIONS] <COMMAND>\n\n",
  "Commands:\n",
  "  recommend  Load edges and print ranked recommendations for one query node\n",
  "  stats      Load edges and print window occupancy\n\n",
  "Options:\n",
  s!"      --config <FILE>    {configText environment}\n",
  s!"      --format <FORMAT>  {formatText}\n",
  s!"      --log <LOG>        {logText}\n",
  "  -h, --help             Print help\n",
  "  -V, --version          Print version\n"]

def operands : String := String.join [
  "Arguments:\n",
  "  <EDGES>  CSV file with left,right[,type][,timestamp] columns\n\n"]

def common (environment : Option String) : String := String.join [
  "Options:\n",
  entry "    --config <FILE>" (configText environment),
  entry "    --left-column <LEFT_COLUMN>" "Left node id column name [default: left]",
  entry "    --format <FORMAT>" formatText,
  entry "    --right-column <RIGHT_COLUMN>" "Right node id column name [default: right]",
  entry "    --log <LOG>" logText,
  entry "    --type-column <TYPE_COLUMN>" "Edge type column name [default: type]",
  entry "    --timestamp-column <TIMESTAMP_COLUMN>" "Timestamp column name [default: timestamp]",
  entry "    --default-type <DEFAULT_TYPE>" "Edge type for rows without one [default: 0]",
  entry "    --skip-rejected" "Count edges the graph rejects instead of failing",
  entry "    --optimize" "Repack sealed segments after loading"]

def wishes : String := String.join [
  entry "    --query <QUERY>" "Left node to recommend for",
  entry "    --seed <ID:WEIGHT>" "Additional weighted left seed",
  entry "    --exclude <ID>" "Right node to leave out of the results",
  entry "    --walk-length <WALK_LENGTH>"
    "Half-steps per walk (required unless set in the config)",
  entry "    --reset-probability <RESET_PROBABILITY>" "Reset probability of a left step",
  entry "    --query-weight <QUERY_WEIGHT>" "Share of initial mass on the query node",
  entry "    --walks <WALKS>" "Walk budget",
  entry "    --results <RESULTS>" "Number of results",
  entry "    --proof-type <TYPE>" "Edge type counted as social proof",
  entry "    --sampled <SEED>" "Simulate discrete walkers with this RNG seed",
  entry "    --cosine" "Normalize scores by degree"]

def last : String := entry "-h, --help" "Print help"

def recommend (environment : Option String) : String := String.join [
  "Load edges and print ranked recommendations for one query node\n\n",
  s!"Usage: {programName} recommend [OPTIONS] --query <QUERY> <EDGES>\n\n",
  operands, common environment, wishes, last]

def stats (environment : Option String) : String := String.join [
  "Load edges and print window occupancy\n\n",
  s!"Usage: {programName} stats [OPTIONS] <EDGES>\n\n",
  operands, common environment, last]

end Help

def Page.text (environment : Option String) : Page → String
  | overview => Help.overview environment
  | recommend => Help.recommend environment
  | stats => Help.stats environment

end Slidewalk.Command
