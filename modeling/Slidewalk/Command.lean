import Slidewalk.Command.Help
import Slidewalk.Command.Run

/-!
# The command

What a command prints and how it ends, from its arguments, the environment and the files it reads.
-/

namespace Slidewalk.Command

open Salsa (RequestFault)

structure Outcome where
  exit : UInt32
  output : String
  errors : String
  deriving DecidableEq, Repr

namespace Outcome

def success (output : String) : Outcome := { exit := 0, output, errors := "" }

def failure (message : String) : Outcome :=
  { exit := 1, output := "", errors := s!"error: {message}\n" }

def crash (message : String) : Outcome :=
  { exit := 101, output := "", errors := s!"{message}\n" }

def misuse : Outcome := { exit := 2, output := "", errors := usageText }

end Outcome

/-- How a command ends whose arguments ask for no task. -/
def Stop.outcome (environment : Option String) : Stop → Outcome
  | usage => .misuse
  | help page => .success (page.text environment)
  | version => .success versionText

/-- How a command ends whose task is not done. A sum that does not fit is caught nowhere. -/
def CommandFault.outcome : CommandFault → Outcome
  | refusedRequest .walkerOverflow => .crash RequestFault.walkerOverflow.message
  | fault => .failure fault.message

def run (files : Files) (environment : Option String) (arguments : List String) : Outcome :=
  match readArguments environment arguments with
  | .error stop => stop.outcome environment
  | .ok invocation =>
      match perform files invocation with
      | .error fault => fault.outcome
      | .ok output => .success output

/-- The files that a command may read. -/
def pathsOf (environment : Option String) (arguments : List String) : List String :=
  match readArguments environment arguments with
  | .error _ => []
  | .ok invocation => invocation.paths

end Slidewalk.Command
