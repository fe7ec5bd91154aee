import Slidewalk.Config.Settings
import Slidewalk.Toml.Document

/-!
# Configurations

A configuration has a table for the limits of the graph and one for the settings of walks.
-/

namespace Slidewalk

structure Config where
  limits : Limits
  settings : Salsa.Settings
  deriving DecidableEq, Repr

namespace Config

def standard : Config := { limits := .standard, settings := .standard }

def tables (dialect : Dialect) : List (Field Config) := [
  .of "graph" (limits? dialect) fun limits config => { config with limits },
  .of "salsa" (settings? dialect) fun settings config => { config with settings }]

def ofValue? (dialect : Dialect) : Value → Option Config :=
  Field.readRecord? dialect (tables dialect) .standard

def read? (text : List Char) : Option Config := (Toml.read? text).bind (ofValue? .toml)

end Config

end Slidewalk
