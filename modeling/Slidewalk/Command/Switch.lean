/-!
# Command-line switches

Arguments are read from left to right into a record. A switch is `--name`; one with a value takes it
behind an equals sign or as the next argument, which then must not look like a switch. What is no
switch is an operand, and so is everything behind `--`.
-/

namespace Slidewalk.Command

inductive Page where
  | overview
  | recommend
  | stats
  deriving DecidableEq, Repr

/-- Why reading arguments stops without a result. -/
inductive Stop where
  | usage
  | help (page : Page)
  | version
  deriving DecidableEq, Repr

inductive SwitchAction (ρ : Type) where
  | set (change : ρ → ρ)
  /-- A value that cannot be stored is a usage error. -/
  | store (store : List Char → ρ → Option ρ)
  | stop (stop : Stop)

structure Switch (ρ : Type) where
  name : String
  /-- The letter of a switch that can be written with one dash. -/
  letter : Option Char
  action : SwitchAction ρ
  isRepeatable : Bool

namespace Switch

def flag (name : String) (change : ρ → ρ) : Switch ρ :=
  { name, letter := none, action := .set change, isRepeatable := false }

/-- A switch whose value is read by a reader. -/
def value (name : String) (read : List Char → Option α) (set : α → ρ → ρ) : Switch ρ where
  name
  letter := none
  action := .store fun text record => (read text).map fun value => set value record
  isRepeatable := false

def values (name : String) (read : List Char → Option α) (add : α → ρ → ρ) : Switch ρ :=
  { value name read add with isRepeatable := true }

def halt (name : String) (letter : Char) (stop : Stop) : Switch ρ :=
  { name, letter := some letter, action := .stop stop, isRepeatable := false }

end Switch

/-- What becomes of operands: they are stored, or the first one ends the reading. -/
inductive Operands (ρ : Type) where
  | store (store : List Char → ρ → Option ρ)
  | leave

/-- Splits a switch at its first equals sign into its name and a value. -/
def splitValue (text : List Char) : List Char × Option (List Char) :=
  match text.dropWhile (· != '=') with
  | [] => (text, none)
  | _ :: value => (text.takeWhile (· != '='), some value)

/-- Whether an argument is a switch and not a value; a single dash is a value. -/
def looksLikeSwitch : List Char → Bool
  | '-' :: _ :: _ => true
  | _ => false

/-- Whether the reading ends in front of some arguments. -/
def Operands.endAt : Operands ρ → List (List Char) → Bool
  | leave, operand :: _ => !looksLikeSwitch operand
  | _, _ => false

def storeAll (store : List Char → ρ → Option ρ) (record : ρ) : List (List Char) → Except Stop ρ
  | [] => .ok record
  | operand :: rest =>
      match store operand record with
      | none => .error .usage
      | some record => storeAll store record rest

/-- Reads arguments into a record. Answers with the arguments left from the first operand on if
operands end the reading. There is no record if the value in front of that operand cannot be stored:
whoever reads on may stop for a reason of its own before that matters. -/
def scan (switches : List (Switch ρ)) (operands : Operands ρ) (given : List String) (record : ρ) :
    List (List Char) → Except Stop (Option ρ × List (List Char))
  | [] => .ok (some record, [])
  -- everything behind a double dash is an operand
  | ['-', '-'] :: rest =>
      match operands with
      | .leave => .error .usage
      | .store store => (storeAll store record rest).map fun record => (some record, [])
  | ('-' :: '-' :: text) :: rest =>
      let (name, attached) := splitValue text
      match switches.find? fun switch => switch.name.toList == name with
      | none => .error .usage
      | some switch =>
          let isRepeated := !switch.isRepeatable && given.contains switch.name
          let given := switch.name :: given
          match switch.action, attached with
          | .stop stop, none => .error stop
          | .set change, none =>
              if isRepeated then .error .usage
              else scan switches operands given (change record) rest
          | .stop _, some _ | .set _, some _ => .error .usage
          | .store store, some value =>
              match if isRepeated then none else store value record with
              | none => .error .usage
              | some record => scan switches operands given record rest
          | .store store, none =>
              match rest with
              | [] => .error .usage
              | value :: rest =>
                  -- a value that looks like a switch has to be attached
                  if looksLikeSwitch value then .error .usage
                  else match if isRepeated then none else store value record with
                    | none => if operands.endAt rest then .ok (none, rest) else .error .usage
                    | some record => scan switches operands given record rest
  -- letters behind the first one are not looked at: it ends the reading
  | ('-' :: letter :: _) :: _ =>
      match switches.find? fun switch => switch.letter == some letter with
      | some { action := .stop stop, .. } => .error stop
      | _ => .error .usage
  | operand :: rest =>
      match operands with
      | .leave => .ok (some record, operand :: rest)
      | .store store =>
          match store operand record with
          | none => .error .usage
          | some record => scan switches operands given record rest

end Slidewalk.Command
