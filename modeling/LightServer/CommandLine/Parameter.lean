/-!
# Parameters of a command line

A parameter has a long name, and an environment variable that stands in for it when it
is not given. It takes a value or is a switch. A value is checked as soon as it is known
to which parameter it belongs.
-/

namespace LightServer.CommandLine

/-- What ends the reading of a command line. Help and version are asked for; all else is
wrong. -/
inductive Fault where
  | help
  | version
  | unknownArgument
  | invalidValue
  | valueValidation
  | conflict
  | tooManyValues
  deriving DecidableEq, Repr

/-- A parameter: its name, its variable, whether it takes a value, and what is wrong with
a value. -/
structure Parameter where
  name : String
  environmentName : String
  takesValue : Bool
  fault? : String → Option Fault

abbrev Values := List (String × String)

namespace Parameter

def switchedOn : String := "true"

def needsText (s : String) : Option Fault := if s.isEmpty then some .invalidValue else none

def needsTruth (s : String) : Option Fault :=
  if s = "true" ∨ s = "false" then none else some .invalidValue

def needsReading {α : Type} (read : String → Option α) (s : String) : Option Fault :=
  if (read s).isSome then none else some .valueValidation

end Parameter

end LightServer.CommandLine
