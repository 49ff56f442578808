import AbiSig.Json

/-!
# Log settings

How much is logged and in which form. The settings come from the options of a command line, or from
a JSON value: an object with any of the members `level`, `verbose` and `json`, or an array of at
most three items that gives `level`, `verbose` and `json` in this order. What is left out has its
default, other members are ignored, and a value of a wrong type is refused.
-/

namespace AbiSig

/-- The level that filters the log (none means `warn`), whether the program's own components log
everything, and whether the log is written as JSON. -/
structure LogSettings where
  level : Option String := none
  verbose : Bool := false
  json : Bool := false
deriving Repr, DecidableEq

namespace LogSettings

/-- The components that verbose logging raises to the level `debug`. -/
def components : List String :=
  ["chainsig", "chainsig_core"]

/-- The filter directives, parted by commas: the level, and one for each raised component. -/
def directives (s : LogSettings) : String :=
  let raised := if s.verbose then components.map (· ++ "=debug") else []
  ",".intercalate (s.level.getD "warn" :: raised)

/-! ## Reading -/

/-- A level is a string or `null`. -/
def levelOfJson? : Json → Option (Option String)
  | .null => some none
  | .string level => some (some level)
  | _ => none

/-- A switch is a truth value. -/
def switchOfJson? : Json → Option Bool
  | .bool value => some value
  | _ => none

/-- Reads a value that may be left out. -/
def orDefault {α : Type} (default : α) (read : Json → Option α) : Option Json → Option α
  | none => some default
  | some j => read j

/-- The settings from the values of `level`, `verbose` and `json`, each of which may be left out. -/
def ofParts? (level verbose json : Option Json) : Option LogSettings := do
  let level ← orDefault none levelOfJson? level
  let verbose ← orDefault false switchOfJson? verbose
  let json ← orDefault false switchOfJson? json
  return { level, verbose, json }

/-- The settings that a JSON value gives. -/
def ofJson? : Json → Option LogSettings
  | .object members =>
    ofParts? (Json.member? "level" members) (Json.member? "verbose" members)
      (Json.member? "json" members)
  | .array items => if items.length ≤ 3 then ofParts? items[0]? items[1]? items[2]? else none
  | _ => none

end LogSettings

end AbiSig
