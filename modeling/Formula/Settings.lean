import Formula.Document.Reading
import Formula.Expr.Simplification
import Formula.Level
import Formula.Reading.Parse

/-!
# Settings

How the engine reads formulas and writes derivatives, given by the section `engine` of a document.
What the section does not say keeps its standard, and keys that are not known are passed over.
-/

namespace Formula

/-- The settings of the engine. -/
structure Settings where
  /-- Restore omitted multiplication signs before reading. -/
  restoreTimes : Bool := true
  /-- The variable of derivatives. -/
  wrt : Char := 'x'
  /-- Simplify derivatives. -/
  simplifyResults : Bool := true
  /-- The level of the log as it was named, if it was. -/
  level : Option (List Char) := none
deriving DecidableEq, Repr

/-- Why a document gives no settings. -/
inductive SettingsError
  /-- It is no document. -/
  | notDocument (e : Document.Error)
  /-- A key has more than one value. -/
  | notSingle (key : List Char) (count : Nat)
  /-- The value of a key is neither `true` nor `false`. -/
  | notBoolean (key text : List Char)
  /-- The variable is no letter, or the one letter that is a constant. -/
  | notVariable (text : List Char)
  /-- No level has this name. -/
  | unknownLevel (name : List Char)
deriving DecidableEq, Repr

/-- The report of a failure to get settings. -/
def SettingsError.message : SettingsError → String
  | notDocument e => e.message
  | notSingle key count =>
    "'" ++ String.ofList key ++ "' takes a single value, got " ++ toString count
  | notBoolean key text =>
    "'" ++ String.ofList key ++ "' must be true or false, got '" ++ String.ofList text ++ "'"
  | notVariable text =>
    "'variable' must be a single letter other than 'e', got '" ++ String.ofList text ++ "'"
  | unknownLevel name =>
    "loglevel must be trace, debug, info, warn, error or off, got '" ++ String.ofList name ++ "'"

/-- The level with a name, and the standard one if there is no name. -/
def Level.select : Option (List Char) → Except SettingsError Level
  | none => .ok Level.standard
  | some s =>
    match Level.ofName? s with
    | some level => .ok level
    | none => .error (.unknownLevel (Level.canonical s))

namespace Settings

open Document

/-- The title of the section with the settings. -/
def title : List Char :=
  "engine".toList

/-- The only value of a key, if the key is there with values. -/
def single? (section_ : Section) (key : List Char) : Except SettingsError (Option Value) :=
  match (Table.get? section_ key).join with
  | none => .ok none
  | some [v] => .ok (some v)
  | some vs => .error (.notSingle key vs.length)

/-- The truth value of a key, if the key is there with values. -/
def boolean? (section_ : Section) (key : List Char) : Except SettingsError (Option Bool) := do
  match ← single? section_ key with
  | none => return none
  | some v =>
    match v.asBoolean? with
    | some b => return some b
    | none => throw (.notBoolean key v.toText)

/-- The variable that a value names: one letter of ASCII, and not the constant `e`. -/
def variableOf (v : Value) : Except SettingsError Char :=
  match v.toText with
  | [c] => if c.isAlpha && c != 'e' then .ok c else .error (.notVariable [c])
  | s => .error (.notVariable s)

/-- The settings that a section gives. Of several faults the first in the order of the fields is
reported. -/
def ofSection (section_ : Section) : Except SettingsError Settings := do
  let restore ← boolean? section_ "rectify".toList
  let simplify ← boolean? section_ "simplify_results".toList
  let wrt ← (← single? section_ "variable".toList).mapM variableOf
  let level := (← single? section_ "loglevel".toList).map Value.toText
  let _ ← Level.select level
  return {
    restoreTimes := restore.getD true
    wrt := wrt.getD 'x'
    simplifyResults := simplify.getD true
    level }

/-- The settings that a document gives. Without a section for them they are the standard ones. -/
def ofDocument (s : List Char) : Except SettingsError Settings :=
  match Document.read s with
  | .error e => .error (.notDocument e)
  | .ok d =>
    match Table.get? d title with
    | some section_ => ofSection section_
    | none => .ok {}

variable {α : Type} [Numeral α]

/-- The formula that a text is, read as the settings say. -/
def parse (settings : Settings) (text : String) : Except ParseError (Expr α) :=
  Expr.parseWith settings.restoreTimes text

/-- The derivative that the settings ask for. -/
def derivative (settings : Settings) (e : Expr α) : Expr α :=
  let d := e.derivative settings.wrt
  if settings.simplifyResults then d.simplify else d

end Settings

end Formula
