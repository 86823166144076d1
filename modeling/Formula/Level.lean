import Formula.Text.CharClass
import Formula.Text.LowerCase

/-!
# Levels of the log

How much the program reports about its work. A level is named in small or capital letters, and white
space around the name does not count.
-/

namespace Formula

/-- A level of the log, from all reports to none. -/
inductive Level
  | trace | debug | info | warn | error | off
deriving DecidableEq, Repr

namespace Level

/-- All levels. -/
def all : List Level :=
  [trace, debug, info, warn, error, off]

/-- The name of a level. -/
def name : Level → List Char
  | trace => "trace".toList
  | debug => "debug".toList
  | info => "info".toList
  | warn => "warn".toList
  | error => "error".toList
  | off => "off".toList

/-- The level that is used when none is named. -/
def standard : Level :=
  info

/-- A level name as it is compared: trimmed and in small letters. -/
def canonical (s : List Char) : List Char :=
  Text.lower (Text.trim s)

/-- The level with a name. -/
def ofName? (s : List Char) : Option Level :=
  all.find? (·.name == canonical s)

end Level

end Formula
