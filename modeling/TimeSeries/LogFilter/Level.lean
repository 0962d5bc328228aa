import TimeSeries.Text.Number

/-!
# Log levels

The levels of events, each with a name and a number.
-/

namespace TimeSeries

/-- The levels of events, and the absence of any. -/
inductive LogLevel where
  | off
  | error
  | warn
  | info
  | debug
  | trace
deriving DecidableEq

namespace LogLevel

/-- Every level, in the order of their numbers. -/
def all : List LogLevel := [off, error, warn, info, debug, trace]

/-- The name of a level. -/
def name : LogLevel → String
  | off => "off"
  | error => "error"
  | warn => "warn"
  | info => "info"
  | debug => "debug"
  | trace => "trace"

/-- The level of a name in any case, or of a number, written as `text`. -/
def ofText? (text : String) : Option LogLevel :=
  match Text.word? text with
  | some n => all[n.toNat]?
  | none => all.find? (·.name == text.toLower)

/-- The name of `level` reads as it. -/
theorem ofText?_name
    (level : LogLevel) :
  ofText? level.name = some level
  := by
  cases level <;> decide +kernel

end LogLevel

end TimeSeries
