import TimeSeries.Failure
import TimeSeries.LogFilter.Directive

/-!
# Log filters

A filter holds directives.  It is written with commas between them, and reported with
the most specific ones first: the static directives, and then the dynamic ones.  A
directive that asks for a field without a value is of both kinds.
-/

namespace TimeSeries

/-- Directives about different events. -/
structure LogFilter where
  static : List Directive
  dynamic : List Directive
deriving DecidableEq

namespace LogFilter

/-- The filter without directives. -/
def empty : LogFilter := ⟨[], []⟩

/-- Adds the directive `d`, in place of one that is about the same events. -/
def add (f : LogFilter) (d : Directive) : LogFilter where
  static := if d.isStatic then d.insert f.static else f.static
  dynamic := if d.isDynamic then d.insert f.dynamic else f.dynamic

/-- Reads the filter `text`. -/
def ofText? (text : String) : Option LogFilter := do
  let directives ← ((text.splitOn ",").filter (!·.isEmpty)).mapM Directive.ofText?
  return directives.foldl add empty

/-- The text of the filter `f`. -/
def text (f : LogFilter) : String :=
  ",".intercalate ((f.static ++ f.dynamic).map Directive.text)

/-- The filter of the environment if it can be read, and that of `logLevel` if not. -/
def choose (logLevel : String) (environment? : Option String) : Except Failure LogFilter :=
  match environment? >>= ofText? with
  | some filter => .ok filter
  | none =>
    match ofText? logLevel with
    | some filter => .ok filter
    | none => .error (.configuration ("invalid log level '" ++ logLevel ++ "'"))

end LogFilter

end TimeSeries
