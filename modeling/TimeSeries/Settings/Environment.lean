import TimeSeries.Settings
import TimeSeries.Text.Number

/-!
# Settings from the environment

Some settings can be overridden by variables of the environment.  A variable whose
value cannot be read is passed over.
-/

namespace TimeSeries

/-- The variables that override settings, as far as they are set. -/
structure Environment where
  chunkBytes? : Option String
  encoding? : Option String
  duplicatePolicy? : Option String
  logLevel? : Option String

namespace Environment

/-- The names of the variables. -/
def chunkBytesName : String := "TS_CHUNK_SIZE_BYTES"

/-- The name of the variable for the encoding. -/
def encodingName : String := "TS_CHUNK_ENCODING"

/-- The name of the variable for the policy. -/
def duplicatePolicyName : String := "TS_DUPLICATE_POLICY"

/-- The name of the variable for the log level. -/
def logLevelName : String := "RUST_LOG"

/-- The environment in which `get?` looks variables up. -/
def ofLookup (get? : String → Option String) : Environment where
  chunkBytes? := get? chunkBytesName
  encoding? := get? encodingName
  duplicatePolicy? := get? duplicatePolicyName
  logLevel? := get? logLevelName

end Environment

/-- The settings `s` with the overrides of the environment `e`.  A log level is taken as it is. -/
def Settings.override (s : Settings) (e : Environment) : Settings where
  storage :=
    { chunkBytes := (e.chunkBytes?.bind Text.word?).getD s.storage.chunkBytes
      encoding := (e.encoding?.bind (Encoding.ofText · |>.toOption)).getD s.storage.encoding
      duplicatePolicy :=
        (e.duplicatePolicy?.bind (DuplicatePolicy.ofText · |>.toOption)).getD
          s.storage.duplicatePolicy }
  compaction := s.compaction
  monitoring := { s.monitoring with logLevel := e.logLevel?.getD s.monitoring.logLevel }

/-- The settings where nothing but the environment `e` speaks. -/
def Settings.ofEnvironment (e : Environment) : Settings := Settings.standard.override e

end TimeSeries
