import TimeSeries.Chunk
import TimeSeries.Downsampling
import TimeSeries.Failure
import TimeSeries.Text.Blank

/-!
# Settings

How a program sets the library up: what new chunks are like, how wide the buckets of
rules are, and what is reported.  Settings come from a document or from the
environment and need not make sense; `validate` names the first thing that does not.
-/

namespace TimeSeries

/-- The settings of new chunks: their bytes, their encoding, and what an insertion does with
duplicates. -/
structure StorageSettings where
  chunkBytes : UInt64
  encoding : Encoding
  duplicatePolicy : DuplicatePolicy
deriving DecidableEq

/-- The settings of new rules, which is the width of their buckets. -/
structure CompactionSettings where
  bucketWidth : UInt64
deriving DecidableEq

/-- The settings of what is reported, and how. -/
structure MonitoringSettings where
  metricsEnabled : Bool
  logLevel : String
  structuredLogging : Bool
deriving DecidableEq

/-- All settings. -/
structure Settings where
  storage : StorageSettings
  compaction : CompactionSettings
  monitoring : MonitoringSettings
deriving DecidableEq

/-- What is wrong with settings. -/
inductive SettingsError where
  /-- A number lies outside its bounds. -/
  | outOfRange (field : String) (value low high : Nat)
  /-- A value is of no use. -/
  | invalidFormat (field message : String)
  /-- A condition does not hold. -/
  | failed (message : String)
deriving DecidableEq

/-- The wording of what is wrong. -/
def SettingsError.message : SettingsError → String
  | outOfRange field value low high =>
    s!"{field} value {value} is out of range [{low}, {high}]"
  | invalidFormat field message => s!"Invalid format for {field}: {message}"
  | failed message => "Validation failed: " ++ message

/-- The fault `e` of settings as a failure of the library. -/
def SettingsError.failure (e : SettingsError) : Failure := .configuration e.message

namespace StorageSettings

/-- Packed chunks of four kilobytes that refuse duplicates. -/
def standard : StorageSettings := ⟨4096, .packed, .block⟩

/-- The chunk without samples that `s` asks for. -/
def newChunk (s : StorageSettings) : Chunk := .new s.encoding s.chunkBytes.toNat

/-- Inserts `sample` into the chunk `c` at `position`, or settles it with the one at the same time
as `s` asks for. -/
def upsert (memory : Memory) (s : StorageSettings) (c : Chunk) (sample : Sample)
    (position : ChunkPosition) : Step Chunk Nat :=
  c.upsert memory sample s.duplicatePolicy position

end StorageSettings

namespace CompactionSettings

/-- Buckets of a minute. -/
def standard : CompactionSettings := ⟨60000⟩

/-- The rule with no bucket open that `s` asks for, which writes the aggregation of `kind` to
`destination`. -/
def newRule (s : CompactionSettings) (destination : String) (kind : AggregationKind) :
    Except AggregationError Rule :=
  Rule.new destination s.bucketWidth kind

end CompactionSettings

namespace MonitoringSettings

/-- Everything is reported. -/
def standard : MonitoringSettings := ⟨true, "info", true⟩

/-- The report on what was counted in `tally`, if `s` enables it. -/
def report? (s : MonitoringSettings) (tally : Tally) : Option String :=
  if s.metricsEnabled then some tally.text else none

end MonitoringSettings

namespace Settings

/-- The settings where nothing is said. -/
def standard : Settings := ⟨.standard, .standard, .standard⟩

/-- The least number of bytes of a chunk: three samples that are not packed. -/
def minChunkBytes : Nat := 48

/-- The greatest number of bytes of a chunk. -/
def maxChunkBytes : Nat := 1048576

/-- Do the settings `s` lie within their bounds and make sense together? -/
def validate (s : Settings) : Except SettingsError Unit := do
  let bytes := s.storage.chunkBytes.toNat
  if bytes < minChunkBytes ∨ maxChunkBytes < bytes then
    throw (.outOfRange "storage.chunk_size_bytes" bytes minChunkBytes maxChunkBytes)
  if bytes % 8 ≠ 0 then
    throw (.invalidFormat "storage.chunk_size_bytes" s!"{bytes} is not a multiple of 8")
  if s.compaction.bucketWidth = 0 then
    throw (.failed "compaction.default_bucket_ms must be > 0")
  if Text.allBlank s.monitoring.logLevel then
    throw (.invalidFormat "monitoring.log_level" "cannot be empty")

end Settings

end TimeSeries
