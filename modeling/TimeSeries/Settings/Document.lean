import TimeSeries.Document.Reader
import TimeSeries.Settings
import TimeSeries.Settings.Environment

/-!
# Settings in documents

Settings are written as three tables.  When they are read, what is missing has its
standard value and what is unknown is passed over, but what is there has to be of
the right kind.  A point in time has no entries that are known, so that in the place of
a table it stands for the standard settings.
-/

namespace TimeSeries

/-- The entry of `table` under `key`, or `standard` if there is none. -/
def Datum.entryOr {α : Type} (table : Datum) (key : String) (standard : α)
    (read : Datum → Option α) : Option α :=
  match table.get? key with
  | none => some standard
  | some entry => read entry

/-- Reads a table, or a list of the first entries of one in the order of its `keys`. -/
def Datum.tableOf? (keys : List String) : Datum → Option Datum
  | .table entries => some (.table entries)
  | .list items => some (.table (keys.zip items))
  | .moment _ => some (.table [])
  | _ => none

/-- Reads a choice: a text, or the only key of a table, with nothing under it but an
empty table or list. -/
def Datum.choiceOf? : Datum → Option String
  | .text name => some name
  | .table [(name, .table [])] | .table [(name, .list [])] => some name
  | _ => none

/-- Reads the settings of new chunks. -/
def StorageSettings.ofDatum? (d : Datum) : Option StorageSettings := do
  let d ← d.tableOf? ["chunk_size_bytes", "encoding", "duplicate_policy"]
  return {
    chunkBytes := ← d.entryOr "chunk_size_bytes" standard.chunkBytes Datum.wordOf?
    encoding :=
      ← d.entryOr "encoding" standard.encoding fun d => d.choiceOf? >>= Encoding.ofName?
    duplicatePolicy :=
      ← d.entryOr "duplicate_policy" standard.duplicatePolicy fun d =>
        d.choiceOf? >>= DuplicatePolicy.ofName? }

/-- Reads the settings of new rules. -/
def CompactionSettings.ofDatum? (d : Datum) : Option CompactionSettings := do
  let d ← d.tableOf? ["default_bucket_ms"]
  return { bucketWidth := ← d.entryOr "default_bucket_ms" standard.bucketWidth Datum.wordOf? }

/-- Reads the settings of what is reported. -/
def MonitoringSettings.ofDatum? (d : Datum) : Option MonitoringSettings := do
  let d ← d.tableOf? ["metrics_enabled", "log_level", "structured_logging"]
  return {
    metricsEnabled := ← d.entryOr "metrics_enabled" standard.metricsEnabled Datum.booleanOf?
    logLevel := ← d.entryOr "log_level" standard.logLevel Datum.textOf?
    structuredLogging :=
      ← d.entryOr "structured_logging" standard.structuredLogging Datum.booleanOf? }

namespace Settings

/-- Reads all settings. -/
def ofDatum? (d : Datum) : Option Settings := do
  return {
    storage := ← d.entryOr "storage" .standard StorageSettings.ofDatum?
    compaction := ← d.entryOr "compaction" .standard CompactionSettings.ofDatum?
    monitoring := ← d.entryOr "monitoring" .standard MonitoringSettings.ofDatum? }

/-- The settings in the document `text`. -/
def ofText (text : String) : Except Failure Settings :=
  match Document.parse? text >>= ofDatum? with
  | some s => .ok s
  | none => .error (.configuration "not a document of settings")

/-- The settings in a file, where `content?` is missing if there is no such file. -/
def ofFile (content? : Option (List UInt8)) : Except Failure Settings :=
  match content? with
  | none => .error (.file "no such file")
  | some content =>
    match Text.ofUtf8 content with
    | .ok text => ofText text
    | .error _ => .error (.file "stream did not contain valid UTF-8")

/-- The settings in a file, with the overrides of the environment `e`. -/
def ofFileIn (e : Environment) (content? : Option (List UInt8)) : Except Failure Settings :=
  (·.override e) <$> ofFile content?

/-- The whole number `n` as it is written in a document, which has none beyond the signed words. -/
def wordText (key : String) (n : UInt64) : Except Failure String :=
  if n.toNat < 2 ^ 63 then .ok s!"{n.toNat}"
  else .error (.configuration s!"{key}: number too large")

/-- The truth value `b` as it is written in a document. -/
def booleanText (b : Bool) : String := if b then "true" else "false"

/-- The table `name` as it is written in a document. -/
def tableText (name : String) (entries : List (String × String)) : String :=
  "[" ++ name ++ "]\n" ++ String.join (entries.map fun (key, value) => key ++ " = " ++ value ++ "\n")

/-- The document that holds the settings `s`. -/
def toText (s : Settings) : Except Failure String := do
  let chunkBytes ← wordText "chunk_size_bytes" s.storage.chunkBytes
  let bucketWidth ← wordText "default_bucket_ms" s.compaction.bucketWidth
  return "\n".intercalate [
    tableText "storage" [
      ("chunk_size_bytes", chunkBytes),
      ("encoding", Document.quote s.storage.encoding.name),
      ("duplicate_policy", Document.quote s.storage.duplicatePolicy.name)],
    tableText "compaction" [("default_bucket_ms", bucketWidth)],
    tableText "monitoring" [
      ("metrics_enabled", booleanText s.monitoring.metricsEnabled),
      ("log_level", Document.quote s.monitoring.logLevel),
      ("structured_logging", booleanText s.monitoring.structuredLogging)]]

end Settings

end TimeSeries
