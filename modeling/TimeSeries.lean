import TimeSeries.Binary64
import TimeSeries.Binary64.Nearest
import TimeSeries.Binary64.Text
import TimeSeries.Checksum
import TimeSeries.Chunk
import TimeSeries.Chunk.Scan
import TimeSeries.Downsampling
import TimeSeries.Exchange
import TimeSeries.Failure
import TimeSeries.LogFilter
import TimeSeries.Packing.Decode
import TimeSeries.Packing.Encode
import TimeSeries.Settings
import TimeSeries.Settings.Document
import TimeSeries.Snapshot.Cursor
import TimeSeries.Tally
import TimeSeries.Proofs.Packing.Codec
import TimeSeries.Proofs.Packing.Stream
import TimeSeries.Proofs.Packing.Buffer
import TimeSeries.Proofs.Packing.RoundTrip
import TimeSeries.Proofs.Chunk.Content
import TimeSeries.Proofs.Chunk.Ends
import TimeSeries.Proofs.Chunk.Appending
import TimeSeries.Proofs.Chunk.Rewriting
import TimeSeries.Proofs.Chunk.Plain
import TimeSeries.Proofs.Chunk.Holding
import TimeSeries.Proofs.Chunk.Reachable
import TimeSeries.Proofs.Chunk.Refinement
import TimeSeries.Proofs.Snapshot.Chunks
import TimeSeries.Proofs.Chunk.Canonical
import TimeSeries.Proofs.Snapshot.Aggregators
import TimeSeries.Proofs.Snapshot.RoundTrip
import TimeSeries.Proofs.Snapshot.Queue
import TimeSeries.Proofs.Chunk.Atomicity
import TimeSeries.Proofs.Aggregation.Folding
import TimeSeries.Proofs.Downsampling
import TimeSeries.Proofs.Guarded
import TimeSeries.Proofs.Packing.Guarded
import TimeSeries.Proofs.Snapshot.Guarded
import TimeSeries.Proofs.Chunk.Accounting
import TimeSeries.Proofs.Chunk.Loaded
import TimeSeries.Proofs.Checksum
import TimeSeries.Proofs.Snapshot.Damage
import TimeSeries.Proofs.Packing.Writing
import TimeSeries.Proofs.Packing.InPlace
import TimeSeries.Proofs.Downsampling.Alignment
import TimeSeries.Proofs.Downsampling.Invariant
import TimeSeries.Proofs.Snapshot.Spelling
import TimeSeries.Proofs.Downsampling.Loaded
import TimeSeries.Proofs.Chunk.Growing
import TimeSeries.Proofs.Chunk.Additions
import TimeSeries.Proofs.Chunk.Halves
import TimeSeries.Proofs.Chunk.Conversion
import TimeSeries.Proofs.Chunk.Scanning
import TimeSeries.Proofs.Chunk.Statistics
import TimeSeries.Proofs.Aggregation.History
import TimeSeries.Proofs.Binary64
import TimeSeries.Proofs.Aggregation.Extremes
import TimeSeries.Proofs.Binary64.Difference
import TimeSeries.Proofs.Aggregation.Range
import TimeSeries.Proofs.Aggregation.Dispersion
import TimeSeries.Proofs.Chunk.Positions
import TimeSeries.Proofs.Chunk.Budget
import TimeSeries.Proofs.Chunk.Sealed
import TimeSeries.Proofs.Chunk.Room
import TimeSeries.Proofs.Chunk.Repetition
