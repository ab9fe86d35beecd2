import SeriesRegion.Apply
import SeriesRegion.Binary.Entry
import SeriesRegion.Binary.Format
import SeriesRegion.Binary.Plan
import SeriesRegion.Bytes
import SeriesRegion.CommandLine.Arguments
import SeriesRegion.CommandLine.Invocation
import SeriesRegion.CommandLine.Session
import SeriesRegion.Config
import SeriesRegion.Decimal.Shortest
import SeriesRegion.Digest.Sha256
import SeriesRegion.Disk.Fault
import SeriesRegion.Disk.Path
import SeriesRegion.Disk.Task
import SeriesRegion.Disk.Tree
import SeriesRegion.Engine
import SeriesRegion.Generation
import SeriesRegion.Insert
import SeriesRegion.Json.Fault
import SeriesRegion.Json.Floating
import SeriesRegion.Json.Number
import SeriesRegion.Json.Printer
import SeriesRegion.Json.Record
import SeriesRegion.Json.Skip
import SeriesRegion.Json.Text
import SeriesRegion.Log
import SeriesRegion.Machine
import SeriesRegion.Main
import SeriesRegion.MemTable
import SeriesRegion.Numbered
import SeriesRegion.Plan
import SeriesRegion.Region
import SeriesRegion.Replay.Batches
import SeriesRegion.Replay.Run
import SeriesRegion.Replica
import SeriesRegion.Request
import SeriesRegion.Sequencer.Buffer
import SeriesRegion.Sequencer.Callers
import SeriesRegion.Sequencer.Settle
import SeriesRegion.Snapshot
import SeriesRegion.Snapshot.Manifest
import SeriesRegion.SortedMap
import SeriesRegion.SortedMap.Search
import SeriesRegion.Status
import SeriesRegion.Steps
import SeriesRegion.Text.Duration
import SeriesRegion.Text.Printable
import SeriesRegion.Text.Quoted
import SeriesRegion.Text.Timestamp
import SeriesRegion.Text.Utf8
import SeriesRegion.Text.Uuid
import SeriesRegion.Proofs.Sequencer.Run
import SeriesRegion.Proofs.Sequencer.Taken
import SeriesRegion.Proofs.Sequencer.Untimed
import SeriesRegion.Proofs.Sequencer.Order
import SeriesRegion.Proofs.Sequencer.Contiguous
import SeriesRegion.Proofs.Sequencer.Sleepers
import SeriesRegion.Proofs.Sequencer.Delivery
import SeriesRegion.Proofs.Sequencer.Window
import SeriesRegion.Proofs.Sequencer.Quiet
import SeriesRegion.Proofs.Sequencer.Filled
import SeriesRegion.Proofs.Sequencer.Expiry
import SeriesRegion.Proofs.Sequencer.Capacity
import SeriesRegion.Proofs.Sequencer.Cursor
import SeriesRegion.Proofs.Binary.RoundTrip
import SeriesRegion.Proofs.Disk.Places
import SeriesRegion.Proofs.Disk.OneName
import SeriesRegion.Proofs.Disk.Work
import SeriesRegion.Proofs.Generation.Names
import SeriesRegion.Proofs.Generation.Spelled
import SeriesRegion.Proofs.Log.Frames
import SeriesRegion.Proofs.Log.Recovery
import SeriesRegion.Proofs.MemTable.LastWrite
import SeriesRegion.Proofs.MemTable.Counting
import SeriesRegion.Proofs.MemTable.Written
import SeriesRegion.Proofs.MemTable.Answers
import SeriesRegion.Proofs.MemTable.Populated
import SeriesRegion.Proofs.MemTable.Rows
import SeriesRegion.Proofs.Dues
import SeriesRegion.Proofs.Region.Backed
import SeriesRegion.Proofs.Region.Records
import SeriesRegion.Proofs.Region.Interleaving
import SeriesRegion.Proofs.Region.Halfway
import SeriesRegion.Proofs.Region.History
import SeriesRegion.Proofs.Region.Merging
import SeriesRegion.Proofs.Machine.Turns
import SeriesRegion.Proofs.Machine.Write
import SeriesRegion.Proofs.Sequencer.Leaks
import SeriesRegion.Proofs.Sequencer.Interrupts
import SeriesRegion.Proofs.Sequencer.WakeOrder
import SeriesRegion.Proofs.Disk.Stops
import SeriesRegion.Proofs.Disk.Faults
import SeriesRegion.Proofs.Disk.Making
import SeriesRegion.Proofs.Disk.Confined
import SeriesRegion.Proofs.Disk.Fresh
import SeriesRegion.Proofs.Region.Standing
import SeriesRegion.Proofs.Region.Overwriting
import SeriesRegion.Proofs.Region.Confined
import SeriesRegion.Proofs.Region.Continued
import SeriesRegion.Proofs.Region.Refused
import SeriesRegion.Proofs.Region.Chosen
import SeriesRegion.Proofs.Region.Restored
import SeriesRegion.Proofs.Region.Replayed
import SeriesRegion.Proofs.Region.Reported
import SeriesRegion.Proofs.Region.Scanned
import SeriesRegion.Proofs.Region.Populated
import SeriesRegion.Proofs.Log.Misfits
import SeriesRegion.Proofs.Json.Written
import SeriesRegion.Proofs.Json.Grammar
import SeriesRegion.Proofs.Json.Skipped
import SeriesRegion.Proofs.Json.Exact
import SeriesRegion.Proofs.Json.Members
import SeriesRegion.Proofs.Json.Given
import SeriesRegion.Proofs.Config.Overlay
import SeriesRegion.Proofs.Text.Calendar
import SeriesRegion.Proofs.Text.Timestamp
import SeriesRegion.Proofs.Text.Uuid
import SeriesRegion.Proofs.Snapshot.Manifest
import SeriesRegion.Proofs.Snapshot.Held
import SeriesRegion.Proofs.Snapshot.Interrupted
import SeriesRegion.Proofs.Snapshot.Returned
import SeriesRegion.Proofs.Snapshot.Leftovers
import SeriesRegion.Proofs.Snapshot.Attempts
import SeriesRegion.Proofs.Snapshot.Origins
import SeriesRegion.Proofs.Snapshot.Lineage
import SeriesRegion.Proofs.Replica.Loading
import SeriesRegion.Proofs.Replica.Loaders
import SeriesRegion.Proofs.Replica.Displaced
import SeriesRegion.Proofs.Binary.Exact
import SeriesRegion.Proofs.Binary.Images
import SeriesRegion.Proofs.Replay.Batches
import SeriesRegion.Proofs.Replay.Workers
import SeriesRegion.Proofs.Replay.Accounts
import SeriesRegion.Proofs.Replay.Ending
import SeriesRegion.Proofs.Replay.Serial
import SeriesRegion.Proofs.Replay.Whole
