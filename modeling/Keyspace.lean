import Keyspace.Bytes
import Keyspace.Bytes.BigEndian
import Keyspace.Bytes.Decimal
import Keyspace.Clock
import Keyspace.Command
import Keyspace.Command.Change
import Keyspace.Command.Lifetime
import Keyspace.Command.Query
import Keyspace.Command.Reply
import Keyspace.Config
import Keyspace.Config.File
import Keyspace.Context
import Keyspace.Deadline
import Keyspace.Error
import Keyspace.Json
import Keyspace.Json.Printer
import Keyspace.Json.Reader
import Keyspace.OrderedMap
import Keyspace.Position
import Keyspace.Proofs.Answers
import Keyspace.Proofs.Context
import Keyspace.Proofs.Kind
import Keyspace.Proofs.Kind.Apart
import Keyspace.Proofs.Kind.Counter
import Keyspace.Proofs.Kind.Damaged
import Keyspace.Proofs.Kind.MemberSet
import Keyspace.Proofs.Kind.Ranks
import Keyspace.Proofs.Kind.Sequence
import Keyspace.Proofs.Kind.SortedSet
import Keyspace.Proofs.Kind.Spans
import Keyspace.Proofs.Kind.Spelling
import Keyspace.Proofs.Position
import Keyspace.Proofs.Position.Checked
import Keyspace.Proofs.Record.Inserts
import Keyspace.Proofs.Record.Numeral
import Keyspace.Proofs.Record.Order
import Keyspace.Proofs.Record.Readers
import Keyspace.Proofs.Record.RoundTrip
import Keyspace.Proofs.Record.Shape
import Keyspace.Proofs.Record.Stored
import Keyspace.Proofs.Record.Upsert
import Keyspace.Proofs.Score
import Keyspace.Proofs.Session.Atomicity
import Keyspace.Proofs.Session.Closed
import Keyspace.Proofs.Session.Contexts
import Keyspace.Proofs.Session.Hidden
import Keyspace.Proofs.Session.Ledger
import Keyspace.Proofs.Session.Soundness
import Keyspace.Proofs.Session.Stamps
import Keyspace.Proofs.Session.Status
import Keyspace.Proofs.Session.Steps
import Keyspace.Proofs.Session.Upkeep
import Keyspace.Proofs.Slot.Dated
import Keyspace.Proofs.Slot.Live
import Keyspace.Proofs.Slot.Status
import Keyspace.Proofs.Storage.Slots
import Keyspace.Proofs.Storage.Sound
import Keyspace.Proofs.Storage.Tags
import Keyspace.Proofs.Store.Alike
import Keyspace.Proofs.Store.Deadlines
import Keyspace.Proofs.Store.Draining
import Keyspace.Proofs.Store.Emptying
import Keyspace.Proofs.Store.Gates
import Keyspace.Proofs.Store.Legible
import Keyspace.Proofs.Store.Locality
import Keyspace.Proofs.Store.Reading
import Keyspace.Proofs.Store.Removal
import Keyspace.Proofs.Store.Requests
import Keyspace.Proofs.Store.Rescoring
import Keyspace.Proofs.Store.Shares
import Keyspace.Proofs.Store.Sweeps
import Keyspace.Proofs.Store.Unreadable
import Keyspace.Record.Counter
import Keyspace.Record.Layout
import Keyspace.Record.Members
import Keyspace.Record.Ranking
import Keyspace.Score
import Keyspace.Session
import Keyspace.Slot
import Keyspace.Storage
import Keyspace.Store
import Keyspace.Store.Opening
import Keyspace.Store.Sweep
import Keyspace.Value
import Keyspace.Value.MemberSet
import Keyspace.Value.Sequence
import Keyspace.Value.SortedSet
import Keyspace.Value.Text
