import FlightTrace.Text.Quoted
import FlightTrace.Text.Blank
import FlightTrace.OrderedMap
import FlightTrace.OrderedSet
import FlightTrace.Identifier.Address
import FlightTrace.Identifier.Squawk
import FlightTrace.Identifier.Callsign
import FlightTrace.Identifier.SourceTag
import FlightTrace.Identifier.WakeCategory
import FlightTrace.Identifier.RecordId
import FlightTrace.Identifier.Reading
import FlightTrace.Error
import FlightTrace.Instant
import FlightTrace.Instant.Text
import FlightTrace.TimeRange
import FlightTrace.Decimal.Shortest
import FlightTrace.Json.Text
import FlightTrace.Json.Reader
import FlightTrace.Document.Identifier
import FlightTrace.Trace
import FlightTrace.Aircraft
import FlightTrace.Log.Entry
import FlightTrace.Crc32
import FlightTrace.Log
import FlightTrace.Index.Watermark
import FlightTrace.Index.Time
import FlightTrace.Tables.Trace
import FlightTrace.Tables.Catalog
import FlightTrace.Tables.Tags
import FlightTrace.Tables.Metadata
import FlightTrace.Track
import FlightTrace.Search
import FlightTrace.Sighting
import FlightTrace.Enrichment
import FlightTrace.Config
import FlightTrace.Document.Record
import FlightTrace.Config.Text
import FlightTrace.Database.Document
import FlightTrace.Host.Description
import FlightTrace.Identifier.Description
import FlightTrace.Text.Hex
import FlightTrace.Report
import FlightTrace.Proofs.DatabaseHistory
import FlightTrace.Proofs.LogDamage
import FlightTrace.Proofs.ByteDamage
import FlightTrace.Proofs.Visibility
import FlightTrace.Proofs.JsonDepth
import FlightTrace.Proofs.Recovered
import FlightTrace.Proofs.Reopening
import FlightTrace.Proofs.LogOrder
import FlightTrace.Proofs.SyncedLog
import FlightTrace.Proofs.PoisonedLog
import FlightTrace.Proofs.RepairedLog
import FlightTrace.Proofs.FailedAppend
import FlightTrace.Proofs.TagRelation
import FlightTrace.Proofs.Searching
import FlightTrace.Proofs.SegmentWidth
import FlightTrace.Proofs.CrashedAppend
import FlightTrace.Proofs.MarkIndex
import FlightTrace.Proofs.TrackChanges
import FlightTrace.Proofs.ObservationReading
import FlightTrace.Proofs.TrackIngestion
import FlightTrace.Proofs.UnfinishedNumbers
import FlightTrace.Proofs.SightingSummary
import FlightTrace.Proofs.TruncatedLog
import FlightTrace.Proofs.TomlText
import FlightTrace.Proofs.StoredConfig
import FlightTrace.Proofs.PointQuery
import FlightTrace.Proofs.EnrichedRows
import FlightTrace.Proofs.StoredDocuments
import FlightTrace.Proofs.Shutdown
import FlightTrace.Proofs.KeyBounds
import FlightTrace.Proofs.Cancellation
import FlightTrace.Proofs.ArrivalOrder
import FlightTrace.Proofs.KeyedIndex
import FlightTrace.Proofs.SharedBuckets
import FlightTrace.Proofs.SharedSegments
