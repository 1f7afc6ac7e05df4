import Quickhouse.Lib.Binary64
import Quickhouse.Lib.MachineInt
import Quickhouse.Lib.Text
import Quickhouse.Lib.Merge
import Quickhouse.Lib.Sql
import Quickhouse.Lib.Runs
import Quickhouse.Lib.Paging
import Quickhouse.Config
import Quickhouse.Transform
import Quickhouse.Window
import Quickhouse.Watermark
import Quickhouse.CursorPlan
import Quickhouse.Source.Keyset
import Quickhouse.ChunkedRead
import Quickhouse.KeysetResume
import Quickhouse.StreamCursor
import Quickhouse.Sink.BigQueryMerge
import Quickhouse.Sink.KeyedUpsert
import Quickhouse.Sink.NewestWins
import Quickhouse.Sink.StaleDelete
import Quickhouse.NoLostUpdate
import Quickhouse.FailOnWarnings
import Quickhouse.InsertBuffer
import Quickhouse.WindowedSweep
import Quickhouse.ColumnPlan
import Quickhouse.NullGuard
import Quickhouse.NullSafety
import Quickhouse.Lib.SqlText
import Quickhouse.Lib.TabSeparated
import Quickhouse.Sink.StateStore
import Quickhouse.Lib.Semaphore
import Quickhouse.MemoryBudget
import Quickhouse.MemoryPressure
import Quickhouse.ChunkArchive
import Quickhouse.Lib.Csv
import Quickhouse.Sink.CsvWriter
import Quickhouse.Sink.CsvReadBack
import Quickhouse.Sink.CsvStaging
import Quickhouse.Sink.CsvNothingLost
import Quickhouse.Sink.CsvAllOrNothing
import Quickhouse.Lib.Links
import Quickhouse.Source.CleverTap
import Quickhouse.Pagination
import Quickhouse.Retries
import Quickhouse.Decimal
import Quickhouse.DecimalText
import Quickhouse.Lib.Slices
import Quickhouse.Source.Partitions
import Quickhouse.Source.ClickHouseRows
import Quickhouse.NullAccounts
import Quickhouse.ApiWindow
import Quickhouse.Lib.Wire
import Quickhouse.Source.PgNumeric
import Quickhouse.NumericExact
import Quickhouse.Lib.Chunks
import Quickhouse.Source.CopyDecoder
import Quickhouse.CopyChunks
import Quickhouse.CopySafety
import Quickhouse.CopyRows
import Quickhouse.DecimalRender
import Quickhouse.Lib.SqlLexer
import Quickhouse.SqlQuoting
import Quickhouse.Source.KeysetLexing
import Quickhouse.Lib.TimeFormat
import Quickhouse.WatermarkText
import Quickhouse.ApiTimes
import Quickhouse.ValueCells
import Quickhouse.Lib.FirstSeen
import Quickhouse.ValueReconcile
import Quickhouse.Lib.Ieee
import Quickhouse.Lib.Protobuf
import Quickhouse.Sink.BigQueryProto
import Quickhouse.Lib.OffsetLog
import Quickhouse.Sink.StorageWrite
import Quickhouse.ReconcileKeys
import Quickhouse.KeyTypes
import Quickhouse.TableCursors
import Quickhouse.Lib.LateCalls
import Quickhouse.Sink.FullRefresh
import Quickhouse.Sink.RefreshAllOrNothing
import Quickhouse.Sink.RefreshShrink
import Quickhouse.Lib.Cover
import Quickhouse.Source.ChTypeCopies
import Quickhouse.Source.RangeProbes
import Quickhouse.ParallelRead
import Quickhouse.Sink.QueryJobs
import Quickhouse.Lib.Supersede
import Quickhouse.Sink.StateCompaction
import Quickhouse.Sink.StateKeys
