import TdsqlMerge.Store.Returns
import TdsqlMerge.Store.Rebuild
import TdsqlMerge.Store.Lossless
import TdsqlMerge.Store.DropColumn
import TdsqlMerge.Store.Headers
import TdsqlMerge.Store.SubWorker
import TdsqlMerge.Store.Integrity
import TdsqlMerge.Store.Evolution
import TdsqlMerge.Store.Survivors
import TdsqlMerge.Store.NullKeys
import TdsqlMerge.Store.Catalogue
import TdsqlMerge.Store.Displacement
import TdsqlMerge.Store.SortForDump
import TdsqlMerge.Splitter.Drain
import TdsqlMerge.Splitter.Tree
import TdsqlMerge.Fetcher.ExternalFetcher
import TdsqlMerge.Fetcher.GtidCompare
import TdsqlMerge.Fetcher.BinlogFiles
import TdsqlMerge.Ddl.Files
import TdsqlMerge.Ddl.Lockstep
import TdsqlMerge.Ddl.DumpedDefaults
import TdsqlMerge.Ddl.ColumnLines
import TdsqlMerge.Pusher.Batches
import TdsqlMerge.Pusher.Connections
import TdsqlMerge.Pusher.SharedPool
import TdsqlMerge.Loader.Works
import TdsqlMerge.Delivery
import TdsqlMerge.Keyless
