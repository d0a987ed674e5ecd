import Tera.Leveldb.Format
import Tera.Leveldb.Compaction
import Tera.Leveldb.ParallelCompaction
import Tera.Leveldb.Engine
import Tera.Leveldb.Recovery
import Tera.Leveldb.WriterQueue
import Tera.Leveldb.CompactionSchedule
import Tera.Leveldb.Snapshots
import Tera.Leveldb.ObsoleteFiles
import Tera.Leveldb.GetProperty
import Tera.Leveldb.BlockCache.WriteBuffer
import Tera.Leveldb.BlockCache.Cache
import Tera.Leveldb.BlockCache.MetaRecords
import Tera.Leveldb.BlockCache.CacheIndex
import Tera.Leveldb.BlockCache.ReadFill
import Tera.Leveldb.BlockCache.FileIds
import Tera.Leveldb.BlockCache.DataSets
import Tera.Leveldb.FlashMirror
import Tera.Leveldb.FlashWriter
import Tera.Leveldb.FlashRollback
import Tera.Leveldb.FlashPaths
import Tera.TabletNode.ReadTablet
import Tera.TabletNode.WriteTablet
import Tera.TabletNode.GarbageCollect
import Tera.TabletNode.CollectInPath
import Tera.Observer.Column
