import Rtems.Block.Bdpart
import Rtems.Block.BufferGroups
import Rtems.Block.FlashRuns
import Rtems.Block.FlashSegments
import Rtems.Block.NvDisk
import Rtems.Block.SparseDisk
import Rtems.Block.SyncDevice
import Rtems.Classic.RateMonotonic
import Rtems.Classic.Timer
import Rtems.Classic.TimerFires
import Rtems.Classic.TimerPlaces
import Rtems.Classic.TimerRuns
import Rtems.Clock.TimeOfDay
import Rtems.Core.CeilingMutex
import Rtems.Core.MessageQueue
import Rtems.Core.RWLock
import Rtems.Cyclictest.Histogram
import Rtems.Cyclictest.RtUtils
import Rtems.Dosfs.Cache
import Rtems.Dosfs.Chains
import Rtems.Dosfs.Conservation
import Rtems.Dosfs.Contents
import Rtems.Dosfs.DateConversion
import Rtems.Dosfs.DescriptorRuns
import Rtems.Dosfs.DescriptorSpecs
import Rtems.Dosfs.Descriptors
import Rtems.Dosfs.DirChanges
import Rtems.Dosfs.DirEntries
import Rtems.Dosfs.DirLinks
import Rtems.Dosfs.DirParents
import Rtems.Dosfs.DirViews
import Rtems.Dosfs.DirWrites
import Rtems.Dosfs.Entries
import Rtems.Dosfs.File
import Rtems.Dosfs.FileArray
import Rtems.Dosfs.FileChain
import Rtems.Dosfs.FileLength
import Rtems.Dosfs.FileTruncate
import Rtems.Dosfs.Geometry
import Rtems.Dosfs.Keys
import Rtems.Dosfs.Lending
import Rtems.Dosfs.LendingFats
import Rtems.Dosfs.LendingRuns
import Rtems.Dosfs.MsdosFile
import Rtems.Dosfs.ReservedBits
import Rtems.Dosfs.RootDirectory
import Rtems.Dosfs.Table
import Rtems.Dosfs.UniqueInodes
import Rtems.Dosfs.Volume
import Rtems.Fifo.Queue
import Rtems.Heap.Coarsest
import Rtems.Heap.Disjoint
import Rtems.Heap.History
import Rtems.Heap.Reject
import Rtems.Imfs.ByteArray
import Rtems.Objects.Exhaustion
import Rtems.Objects.GetNext
import Rtems.Objects.Unlimited
import Rtems.Record.Delivery
import Rtems.Record.Fetch
import Rtems.Rfs.Bitmap
import Rtems.Rfs.BlockFind
import Rtems.Rfs.BlockMap
import Rtems.Rfs.Buffer
import Rtems.Rfs.Directory
import Rtems.Rfs.File
import Rtems.Rfs.Format
import Rtems.Rfs.Link
import Rtems.Rfs.OpenFile
import Rtems.Rfs.Symlink
import Rtems.Scheduler.Cbs
import Rtems.Scheduler.Edf
import Rtems.Scheduler.Simple
import Rtems.Thread.Event
import Rtems.ThreadQueue.Deadlock
import Rtems.ThreadQueue.Flush
import Rtems.ThreadQueue.Heads
import Rtems.ThreadQueue.WakeUp
import Rtems.Untar.Delivery
import Rtems.UserExtensions.Visits
import Rtems.Watchdog.Order
