import Tesd.AvgtrClean
import Tesd.Delivery
import Tesd.HistSound
import Tesd.Interleaving
import Tesd.JitterChannels
import Tesd.NoOverwrite
import Tesd.OneReply
import Tesd.Reply
import Tesd.RingOrder
import Tesd.StreamComplete
import Tesd.Subscribe
import Tesd.TickIndex
import Tesd.HistComplete
import Tesd.AvgtrBounds
import Tesd.CapIdle
import Tesd.Lib.DelayQueue
import Tesd.JitterQueue
import Tesd.JitterBatch
import Tesd.JitterReference
import Tesd.JitterPacking
import Tesd.Counters
import Tesd.CaptureEnd
import Tesd.AiobufTwin
import Tesd.JobTwin
import Tesd.CaptureTwin
import Tesd.JobFlag
import Tesd.Lib.PathWalks
import Tesd.Lib.PathMaking
import Tesd.CanonicalDirs
import Tesd.Containment
import Tesd.Denoted
import Tesd.InfoCounts
import Tesd.MissedCount
import Tesd.RingChoice
import Tesd.HeaderFlag
import Tesd.AiobufAsserts
import Tesd.Lib.PathEntries
import Tesd.RefusedFiles
import Tesd.JobNames
import Tesd.CanonicalAsserts
import Tesd.Spurious
import Tesd.Lib.Asserting
import Tesd.Hdf5Conv
import Tesd.Hdf5Status
import Tesd.SlotIds
import Tesd.ValidFrames
import Tesd.TaskErrors
import Tesd.StreamAsserts
import Tesd.ForkAndRun
import Tesd.Hdf5World
import Tesd.Hdf5Steps
import Tesd.Slices
import Tesd.Lib.LinkTree
import Tesd.Groups
import Tesd.Retry
import Tesd.GroupsKept
import Tesd.Shutdown
import Tesd.Recapture
import Tesd.Archive
import Tesd.ArchiveKept
import Tesd.ArchiveServed
import Tesd.Catalogue
import Tesd.Server
import Tesd.ServerJob
