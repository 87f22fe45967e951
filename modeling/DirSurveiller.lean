import DirSurveiller.Lib.Outcome
import DirSurveiller.Lib.Fields
import DirSurveiller.Containers.RingBuffer
import DirSurveiller.Containers.SharedRing
import DirSurveiller.Containers.StringBuffer
import DirSurveiller.Containers.Capacity
import DirSurveiller.Containers.ByteList
import DirSurveiller.Containers.Terminator
import DirSurveiller.Containers.Vector
import DirSurveiller.Calls
import DirSurveiller.Parser.Receive
import DirSurveiller.Parser.Simulation
import DirSurveiller.Parser.Stream
import DirSurveiller.Parser.Cursor
import DirSurveiller.Parser.Bounds
import DirSurveiller.Parser.Thread
import DirSurveiller.Parser.Delivery
import DirSurveiller.Index.Outcomes
import DirSurveiller.Database.Store
import DirSurveiller.Database.RoundTrip
import DirSurveiller.Database.KeyOrder
import DirSurveiller.Database.PathQuery
import DirSurveiller.Daemon.Surveiller
import DirSurveiller.Daemon.Removal
import DirSurveiller.Daemon.Dispatch
import DirSurveiller.Daemon.Invariant
import DirSurveiller.Daemon.Operations
import DirSurveiller.Database.JsonFields
import DirSurveiller.Database.Truncation
import DirSurveiller.Control.Safety
import DirSurveiller.Control.Server
import DirSurveiller.Control.Serial
import DirSurveiller.Index.Linking
import DirSurveiller.Index.Tracking
import DirSurveiller.Index.Allocation
import DirSurveiller.Daemon.Access
import DirSurveiller.Daemon.Lineage
import DirSurveiller.Daemon.Ownership
import DirSurveiller.Daemon.Reexec
import DirSurveiller.Daemon.Tracked
import DirSurveiller.Daemon.SortedMerge
import DirSurveiller.Daemon.Shutdown
import DirSurveiller.Daemon.TimeStamp
import DirSurveiller.Daemon.Pipeline
import DirSurveiller.Daemon.EndToEnd
import DirSurveiller.Daemon.Termination
import DirSurveiller.Tracer.Handed
import DirSurveiller.Tracer.Names
import DirSurveiller.Tracer.Arguments
