import Avb4Linux.Alsa.Adapter
import Avb4Linux.Alsa.Divisions
import Avb4Linux.Alsa.Periods
import Avb4Linux.Alsa.Rings
import Avb4Linux.ClientSlots
import Avb4Linux.Gptp.Clock
import Avb4Linux.Gptp.Deadlock
import Avb4Linux.Gptp.DuplicateResponses
import Avb4Linux.Gptp.Frames
import Avb4Linux.Gptp.NetLock
import Avb4Linux.Gptp.Ownership
import Avb4Linux.Gptp.PeerDelay
import Avb4Linux.Gptp.Port
import Avb4Linux.Gptp.Roles
import Avb4Linux.Gptp.StateDecision
import Avb4Linux.Gptp.Threads
import Avb4Linux.Gptp.TicketingLock
import Avb4Linux.Gptp.TimerQueue
import Avb4Linux.Lib.Fallible
import Avb4Linux.Lib.KeyedList
import Avb4Linux.Lib.Lifetime
import Avb4Linux.Lib.LinkedQueue
import Avb4Linux.Lib.LinkedTree
import Avb4Linux.Lib.LockOrder
import Avb4Linux.Lib.LockTrace
import Avb4Linux.Lib.Memcmp
import Avb4Linux.Lib.Mutex
import Avb4Linux.Lib.Packing
import Avb4Linux.Lib.Ring
import Avb4Linux.Lib.Runs
import Avb4Linux.Lib.Scan
import Avb4Linux.Maap.Acquisition
import Avb4Linux.Maap.Client
import Avb4Linux.Maap.Command
import Avb4Linux.Maap.Conflicts
import Avb4Linux.Maap.Contest
import Avb4Linux.Maap.Daemon
import Avb4Linux.Maap.Delivery
import Avb4Linux.Maap.Flags
import Avb4Linux.Maap.Handlers
import Avb4Linux.Maap.IntervalHeap
import Avb4Linux.Maap.IntervalSet
import Avb4Linux.Maap.Intervals
import Avb4Linux.Maap.Invariants
import Avb4Linux.Maap.Ledger
import Avb4Linux.Maap.Lifetimes
import Avb4Linux.Maap.NetBuffers
import Avb4Linux.Maap.Notifications
import Avb4Linux.Maap.Overlaps
import Avb4Linux.Maap.Packet
import Avb4Linux.Maap.Pointers
import Avb4Linux.Maap.Pool
import Avb4Linux.Maap.Probing
import Avb4Linux.Maap.Refinement
import Avb4Linux.Maap.Reservation
import Avb4Linux.Maap.Senders
import Avb4Linux.Maap.TimerQueue
import Avb4Linux.Maap.Timers
import Avb4Linux.Maap.Watched
import Avb4Linux.Maap.WireFormat
import Avb4Linux.Maap.Yielding
import Avb4Linux.Mrp.AttribEvents
import Avb4Linux.Mrp.Branches
import Avb4Linux.Mrp.Cells
import Avb4Linux.Mrp.Codec
import Avb4Linux.Mrp.Database
import Avb4Linux.Mrp.Declarations
import Avb4Linux.Mrp.DeclaredData
import Avb4Linux.Mrp.Dump
import Avb4Linux.Mrp.Emission
import Avb4Linux.Mrp.EuiSet
import Avb4Linux.Mrp.EventLoop
import Avb4Linux.Mrp.Frames
import Avb4Linux.Mrp.Fsm
import Avb4Linux.Mrp.Grouping
import Avb4Linux.Mrp.Histories
import Avb4Linux.Mrp.JoinTimer
import Avb4Linux.Mrp.LeaveTimer
import Avb4Linux.Mrp.Link
import Avb4Linux.Mrp.ListOrder
import Avb4Linux.Mrp.Mmrp
import Avb4Linux.Mrp.MmrpReader
import Avb4Linux.Mrp.MmrpRoundTrip
import Avb4Linux.Mrp.MmrpServices
import Avb4Linux.Mrp.Msrp
import Avb4Linux.Mrp.MsrpCodec
import Avb4Linux.Mrp.MsrpReadBounds
import Avb4Linux.Mrp.MsrpReception
import Avb4Linux.Mrp.MsrpRoundTrip
import Avb4Linux.Mrp.Mvrp
import Avb4Linux.Mrp.MvrpCodec
import Avb4Linux.Mrp.MvrpNode
import Avb4Linux.Mrp.MvrpRoundTrip
import Avb4Linux.Mrp.Notifications
import Avb4Linux.Mrp.Parse
import Avb4Linux.Mrp.Participant
import Avb4Linux.Mrp.Protocols
import Avb4Linux.Mrp.Pruning
import Avb4Linux.Mrp.ReadBounds
import Avb4Linux.Mrp.Reception
import Avb4Linux.Mrp.Refinement
import Avb4Linux.Mrp.Substates
import Avb4Linux.Mrp.Transmit
import Avb4Linux.Mrp.VectorCodec
import Avb4Linux.Mrp.Vectors
import Avb4Linux.Shaper.Reservations
