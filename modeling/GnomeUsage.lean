import GnomeUsage.Accounts
import GnomeUsage.Additions
import GnomeUsage.Aliases
import GnomeUsage.Attribution
import GnomeUsage.Battery
import GnomeUsage.Bezier
import GnomeUsage.Bucketed
import GnomeUsage.ByteCounts
import GnomeUsage.ByteReader
import GnomeUsage.CStream
import GnomeUsage.CText
import GnomeUsage.Caching
import GnomeUsage.CaptureBounds
import GnomeUsage.Connection
import GnomeUsage.Conninode
import GnomeUsage.Conservation
import GnomeUsage.CpuTime
import GnomeUsage.Credits
import GnomeUsage.Decoder
import GnomeUsage.Devices
import GnomeUsage.DifferenceOrder
import GnomeUsage.Doubles
import GnomeUsage.DrainOrder
import GnomeUsage.Encapsulation
import GnomeUsage.FloatRates
import GnomeUsage.FloatRounding
import GnomeUsage.FlowTable
import GnomeUsage.Flows
import GnomeUsage.Frames
import GnomeUsage.GraphWidget
import GnomeUsage.Hashstring
import GnomeUsage.Identity
import GnomeUsage.Inodeproc
import GnomeUsage.KeepAlive
import GnomeUsage.KernelFiles
import GnomeUsage.Keys
import GnomeUsage.LineReading
import GnomeUsage.Lists
import GnomeUsage.Loads
import GnomeUsage.MainLoop
import GnomeUsage.NetLines
import GnomeUsage.NetRow
import GnomeUsage.NetworkList
import GnomeUsage.ObjectTable
import GnomeUsage.Occupancy
import GnomeUsage.Openings
import GnomeUsage.Orientation
import GnomeUsage.Orphans
import GnomeUsage.Overwrite
import GnomeUsage.Ownership
import GnomeUsage.Packet
import GnomeUsage.PacketList
import GnomeUsage.Pages
import GnomeUsage.Process
import GnomeUsage.ProcessTimeout
import GnomeUsage.Provenance
import GnomeUsage.Push
import GnomeUsage.Rates
import GnomeUsage.Reachable
import GnomeUsage.RecentWindow
import GnomeUsage.Recovery
import GnomeUsage.Refreshes
import GnomeUsage.Runs
import GnomeUsage.Schedules
import GnomeUsage.Session
import GnomeUsage.StorageList
import GnomeUsage.Sweep
import GnomeUsage.SystemMonitor
import GnomeUsage.TableHistory
import GnomeUsage.TimeShift
import GnomeUsage.TimeWidth
import GnomeUsage.Timeouts
import GnomeUsage.TopLoads
import GnomeUsage.TopProcesses
import GnomeUsage.Tracking
import GnomeUsage.TreeStore
import GnomeUsage.Unwinding
import GnomeUsage.Views
import GnomeUsage.Watchdog
import GnomeUsage.WireRates
