import IpcamSearch.Registry.ArrivalOrder
import IpcamSearch.Registry.Freshness
import IpcamSearch.Registry.Schedules
import IpcamSearch.Registry.PrintableNames
import IpcamSearch.StartupTime
import IpcamSearch.ExtensionBounds
import IpcamSearch.Timestamps
import IpcamSearch.WatchTimer
import IpcamSearch.ConsoleLines
import IpcamSearch.DeleteThisNode
import IpcamSearch.TearDown
import IpcamSearch.IntParameter
import IpcamSearch.QueryString
import IpcamSearch.ParaParseBounds
import IpcamSearch.AlreadyRunning
import IpcamSearch.Timers
import IpcamSearch.TimerPass
import IpcamSearch.TimerRuns
import IpcamSearch.WatchSchedule
import IpcamSearch.Registry.Tool
import IpcamSearch.Registry.ToolRefinement
import IpcamSearch.SearchDeviceLoop
import IpcamSearch.DeviceStream
import IpcamSearch.Network
import IpcamSearch.NetworkRuns
import IpcamSearch.NetworkSearch
import IpcamSearch.FileEvents
import IpcamSearch.FileEventsProperties
import IpcamSearch.FilePolls
import IpcamSearch.FileDispatch
import IpcamSearch.SearchPcFiles
import IpcamSearch.Library.RecordLock
import IpcamSearch.LockFile
import IpcamSearch.Library.HeapProgram
import IpcamSearch.Library.Threads
import IpcamSearch.ThreadedTool
import IpcamSearch.ThreadedRuns
import IpcamSearch.ThreadedTraffic
