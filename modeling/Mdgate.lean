import Mdgate.App.AppConfig
import Mdgate.App.CrashReporter
import Mdgate.App.CrashRestart
import Mdgate.App.IniGrammar
import Mdgate.App.IniParser
import Mdgate.Base.CancelableTaskTracker
import Mdgate.Base.Environment
import Mdgate.Base.LoopRuns
import Mdgate.Base.MessageLoop
import Mdgate.Base.MessagePumpDefault
import Mdgate.Base.PendingTask
import Mdgate.Base.PostTaskAndReply
import Mdgate.Base.RelayHistory
import Mdgate.Base.Strings
import Mdgate.Base.TaskOrder
import Mdgate.Base.TaskQueues
import Mdgate.Base.Time
import Mdgate.Base.TrackerFlags
import Mdgate.Base.TrackerRuns
import Mdgate.Base.Utf
import Mdgate.Base.Values
import Mdgate.Browser.RundownTaskCounter
import Mdgate.Browser.TradingWidget
import Mdgate.Chrome.PreReadImage
import Mdgate.Chrome.PreReadInMemory
import Mdgate.Chrome.PreReadOnDisk
import Mdgate.Chrome.PreReadSection
import Mdgate.Cmd.CommandLine
import Mdgate.Cmd.Layout
import Mdgate.Cmd.Quoting
import Mdgate.Cmd.RoundTrip
import Mdgate.Content.BrowserMainLoop
import Mdgate.Content.BrowserThread
import Mdgate.Content.BrowserThreadId
import Mdgate.Content.DelegateBrackets
import Mdgate.Content.DownwardPosting
import Mdgate.Content.StartupTaskRunner
import Mdgate.Content.ThreadDelegate
import Mdgate.Content.ThreadLifetime
import Mdgate.Crash.CrashOnce
import Mdgate.Crash.CrashRest
import Mdgate.Crash.ExceptionHandler
import Mdgate.Crash.HandlerStack
import Mdgate.Crash.Handshake
import Mdgate.Crash.MinidumpIds
import Mdgate.Lib.Argv
import Mdgate.Lib.Codec
import Mdgate.Lib.CriticalSection
import Mdgate.Lib.Log
import Mdgate.Lib.Machine
import Mdgate.Lib.Script
import Mdgate.Lib.Search
import Mdgate.Lib.Threads
import Mdgate.Pool.Counters
import Mdgate.Pool.GetWork
import Mdgate.Pool.Inner
import Mdgate.Pool.Moves
import Mdgate.Pool.Sequences
import Mdgate.Pool.Shutdown
import Mdgate.Pool.ShutdownWait
import Mdgate.Pool.Wakeups
import Mdgate.Pool.WorkerPool
import Mdgate.Ui.Coalescing
import Mdgate.Ui.DelayedWork
import Mdgate.Ui.MessagePumpQt
import Mdgate.Ui.PumpSteps
import Mdgate.Ui.RunLoops
import Mdgate.Ui.TimerInterval
import Mdgate.Ui.UiTasks
import Mdgate.Ui.Wakeup
