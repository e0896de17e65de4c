import L4ertl.Lib.Intrusive
import L4ertl.Core.Bitop
import L4ertl.Core.SchedStruct
import L4ertl.Core.TimerTable
import L4ertl.Core.Kernel
import L4ertl.Core.ThreadState
import L4ertl.Core.Signal
import L4ertl.Core.Time
import L4ertl.Core.Sync
import L4ertl.Core.Calls
import L4ertl.Lib.Lts
import L4ertl.System.Step
import L4ertl.Core.Frame
import L4ertl.Core.WaitQueue
import L4ertl.System.Quiet
import L4ertl.Core.MutexEffect
import L4ertl.System.MutualExclusion
import L4ertl.System.SemConservation
import L4ertl.Core.KernelOk
import L4ertl.Core.CallSound
import L4ertl.System.SystemOk
import L4ertl.System.Start
import L4ertl.System.MutexWaiters
import L4ertl.Core.HeapSpec
import L4ertl.Core.TimerOk
import L4ertl.Core.TimerRuns
import L4ertl.Core.Expiry
import L4ertl.Core.Prompt
import L4ertl.System.Dispatch
import L4ertl.Arch.OmapClock
import L4ertl.Arch.OmapHwtimer
import L4ertl.Arch.VersatileClock
import L4ertl.System.FifoOrder
import L4ertl.Core.Ceiling
import L4ertl.Core.Reap
import L4ertl.System.Reaping
import L4ertl.Core.Kstack
import L4ertl.Core.Regions
import L4ertl.Core.Ualloc
import L4ertl.System.Interrupts
import L4ertl.Arch.SyscallEntry
import L4ertl.Arch.SyscallDispatch
import L4ertl.Core.TimerOwners
import L4ertl.Core.Tlsf
import L4ertl.Core.TlsfHeap
import L4ertl.Core.TlsfRuns
import L4ertl.System.RoundRobin
import L4ertl.Core.HeapQueue
import L4ertl.Lib.Service
import L4ertl.Core.TimerService
import L4ertl.Core.PeriodicTimers
import L4ertl.Core.CpuTime
import L4ertl.System.JoinKept
import L4ertl.System.JoinRendezvous
import L4ertl.Lib.Ledger
import L4ertl.System.ThreadMemory
import L4ertl.System.CondWakeups
import L4ertl.Core.SignalDelivery
import L4ertl.Core.SignalWait
import L4ertl.Core.Sleeping
import L4ertl.System.Detaching
import L4ertl.Core.LiveTimers
import L4ertl.Core.RecursiveMutex
import L4ertl.System.WakeOrder
import L4ertl.System.TimedWait
import L4ertl.System.SemTimedwait
import L4ertl.System.CondTimedwait
import L4ertl.Core.TlsfSearch
import L4ertl.Core.TlsfRequests
import L4ertl.Core.TlsfRealloc
import L4ertl.Core.FailedCreate
import L4ertl.Core.SchedParams
import L4ertl.Core.ThreadKeys
import L4ertl.Core.Cleanup
import L4ertl.Core.TimerReports
import L4ertl.Core.Durations
import L4ertl.Core.Paths
import L4ertl.Core.Files
import L4ertl.Core.RootTree
import L4ertl.Core.Mkroot
import L4ertl.Lib.StreamReads
import L4ertl.Core.FileReads
import L4ertl.Core.SequentialReads
import L4ertl.Core.FileTable
import L4ertl.Core.DriverErrors
import L4ertl.Lib.Gregorian
import L4ertl.Libc.Calendar
import L4ertl.Lib.Numerals
import L4ertl.Libc.Strtol
import L4ertl.Libc.Subject
import L4ertl.Libc.Atoi
import L4ertl.Libc.Printf
import L4ertl.Libc.PrintOut
import L4ertl.Libc.LongSpec
import L4ertl.Libc.Vsprintf
import L4ertl.Libc.Stdio
import L4ertl.Arch.ContextFrame
import L4ertl.Core.WaitLists
import L4ertl.Core.TlsfClasses
import L4ertl.Lib.Scan
import L4ertl.Core.Cbitmap
import L4ertl.Core.CbitmapSearch
import L4ertl.Core.CbitmapWalk
import L4ertl.Lib.Ceilings
import L4ertl.Lib.LockOrder
import L4ertl.System.LockHistory
import L4ertl.System.CeilingMoves
import L4ertl.System.CeilingsHeld
import L4ertl.System.CeilingProtocol
import L4ertl.System.OrderedLocks
import L4ertl.Libc.Scanf
import L4ertl.Libc.ScanLong
import L4ertl.Libc.PrintScan
import L4ertl.System.IrqLines
import L4ertl.Lib.Descriptors
import L4ertl.Core.FileService
import L4ertl.Lib.Fields
import L4ertl.Lib.Strings
import L4ertl.Libc.CString
import L4ertl.Libc.Strtok
import L4ertl.Libc.Memmove
import L4ertl.Libc.Compare
import L4ertl.Libc.StringBuild
import L4ertl.Libc.Libgen
import L4ertl.System.SignalLedger
import L4ertl.System.SignalHandlers
import L4ertl.System.DividedCalls
import L4ertl.System.DividedOrder
import L4ertl.System.DividedRuns
import L4ertl.System.JoinWindow
import L4ertl.System.JoinAside
import L4ertl.System.JoinMeets
import L4ertl.System.JoinDivided
import L4ertl.System.JoinReturns
