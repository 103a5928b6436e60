import ACoral.Proofs.Pending.Kill
import ACoral.Proofs.SmpReady
import ACoral.Proofs.Preempt
import ACoral.Proofs.IpiMailbox
import ACoral.Proofs.ResPool.IpcObjects
import ACoral.Proofs.ResPool.FreePools
import ACoral.Proofs.Buddy.Recovery
import ACoral.Proofs.ReadyArray
import ACoral.Proofs.Ceiling.Restore
import ACoral.Proofs.Ceiling.MpcpQueue
import ACoral.Proofs.Ceiling.MpcpGlobal
import ACoral.Proofs.Ceiling.SelfQueue
import ACoral.Proofs.Ceiling.DpcpWakeup
import ACoral.Proofs.Ceiling.DpcpLocal
import ACoral.Proofs.PrioWakeup
import ACoral.Proofs.SemaphoreBound
import ACoral.Proofs.Semaphore
import ACoral.Proofs.MutexTrace
import ACoral.Proofs.Mutex
import ACoral.Proofs.TimerIsolation
import ACoral.Proofs.VolFree
import ACoral.Proofs.VolMem
import ACoral.Proofs.Critical.Run
import ACoral.Proofs.RingBuffer
import ACoral.Proofs.PeriodThrd
import ACoral.Proofs.Reclaim.Run
import ACoral.Proofs.Dag
import ACoral.Proofs.TimedThrd
import ACoral.Proofs.TimedOverrun
import ACoral.Proofs.UsrVspace
import ACoral.Proofs.SemaphoreUnits
import ACoral.Proofs.Buddy.Rounding
import ACoral.Proofs.VolLock
import ACoral.Proofs.Ceiling.DpcpRetype
import ACoral.Proofs.Reclaim.Sweep
import ACoral.Proofs.Migration
import ACoral.Proofs.Buddy.Layout
import ACoral.Proofs.TimedMerge
import ACoral.Proofs.Admission.Response
import ACoral.Kernel.AdmisTask
import ACoral.Proofs.Admission.Resources
import ACoral.Proofs.Admission.Task
import ACoral.Proofs.Admission.Defect
import ACoral.Proofs.TickInsert
import ACoral.Proofs.DelayTicks
import ACoral.Proofs.RingBufferBulk
import ACoral.Proofs.ResPool.CreateFail
import ACoral.Proofs.ResPool.Collect
import ACoral.Kernel.Monitor
import ACoral.Proofs.Monitor
import ACoral.Kernel.TimedDecode
import ACoral.Proofs.TimedDecode
import ACoral.Kernel.TimedTable
import ACoral.Proofs.TimedTable
import ACoral.Proofs.ResPool.Table
import ACoral.Kernel.ThreadCreate
import ACoral.Proofs.ThreadCreate
import ACoral.Kernel.IntrSystem
import ACoral.Proofs.IntrExit
import ACoral.Proofs.Critical.Alone
import ACoral.Proofs.ListHeap
import ACoral.Proofs.PrioQueue
import ACoral.Proofs.Buddy.FreeWords
import ACoral.Proofs.StrNicmp
import ACoral.Proofs.UsrAlloc
import ACoral.Proofs.PageTable
import ACoral.Proofs.CmdBounds
import ACoral.Proofs.CmdQuoting
import ACoral.Proofs.ShellEditor
import ACoral.Proofs.ShellHistory
import ACoral.Kernel.CdDir
import ACoral.Proofs.CdDir
import ACoral.Lib.Base128
import ACoral.Kernel.PbCommon
import ACoral.Kernel.PbEncode
import ACoral.Kernel.PbDecode
import ACoral.Proofs.PbVarint
import ACoral.Proofs.PbFields
import ACoral.Lib.Reader
import ACoral.Proofs.PbRecords
import ACoral.Proofs.PbMessage
import ACoral.Lib.Rounds
import ACoral.Kernel.DagTask
import ACoral.Lib.Gates
import ACoral.Proofs.DagTask.Release
import ACoral.Proofs.DagTask.Semaphores
import ACoral.Proofs.DagTask.Order
import ACoral.Proofs.DagTask.Progress
import ACoral.Proofs.DagTask.Decode
