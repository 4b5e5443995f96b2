import Pintos.Lib.HashIteration
import Pintos.Lib.OrderedQueue
import Pintos.Lib.Arithmetic
import Pintos.Lib.HeapSort
import Pintos.Lib.Tokenizer
import Pintos.Filesys.FreeMapFile
import Pintos.Filesys.WriteLimits
import Pintos.Filesys.Fsutil
import Pintos.Filesys.FullDisk
import Pintos.Filesys.Persistence
import Pintos.Filesys.ConcurrentGrowth
import Pintos.Threads.SemaphoreRuns
import Pintos.Threads.NestedDonation
import Pintos.Threads.ReleasePriority
import Pintos.Threads.WakeOrder
import Pintos.Threads.SetPriority
import Pintos.Threads.Preemption
import Pintos.Threads.CondSignal
import Pintos.Threads.PallocRuns
import Pintos.Threads.BlockSizes
import Pintos.Userprog.ChildRecord
import Pintos.Userprog.WaitStatus
import Pintos.Userprog.ThreadExit
import Pintos.Userprog.ProgramFiles
import Pintos.Userprog.Execute
import Pintos.Userprog.ReadOnlyPages
import Pintos.Devices.BlockDevices
import Pintos.Devices.IdeChannel
import Pintos.Devices.InterruptQueue
import Pintos.Devices.Timer
import Pintos.Threads.ParseOptions
