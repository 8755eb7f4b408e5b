import ZHyper.Heap.Requests
import ZHyper.Sched.Switch
import ZHyper.Exception.Switch
import ZHyper.Timer.Count
import ZHyper.Sched.Context
import ZHyper.Sync.RunOnce
import ZHyper.Gic.Irq
import ZHyper.Gic.Init
import ZHyper.Exception.Transparent
import ZHyper.Sched.Idle
import ZHyper.Heap.DoubleFree
import ZHyper.Heap.Sizes
import ZHyper.Gic.Wait
import ZHyper.Gic.Quiesce
import ZHyper.Gic.Enable
import ZHyper.Timer.StartSteps
import ZHyper.Timer.HeapIrq
import ZHyper.Libc.Compare
import ZHyper.Libc.Search
import ZHyper.Libc.Build
import ZHyper.Libc.FormatEnd
import ZHyper.Libc.ZeroPad
import ZHyper.Timer.Early
import ZHyper.Libc.Rand
import ZHyper.Exception.Syndrome
import ZHyper.Gic.Typer
import ZHyper.Gic.BringUp
import ZHyper.Lists
import ZHyper.Sync.Atomic
import ZHyper.Console.Output
import ZHyper.Lib.Exclusive
import ZHyper.Lib.Linearizable
import ZHyper.Lib.FifoLock
import ZHyper.Sync.Counters
import ZHyper.Sync.TicketRuns
import ZHyper.Sync.RwLock
import ZHyper.Sync.OnceOnLock
import ZHyper.Lib.StateProg
import ZHyper.Heap.StressRuns
import ZHyper.Driver.Pl011Runs
import ZHyper.Exception.Dump
import ZHyper.Platform.Heartbeat
