import Cottage.Acpi.MadtSafety
import Cottage.Elf.LoadImage
import Cottage.Fs.DotEntries
import Cottage.Fs.MountRuns
import Cottage.Fs.PathBuffer
import Cottage.Fs.ResourceRefs
import Cottage.Fs.Symlink
import Cottage.Fs.TmpfsCapacity
import Cottage.Initramfs.Boot
import Cottage.Interrupt.IoApic
import Cottage.Klog.Drain
import Cottage.Klog.Interrupt
import Cottage.Laihost.Reach
import Cottage.Mem.DeletePagemap
import Cottage.Mem.PmmBitmap
import Cottage.Mem.RangeStorage
import Cottage.Net.E1000
import Cottage.Net.EchoReply
import Cottage.Net.EphemeralPort
import Cottage.Net.Lan
import Cottage.Net.PendingOrder
import Cottage.Net.PortTableSafety
import Cottage.Net.ReceiveConsumer
import Cottage.Net.SocketQueueRuns
import Cottage.Pci.Bar
import Cottage.Pci.Capability
import Cottage.Random.Permutation
import Cottage.Scheduler.NextThread
import Cottage.Scheduler.RunQueueIntegrity
import Cottage.Scheduler.SelfBlock
import Cottage.Scheduler.ThreadTable
import Cottage.Scheduler.Wakeup
import Cottage.Scheduler.WorkingCpus
import Cottage.Scheduler.YieldAwait
import Cottage.Stdlib.PrintfCorrect
import Cottage.Stdlib.PrintfNumbers
import Cottage.Time.Counters
import Cottage.Time.Timers
import Cottage.Userland.InitialStack
import Cottage.Userland.Shebang
