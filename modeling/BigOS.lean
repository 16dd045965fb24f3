import BigOS.Mm.Buddy.RoundTrip
import BigOS.Mm.Buddy.BootMap
import BigOS.Mm.Vmem.Accounting
import BigOS.Mm.Paging.Lifecycle
import BigOS.Ipc.Pipe.Eof
import BigOS.BlockIo.Lifecycle
import BigOS.Fs.Journal.Atomicity
import BigOS.Fs.Bigfs.Fsync
import BigOS.Fs.OpenFiles
import BigOS.Fs.Bigfs.WriteSet
import BigOS.Proc.Protection
import BigOS.Proc.Anonymous
import BigOS.Net.Close
import BigOS.Net.Fin
import BigOS.Net.Rtt
import BigOS.Proc.PollWait
import BigOS.Irq.Dispatch
import BigOS.Proc.Descriptors
import BigOS.Terminal.Tty
import BigOS.Smp.Startup
import BigOS.Time.Civil
import BigOS.Shell.Output
