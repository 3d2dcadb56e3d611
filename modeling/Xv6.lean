import Xv6.Log.Crash
import Xv6.Proc.Waiting
import Xv6.Proc.Reaping
import Xv6.Proc.Kill
import Xv6.Proc.Tree
import Xv6.Spinlock
import Xv6.Pipe
import Xv6.Ide
import Xv6.SysFile
import Xv6.Fs.FileRefs
import Xv6.Fs.Paths
import Xv6.Fs.Bitmap
import Xv6.Fs.Writers
import Xv6.Mkfs.WellFormed
import Xv6.Vm.Copyuvm
import Xv6.Console
import Xv6.Sh.Nodes
import Xv6.Proc.Status
import Xv6.Transfer
import Xv6.Grep.Regex
import Xv6.Memmove
import Xv6.Mp
import Xv6.Umalloc.Client
import Xv6.Printf
import Xv6.Proc.Scheduler
