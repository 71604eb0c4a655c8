import Uzi.Lib.Exec
import Uzi.Lib.WriteBack
import Uzi.Lib.ChainStack
import Uzi.Lib.BlockTree
import Uzi.Lib.Descent
import Uzi.Lib.Ring
import Uzi.Lib.RefCount
import Uzi.Lib.Relational
import Uzi.Lib.ParentTree
import Uzi.Lib.Accounts
import Uzi.Lib.Interrupts
import Uzi.Lib.NameTree
import Uzi.Lib.Rounds
import Uzi.Lib.Memory
import Uzi.Lib.FlatFile
import Uzi.Unix
import Uzi.Kernel
import Uzi.Process
import Uzi.Ppu.Databuf
import Uzi.Drivers.Ppuwd
import Uzi.Drivers.PpuStream
import Uzi.Drivers.PpuBudget
import Uzi.Drivers.PpuCode
import Uzi.Drivers.Console
import Uzi.Drivers.PpuHandshake
import Uzi.Drivers.ConsoleRuns
import Uzi.Drivers.PpuMemory
import Uzi.Drivers.Picture
import Uzi.Drivers.PpuDisk
import Uzi.Drivers.AddressMap
import Uzi.Drivers.PpuEnds
import Uzi.Drivers.MemoryRuns
import Uzi.Drivers.Kprintf
import Uzi.Drivers.Queue
import Uzi.Drivers.Devio
import Uzi.Drivers.BufCache
import Uzi.Drivers.Transparency
import Uzi.Drivers.Misses
import Uzi.Drivers.View
import Uzi.Fs.Blocks
import Uzi.Fs.FreeList
import Uzi.Utils.Mkfs
import Uzi.Utils.LsTime
import Uzi.Utils.Fsck
import Uzi.Utils.FsckBlocks
import Uzi.Utils.FsckFree
import Uzi.Utils.FsckTrace
import Uzi.Utils.FsckEnds
import Uzi.Utils.FsckMaps
import Uzi.Utils.FsckInside
import Uzi.Utils.FsckPaths
import Uzi.Utils.FsckBounds
import Uzi.Utils.FsckLinks
import Uzi.Utils.FsckCounts
import Uzi.Fs.FreeListRuns
import Uzi.Fs.Ownership
import Uzi.Fs.Inodes
import Uzi.Fs.OwnershipRuns
import Uzi.Fs.BlockMap
import Uzi.Fs.Rw
import Uzi.Fs.Path
import Uzi.Fs.Files
import Uzi.Fs.Footprint
import Uzi.Fs.Links
import Uzi.Fs.LeftError
import Uzi.Fs.PathRefs
import Uzi.Fs.OpenFiles
import Uzi.Fs.FileRuns
import Uzi.Sched.Process
import Uzi.Sched.Machine
import Uzi.Sched.Table
import Uzi.Sched.Exit
import Uzi.Sched.Fork
import Uzi.Sched.TableRuns
import Uzi.Sched.Signals
import Uzi.Sched.SignalRuns
import Uzi.Sched.Times
import Uzi.Sched.TimeRuns
import Uzi.Sched.Wait
import Uzi.Sched.WaitRuns
import Uzi.Sched.Sleepers
import Uzi.Sched.PipeRuns
import Uzi.Sched.PipeWriters
import Uzi.Sched.Delivery
import Uzi.Sched.Clock
import Uzi.Sched.RoundRobin
import Uzi.Sched.ForkFiles
import Uzi.Fs.Offset
import Uzi.Fs.Seek
import Uzi.Fs.Transfers
import Uzi.Fs.PipeIO
import Uzi.Fs.FileData
import Uzi.Fs.FileRounds
import Uzi.Fs.WriteCount
import Uzi.Fs.FlatWrites
import Uzi.Fs.FlatReads
import Uzi.Fs.FlatFiles
import Uzi.Fs.Directory
import Uzi.Fs.ChLink
import Uzi.Fs.InodeTable
import Uzi.Fs.InodeOpen
import Uzi.Fs.InodeRuns
import Uzi.Fs.DeviceFiles
import Uzi.Fs.NewPipe
import Uzi.Fs.Resolve
import Uzi.Fs.PathSearch
import Uzi.Fs.PathWalk
import Uzi.Fs.Sessions
import Uzi.Fs.Names
import Uzi.Fs.PathFrame
import Uzi.Fs.Mount
import Uzi.Exec.Args
import Uzi.Exec.UserBuffer
import Uzi.Fs.InodeRefs
import Uzi.Fs.CallRefs
import Uzi.Fs.RefRuns
import Uzi.Lib.Dictionary
import Uzi.Fs.Volumes
import Uzi.Fs.Boot
import Uzi.Fs.VolumeRuns
import Uzi.Exec.Image
import Uzi.Exec.Trampoline
import Uzi.Utils.MkfsImage
