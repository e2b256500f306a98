import NodeLkl.Base.Store
import NodeLkl.Base.Js
import NodeLkl.Disk.Block
import NodeLkl.Disk.Status
import NodeLkl.Base.System
import NodeLkl.Disk.Registry
import NodeLkl.Base.Mailbox
import NodeLkl.Loop.Requests
import NodeLkl.Loop.Worker
import NodeLkl.Lkl.Operations
import NodeLkl.Lkl.Queue
import NodeLkl.Lkl.Mounts
import NodeLkl.Base.EventLoop
import NodeLkl.Fs.Structs
import NodeLkl.Loop.Halt
import NodeLkl.Fs.Calls
import NodeLkl.Fs.Spec
import NodeLkl.Fs.Simple
import NodeLkl.Fs.WriteFile
import NodeLkl.Fs.Readdir
import NodeLkl.Fs.ReadFile
import NodeLkl.Fs.Answers
import NodeLkl.Fs.Completion
import NodeLkl.Fs.Listing
import NodeLkl.Fs.Stat
import NodeLkl.Lkl.Strings
import NodeLkl.Base.Environment
import NodeLkl.Base.File
import NodeLkl.Fs.Files
import NodeLkl.Fs.Stored
import NodeLkl.Fs.Contents
import NodeLkl.Stream.Handle
import NodeLkl.Base.Regions
import NodeLkl.Stream.ReadStream
import NodeLkl.Stream.Range
import NodeLkl.Stream.WriteStream
import NodeLkl.Base.Bounded
import NodeLkl.Fs.Sync
import NodeLkl.Fs.Untouched
import NodeLkl.Base.Links
import NodeLkl.Base.Ring
import NodeLkl.Virtio.Device
import NodeLkl.Virtio.Driver
import NodeLkl.Base.Service
import NodeLkl.Virtio.Queue
import NodeLkl.Virtio.Progress
import NodeLkl.Virtio.Blk
import NodeLkl.Arch.Cpu
import NodeLkl.Arch.Baton
import NodeLkl.Arch.Gate
import NodeLkl.Arch.Shutdown
import NodeLkl.Arch.Irq
import NodeLkl.Arch.Deferred
import NodeLkl.Virtio.Mmio
import NodeLkl.Virtio.Iomem
