import RvvmHal.Foundations.Word
import RvvmHal.Foundations.Bytes
import RvvmHal.Foundations.CString
import RvvmHal.Foundations.Machine
import RvvmHal.Foundations.Loop
import RvvmHal.Foundations.Cyclic
import RvvmHal.Foundations.CyclicOrder
import RvvmHal.Foundations.Threaded
import RvvmHal.Foundations.Raster
import RvvmHal.Foundations.RingBuffer
import RvvmHal.Foundations.Hold
import RvvmHal.Foundations.EachStep
import RvvmHal.Foundations.DepthFirst
import RvvmHal.Foundations.Chain
import RvvmHal.Foundations.Descent
import RvvmHal.Foundations.Replay
import RvvmHal.Foundations.Reserved
import RvvmHal.Foundations.Memory64
import RvvmHal.Foundations.Riscv
import RvvmHal.Nvme.Entry
import RvvmHal.Nvme.Prp
import RvvmHal.Nvme.PrpDecode
import RvvmHal.Nvme.Queue
import RvvmHal.Nvme.Disk
import RvvmHal.Nvme.Command
import RvvmHal.Nvme.Block
import RvvmHal.Nvme.Matching
import RvvmHal.Eth.Desc
import RvvmHal.Eth.Rx
import RvvmHal.Eth.Preempt
import RvvmHal.Eth.Tx
import RvvmHal.Eth.Drain
import RvvmHal.DeviceTree.Blob
import RvvmHal.DeviceTree.Walk
import RvvmHal.DeviceTree.Tree
import RvvmHal.DeviceTree.Lookup
import RvvmHal.DeviceTree.Progress
import RvvmHal.DeviceTree.Termination
import RvvmHal.DeviceTree.Copies
import RvvmHal.DeviceTree.Iteration
import RvvmHal.Virtio.Virtq
import RvvmHal.Virtio.FreeList
import RvvmHal.Virtio.Ring
import RvvmHal.Virtio.GpuCommand
import RvvmHal.Virtio.GpuDriver
import RvvmHal.Virtio.GpuReply
import RvvmHal.Virtio.GpuHost
import RvvmHal.Virtio.Input
import RvvmHal.Virtio.InputEvents
import RvvmHal.Virtio.InputIds
import RvvmHal.Input.Hid
import RvvmHal.Input.Transitions
import RvvmHal.Pci.Scan
import RvvmHal.Pci.Enumerate
import RvvmHal.Pci.Termination
import RvvmHal.Pci.Capability
import RvvmHal.Pci.Msi
import RvvmHal.Graphics.Surface
import RvvmHal.Graphics.Init
import RvvmHal.Graphics.Display
import RvvmHal.Graphics.Outcome
import RvvmHal.Graphics.PageFlip
import RvvmHal.Graphics.Painting
import RvvmHal.Graphics.Text
import RvvmHal.Menu.Render
import RvvmHal.Menu.Shown
import RvvmHal.Menu.Navigation
import RvvmHal.Audio.Hda
import RvvmHal.Audio.Verbs
import RvvmHal.Audio.Pcm
import RvvmHal.Audio.Bdl
import RvvmHal.Audio.Edge
import RvvmHal.Audio.EdgeLevel
import RvvmHal.Smp.Dispatch
import RvvmHal.Smp.Handshake
import RvvmHal.Smp.Wake
import RvvmHal.Smp.Bringup
import RvvmHal.Smp.Atomic
import RvvmHal.Smp.Mutex
import RvvmHal.Trap.Entry
import RvvmHal.Trap.Irq
import RvvmHal.Trap.Registration
import RvvmHal.Trap.Wait
import RvvmHal.Trap.Plic
import RvvmHal.Uart.Printf
import RvvmHal.Panic.Dump
import RvvmHal.Panic.Guard
import RvvmHal.Strings.Assembly
import RvvmHal.Strings.Memmove
import RvvmHal.Strings.MemmoveC
import RvvmHal.Strings.Memset
import RvvmHal.I2c.Transaction
import RvvmHal.Fatfs.Timestamp
import RvvmHal.Fatfs.Ordering
import RvvmHal.Menu.Keys
import RvvmHal.Menu.Safety
import RvvmHal.Menu.Picker
import RvvmHal.Graphics.TextGrid
import RvvmHal.Boot.Stacks
import RvvmHal.Panic.Backtrace
import RvvmHal.Graphics.TextExact
import RvvmHal.DeviceTree.Reg
import RvvmHal.Foundations.Decimal
import RvvmHal.Uart.Decimal
import RvvmHal.DeviceTree.Missing
import RvvmHal.Flash.Cfi
import RvvmHal.Flash.Probe
import RvvmHal.FwCfg.Directory
import RvvmHal.Fatfs.Chain
import RvvmHal.Fatfs.Files
import RvvmHal.Fatfs.Copies
import RvvmHal.Fatfs.Mount
import RvvmHal.Fatfs.NvmeDrive
import RvvmHal.Fatfs.Remount
import RvvmHal.Fatfs.Fil
import RvvmHal.Fatfs.FilOk
import RvvmHal.Fatfs.FilRead
import RvvmHal.Fatfs.FilSeek
import RvvmHal.Fatfs.FilSync
import RvvmHal.Fatfs.FileBytes
import RvvmHal.Nvme.Admin
import RvvmHal.Nvme.Bringup
