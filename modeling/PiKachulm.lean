import PiKachulm.Core.Loop
import PiKachulm.Core.History
import PiKachulm.Core.Slot
import PiKachulm.Core.Radix
import PiKachulm.Libk.Utils
import PiKachulm.Mmu.Entry
import PiKachulm.Mmu.Table
import PiKachulm.Mmu.Operations
import PiKachulm.Mmu.Tree
import PiKachulm.Mmu.Walk
import PiKachulm.Mmu.TreeMap
import PiKachulm.Mmu.TreeUnmap
import PiKachulm.Mmu.TreeChange
import PiKachulm.Mmu.Rep
import PiKachulm.Mmu.Refine
import PiKachulm.Mmu.View
import PiKachulm.Mmu.UnmapRange
import PiKachulm.Mmu.MapRange
import PiKachulm.Mmu.ChangeRange
import PiKachulm.Core.Path
import PiKachulm.Mmu.Runs
import PiKachulm.Mmu.Blocks
import PiKachulm.Core.Accounts
import PiKachulm.Mmu.TreePages
import PiKachulm.Mmu.Pages
import PiKachulm.Core.OrTree
import PiKachulm.Libk.BitArray
import PiKachulm.Memory.PageAlloc
import PiKachulm.Memory.ContiguousPageAlloc
import PiKachulm.Memory.KernelInternalMemory
import PiKachulm.Core.BlockList
import PiKachulm.Memory.HeapManager
import PiKachulm.Memory.MemAlloc
import PiKachulm.Memory.MemAllocBlocks
import PiKachulm.Memory.KernelHeap
import PiKachulm.Memory.KernelHeapReuse
import PiKachulm.Boot.MemoryReg
import PiKachulm.Boot.Partition
import PiKachulm.Boot.Reservation
import PiKachulm.Core.Queues
import PiKachulm.Tasks.DeltaQueue
import PiKachulm.Tasks.Scheduler
import PiKachulm.Tasks.TaskManager
import PiKachulm.Tasks.Places
import PiKachulm.Tasks.RunQueue
import PiKachulm.Tasks.Tick
import PiKachulm.Tasks.Effects
import PiKachulm.Tasks.Kill
import PiKachulm.Tasks.Sleep
import PiKachulm.Hardware.Regs
import PiKachulm.Hardware.Interrupts
import PiKachulm.Hardware.ContextSwitch
import PiKachulm.Memory.ProcessMemory
import PiKachulm.Tasks.Ownership
import PiKachulm.Core.Ring
import PiKachulm.Tasks.Pipe
import PiKachulm.Tasks.PipeWait
import PiKachulm.Core.Tiling
import PiKachulm.Wm.Geometry
import PiKachulm.Wm.DrawWindows
import PiKachulm.Memory.PageMapping
import PiKachulm.Memory.ProcessHeap
import PiKachulm.Core.Bytes
import PiKachulm.Memory.MemoryChunk
import PiKachulm.Syscalls.Spawn
import PiKachulm.Loader.Elf
import PiKachulm.Loader.CreateTask
import PiKachulm.Mmu.OnePage
import PiKachulm.Memory.PageTables
import PiKachulm.Loader.Image
import PiKachulm.Syscalls.Pipes
import PiKachulm.Core.Program
import PiKachulm.Syscalls.Kernel
import PiKachulm.Syscalls.Handlers
import PiKachulm.Syscalls.Refusal
import PiKachulm.Memory.ChangeHeapEnd
import PiKachulm.Core.Raster
import PiKachulm.Graphics.Painter
import PiKachulm.Core.Machine
import PiKachulm.Wm.Focus
import PiKachulm.Libk.LinkedList
import PiKachulm.Tasks.Teardown
import PiKachulm.DeviceTree.Parser
import PiKachulm.DeviceTree.Encoding
import PiKachulm.DeviceTree.Traversal
import PiKachulm.DeviceTree.Lookup
import PiKachulm.Libk.Format
import PiKachulm.Core.Agenda
import PiKachulm.Tasks.Deadlines
import PiKachulm.Tasks.WaitList
import PiKachulm.Tasks.SleepTime
import PiKachulm.Memory.HeapTeardown
import PiKachulm.Memory.KernelHeapRoom
import PiKachulm.Memory.Krealloc
import PiKachulm.Memory.PagesSection
import PiKachulm.Memory.MapChunk
import PiKachulm.Memory.Grants
import PiKachulm.Mmu.ChangePage
import PiKachulm.Syscalls.Creation
import PiKachulm.Wm.Shown
import PiKachulm.Syscalls.Wrappers
import PiKachulm.Syscalls.Agreement
import PiKachulm.Wm.RectAlgebra
import PiKachulm.Wm.Click
import PiKachulm.Wm.Mosaic
import PiKachulm.Wm.Cursor
import PiKachulm.Graphics.FillRect
import PiKachulm.Graphics.Line
import PiKachulm.Graphics.Blend
import PiKachulm.DeviceTree.ReservedSections
import PiKachulm.Libk.FormatBuffer
import PiKachulm.Libk.RoundTrip
import PiKachulm.Core.Packed
import PiKachulm.Libk.Memmove
import PiKachulm.Wm.MessageQueue
import PiKachulm.Wm.Screen
import PiKachulm.Wm.Frame
import PiKachulm.Wm.Repaint
import PiKachulm.DeviceTree.PropertyValue
import PiKachulm.Libk.Comparison
import PiKachulm.Boot.Ranges
import PiKachulm.Hardware.BusAddress
import PiKachulm.Hardware.SystemTimer
import PiKachulm.Hardware.ElapsedTime
import PiKachulm.Hardware.IrqManager
import PiKachulm.Hardware.Ps2Receiver
import PiKachulm.Hardware.Ps2Decoder
import PiKachulm.Input.KeyboardSystem
import PiKachulm.Mmu.Heights
import PiKachulm.Boot.DeviceMapping
import PiKachulm.Core.Chain
import PiKachulm.Libk.Sequence
import PiKachulm.Libk.SequenceRuns
import PiKachulm.Libk.ReverseIterator
import PiKachulm.Libk.SharedPointer
import PiKachulm.Core.Shares
import PiKachulm.Tulip.BoxLayout
import PiKachulm.Tulip.Widgets
import PiKachulm.Tulip.WidgetTree
import PiKachulm.Wm.Requests
import PiKachulm.Wm.RenderingPaths
import PiKachulm.Core.Bits
import PiKachulm.Fs.FatTable
import PiKachulm.Core.Lockstep
import PiKachulm.Fs.FileRead
import PiKachulm.Fs.StoredFile
import PiKachulm.Fs.Confinement
import PiKachulm.Fs.Mount
import PiKachulm.Input.UartProtocol
import PiKachulm.Tasks.BoundedWaiting
import PiKachulm.Fs.DirEntry
import PiKachulm.Fs.Directory
import PiKachulm.Fs.DirTable
import PiKachulm.Fs.Listing
import PiKachulm.Fs.CreateName
import PiKachulm.Fs.PathName
import PiKachulm.Fs.FollowPath
import PiKachulm.Fs.ShortName
import PiKachulm.Fs.FindName
import PiKachulm.Fs.OpenPath
