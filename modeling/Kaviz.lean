import Kaviz.Lib.Bytes
import Kaviz.Lib.Radix
import Kaviz.Lib.Runs
import Kaviz.Lib.Traces
import Kaviz.Lib.Progress
import Kaviz.Lib.Ring
import Kaviz.Lib.Ledger
import Kaviz.Lib.Calls
import Kaviz.Lib.Orbit
import Kaviz.Paging.Tables
import Kaviz.Paging.Translation
import Kaviz.Paging.Refinement
import Kaviz.Memory.Machine
import Kaviz.Memory.State
import Kaviz.Memory.Effects
import Kaviz.Memory.Flat
import Kaviz.Heap.Alloc
import Kaviz.Heap.Blocks
import Kaviz.Heap.Layout
import Kaviz.Heap.Operations
import Kaviz.Heap.Refinement
import Kaviz.Heap.Clients
import Kaviz.Heap.Safety
import Kaviz.Paging.Pool
import Kaviz.Memory.Physical
import Kaviz.Heap.Ownership
import Kaviz.Heap.Canonical
import Kaviz.Heap.Reachable
import Kaviz.Heap.Reuse
import Kaviz.Heap.DoubleFree
import Kaviz.Fat.Volume
import Kaviz.Fat.Reads
import Kaviz.Fat.Sequential
import Kaviz.Fat.Seek
import Kaviz.Fat.Mount
import Kaviz.Fat.Open
import Kaviz.Fat.Directory
import Kaviz.Fat.Endless
import Kaviz.Fat.Names
import Kaviz.Fat.Attributes
import Kaviz.Fat.Layout
import Kaviz.Fat.Bounds
import Kaviz.Fat.Arithmetic
import Kaviz.Fat.Accesses
import Kaviz.Fat.Image
import Kaviz.Fat.Faults
import Kaviz.Fat.RootArea
import Kaviz.Elf.Loader
import Kaviz.Elf.Image
import Kaviz.Elf.Segments
import Kaviz.Elf.Fidelity
import Kaviz.Sched.Tasks
import Kaviz.Sched.Search
import Kaviz.Sched.Rounds
import Kaviz.Sched.Choice
import Kaviz.Sched.Countdown
import Kaviz.Sched.Sleep
import Kaviz.Sched.Contexts
import Kaviz.Sched.Waiting
import Kaviz.Sched.Timer
import Kaviz.Sched.TickWait
import Kaviz.Paging.Tlb
import Kaviz.Paging.Permissions
import Kaviz.Paging.Accounting
import Kaviz.Paging.Placement
import Kaviz.Paging.Slot
import Kaviz.Kernel.Calls
import Kaviz.Kernel.Growth
import Kaviz.Kernel.Stacks
import Kaviz.Kernel.Creation
import Kaviz.Kernel.Frames
import Kaviz.Kernel.Privilege
import Kaviz.Kernel.ProcessTable
import Kaviz.Kernel.Children
import Kaviz.Kernel.HeapFailure
import Kaviz.Kernel.HeapSizes
import Kaviz.Kernel.HeapRoom
import Kaviz.Kernel.HeapLimit
import Kaviz.Kernel.Regions
import Kaviz.Elf.Phases
import Kaviz.Elf.Isolation
import Kaviz.Elf.Resources
import Kaviz.Elf.Records
import Kaviz.Elf.Buffers
import Kaviz.Lib.X86
import Kaviz.Lib.Stack
import Kaviz.Switch.Routines
import Kaviz.Switch.Blocks
import Kaviz.Switch.Resume
import Kaviz.Switch.Layout
import Kaviz.Switch.Frame
import Kaviz.Entry.Syscall
import Kaviz.Entry.Interrupts
import Kaviz.Entry.Idt
import Kaviz.Entry.Segments
import Kaviz.Entry.Dispatch
import Kaviz.Boot.Handover
import Kaviz.Boot.MemoryDetection
import Kaviz.Boot.PagingSetup
import Kaviz.Boot.Startup
import Kaviz.Memory.Pmm
import Kaviz.Drivers.Keyboard
import Kaviz.Drivers.Console
import Kaviz.Drivers.Echo
import Kaviz.Drivers.Ata
import Kaviz.Drivers.Channel
import Kaviz.Drivers.Handshake
import Kaviz.Drivers.Ioapic
import Kaviz.Drivers.Controllers
