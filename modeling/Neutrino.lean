import Neutrino.Lib.ByteMemory
import Neutrino.Lib.Run
import Neutrino.Memory.Alloc
import Neutrino.Memory.AllocSpec
import Neutrino.Memory.HeapRun
import Neutrino.Memory.BlockList
import Neutrino.Memory.Tiling
import Neutrino.Memory.MemoryInit
import Neutrino.Memory.Reuse
import Neutrino.Memory.Coverage
import Neutrino.Lib.PortMachine
import Neutrino.System.Ports
import Neutrino.Drivers.Ata
import Neutrino.Drivers.IdealDrive
import Neutrino.Drivers.WriteThenRead
import Neutrino.Lib.BoundedWrite
import Neutrino.Stdio.FormatInt
import Neutrino.Stdio.RenderInt
import Neutrino.Stdio.Vsnprintf
import Neutrino.Stdio.Render
import Neutrino.Stdio.Refinement
import Neutrino.Stdio.Truncation
import Neutrino.Stdio.Compositional
import Neutrino.Lib.SlotTable
import Neutrino.System.Device
import Neutrino.System.Multithreading
import Neutrino.System.SchedulerSafety
import Neutrino.Drivers.Timer
import Neutrino.System.RoundRobin
import Neutrino.System.TaskLookup
import Neutrino.System.TaskCounters
import Neutrino.Drivers.Keyboard
import Neutrino.System.Irq
import Neutrino.Lib.I386
import Neutrino.System.InterruptStubs
import Neutrino.Drivers.FontBitmap
import Neutrino.Drivers.Vga
import Neutrino.Lib.TextGrid
import Neutrino.Drivers.TextConsole
import Neutrino.Drivers.ConsoleBounds
import Neutrino.Drivers.VgaPixels
import Neutrino.Drivers.ConsoleGlyphs
import Neutrino.Containers.Stack
import Neutrino.Lib.Numerals
import Neutrino.Stdio.IntegerFormat
import Neutrino.Stdio.IntegerValue
import Neutrino.Stdio.ScanTermination
import Neutrino.Stdio.StringReads
import Neutrino.Memory.Accounting
import Neutrino.Memory.RegionBounds
import Neutrino.Memory.BackLinks
import Neutrino.Memory.SplitMerge
import Neutrino.System.SlotSearch
import Neutrino.System.TaskRefinement
import Neutrino.Algorithms.BinarySearch
import Neutrino.Containers.StackBounds
import Neutrino.Drivers.TaskFile
import Neutrino.Lib.PortWatch
import Neutrino.Drivers.StatusPoll
import Neutrino.Drivers.Identify
import Neutrino.Drivers.FillRect
import Neutrino.Lib.Blend
import Neutrino.Drivers.FillIcon
import Neutrino.Lib.RealMode
import Neutrino.Boot.Loader
import Neutrino.Boot.MemoryMap
import Neutrino.Boot.DriveTable
import Neutrino.Drivers.TimerWait
import Neutrino.Lib.FirstDifference
import Neutrino.Strings.Memcmp
import Neutrino.Strings.Copying
import Neutrino.Lib.Pic8259
import Neutrino.System.Idt
import Neutrino.System.RequestLines
import Neutrino.Memory.BumpPointer
import Neutrino.Memory.FirmwareMap
import Neutrino.Memory.TableBounds
import Neutrino.Boot.HandOff
import Neutrino.Stdio.Printf
import Neutrino.Lib.PortSimulation
import Neutrino.Drivers.BlockStore
import Neutrino.System.Interleaving
import Neutrino.System.Terminal
import Neutrino.System.TaskTimes
import Neutrino.Drivers.Probe
import Neutrino.Drivers.Drawings
import Neutrino.Drivers.Canvas
import Neutrino.System.Messages
import Neutrino.System.Session
import Neutrino.System.Startup
