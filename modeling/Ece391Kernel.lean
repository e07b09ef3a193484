import Ece391Kernel.Transition.Run
import Ece391Kernel.Transition.Translation
import Ece391Kernel.Transition.Stacks
import Ece391Kernel.Transition.Rounds
import Ece391Kernel.Devices.Screen
import Ece391Kernel.Devices.Video
import Ece391Kernel.Devices.Display
import Ece391Kernel.Devices.State
import Ece391Kernel.Devices.Keyboard
import Ece391Kernel.Devices.Presses
import Ece391Kernel.Devices.Console
import Ece391Kernel.Devices.Screens
import Ece391Kernel.Devices.Interleaving
import Ece391Kernel.Devices.Lines
import Ece391Kernel.Devices.LineEditing
import Ece391Kernel.Devices.SentLines
import Ece391Kernel.Devices.HalfTyped
import Ece391Kernel.Devices.Mapping
import Ece391Kernel.Devices.VideoOps
import Ece391Kernel.Devices.Erasing
import Ece391Kernel.Devices.Keystrokes
import Ece391Kernel.Devices.TypedCells
import Ece391Kernel.Devices.TypedRows
import Ece391Kernel.Files.FileSystem
import Ece391Kernel.Files.Image
import Ece391Kernel.Kernel.State
import Ece391Kernel.Kernel.Descriptors
import Ece391Kernel.Kernel.Dispatch
import Ece391Kernel.Kernel.Reads
import Ece391Kernel.Files.Directory
import Ece391Kernel.Files.Lookup
import Ece391Kernel.Kernel.DescriptorTable
import Ece391Kernel.Kernel.DescriptorRuns
import Ece391Kernel.Kernel.FileReads
import Ece391Kernel.Kernel.Listings
import Ece391Kernel.Kernel.ListedNames
import Ece391Kernel.Kernel.ClockWaits
import Ece391Kernel.Kernel.Process
import Ece391Kernel.Kernel.Calls
import Ece391Kernel.Kernel.Steps
import Ece391Kernel.Kernel.Nesting
import Ece391Kernel.Kernel.Arguments
import Ece391Kernel.Kernel.UserPointers
import Ece391Kernel.Kernel.ReadSizes
import Ece391Kernel.Kernel.ProcessSlots
import Ece391Kernel.Kernel.CommandParsing
import Ece391Kernel.Kernel.Executables
import Ece391Kernel.Kernel.Scheduler
import Ece391Kernel.Kernel.Terminals
import Ece391Kernel.Kernel.StartUp
import Ece391Kernel.Kernel.Scheduling
import Ece391Kernel.Kernel.ClockDescriptors
import Ece391Kernel.Kernel.Attribution
import Ece391Kernel.Kernel.Roots
import Ece391Kernel.Kernel.Preemption
import Ece391Kernel.Kernel.Contexts
import Ece391Kernel.Kernel.SlotSafety
import Ece391Kernel.Transition.Sheets
import Ece391Kernel.Devices.UnboundedPage
import Ece391Kernel.Files.RawImages
import Ece391Kernel.Files.BlockReads
import Ece391Kernel.Files.CorruptImages
import Ece391Kernel.Kernel.OpenTypes
import Ece391Kernel.Kernel.KernelStacks
import Ece391Kernel.Devices.LineIndex
import Ece391Kernel.Devices.Modifiers
import Ece391Kernel.Boot.Linkage
import Ece391Kernel.Boot.Paging
import Ece391Kernel.Boot.Controllers
import Ece391Kernel.Boot.Gates
import Ece391Kernel.Kernel.Containment
import Ece391Kernel.Kernel.Protection
import Ece391Kernel.Kernel.Isolation
import Ece391Kernel.Lib.Numerals
import Ece391Kernel.Lib.Printf
import Ece391Kernel.Lib.BlockOperations
import Ece391Kernel.Lib.MemoryCalls
