import BigChungOS.Lib.Runs
import BigChungOS.Lib.Memory
import BigChungOS.Lib.Slots
import BigChungOS.Lib.Reader
import BigChungOS.Lib.Stacks
import BigChungOS.Lib.Banks
import BigChungOS.Lib.Teletype
import BigChungOS.Lib.LineEdit
import BigChungOS.Lib.Bits
import BigChungOS.Lib.X86
import BigChungOS.Lib.X86Block
import BigChungOS.Lib.Cells
import BigChungOS.Lib.Loops
import BigChungOS.Lib.Numerals
import BigChungOS.Lib.LinkedList
import BigChungOS.Lib.Programs
import BigChungOS.State
import BigChungOS.Paging
import BigChungOS.Screen
import BigChungOS.ScreenTeletype
import BigChungOS.Rtc
import BigChungOS.FileSystem
import BigChungOS.FileImage
import BigChungOS.ReadData
import BigChungOS.ReadBounds
import BigChungOS.SysCalls
import BigChungOS.Sched
import BigChungOS.Keyboard
import BigChungOS.Processes
import BigChungOS.Nesting
import BigChungOS.Timer
import BigChungOS.ProcessStacks
import BigChungOS.RunningProcess
import BigChungOS.Confinement
import BigChungOS.Descriptors
import BigChungOS.NameLookup
import BigChungOS.CommandParsing
import BigChungOS.RoundTrip
import BigChungOS.FilePositions
import BigChungOS.DirectoryListing
import BigChungOS.ProgramFiles
import BigChungOS.ExitStatus
import BigChungOS.Arguments
import BigChungOS.BaseShells
import BigChungOS.KeyboardIndex
import BigChungOS.ScreenIsolation
import BigChungOS.TerminalSwitch
import BigChungOS.CursorOwnership
import BigChungOS.TerminalRead
import BigChungOS.LineDelivery
import BigChungOS.LineOrigin
import BigChungOS.LineEditing
import BigChungOS.NewlineAhead
import BigChungOS.VideoMap
import BigChungOS.LineScan
import BigChungOS.ClearScreen
import BigChungOS.CommandKeys
import BigChungOS.ModifierKeys
import BigChungOS.RtcFrequency
import BigChungOS.RtcRegisters
import BigChungOS.Pic
import BigChungOS.SyscallGate
import BigChungOS.VidmapPointer
import BigChungOS.Printf
import BigChungOS.BlockRoutines
import BigChungOS.NumberText
import BigChungOS.BlinkList
import BigChungOS.BlinkDisplay
import BigChungOS.FishProgram
import BigChungOS.ProgramView
import BigChungOS.ProgramRuns
import BigChungOS.UserPrograms
import BigChungOS.Lib.Lines
import BigChungOS.Grep
import BigChungOS.SelfTests
import BigChungOS.KernelStacks
import BigChungOS.ShellCommands
import BigChungOS.ShellProgram
import BigChungOS.Lib.BitFields
import BigChungOS.Lib.InterruptController
import BigChungOS.DescriptorTables
import BigChungOS.IrqDelivery
