import FanOS.Boot.Equiv.FirstStage
import FanOS.Display.Equiv.Bounds
import FanOS.Display.Equiv.Layout
import FanOS.Display.Equiv.Numbers
import FanOS.Display.Equiv.Races
import FanOS.Fat12.Basic
import FanOS.Filesystem.Equiv.Paths
import FanOS.Filesystem.Equiv.Readers
import FanOS.Filesystem.Equiv.RootSearch
import FanOS.FloppyDisk.Equiv.Controller
import FanOS.FloppyDisk.Equiv.Sectors
import FanOS.Hal.Equiv.Descriptors
import FanOS.Hal.Equiv.Dma
import FanOS.Hal.Equiv.Init
import FanOS.Hal.Equiv.Tss
import FanOS.Interrupts.Equiv.Safety
import FanOS.Kernel.Equiv.HandedOut
import FanOS.Kernel.Equiv.Reservations
import FanOS.Keyboard.Equiv.Presses
import FanOS.Malloc.Equiv.FirstFit
import FanOS.Malloc.Equiv.Freeing
import FanOS.Malloc.Equiv.Growth
import FanOS.Malloc.Equiv.Live
import FanOS.Malloc.Equiv.Mappings
import FanOS.Malloc.Equiv.OutOfMemory
import FanOS.Malloc.Equiv.Termination
import FanOS.Malloc.Equiv.UserPages
import FanOS.PhysicalMmngr.Equiv.Counter
import FanOS.PhysicalMmngr.Equiv.Grants
import FanOS.PhysicalMmngr.Equiv.Regions
import FanOS.Pit.Equiv.Timer
import FanOS.Shell.Equiv.Read
import FanOS.Shell.Equiv.Session
import FanOS.Stdio.Equiv.Bounds
import FanOS.Stdio.Equiv.Rendering
import FanOS.Strings.Equiv.Contracts
import FanOS.Syscall.Equiv.Dispatch
import FanOS.Userspace.Equiv.UserMode
import FanOS.VirtualMmngr.Equiv.AddressSpace
import FanOS.VirtualMmngr.Equiv.Calls
import FanOS.VirtualMmngr.Equiv.Pages
import FanOS.Volume.Equiv.Opening
import FanOS.Volume.Equiv.Table
