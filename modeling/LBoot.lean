import LBoot.Lib.Machine
import LBoot.Data.FifoRefine
import LBoot.Io.SerialReadSound
import LBoot.Io.SerialWrite
import LBoot.Lib.Memory
import LBoot.Storage.Xmodem
import LBoot.Storage.XmodemBounds
import LBoot.Storage.XmodemLine
import LBoot.Exec.Elf
import LBoot.Storage.Fat
import LBoot.Storage.FatLookup
import LBoot.Storage.FatRead
import LBoot.Lib.Arena
import LBoot.Lib.Slots
import LBoot.Mm.Alloc
import LBoot.Mm.AllocScan
import LBoot.Mm.AllocPartition
import LBoot.Lib.Runs
import LBoot.Boot.SectorMap
import LBoot.Boot.SectorMapWrite
import LBoot.Boot.SectorMapLoad
import LBoot.Exec.Multiboot
import LBoot.Lib.Records
import LBoot.Exec.MultibootTags
import LBoot.Exec.MultibootParse
import LBoot.Exec.Modules
import LBoot.Io.SerialFlow
import LBoot.Storage.XmodemReject
import LBoot.Storage.FatCoherence
import LBoot.Tools.Fat
import LBoot.Tools.FatAgree
import LBoot.Storage.FatFind
import LBoot.Storage.FatDevice
import LBoot.Storage.FatOffset
import LBoot.Lib.Coalesced
import LBoot.Mm.AllocCanonical
import LBoot.Config.Config
import LBoot.Lib.Lines
import LBoot.Config.ConfigLines
import LBoot.Config.ConfigMemory
import LBoot.Config.ConfigGrammar
import LBoot.Lib.Gf2
import LBoot.Storage.XmodemCrc
import LBoot.Storage.ReadBounds
import LBoot.Tools.FatFind
import LBoot.Storage.FatName
import LBoot.Lib.Recency
import LBoot.Storage.FatRecency
import LBoot.Storage.FatErrors
import LBoot.Mm.AllocSlots
import LBoot.Mm.AllocBestFit
import LBoot.Storage.FatScan
import LBoot.Storage.FatWalk
import LBoot.Storage.FatEnds
import LBoot.Tools.FatEnds
import LBoot.Storage.FatDirs
import LBoot.Exec.ElfRange
import LBoot.Exec.ElfImage
import LBoot.Storage.FsResolve
import LBoot.Lib.HeapLog
import LBoot.Storage.FatHeap
import LBoot.Storage.FatGeometry
import LBoot.Tools.FatClusters
import LBoot.Boot.SectorMapExact
import LBoot.Tools.FatReads
import LBoot.Boot.SectorMapLink
import LBoot.Exec.MultibootBuffer
import LBoot.Exec.MultibootHeader
import LBoot.Tools.FatSlots
import LBoot.Tools.FatPaths
import LBoot.Lib.Iteration
import LBoot.Exec.MultibootWalk
import LBoot.Exec.MultibootOptional
import LBoot.Exec.DetectMultiboot
import LBoot.Io.SerialPoll
import LBoot.Io.SerialStatus
import LBoot.Io.SerialInit
import LBoot.Io.Udiv64
import LBoot.Lib.CFormat
import LBoot.Io.PrintInt
import LBoot.Io.Print
import LBoot.Io.PrintConv
import LBoot.Io.PrintCalls
import LBoot.Stdlib.Memmove
import LBoot.Lib.Screen
import LBoot.Io.Vga
import LBoot.Lib.Numeral
import LBoot.Stdlib.Strtoul
import LBoot.Io.PrintStore
import LBoot.Lib.Retry
import LBoot.Storage.Bios
import LBoot.Storage.BiosRead
import LBoot.Boot.ReadSector
import LBoot.Lib.Occurrence
import LBoot.Stdlib.Search
import LBoot.Storage.Protocol
import LBoot.Storage.ProtocolOpen
import LBoot.Lib.Pic
import LBoot.Lib.Tally
import LBoot.Intr.Pic
import LBoot.Intr.Interrupts
import LBoot.Intr.Idt
import LBoot.Time.Ticks
import LBoot.Time.Delay
import LBoot.Time.Pit
import LBoot.Exec.Exec
import LBoot.Storage.FatRuns
import LBoot.Lib.X86
import LBoot.Startup.Startup
import LBoot.Bios.BiosCall
import LBoot.Io.Output
