import GeexOS.Handoff
import GeexOS.Kernel.BuddyCompleteness
import GeexOS.Kernel.SlabBalance
import GeexOS.Loader.ElfPlacement
import GeexOS.Loader.ElfPages
import GeexOS.Loader.ElfLibraries
import GeexOS.Loader.FatLookup
import GeexOS.Loader.FatReads
import GeexOS.Loader.FatEntries
import GeexOS.Loader.FatLongNames
import GeexOS.Loader.PartitionReads
import GeexOS.Loader.PartitionTable
import GeexOS.Loader.GdbPackets
import GeexOS.Loader.HeapRuns
import GeexOS.Loader.ElfSearch
import GeexOS.Loader.PageLookupBounds
import GeexOS.Kernel.PagingRuns
import GeexOS.Kernel.LazyRegionRuns
import GeexOS.Kernel.HashTableRuns
import GeexOS.Kernel.DictionaryRuns
import GeexOS.Kernel.ListRuns
import GeexOS.Kernel.IOMemoryRuns
import GeexOS.Loader.FatSeek
import GeexOS.Loader.FatMount
import GeexOS.Loader.FatOpen
import GeexOS.Loader.ElfHash
import GeexOS.Loader.ElfHeaders
import GeexOS.Loader.PagingSearch
import GeexOS.Loader.PartitionValidity
import GeexOS.Loader.ImageDescriptors
import GeexOS.Loader.TableMemory
import GeexOS.Loader.GdbRegisters
import GeexOS.Loader.ChsReads
import GeexOS.Loader.HeapLaws
import GeexOS.Kernel.BuddyRejection
import GeexOS.Kernel.SlabOrigins
import GeexOS.Loader.ElfFailures
import GeexOS.Kernel.FrameBounds
import GeexOS.Kernel.FrameSearch
import GeexOS.Kernel.Placement
import GeexOS.Kernel.UserspaceDirectory
import GeexOS.Kernel.HashTableAdvice
import GeexOS.Kernel.HashTableClear
import GeexOS.Kernel.HashTableCounts
import GeexOS.Kernel.IOMemoryTranslation
import GeexOS.Kernel.SizeCacheRoom
import GeexOS.Takeover
import GeexOS.Kernel.BuddyBitmapRuns
import GeexOS.Kernel.BootEnvironment
import GeexOS.Kernel.MathSupport
import GeexOS.Kernel.OutputDevice
import GeexOS.Memmove
import GeexOS.Kernel.CRC32
import GeexOS.Loader.Messages
import GeexOS.Loader.FatSession
import GeexOS.Kernel.MemorySpaceRuns
import GeexOS.Loader.LbaReads
import GeexOS.Loader.DiskDevices
import GeexOS.Loader.GdbSession
