import XcKernel.Memblock.Bootmem
import XcKernel.PageAlloc.Basic
import XcKernel.PageAlloc.Watermark
import XcKernel.PageAlloc.Buddy
import XcKernel.PageAlloc.FreeBlocks
import XcKernel.PageAlloc.BuddySpec
import XcKernel.PageAlloc.BuddyRuns
import XcKernel.PageAlloc.Pcp
import XcKernel.PageAlloc.PcpSpec
import XcKernel.PageAlloc.FreeSpec
import XcKernel.PageAlloc.AllocSpec
import XcKernel.PageAlloc.Accounting
import XcKernel.PageAlloc.Node
import XcKernel.PageAlloc.FreeMemory
import XcKernel.PageAlloc.Handover
import XcKernel.Slub.Cmpxchg
import XcKernel.Slub.Basic
import XcKernel.Slub.Owned
import XcKernel.Slub.Invariant
import XcKernel.Slub.AllocSpec
import XcKernel.Slub.Runs
import XcKernel.Range.Sort
import XcKernel.Range.Basic
import XcKernel.Range.Spec
import XcKernel.Memblock.FreeAll
import XcKernel.Lib.Bubble
import XcKernel.E820.Basic
import XcKernel.E820.Points
import XcKernel.E820.Sweep
import XcKernel.E820.Sanitize
import XcKernel.E820.Fill
import XcKernel.PageAlloc.FreeOrder
import XcKernel.Slub.Kmalloc
import XcKernel.Irq.Lines
import XcKernel.Irq.Masked
import XcKernel.Lib.Retry
import XcKernel.Slub.Locks
import XcKernel.PageAlloc.Shared
import XcKernel.Range.Sorted
import XcKernel.Zones.Basic
import XcKernel.Zones.Holes
import XcKernel.Zones.Spans
import XcKernel.Paging.Basic
import XcKernel.Paging.Ranges
import XcKernel.Paging.Tables
import XcKernel.Paging.Direct
import XcKernel.Slub.Frame
import XcKernel.Slub.Interrupts
import XcKernel.Lib.Bytes
import XcKernel.PageAlloc.Zeroing
import XcKernel.Memblock.TopDown
import XcKernel.PageAlloc.Fallback
import XcKernel.Range.Difference
import XcKernel.Range.CleanSort
import XcKernel.Range.SortBytes
import XcKernel.Memblock.ActiveRange
import XcKernel.Memblock.Register
import XcKernel.PageAlloc.PcpRuns
import XcKernel.Slub.Geometry
import XcKernel.PageAlloc.Compound
import XcKernel.E820.Detect
import XcKernel.PageAlloc.Movable
import XcKernel.Irq.Actions
import XcKernel.Slub.BootMask
import XcKernel.Slub.NewSlab
import XcKernel.Slub.Bootstrap
import XcKernel.Slub.Open
import XcKernel.PageAlloc.TailPlacement
import XcKernel.Irq.Spurious
import XcKernel.Zones.Absent
import XcKernel.Memmove
import XcKernel.Lib.Pool
import XcKernel.PageAlloc.Zonelist
import XcKernel.PageAlloc.AllocPages
import XcKernel.PageAlloc.Holders
import XcKernel.PageAlloc.Conserved
import XcKernel.PageAlloc.FirstFit
import XcKernel.PageAlloc.ZoneInit
import XcKernel.PageAlloc.BootMemory
import XcKernel.Irq.Desc
import XcKernel.Irq.Entry
import XcKernel.Irq.Nested
import XcKernel.Lib.Rings
import XcKernel.ListHead
import XcKernel.PageAlloc.LinkedZone
import XcKernel.PageAlloc.LinkedBuddy
import XcKernel.Boot.BootImage
import XcKernel.Boot.Head
import XcKernel.Paging.Buffer
import XcKernel.Boot.StartKernel
