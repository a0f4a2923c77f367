import HackersOs.Core.LTS
import HackersOs.Core.Mem
import HackersOs.Core.Words
import HackersOs.L1Machine.Vectors
import HackersOs.L1Machine.UserMode
import HackersOs.Core.Numerals
import HackersOs.L1Machine.Uart
import HackersOs.L2Memory.Mmu
import HackersOs.L2Memory.PageForest
import HackersOs.L2Memory.PageTables
import HackersOs.L2Memory.PageOwners
import HackersOs.L2Memory.PageRuns
import HackersOs.Core.Tiling
import HackersOs.L2Memory.Heap
import HackersOs.L2Memory.HeapTiling
import HackersOs.L2Memory.HeapRuns
import HackersOs.L2Memory.HeapOrder
import HackersOs.Core.Ring
import HackersOs.L3Net.Tcp
import HackersOs.L3Net.TcpSteps
import HackersOs.L3Net.TcpReceive
import HackersOs.L3Net.TcpTransmit
import HackersOs.L3Net.TcpSend
import HackersOs.L3Net.TcpFine
import HackersOs.L3Net.TcpReuse
import HackersOs.Core.SeqNum
import HackersOs.L3Net.TcpAcks
import HackersOs.L3Net.TcpFin
import HackersOs.L3Net.GiveUp
import HackersOs.Core.Traced
import HackersOs.L3Net.NetInput
import HackersOs.L3Net.InputBounds
import HackersOs.Core.SlotTable
import HackersOs.L3Net.ArpCache
import HackersOs.L3Net.RxRings
import HackersOs.Core.Layout
import HackersOs.L3Net.Sockets
import HackersOs.Core.Messages
import HackersOs.L3Net.Datagrams
import HackersOs.L3Net.SocketSteps
import HackersOs.L3Net.SocketOwners
import HackersOs.L3Net.SocketNames
import HackersOs.L3Net.Demux
import HackersOs.L3Net.SlotLeak
import HackersOs.L3Net.Wire
import HackersOs.L3Net.UdpSend
import HackersOs.L3Net.Dhcp
import HackersOs.Core.OnesSum
import HackersOs.L3Net.Checksums
import HackersOs.L3Net.DhcpLease
import HackersOs.L3Net.DhcpOptions
import HackersOs.L3Net.Dns
import HackersOs.L3Net.DnsBounds
import HackersOs.L3Net.DnsMessages
import HackersOs.L3Net.DnsQuery
import HackersOs.L3Net.Waiting
import HackersOs.L3Net.WaitTraffic
import HackersOs.Core.Chains
import HackersOs.Core.Cyclic
import HackersOs.L4Fs.Fat32
import HackersOs.L4Fs.FatSectors
import HackersOs.L4Fs.FatArray
import HackersOs.L4Fs.FatDirs
import HackersOs.L4Fs.FatRuns
import HackersOs.L4Fs.FatContents
import HackersOs.L4Fs.FatFiles
import HackersOs.L4Fs.FatReads
import HackersOs.Core.Orbit
import HackersOs.L4Fs.FatDelete
import HackersOs.L4Fs.FatWalks
import HackersOs.L4Fs.FatListing
import HackersOs.L4Fs.FatParents
import HackersOs.L4Fs.FatMount
import HackersOs.L4Fs.FatNames
import HackersOs.L4Fs.FatCreate
import HackersOs.L4Fs.FatFaults
import HackersOs.L4Fs.FatLoop
import HackersOs.L5User.AddressSpace
import HackersOs.L5User.Process
import HackersOs.L5User.Elf
import HackersOs.L5User.Syscalls
import HackersOs.L5User.Shell
import HackersOs.L5User.Lifecycle
import HackersOs.L5User.ProcessTable
import HackersOs.L5User.MemoryBooks
import HackersOs.L5User.Dispatch
import HackersOs.L5User.Descriptors
import HackersOs.L5User.Break
import HackersOs.L5User.Mmap
import HackersOs.L5User.ElfBounds
import HackersOs.L5User.LoadFailures
import HackersOs.L5User.Clock
import HackersOs.Core.XorWord
import HackersOs.L5User.Random
import HackersOs.L5User.Scheduler
import HackersOs.L5User.Contexts
import HackersOs.Core.IndexRing
import HackersOs.L3Net.VirtioRx
import HackersOs.L3Net.VirtioTx
import HackersOs.L3Net.UdpDelivery
import HackersOs.L4Fs.VirtioBlk
