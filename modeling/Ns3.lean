import Ns3.Lib.OrdMap
import Ns3.Lib.Machine
import Ns3.Lte.NcControl
import Ns3.Lte.CopyControl
import Ns3.Lte.Pdcp
import Ns3.Lte.NcFrame
import Ns3.Lte.CopyFrame
import Ns3.Lte.CopySound
import Ns3.Lte.PdcpSound
import Ns3.Lte.NcTimerSound
import Ns3.Lte.NcFraming
import Ns3.Lte.NcRank
import Ns3.Lte.CopyBooks
import Ns3.Lte.NcBooks
import Ns3.Lte.ArqBooks
import Ns3.Lte.NcSystem
import Ns3.Lte.NcSystemSound
import Ns3.Lte.NcDecodeSound
import Ns3.Lib.BitField
import Ns3.Rlc.SequenceNumber10
import Ns3.Rlc.RlcHeader
import Ns3.Rlc.Segment
import Ns3.Rlc.Reassembly
import Ns3.Lib.Loop
import Ns3.Rlc.Um
import Ns3.Rlc.UmTxSound
import Ns3.Rlc.UmRxSound
import Ns3.Rlc.UmWindow
import Ns3.Rlc.UmReassemblySound
import Ns3.Rlc.UmSound
import Ns3.Rlc.UmLossy
import Ns3.Rlc.AmHeader
import Ns3.Rlc.Am
import Ns3.Lib.RingMap
import Ns3.Rlc.AmRxSound
import Ns3.Rlc.AmWindow
import Ns3.Rlc.AmReceiver
import Ns3.Rlc.AmStatus
import Ns3.Rlc.AmTxSound
import Ns3.Lib.Transfer
import Ns3.Rlc.AmLink
import Ns3.Rlc.AmSound
import Ns3.Rlc.AmBooks
import Ns3.Rlc.AmSender
import Ns3.Lib.Heap
import Ns3.Core.Scheduler
import Ns3.Core.HeapScheduler
import Ns3.Rlc.AmHeaderCodec
import Ns3.Rlc.AmStatusSize
import Ns3.Nr.BwpManagerGnb
import Ns3.Lib.BitStream
import Ns3.Lte.Asn1Header
import Ns3.Lte.Asn1Sound
import Ns3.Lte.Asn1Schema
import Ns3.Core.CalendarScheduler
import Ns3.Core.CalendarSound
import Ns3.Core.PriorityQueue
import Ns3.Core.DefaultSimulatorImpl
import Ns3.Core.SimulatorSound
import Ns3.Internet.SequenceNumber32
import Ns3.Internet.TcpTxBuffer
import Ns3.Internet.TxItems
import Ns3.Internet.TxBufferSound
import Ns3.Internet.TxDiscardSound
import Ns3.Internet.TxUpdateSound
import Ns3.Internet.TcpFlow
import Ns3.Internet.TxRecut
import Ns3.Internet.TxLedger
import Ns3.Internet.TxHistory
import Ns3.Internet.TxPipe
import Ns3.Internet.TxHighest
import Ns3.Internet.TxScoreboard
import Ns3.Internet.TxLossMarking
import Ns3.Lib.CachedMax
import Ns3.Internet.RxChunks
import Ns3.Internet.RxBufferSound
import Ns3.Internet.RxReassembly
import Ns3.Internet.RxSackList
import Ns3.Internet.SackLoop
import Ns3.Internet.Ipv4Reassembly
import Ns3.Wifi.RecipientSound
import Ns3.Wifi.ExchangeSound
import Ns3.Network.PacketTagSound
import Ns3.Network.PacketWireSound
import Ns3.Network.BufferFamily
import Ns3.Internet.Ipv6Reassembly
import Ns3.Internet.TcpHeaderCodec
import Ns3.Lib.WeightedWalk
import Ns3.Olsr.RoutingTableSound
import Ns3.Olsr.MprSound
import Ns3.Olsr.TcFreshness
import Ns3.Rlc.UmClean
import Ns3.Rlc.UmTxBuffer
import Ns3.Rlc.UmArqOrder
import Ns3.SixLowPan.FragmentationSound
import Ns3.SixLowPan.NhcSound
import Ns3.Rlc.UmReceiver
import Ns3.Lib.ListRank
import Ns3.Lib.RequestBooks
import Ns3.Lib.FieldStack
import Ns3.Network.NixVector
import Ns3.Lte.NoOpComponentCarrierManager
import Ns3.Internet.TxNextSeg
import Ns3.Core.Int64x64
import Ns3.Core.Int64x64Sound
import Ns3.Core.TimeConversion
import Ns3.Internet.GlobalRouteManager
import Ns3.Internet.Ipv4PartialPacket
import Ns3.Internet.Ipv4FragmentStore
import Ns3.Internet.Ipv4AddressGenerator
import Ns3.Wifi.MacRxMiddle
import Ns3.Wifi.BlockAckCodec
import Ns3.TrafficControl.QueueDiscSound
import Ns3.Internet.RxWindow
import Ns3.Network.RemoveHeader
import Ns3.Network.BitSerializer
import Ns3.SixLowPan.UdpPorts
import Ns3.SixLowPan.Hc1Sound
import Ns3.Aodv.RouteUpdate
import Ns3.Lte.EpcTftSound
import Ns3.Olsr.HnaRoutesSound
import Ns3.Internet.Ipv6UnfragmentableSound
import Ns3.SixLowPan.ContextsSound
import Ns3.Wifi.WifiMacQueueSound
import Ns3.Internet.StubNodeSound
import Ns3.Network.LollipopCounter
import Ns3.Lib.ArgMax
import Ns3.Olsr.MprDegree
import Ns3.Lib.ByteReader
import Ns3.Olsr.MessageHeaderBounds
import Ns3.Olsr.FloodingSound
import Ns3.Internet.TcpTransfer
import Ns3.Mpi.DistributedSimulatorImpl
import Ns3.Mpi.DistributedSound
