import XdmaDpdk.Lib.ArrayLoop
import XdmaDpdk.Lib.ChainWalker
import XdmaDpdk.Lib.StableRead
import XdmaDpdk.Lib.Consumer
import XdmaDpdk.Desc
import XdmaDpdk.Engine
import XdmaDpdk.Tx
import XdmaDpdk.Rx
import XdmaDpdk.History
import XdmaDpdk.TxChain
import XdmaDpdk.TxReturn
import XdmaDpdk.TxSystem
import XdmaDpdk.TxEarly
import XdmaDpdk.TxWedge
import XdmaDpdk.RxSystem
import XdmaDpdk.RxCount
import XdmaDpdk.RxConsumer
import XdmaDpdk.RxHandBack
import XdmaDpdk.RxLength
import XdmaDpdk.Layout
import XdmaDpdk.Translate
import XdmaDpdk.Control
import XdmaDpdk.TxAdjacency
import XdmaDpdk.Lib.Framing
import XdmaDpdk.Indices
import XdmaDpdk.TxEncode
import XdmaDpdk.IdleEngine
import XdmaDpdk.RingIntact
import XdmaDpdk.NullLink
import XdmaDpdk.RxChain
import XdmaDpdk.RxRearm
import XdmaDpdk.PollApi
import XdmaDpdk.Lib.Arena
import XdmaDpdk.Port
import XdmaDpdk.RunBit
import XdmaDpdk.PortMoves
import XdmaDpdk.PortEngines
import XdmaDpdk.PortClose
import XdmaDpdk.PortLife
import XdmaDpdk.RxReassemble
import XdmaDpdk.RxBounds
import XdmaDpdk.RxStatusBits
import XdmaDpdk.QueueAlloc
import XdmaDpdk.Lib.CNumeral
import XdmaDpdk.Lib.ByteStore
import XdmaDpdk.Lib.Relay
import XdmaDpdk.Devargs
import XdmaDpdk.Bars
import XdmaDpdk.Probe
import XdmaDpdk.BarLoad
import XdmaDpdk.Uart
import XdmaDpdk.ZoneNames
import XdmaDpdk.Lib.WalkOutput
import XdmaDpdk.TxDelivery
import XdmaDpdk.TxSizes
import XdmaDpdk.TxSequential
import XdmaDpdk.Forwarder
import XdmaDpdk.InterForwarder
import XdmaDpdk.Lib.PolledReads
import XdmaDpdk.RxDelivery
import XdmaDpdk.RxProgress
import XdmaDpdk.ForwardMemory
import XdmaDpdk.ForwardSystem
import XdmaDpdk.ForwardPass
import XdmaDpdk.ForwardBatches
import XdmaDpdk.ForwardRelay
import XdmaDpdk.QueueIsolation
import XdmaDpdk.AppPort
import XdmaDpdk.AppLifecycle
import XdmaDpdk.MmioBoard
import XdmaDpdk.MmioRefines
import XdmaDpdk.ForwardRefines
