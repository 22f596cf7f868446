import WchLwip.Library.Lts
import WchLwip.Library.Commute
import WchLwip.Library.RingQueue
import WchLwip.Library.Mask
import WchLwip.Library.ByteMemory
import WchLwip.Library.WordMemory
import WchLwip.Library.Trace
import WchLwip.Library.Spans
import WchLwip.Library.Arena
import WchLwip.Library.Rv32
import WchLwip.Library.Processors
import WchLwip.Model.Descriptors
import WchLwip.Model.RxRing
import WchLwip.Model.TxRing
import WchLwip.Model.Driver
import WchLwip.Model.Output
import WchLwip.Model.Lwip
import WchLwip.Model.Input
import WchLwip.Model.InitPhy
import WchLwip.Model.Port
import WchLwip.Model.PortAsm
import WchLwip.Model.Heap
import WchLwip.Properties.RxFifo
import WchLwip.Properties.TxFifo
import WchLwip.Properties.Simulation
import WchLwip.Properties.Handler
import WchLwip.Properties.Interrupts
import WchLwip.Properties.ReceiveRing
import WchLwip.Properties.ReceiveCopy
import WchLwip.Properties.ReceiveResult
import WchLwip.Properties.ReceiveLength
import WchLwip.Properties.InputCalls
import WchLwip.Properties.TransmitWakeup
import WchLwip.Properties.TransmitResult
import WchLwip.Properties.TransmitBuffers
import WchLwip.Properties.RoundTrip
import WchLwip.Properties.Preemption
import WchLwip.Properties.LinkBringUp
import WchLwip.Properties.CriticalSection
import WchLwip.Properties.ContextFrames
import WchLwip.Properties.ContextSwitch
import WchLwip.Properties.FreeList
import WchLwip.Properties.HeapCalls
import WchLwip.Properties.HeapInvariant
import WchLwip.Properties.HeapSafety
import WchLwip.Properties.HeapCounters
