import XdmaDriver.Lib.Transition
import XdmaDriver.Lib.Tiling
import XdmaDriver.Lib.Circular
import XdmaDriver.Lib.Spans
import XdmaDriver.ServiceEffect
import XdmaDriver.Transfer
import XdmaDriver.Queue
import XdmaDriver.HeadService
import XdmaDriver.QueueRuns
import XdmaDriver.QueueOrder
import XdmaDriver.Completions
import XdmaDriver.ErrorDelivery
import XdmaDriver.Contexts
import XdmaDriver.Submit
import XdmaDriver.Aperture
import XdmaDriver.Nowait
import XdmaDriver.RequestLifetime
import XdmaDriver.ChainCount
import XdmaDriver.DescriptorMapping
import XdmaDriver.RingUse
import XdmaDriver.DoubleBuffer
import XdmaDriver.DoubleBufferSteps
import XdmaDriver.DoubleBufferMemory
import XdmaDriver.DoubleBufferErrors
import XdmaDriver.DoubleBufferSession
import XdmaDriver.DoubleBufferDelivery
import XdmaDriver.DoubleBufferSessions
import XdmaDriver.ChainWalk
import XdmaDriver.DoubleBufferPipeline
import XdmaDriver.DoubleBufferSlots
import XdmaDriver.DoubleBufferTurns
import XdmaDriver.DoubleBufferIsolation
import XdmaDriver.Lib.Windows
import XdmaDriver.ApertureMapping
import XdmaDriver.ApertureChains
import XdmaDriver.ApertureRestarts
import XdmaDriver.ApertureConfinement
import XdmaDriver.ApertureProgress
import XdmaDriver.Unmapping
import XdmaDriver.PartialTransfers
import XdmaDriver.PerfRuns
import XdmaDriver.UserBuffer
import XdmaDriver.UserBufferTiling
import XdmaDriver.ChainFormat
import XdmaDriver.XvcShifts
import XdmaDriver.Aio
import XdmaDriver.AioAccounting
import XdmaDriver.NowaitMapping
import XdmaDriver.VectoredIo
import XdmaDriver.VectoredAddresses
import XdmaDriver.ChainOutcomes
import XdmaDriver.AioResults
import XdmaDriver.ChainService
import XdmaDriver.PacketBoundary
import XdmaDriver.SkipReport
import XdmaDriver.RequestAllocation
import XdmaDriver.Lib.Ledger
import XdmaDriver.IrqLines
import XdmaDriver.EngineControl
import XdmaDriver.Shutdown
import XdmaDriver.InterruptMask
import XdmaDriver.PolledWakeup
import XdmaDriver.ReadLength
import XdmaDriver.DoubleBufferBlocks
import XdmaDriver.DoubleBufferLedger
import XdmaDriver.Credits
import XdmaDriver.CreditTransfers
import XdmaDriver.CreditRuns
import XdmaDriver.UserBufferRelease
import XdmaDriver.Lib.Records
import XdmaDriver.CaptureParsing
import XdmaDriver.LfsrErrorCounts
import XdmaDriver.CompletionThreads
import XdmaDriver.ThreadLoads
import XdmaDriver.WritebackMonitor
import XdmaDriver.PollCalls
import XdmaDriver.BarAccess
import XdmaDriver.ToolTransfers
import XdmaDriver.ToolRuns
import XdmaDriver.DescriptorControl
import XdmaDriver.DequeuedCount
import XdmaDriver.UserEvents
import XdmaDriver.Bars
import XdmaDriver.DeviceOpen
import XdmaDriver.CharDevices
import XdmaDriver.DeviceList
import XdmaDriver.MsixRouting
import XdmaDriver.IrqLifecycle
import XdmaDriver.LineBalance
import XdmaDriver.UserTransfers
import XdmaDriver.Lib.Stores
import XdmaDriver.DeviceFiles
import XdmaDriver.Loopback
import XdmaDriver.CaptureRuns
import XdmaDriver.Bypass
