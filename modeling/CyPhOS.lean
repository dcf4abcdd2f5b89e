import CyPhOS.Lib.LinkedList
import CyPhOS.Lib.Run
import CyPhOS.Common.Queue
import CyPhOS.Common.QueueRuns
import CyPhOS.EventHandling.TaskLock
import CyPhOS.EventHandling.EventPriorityQueue
import CyPhOS.EventHandling.StackPool
import CyPhOS.EventHandling.EventHandler
import CyPhOS.EventHandling.Placement
import CyPhOS.EventHandling.Conservation
import CyPhOS.Driver.GenericMMU
import CyPhOS.Driver.MMUPorts
import CyPhOS.CacheManagement.CacheColoring
import CyPhOS.CacheManagement.ColoringRuns
import CyPhOS.CacheManagement.EvictRestores
import CyPhOS.Driver.GenericTimer
import CyPhOS.Lib.DeltaList
import CyPhOS.Driver.TimerAgenda
import CyPhOS.Driver.TimerQueues
import CyPhOS.Driver.TimerRefinement
import CyPhOS.Driver.TimerRuns
import CyPhOS.CacheManagement.GenericCacheManagement
import CyPhOS.CacheManagement.CacheRecord
import CyPhOS.CacheManagement.WayExclusivity
import CyPhOS.Lib.Census
import CyPhOS.Sync.Spinlock
import CyPhOS.Sync.Barrier
import CyPhOS.EventHandling.Strategy
import CyPhOS.EventHandling.Dispatcher
import CyPhOS.EventHandling.DispatchOrder
import CyPhOS.EventHandling.Affinity
import CyPhOS.EventHandling.WorkConservation
import CyPhOS.EventHandling.FifoStrategy
import CyPhOS.Kernel.Kernel
import CyPhOS.Kernel.Subscriptions
import CyPhOS.Driver.TimerPlaces
import CyPhOS.Kernel.TimerEvents
import CyPhOS.Interrupts.InterruptDispatcher
import CyPhOS.Interrupts.MaskedInterrupts
import CyPhOS.EventHandling.PriorityOrder
import CyPhOS.CacheManagement.PrefetchLoops
import CyPhOS.CacheManagement.Chunks
import CyPhOS.CacheManagement.Replacement
import CyPhOS.CacheManagement.Residency
import CyPhOS.Lib.DeviceProgram
import CyPhOS.X86.SMPManager
import CyPhOS.X86.ACPI
import CyPhOS.X86.StartUp
import CyPhOS.IMX6.CanBuffer
import CyPhOS.IMX6.MCP2515SPI
import CyPhOS.IMX6.CanReception
import CyPhOS.Benchmarking.ResultContainer
import CyPhOS.Lib.Transactions
import CyPhOS.Lib.SeparatedText
import CyPhOS.Tools.CyphosReader
import CyPhOS.Tools.ImportRuns
import CyPhOS.Tools.ResultImport
import CyPhOS.Lib.BitField
import CyPhOS.Lib.RadixTable
import CyPhOS.X86.X86MMU
import CyPhOS.ARMv7.ARMMMU
import CyPhOS.Driver.CacheableRange
import CyPhOS.IMX6.CanBufferRuns
import CyPhOS.Driver.ConsoleBuffer
import CyPhOS.IMX6.CanTermination
import CyPhOS.IMX6.CanDelivery
import CyPhOS.IMX6.CanTransmit
import CyPhOS.Lib.FieldArray
import CyPhOS.Common.BitManipulation
import CyPhOS.ARMv7.ARMGIC
import CyPhOS.ARMv7.InterruptFields
import CyPhOS.ARMv7.GICInit
import CyPhOS.X86.CGAScreen
import CyPhOS.Common.Strcmp
import CyPhOS.X86.RootPointer
import CyPhOS.Lib.RecordWalk
import CyPhOS.X86.TableWalks
import CyPhOS.X86.Multiboot
import CyPhOS.X86.LegacyKeyboard
import CyPhOS.Interrupts.InterruptTable
import CyPhOS.IMX6.CanEvents
import CyPhOS.X86.CATManager
import CyPhOS.X86.IOAPIC
import CyPhOS.Lib.MatchTimer
import CyPhOS.ARMv7.HardwareTimers
import CyPhOS.Exynos4412.ExynosClockManagement
import CyPhOS.Exynos4412.ExynosUart
import CyPhOS.IMX6.IMX6ClockManagement
import CyPhOS.IMX6.IMX6ECSPI
import CyPhOS.IMX6.SPITransfer
import CyPhOS.CANBenchmark.CANSimpleReceiver
import CyPhOS.Lib.ShiftRegister
import CyPhOS.Common.RandomGenerator
import CyPhOS.Sync.Corelock
import CyPhOS.Common.StreamBuffer
import CyPhOS.Driver.NumberOutput
import CyPhOS.ARMv7.ARMV7CacheControl
import CyPhOS.TestComponents.UARTConsole
import CyPhOS.Driver.SerialInput
import CyPhOS.CacheManagement.WayUse
import CyPhOS.System.ActivateOSC
import CyPhOS.System.ActivationProgress
import CyPhOS.EventHandling.SchedulerRefinement
import CyPhOS.Baremetal.CATTest
import CyPhOS.Baremetal.CoherencyTest
import CyPhOS.Baremetal.SpinlockTest
import CyPhOS.EventHandling.ScanOrder
import CyPhOS.CacheManagement.L2Contents
import CyPhOS.Lib.InterruptedCode
import CyPhOS.X86.InterruptEntry
import CyPhOS.ARMv7.ExceptionEntry
import CyPhOS.CANBenchmark.LostMessages
import CyPhOS.CANBenchmark.ReceiveBuffer
