import LinuxOddsAndEnds.Foundation.Machine
import LinuxOddsAndEnds.Foundation.Memory
import LinuxOddsAndEnds.Foundation.MaskedIndex
import LinuxOddsAndEnds.Foundation.BoundedFifo
import LinuxOddsAndEnds.Foundation.Numbering
import LinuxOddsAndEnds.Foundation.Painter
import LinuxOddsAndEnds.Foundation.History
import LinuxOddsAndEnds.Foundation.Overwrite
import LinuxOddsAndEnds.Foundation.Draining
import LinuxOddsAndEnds.Foundation.Spacing
import LinuxOddsAndEnds.Foundation.Resources
import LinuxOddsAndEnds.Foundation.Interrupts
import LinuxOddsAndEnds.Foundation.CalmRuns
import LinuxOddsAndEnds.Foundation.Callbacks
import LinuxOddsAndEnds.Foundation.Text
import LinuxOddsAndEnds.Foundation.Throughout
import LinuxOddsAndEnds.Foundation.Completion
import LinuxOddsAndEnds.Foundation.IntrusiveList
import LinuxOddsAndEnds.Ring.CircBufferPow2
import LinuxOddsAndEnds.Ring.CircBufferPow2Contents
import LinuxOddsAndEnds.Ring.CircBufferPow2Refinement
import LinuxOddsAndEnds.Ring.CircBufferPow2Init
import LinuxOddsAndEnds.Ring.CircBufferPow2ToEnd
import LinuxOddsAndEnds.Ring.ConsumerSteps
import LinuxOddsAndEnds.Ring.SingleProducerConsumer
import LinuxOddsAndEnds.Ring.CircBufferMod2
import LinuxOddsAndEnds.Ring.CircBufferMod2Contents
import LinuxOddsAndEnds.Ring.CircBufferMod2Refinement
import LinuxOddsAndEnds.Ring.CircBufferMod2Slots
import LinuxOddsAndEnds.Oled.I2cOledGlobal
import LinuxOddsAndEnds.Oled.GpioOledIrq
import LinuxOddsAndEnds.Oled.PipelineInvariant
import LinuxOddsAndEnds.Oled.EventDelivery
import LinuxOddsAndEnds.Oled.PollRead
import LinuxOddsAndEnds.Oled.PollWakeup
import LinuxOddsAndEnds.Oled.CallersRefinement
import LinuxOddsAndEnds.Oled.CallsSettle
import LinuxOddsAndEnds.Oled.ReadAccounting
import LinuxOddsAndEnds.Oled.Debounce
import LinuxOddsAndEnds.Oled.DriverLifecycle
import LinuxOddsAndEnds.Oled.ModuleLoad
import LinuxOddsAndEnds.Oled.GpioLedger
import LinuxOddsAndEnds.Oled.FrameBuffer
import LinuxOddsAndEnds.Oled.BufferBits
import LinuxOddsAndEnds.Oled.I2cOled
import LinuxOddsAndEnds.Oled.Drawing
import LinuxOddsAndEnds.Oled.PixelLaws
import LinuxOddsAndEnds.Oled.Painting
import LinuxOddsAndEnds.Oled.CommandSafety
import LinuxOddsAndEnds.Oled.ButtonProcessing
import LinuxOddsAndEnds.Oled.ShowRegmap
import LinuxOddsAndEnds.Oled.ProbeRegmap
import LinuxOddsAndEnds.Oled.BusInterleaving
import LinuxOddsAndEnds.Oled.RecordReading
import LinuxOddsAndEnds.Oled.UserSnapshot
import LinuxOddsAndEnds.Rpi3.GpioIrq
import LinuxOddsAndEnds.Rpi3.DriverLifecycle
import LinuxOddsAndEnds.Rpi3.ReadAccounting
import LinuxOddsAndEnds.Rpi3.StrandedEvents
import LinuxOddsAndEnds.Rpi3.FabricatedEvents
import LinuxOddsAndEnds.Rpi3.DutyCycle
import LinuxOddsAndEnds.Rpi3.KeyEntry
import LinuxOddsAndEnds.Rpi3.ClientDriver
import LinuxOddsAndEnds.Rpi3.DutyThread
import LinuxOddsAndEnds.Ipc.SharedMem
import LinuxOddsAndEnds.Ipc.SemaphoreTokens
import LinuxOddsAndEnds.Ipc.Handshake
import LinuxOddsAndEnds.Ipc.Sessions
import LinuxOddsAndEnds.Ipc.Interruption
import LinuxOddsAndEnds.Ipc.FileLock
import LinuxOddsAndEnds.Ipc.RecordIntegrity
import LinuxOddsAndEnds.Ipc.PipeUnnamed
import LinuxOddsAndEnds.Ipc.PipeShutdown
import LinuxOddsAndEnds.Ipc.PipeCompletion
import LinuxOddsAndEnds.Ipc.PipeNamed
import LinuxOddsAndEnds.Ipc.PipeNamedDelivery
import LinuxOddsAndEnds.Ipc.PipeNamedCompletion
import LinuxOddsAndEnds.Ipc.SharedMemKeys
import LinuxOddsAndEnds.Ipc.SharedMemCompletion
import LinuxOddsAndEnds.Ubuntu.LinkedList
import LinuxOddsAndEnds.Ubuntu.WorkQueues
import LinuxOddsAndEnds.Ubuntu.NodeLifecycle
import LinuxOddsAndEnds.Ubuntu.DisorderlyRuns
import LinuxOddsAndEnds.Ubuntu.MemoryMmap
import LinuxOddsAndEnds.Ubuntu.MemoryClient
import LinuxOddsAndEnds.Ubuntu.MemoryDesk
import LinuxOddsAndEnds.Ubuntu.MemoryClientRefinement
import LinuxOddsAndEnds.Ubuntu.MemoryInit
import LinuxOddsAndEnds.Rpi4.IioCanonicalMoc
import LinuxOddsAndEnds.Rpi4.DmaMoc
import LinuxOddsAndEnds.Rpi4.DmaMappings
import LinuxOddsAndEnds.Rpi4.DmaWriters
import LinuxOddsAndEnds.Rpi4.DmaSerialWrites
import LinuxOddsAndEnds.Ubuntu.CanonicalModule
import LinuxOddsAndEnds.Ubuntu.Demonstrations
import LinuxOddsAndEnds.Ubuntu.WaitQueues
