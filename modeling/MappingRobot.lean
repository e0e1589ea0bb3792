import MappingRobot.Board
import MappingRobot.Board.Commands
import MappingRobot.Board.DeadMan
import MappingRobot.Board.Reports
import MappingRobot.DcDriver
import MappingRobot.DeadMan
import MappingRobot.Delivery
import MappingRobot.Footprint
import MappingRobot.Header
import MappingRobot.Heap
import MappingRobot.I2C.Bus
import MappingRobot.I2C.Discipline
import MappingRobot.I2C.Master
import MappingRobot.I2C.Registers
import MappingRobot.I2C.Sampling
import MappingRobot.I2C.Split
import MappingRobot.I2C.Stretching
import MappingRobot.I2C.Wires
import MappingRobot.Kernel
import MappingRobot.Kernel.Consistent
import MappingRobot.Kernel.DeadMan
import MappingRobot.Kernel.Messages
import MappingRobot.Kernel.Pending
import MappingRobot.Kernel.Program
import MappingRobot.Kernel.Refinement
import MappingRobot.Kernel.Schedule
import MappingRobot.Kernel.Timing
import MappingRobot.Library.Alternation
import MappingRobot.Library.ByteBus
import MappingRobot.Library.ClockDivider
import MappingRobot.Library.Delimited
import MappingRobot.Library.Observation
import MappingRobot.Library.Pool
import MappingRobot.Library.PrioritySet
import MappingRobot.Library.Repetition
import MappingRobot.Library.RingBuffer
import MappingRobot.Library.Run
import MappingRobot.Library.SerialLine
import MappingRobot.Library.Stuffing
import MappingRobot.Library.Transducer
import MappingRobot.Library.TwoWire
import MappingRobot.Lidar
import MappingRobot.Motor
import MappingRobot.Os
import MappingRobot.Ownership
import MappingRobot.PacketBuffer
import MappingRobot.PacketBuffer.Push
import MappingRobot.Ranging
import MappingRobot.Receive
import MappingRobot.RoundTrip
import MappingRobot.Send
import MappingRobot.SendQueue
import MappingRobot.SendTask
import MappingRobot.Stepper
import MappingRobot.Stepper.Move
import MappingRobot.Stepper.Rate
import MappingRobot.Stepper.Travel
import MappingRobot.Sweep
import MappingRobot.System
import MappingRobot.Timer.Driver
import MappingRobot.Timer.Registers
import MappingRobot.Uart.Driver
import MappingRobot.Uart.Link
import MappingRobot.Uart.Overrun
import MappingRobot.Uart.Receiver
import MappingRobot.Uart.Registers
import MappingRobot.Uart.Transmitter
