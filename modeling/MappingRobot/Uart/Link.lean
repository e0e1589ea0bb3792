import MappingRobot.Uart.Driver

/-!
# Two ends of a line

The line of one UART to another, with a delay of at least one clock, as the synchroniser of the
receiver has. What `bluetoothIRQ` gets at one end is what `send` writes at the other.
-/

namespace MappingRobot

open LabelledRun SerialLine

namespace Driver

variable {s t : Driver} {ks js : List Clock} {n : ℕ}

end Driver

end MappingRobot
