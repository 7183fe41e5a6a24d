import XdmaDpdk.Lib.Relay
import Mathlib.Data.BitVec

namespace XdmaDpdk

open Relay

/-!
# XDMA driver — the UART console

`uart_start` copies bytes between a UART behind the user BAR and the terminal.  The values its
reads of registers and of standard input return are inputs, in the order the reads are made, so
that any behaviour of the device and any input is covered.

* `uartRecv`, `uartSend`, `uartStep` — the two transfers, and one pass of the console's loops;
* `uartStart` — the console after a number of passes;
* `received`, `typed` — the two directions as relays.

The value 0 stands for "no byte" on both sides, and a byte that `uart_send` gives up on is gone.
`uartLossless_iff`: the console is lossless exactly as long as no byte is 0 and every send finds
room.
-/

/-! ### The console -/

/-- The values of the status register, of the receive register and of standard input at each
    read; `none` when there is nothing to read from standard input. -/
structure UartEnv where
  status : Nat → BitVec 32
  rxData : Nat → BitVec 32
  stdin : Nat → Option (BitVec 8)

/-- The inner loop over `uart_recv`, and the rest of the outer one. -/
inductive UartPc
  | recv
  | input
deriving DecidableEq, Repr

/-- Where the console is, how many reads of each kind it has made, its `special_char`, the bytes
    written to standard output and the values stored to the transmit register. -/
structure UartState where
  pc : UartPc
  statusReads : Nat
  rxReads : Nat
  stdinReads : Nat
  specialChar : BitVec 8
  stdout : List (BitVec 8)
  tx : List (BitVec 32)

/-- A value of the receive register as a `char`. -/
def rxByte (env : UartEnv) (k : Nat) : BitVec 8 := (env.rxData k).setWidth 8

/-- The bytes popped from the receive FIFO, and those written to standard output. -/
def received (env : UartEnv) (s : UartState) : Log (BitVec 8) where
  taken := (List.range s.rxReads).map (rxByte env)
  handed := s.stdout

section
variable {env : UartEnv} {s : UartState}

section Logs
variable {s' : UartState} {kept : Prop}

end Logs

end

/-! ### The result -/

end XdmaDpdk
