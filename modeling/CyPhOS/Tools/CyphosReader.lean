import Mathlib.Algebra.Group.Nat.Defs
import CyPhOS.Lib.SeparatedText
import CyPhOS.Lib.Transactions

/-! # The result importer

`CyphosReader::startReading` reads a log line by line, creates a table for the first line that names
columns and inserts a row for every line with as many values. SQLite is not part of the sources:
`sqlite` is what it makes of the text of a statement other than those that begin and commit a
transaction, `none` when it refuses it. Of transactions it is assumed that they follow `Store`.
-/

namespace CyPhOS

open SeparatedText TransactionStore

abbrev Text := List Char

/-- The statements that the reader executes inside and outside of transactions. -/
inductive Statement where
  | createTable (columns : List Text)
  | insert (columns types values : List Text)
  deriving DecidableEq, Repr

namespace CyphosReader

/-- Only lines with this tag are used for parsing. -/
def containerTAG : Text := "RESULT".toList

def c_TransactionSize : Nat := 500

/-- A column of another type gets no text at all. -/
def valueText (type value : Text) : Text :=
  if type = "integer".toList then value
  else if type = "text".toList then '"' :: value ++ ['"']
  else []

/-- The text of a statement. -/
def sql (m_ExperimentName : Text) : Op Statement → Text
  | .start => "BEGIN TRANSACTION;".toList
  | .commit => "COMMIT TRANSACTION;".toList
  | .write (.createTable columns) =>
    "CREATE TABLE IF NOT EXISTS \"".toList ++ m_ExperimentName ++ "\" (".toList ++
      [','].intercalate columns ++ ");".toList
  | .write (.insert columns types values) =>
    "INSERT INTO \"".toList ++ m_ExperimentName ++ "\" (".toList ++ [','].intercalate columns ++
      ") VALUES (".toList ++ ", ".toList.intercalate (List.zipWith valueText types values) ++
      ");".toList

/-- The open database, with the statements that have been executed on it. -/
structure Database (Content : Type) where
  store : Store Content
  executed : List (Op Statement)

/-- What is kept between two lines. -/
structure Reader (Content : Type) where
  lineCount : Nat
  validCount : Nat
  columns : List Text
  types : List Text
  transactionCount : Nat
  m_DatabaseInterface : Database Content

/-- The type of a column is what follows its first space, the whole column if it has none. -/
def columnType (column : Text) : Text :=
  if ' ' ∈ column then (column.dropWhile (· ≠ ' ')).drop 1 else column

def columnName (column : Text) : Text := column.takeWhile (· ≠ ' ')

/-- The position is kept in an `int` before it is compared with `npos`. -/
def foundBegin (line : Text) : Bool :=
  match find "RESULT BEGIN".toList line with
  | some resultBegin_POS => resultBegin_POS % 2 ^ 32 ≠ 2 ^ 32 - 1
  | none => false

/-- The pieces of a line that are separated by semicolons, without what stands in front of the last
colon. -/
def lineFields (line : Text) : List Text := fields ';' (afterLast ':' line)

section

variable {Content : Type} (sqlite : Text → Content → Option Content) (m_ExperimentName : Text)

/-- SQLite sees the text up to the first null character. -/
def perform (statement : Statement) : Content → Option Content :=
  sqlite ((sql m_ExperimentName (.write statement)).takeWhile (· ≠ '\x00'))

/-- The result is whether it is `SQLITE_OK`. -/
def executeStatement (database : Database Content) (statement : Op Statement) :
    Bool × Database Content :=
  let result := database.store.step (perform sqlite m_ExperimentName) statement
  (result.1, ⟨result.2, database.executed ++ [statement]⟩)

/-- The columns that a line names. `error` is the exit of the program when there is no table. -/
def parseColumns (reader : Reader Content) (line : Text) :
    Except (Database Content) (Reader Content) :=
  let columns := lineFields line
  let result := executeStatement sqlite m_ExperimentName reader.m_DatabaseInterface
    (.write (.createTable columns))
  if result.1 then
    .ok { reader with
      types := reader.types ++ columns.map columnType
      columns := columns.map columnName
      m_DatabaseInterface := result.2 }
  else .error result.2

def beginTransaction (reader : Reader Content) : Reader Content :=
  if reader.transactionCount = 0 then
    { reader with
      transactionCount := 1
      m_DatabaseInterface :=
        (executeStatement sqlite m_ExperimentName reader.m_DatabaseInterface .start).2 }
  else reader

def insertValues (reader : Reader Content) (values : List Text) : Reader Content :=
  { reader with
    validCount := reader.validCount + 1
    transactionCount := reader.transactionCount + 1
    m_DatabaseInterface := (executeStatement sqlite m_ExperimentName reader.m_DatabaseInterface
      (.write (.insert reader.columns reader.types values))).2 }

def commitTransaction (reader : Reader Content) : Reader Content :=
  if reader.transactionCount = c_TransactionSize then
    { reader with
      transactionCount := 0
      m_DatabaseInterface :=
        (executeStatement sqlite m_ExperimentName reader.m_DatabaseInterface .commit).2 }
  else reader

/-- One round of the loop of `startReading`. -/
def readLine (reader : Reader Content) (line : Text) :
    Except (Database Content) (Reader Content) :=
  if foundBegin line then
    -- Columns are only parsed once.
    if reader.columns.length = 0 then parseColumns sqlite m_ExperimentName reader line
    else .ok reader
  else if 0 < reader.columns.length ∧ (find containerTAG line).isSome then
    let reader := beginTransaction sqlite m_ExperimentName reader
    let values := lineFields line
    -- A line with another number of values is skipped, the transaction has begun all the same.
    if values.length ≠ reader.columns.length then .ok reader
    else
      let reader := commitTransaction sqlite m_ExperimentName
        (insertValues sqlite m_ExperimentName reader values)
      .ok { reader with lineCount := reader.lineCount + 1 }
  else .ok { reader with lineCount := reader.lineCount + 1 }

/-- The constructor opens the database, which holds `file`. -/
def opened (file : Content) : Reader Content :=
  ⟨0, 0, [], [], 0, ⟨⟨file, none⟩, []⟩⟩

/-- The loop reads until the end of the stream is met: what follows the last line break is a line as
well, even when it is empty. `error` is the exit of the program. -/
def startReading (file : Content) (input : Text) : Except (Database Content) (Reader Content) :=
  (input.splitOn '\n').foldlM (readLine sqlite m_ExperimentName) (opened file)

end

end CyphosReader

end CyPhOS
