import CyPhOS.Tools.CyphosReader

/-! # What an import leaves in the database

`insertions` are the rows that a log asks for, one for each valid result line. A run of
`startReading` executes an INSERT for each of them, in batches of `c_TransactionSize - 1` between a
BEGIN and a COMMIT (`Booked`, `Ledger`); the last batch is only committed when it is complete, and
whether SQLite has carried out an INSERT is not looked at. So every result is stored if and only if
the number of valid result lines is a multiple of the batch size, the text of each INSERT holds the
values and SQLite accepts it (`startReading_stores`). Of the rows the file keeps those of the complete
batches (`startReading_keeps`).
-/

namespace CyPhOS

open SeparatedText TransactionStore

def Statement.IsInsert : Statement → Prop
  | .createTable _ => False
  | .insert _ _ _ => True

instance : DecidablePred Statement.IsInsert
  | .createTable _ => .isFalse id
  | .insert _ _ _ => .isTrue trivial

namespace CyphosReader

/-! ### The texts of values -/

def isBlank (c : Char) : Bool := [' ', '\t', '\n', '\x0c', '\r'].contains c

def trim (s : Text) : Text := ((s.dropWhile isBlank).reverse.dropWhile isBlank).reverse

def withoutSign : Text → Text
  | '+' :: s | '-' :: s => s
  | s => s

def IsDigits (s : Text) : Prop := s ≠ [] ∧ s.all Char.isDigit

instance {s : Text} : Decidable (IsDigits s) := inferInstanceAs (Decidable (_ ∧ _))

def isHexDigit (c : Char) : Bool := c.isDigit || "abcdefABCDEF".toList.contains c

def IsHex (s : Text) : Prop :=
  (['0', 'x'] <+: s ∨ ['0', 'X'] <+: s) ∧ s.drop 2 ≠ [] ∧ (s.drop 2).all isHexDigit

instance {s : Text} : Decidable (IsHex s) := inferInstanceAs (Decidable (_ ∧ _))

def isExponent (c : Char) : Bool := c = 'e' || c = 'E'

/-- At most one point, and an exponent. -/
def IsDecimal (s : Text) : Prop :=
  IsDigits ((s.takeWhile (!isExponent ·)).erase '.') ∧
    (s.dropWhile (!isExponent ·) = [] ∨ IsDigits (withoutSign (s.dropWhile (!isExponent ·)).tail))

instance {s : Text} : Decidable (IsDecimal s) := inferInstanceAs (Decidable (_ ∧ _))

/-- A number as SQLite reads it. -/
def IsNumber (s : Text) : Prop := IsHex (withoutSign (trim s)) ∨ IsDecimal (withoutSign (trim s))

instance {s : Text} : Decidable (IsNumber s) := inferInstanceAs (Decidable (_ ∨ _))

/-- A value is printed as the type of its column says. -/
def Fits (type value : Text) : Prop :=
  '\x00' ∉ value ∧
    (type = "integer".toList ∧ IsNumber value ∨ type = "text".toList ∧ '"' ∉ value)

instance {type value : Text} : Decidable (Fits type value) := inferInstanceAs (Decidable (_ ∧ _))

-- a column of another type has no text, and a comment would swallow the rest of the statement
example : ¬ Fits "real".toList "1.5".toList := by decide

example : ¬ Fits "integer".toList "1) --".toList := by decide

/-- A line behind the one that names the columns, with the tag of the results and a value for each
column. -/
def ValidResult (columns : List Text) (line : Text) : Prop :=
  columns ≠ [] ∧ ¬ foundBegin line ∧ (find containerTAG line).isSome ∧
    (lineFields line).length = columns.length

instance {columns : List Text} {line : Text} : Decidable (ValidResult columns line) :=
  inferInstanceAs (Decidable (_ ∧ _))

/-- Only the first line that names columns counts. -/
def nextColumns (columns : List Text) (line : Text) : List Text :=
  if foundBegin line ∧ columns = [] then lineFields line else columns

/-- The row that holds the values of a line under the columns of the table. -/
def insertion (columns values : List Text) : Statement :=
  .insert (columns.map columnName) (columns.map columnType) values

def lineInsertions (columns : List Text) (line : Text) : List Statement :=
  if ValidResult columns line then [insertion columns (lineFields line)] else []

def insertionsFrom : List Text → List Text → List Statement
  | _, [] => []
  | columns, line :: lines =>
    lineInsertions columns line ++ insertionsFrom (nextColumns columns line) lines

/-- The rows for the valid result lines of a log, in their order. -/
def insertions (input : Text) : List Statement := insertionsFrom [] (input.splitOn '\n')

/-- The rows, and the tables for the lines that name columns. -/
def lineStatements (columns : List Text) (line : Text) : List Statement :=
  if foundBegin line ∧ columns = [] then [.createTable (lineFields line)]
  else lineInsertions columns line

def statementsFrom : List Text → List Text → List Statement
  | _, [] => []
  | columns, line :: lines =>
    lineStatements columns line ++ statementsFrom (nextColumns columns line) lines

def statements (input : Text) : List Statement := statementsFrom [] (input.splitOn '\n')

section

variable {Content : Type} (sqlite : Text → Content → Option Content) (m_ExperimentName : Text)

/-- SQLite creates the table whenever a line names its columns first. -/
def TablesCreated : Content → List Text → List Text → Prop
  | _, _, [] => True
  | c, columns, line :: lines =>
    if foundBegin line ∧ columns = [] then
      ∃ c' ∈ perform sqlite m_ExperimentName (.createTable (lineFields line)) c,
        TablesCreated c' (lineFields line) lines
    else TablesCreated c columns lines

/-- The statements that have been executed: tables, batches that are committed and a transaction
that is open. -/
structure Account where
  tables : List Statement
  batches : List (List Statement)
  pending : Option (List Statement)

def Account.inserted (a : Account) : List Statement := a.batches.flatten ++ a.pending.getD []

/-- The account agrees with the database. -/
structure Booked (file : Content) (database : Database Content) (a : Account) : Prop where
  executed : database.executed = log a.tables a.batches a.pending
  store : database.store =
    (Store.mk file none).run (perform sqlite m_ExperimentName) database.executed
  tables : ∀ s ∈ a.tables, ¬ s.IsInsert
  inserted : ∀ s ∈ a.inserted, s.IsInsert

/-- The account agrees with the reader, whose table has the columns `columns`. -/
structure Ledger (file : Content) (reader : Reader Content) (columns : List Text) (a : Account) :
    Prop extends Booked sqlite m_ExperimentName file reader.m_DatabaseInterface a where
  names : reader.columns = columns.map columnName
  types : reader.types = columns.map columnType
  count : reader.transactionCount = (a.pending.map fun es => es.length + 1).getD 0
  full : ∀ b ∈ a.batches, b.length = c_TransactionSize - 1
  valid : reader.validCount = a.inserted.length
  noTable : columns = [] → a.batches = [] ∧ a.pending = none

end

/-! ### The texts of the INSERTs -/

section

variable {Content : Type} {sqlite : Text → Content → Option Content} {m_ExperimentName : Text}
  {file : Content} {database : Database Content} {reader : Reader Content} {a : Account}
  {columns lines : List Text} {line input : Text}

namespace Booked

theorem opened : Booked sqlite m_ExperimentName file ⟨⟨file, none⟩, []⟩ ⟨[], [], none⟩ where
  executed := rfl
  store := rfl
  tables := List.forall_mem_nil _
  inserted := List.forall_mem_nil _

/-- What is executed is added to the account. -/
theorem execute {a' : Account} {statement : Op Statement}
    (h : Booked sqlite m_ExperimentName file database a)
    (hlog : log a.tables a.batches a.pending ++ [statement] = log a'.tables a'.batches a'.pending)
    (htables : ∀ s ∈ a'.tables, ¬ s.IsInsert) (hinserted : ∀ s ∈ a'.inserted, s.IsInsert) :
    Booked sqlite m_ExperimentName file
      (executeStatement sqlite m_ExperimentName database statement).2 a' where
  executed := by
    show database.executed ++ [statement] = _
    rw [h.executed, hlog]
  store := by
    show (database.store.step (perform sqlite m_ExperimentName) statement).2 = _
    rw [executeStatement, Store.run_append, ← h.store]
    rfl
  tables := htables
  inserted := hinserted

theorem store_eq (h : Booked sqlite m_ExperimentName file database a) :
    database.store =
      let kept := (a.tables ++ a.batches.flatten).foldl
        (applied (perform sqlite m_ExperimentName)) file
      ⟨kept, a.pending.map fun es => es.foldl (applied (perform sqlite m_ExperimentName)) kept⟩ := by
  rw [h.store, h.executed, Store.run_log]

end Booked

namespace Ledger

theorem opened : Ledger sqlite m_ExperimentName file (opened file) [] ⟨[], [], none⟩ where
  toBooked := Booked.opened
  names := rfl
  types := rfl
  count := rfl
  full := List.forall_mem_nil _
  valid := rfl
  noTable _ := ⟨rfl, rfl⟩

theorem beginTransaction (h : Ledger sqlite m_ExperimentName file reader columns a)
    (hcolumns : columns ≠ []) :
    Ledger sqlite m_ExperimentName file (beginTransaction sqlite m_ExperimentName reader) columns
      { a with pending := some (a.pending.getD []) } := by
  cases hpending : a.pending with
  | none =>
    have hcount : reader.transactionCount = 0 := by
      rw [h.count, hpending]
      rfl
    have hsame : ({ a with pending := some [] } : Account).inserted = a.inserted := by
      rw [Account.inserted, Account.inserted, hpending]
      rfl
    rw [CyphosReader.beginTransaction, if_pos hcount]
    exact {
      toBooked := h.toBooked.execute (by rw [hpending]; exact log_start) h.tables
        (hsame ▸ h.inserted)
      names := h.names
      types := h.types
      count := rfl
      full := h.full
      valid := h.valid.trans (congrArg List.length hsame.symm)
      noTable := fun hnil => absurd hnil hcolumns }
  | some es =>
    have hne : ¬ reader.transactionCount = 0 := by
      rw [h.count, hpending]
      exact Nat.succ_ne_zero _
    rw [CyphosReader.beginTransaction, if_neg hne, Option.getD_some, ← hpending]
    exact h

/-- A row is inserted into the open transaction. -/
theorem insertValues {es : List Statement}
    (h : Ledger sqlite m_ExperimentName file reader columns { a with pending := some es })
    (hcolumns : columns ≠ []) (values : List Text) :
    Ledger sqlite m_ExperimentName file (insertValues sqlite m_ExperimentName reader values) columns
      { a with pending := some (es ++ [insertion columns values]) } := by
  let row := insertion columns values
  have hrow : Statement.insert reader.columns reader.types values = row := by
    rw [h.names, h.types]
    rfl
  have hadded : ({ a with pending := some (es ++ [row]) } : Account).inserted =
      ({ a with pending := some es } : Account).inserted ++ [row] :=
    (List.append_assoc _ _ _).symm
  have hinserted : ∀ s ∈ ({ a with pending := some (es ++ [row]) } : Account).inserted,
      s.IsInsert := by
    intro s hs
    rw [hadded] at hs
    rcases List.mem_append.1 hs with hs | hs
    · exact h.inserted s hs
    · obtain rfl := List.mem_singleton.1 hs
      trivial
  exact {
    toBooked := h.toBooked.execute (by rw [hrow]; exact log_write) h.tables hinserted
    names := h.names
    types := h.types
    count := by
      show reader.transactionCount + 1 = (es ++ [row]).length + 1
      rw [h.count, List.length_append]
      rfl
    full := h.full
    valid := by
      show reader.validCount + 1 = _
      rw [h.valid, hadded, List.length_append]
      rfl
    noTable := fun hnil => absurd hnil hcolumns }

/-- A transaction is committed when it is complete. -/
theorem commitTransaction (h : Ledger sqlite m_ExperimentName file reader columns a)
    (hcolumns : columns ≠ []) (hroom : reader.transactionCount ≤ c_TransactionSize) :
    ∃ a', Ledger sqlite m_ExperimentName file (commitTransaction sqlite m_ExperimentName reader)
        columns a' ∧ a'.inserted = a.inserted ∧ a'.tables = a.tables ∧
      (CyphosReader.commitTransaction sqlite m_ExperimentName reader).transactionCount <
        c_TransactionSize := by
  by_cases hcomplete : reader.transactionCount = c_TransactionSize
  · cases hpending : a.pending with
    | none =>
      have hzero : reader.transactionCount = 0 := by
        rw [h.count, hpending]
        rfl
      rw [hzero] at hcomplete
      exact absurd hcomplete (by decide)
    | some es =>
      have hes : es.length = c_TransactionSize - 1 := by
        rw [← hcomplete, h.count, hpending]
        rfl
      let a' : Account := { a with batches := a.batches ++ [es], pending := none }
      have hsame : a'.inserted = a.inserted := by
        simp [a', Account.inserted, hpending]
      refine ⟨a', ?_, hsame, rfl, ?_⟩
      · rw [CyphosReader.commitTransaction, if_pos hcomplete]
        exact {
          toBooked := h.toBooked.execute (by rw [hpending]; exact log_commit) h.tables
            (hsame ▸ h.inserted)
          names := h.names
          types := h.types
          count := rfl
          full := by
            intro b hb
            rcases List.mem_append.1 hb with hb | hb
            · exact h.full b hb
            · obtain rfl := List.mem_singleton.1 hb
              exact hes
          valid := h.valid.trans (congrArg List.length hsame.symm)
          noTable := fun hnil => absurd hnil hcolumns }
      · rw [CyphosReader.commitTransaction, if_pos hcomplete]
        exact (by decide : 0 < c_TransactionSize)
  · rw [CyphosReader.commitTransaction, if_neg hcomplete]
    exact ⟨a, h, rfl, rfl, Nat.lt_of_le_of_ne hroom hcomplete⟩

/-! ### Reading lines -/

/-- A line behind the one that names the columns. -/
theorem readLine (h : Ledger sqlite m_ExperimentName file reader columns a)
    (hcolumns : columns ≠ []) (hroom : reader.transactionCount < c_TransactionSize) (line : Text) :
    ∃ reader' a', readLine sqlite m_ExperimentName reader line = .ok reader' ∧
      Ledger sqlite m_ExperimentName file reader' columns a' ∧
      a'.inserted = a.inserted ++ lineInsertions columns line ∧ a'.tables = a.tables ∧
      reader'.transactionCount < c_TransactionSize := by
  have hlength : reader.columns.length = columns.length := by rw [h.names, List.length_map]
  have hpos : 0 < reader.columns.length := by
    rw [hlength]
    exact List.length_pos_iff.2 hcolumns
  unfold CyphosReader.readLine
  by_cases hbegin : foundBegin line
  · have hinvalid : ¬ ValidResult columns line := fun hvalid => hvalid.2.1 hbegin
    rw [if_pos hbegin, if_neg (by omega)]
    exact ⟨reader, a, rfl, h, by rw [lineInsertions, if_neg hinvalid, List.append_nil], rfl, hroom⟩
  rw [if_neg hbegin]
  by_cases htag : (find containerTAG line).isSome
  · rw [if_pos ⟨hpos, htag⟩]
    have hbegun := h.beginTransaction hcolumns
    have hbegunRoom : (CyphosReader.beginTransaction sqlite m_ExperimentName reader).transactionCount <
        c_TransactionSize := by
      unfold CyphosReader.beginTransaction
      split
      · exact (by decide : 1 < c_TransactionSize)
      · exact hroom
    have hbegunLength : (CyphosReader.beginTransaction sqlite m_ExperimentName reader).columns.length =
        columns.length := by rw [hbegun.names, List.length_map]
    by_cases hvalues : (lineFields line).length = columns.length
    · have hvalid : ValidResult columns line := ⟨hcolumns, hbegin, htag, hvalues⟩
      obtain ⟨a', hledger, hinserted, htables, hcommitRoom⟩ :=
        (hbegun.insertValues hcolumns (lineFields line)).commitTransaction hcolumns hbegunRoom
      rw [if_neg (by rw [hbegunLength, not_not]; exact hvalues)]
      refine ⟨_, a', rfl, { hledger with }, ?_, htables, hcommitRoom⟩
      rw [hinserted, lineInsertions, if_pos hvalid, Account.inserted, Account.inserted,
        Option.getD_some, List.append_assoc]
    · have hinvalid : ¬ ValidResult columns line := fun hvalid => hvalues hvalid.2.2.2
      rw [if_pos (by rw [hbegunLength]; exact hvalues)]
      refine ⟨_, _, rfl, hbegun, ?_, rfl, hbegunRoom⟩
      rw [lineInsertions, if_neg hinvalid, List.append_nil]
      rfl
  · have hinvalid : ¬ ValidResult columns line := fun hvalid => htag hvalid.2.2.1
    rw [if_neg fun hand => htag hand.2]
    refine ⟨_, a, rfl, { h with }, ?_, rfl, hroom⟩
    rw [lineInsertions, if_neg hinvalid, List.append_nil]

theorem readLines (h : Ledger sqlite m_ExperimentName file reader columns a)
    (hcolumns : columns ≠ []) (hroom : reader.transactionCount < c_TransactionSize) :
    ∃ reader' a', lines.foldlM (CyphosReader.readLine sqlite m_ExperimentName) reader = .ok reader' ∧
      Ledger sqlite m_ExperimentName file reader' columns a' ∧
      a'.inserted = a.inserted ++ insertionsFrom columns lines ∧ a'.tables = a.tables ∧
      reader'.transactionCount < c_TransactionSize := by
  induction lines generalizing reader a with
  | nil => exact ⟨reader, a, rfl, h, (List.append_nil _).symm, rfl, hroom⟩
  | cons line lines ih =>
    obtain ⟨reader₁, a₁, hline, h₁, hinserted₁, htables₁, hroom₁⟩ := h.readLine hcolumns hroom line
    obtain ⟨reader', a', hlines, h', hinserted, htables, hroom'⟩ := ih h₁ hroom₁
    refine ⟨reader', a', ?_, h', ?_, htables.trans htables₁, hroom'⟩
    · rw [List.foldlM_cons, hline]
      exact hlines
    · have hnext : nextColumns columns line = columns := if_neg fun hand => hcolumns hand.2
      rw [hinserted, hinserted₁, insertionsFrom, hnext, List.append_assoc]

/-! ### Before there is a table -/

theorem inserted_eq_nil (h : Ledger sqlite m_ExperimentName file reader [] a) : a.inserted = [] := by
  obtain ⟨hbatches, hpending⟩ := h.noTable rfl
  rw [Account.inserted, hbatches, hpending]
  rfl

theorem store_eq (h : Ledger sqlite m_ExperimentName file reader [] a) :
    reader.m_DatabaseInterface.store = ⟨reader.m_DatabaseInterface.store.file, none⟩ := by
  rw [h.toBooked.store_eq, (h.noTable rfl).2]
  rfl

/-- The statement that creates a table is executed outside of transactions. -/
theorem createTable (h : Ledger sqlite m_ExperimentName file reader [] a) (columns : List Text) :
    Booked sqlite m_ExperimentName file
      (executeStatement sqlite m_ExperimentName reader.m_DatabaseInterface
        (.write (.createTable columns))).2 ⟨a.tables ++ [.createTable columns], [], none⟩ := by
  obtain ⟨hbatches, hpending⟩ := h.noTable rfl
  refine h.toBooked.execute ?_ ?_ (List.forall_mem_nil _)
  · rw [hbatches, hpending]
    exact log_single
  · intro s hs
    rcases List.mem_append.1 hs with hs | hs
    · exact h.tables s hs
    · obtain rfl := List.mem_singleton.1 hs
      exact id

theorem readLine_created (h : Ledger sqlite m_ExperimentName file reader [] a)
    (hbegin : foundBegin line) {c : Content}
    (hcreate : perform sqlite m_ExperimentName (.createTable (lineFields line))
      reader.m_DatabaseInterface.store.file = some c) :
    ∃ reader' a', CyphosReader.readLine sqlite m_ExperimentName reader line = .ok reader' ∧
      Ledger sqlite m_ExperimentName file reader' (lineFields line) a' ∧ a'.inserted = [] ∧
      a'.tables = a.tables ++ [.createTable (lineFields line)] ∧
      reader'.m_DatabaseInterface.store.file = c ∧
      reader'.transactionCount = reader.transactionCount := by
  have hnames : reader.columns.length = 0 := congrArg List.length h.names
  have htypes : reader.types = [] := h.types
  have hcount : reader.transactionCount = 0 := by
    rw [h.count, (h.noTable rfl).2]
    rfl
  have hvalid : reader.validCount = 0 := by
    rw [h.valid, h.inserted_eq_nil]
    rfl
  have hstep : (executeStatement sqlite m_ExperimentName reader.m_DatabaseInterface
      (.write (.createTable (lineFields line)))).1 = true ∧
      (executeStatement sqlite m_ExperimentName reader.m_DatabaseInterface
        (.write (.createTable (lineFields line)))).2.store = ⟨c, none⟩ := by
    rw [executeStatement, h.store_eq, Store.step, applied, hcreate]
    exact ⟨rfl, rfl⟩
  unfold CyphosReader.readLine parseColumns
  rw [if_pos hbegin, if_pos hnames, if_pos hstep.1]
  have hledger : Ledger sqlite m_ExperimentName file { reader with
      types := reader.types ++ (lineFields line).map columnType
      columns := (lineFields line).map columnName
      m_DatabaseInterface := (executeStatement sqlite m_ExperimentName reader.m_DatabaseInterface
        (.write (.createTable (lineFields line)))).2 } (lineFields line)
      ⟨a.tables ++ [.createTable (lineFields line)], [], none⟩ := {
    toBooked := h.createTable (lineFields line)
    names := rfl
    types := by rw [htypes]; rfl
    count := hcount
    full := List.forall_mem_nil _
    valid := hvalid
    noTable := fun _ => ⟨rfl, rfl⟩ }
  exact ⟨_, _, rfl, hledger, rfl, rfl, congrArg Store.file hstep.2, rfl⟩

theorem readLine_refused (h : Ledger sqlite m_ExperimentName file reader [] a)
    (hbegin : foundBegin line)
    (hcreate : perform sqlite m_ExperimentName (.createTable (lineFields line))
      reader.m_DatabaseInterface.store.file = none) :
    ∃ database a', CyphosReader.readLine sqlite m_ExperimentName reader line = .error database ∧
      Booked sqlite m_ExperimentName file database a' ∧ a'.inserted = [] ∧ a'.pending = none := by
  have hnames : reader.columns.length = 0 := congrArg List.length h.names
  have hstep : ¬ (executeStatement sqlite m_ExperimentName reader.m_DatabaseInterface
      (.write (.createTable (lineFields line)))).1 = true := by
    rw [executeStatement, h.store_eq, Store.step, hcreate]
    exact Bool.false_ne_true
  unfold CyphosReader.readLine parseColumns
  rw [if_pos hbegin, if_pos hnames, if_neg hstep]
  exact ⟨_, _, rfl, h.createTable (lineFields line), rfl, rfl⟩

theorem readLine_other (h : Ledger sqlite m_ExperimentName file reader [] a)
    (hbegin : ¬ foundBegin line) :
    CyphosReader.readLine sqlite m_ExperimentName reader line =
      .ok { reader with lineCount := reader.lineCount + 1 } := by
  have hnames : reader.columns.length = 0 := congrArg List.length h.names
  unfold CyphosReader.readLine
  rw [if_neg hbegin, if_neg fun hand => absurd hand.1 (by omega)]

theorem tablesCreated_of_ne (hcolumns : columns ≠ []) {c : Content} :
    TablesCreated sqlite m_ExperimentName c columns lines := by
  induction lines with
  | nil => trivial
  | cons line lines ih =>
    rw [TablesCreated, if_neg fun hand => hcolumns hand.2]
    exact ih

theorem statementsFrom_of_ne (hcolumns : columns ≠ []) :
    statementsFrom columns lines = insertionsFrom columns lines := by
  induction lines with
  | nil => rfl
  | cons line lines ih =>
    have hnext : nextColumns columns line = columns := if_neg fun hand => hcolumns hand.2
    rw [statementsFrom, insertionsFrom, hnext, ih, lineStatements, if_neg fun hand => hcolumns hand.2]

/-- A whole run: either there is a table and the rows of all lines have been inserted, or the
program has been left without inserting anything. -/
theorem run (h : Ledger sqlite m_ExperimentName file reader [] a)
    (hroom : reader.transactionCount < c_TransactionSize) (lines : List Text) :
    (TablesCreated sqlite m_ExperimentName reader.m_DatabaseInterface.store.file [] lines ∧
      ∃ reader' columns a',
        lines.foldlM (CyphosReader.readLine sqlite m_ExperimentName) reader = .ok reader' ∧
        Ledger sqlite m_ExperimentName file reader' columns a' ∧
        a'.inserted = insertionsFrom [] lines ∧
        a'.tables ++ a'.inserted = a.tables ++ statementsFrom [] lines ∧
        reader'.transactionCount < c_TransactionSize) ∨
    (¬ TablesCreated sqlite m_ExperimentName reader.m_DatabaseInterface.store.file [] lines ∧
      ∃ database a',
        lines.foldlM (CyphosReader.readLine sqlite m_ExperimentName) reader = .error database ∧
        Booked sqlite m_ExperimentName file database a' ∧ a'.inserted = [] ∧
        a'.pending = none) := by
  induction lines generalizing reader a with
  | nil =>
    exact .inl ⟨trivial, reader, [], a, rfl, h, h.inserted_eq_nil,
      congrArg (a.tables ++ ·) h.inserted_eq_nil, hroom⟩
  | cons line lines ih =>
    have hinvalid : lineInsertions [] line = [] := if_neg fun hvalid => hvalid.1 rfl
    by_cases hbegin : foundBegin line
    case neg =>
      have hnext : nextColumns [] line = [] := if_neg fun hand => hbegin hand.1
      have hnone : lineStatements [] line = [] := (if_neg fun hand => hbegin hand.1).trans hinvalid
      rw [List.foldlM_cons, h.readLine_other hbegin, TablesCreated,
        if_neg fun hand => hbegin hand.1, insertionsFrom, statementsFrom, hnext, hinvalid, hnone,
        List.nil_append, List.nil_append]
      have hskip : Ledger sqlite m_ExperimentName file
          { reader with lineCount := reader.lineCount + 1 } [] a := { h with }
      exact ih hskip hroom
    case pos =>
      have hnext : nextColumns [] line = lineFields line := if_pos ⟨hbegin, rfl⟩
      have htable : lineStatements [] line = [.createTable (lineFields line)] :=
        if_pos ⟨hbegin, rfl⟩
      rw [List.foldlM_cons, TablesCreated, if_pos ⟨hbegin, rfl⟩, insertionsFrom, statementsFrom, hnext,
        hinvalid, htable, List.nil_append]
      cases hcreate : perform sqlite m_ExperimentName (.createTable (lineFields line))
          reader.m_DatabaseInterface.store.file with
      | none =>
        obtain ⟨database, a', hline, hbooked, hinserted, hpending⟩ :=
          h.readLine_refused hbegin hcreate
        refine .inr ⟨?_, database, a', ?_, hbooked, hinserted, hpending⟩
        · rintro ⟨c, hc, -⟩
          cases hc
        · rw [hline]
          rfl
      | some c =>
        obtain ⟨reader₁, a₁, hline, h₁, hinserted₁, htables₁, hfile, hcount⟩ :=
          h.readLine_created hbegin hcreate
        have hroom₁ : reader₁.transactionCount < c_TransactionSize := hcount ▸ hroom
        have hcreated : (∃ c' ∈ some c, TablesCreated sqlite m_ExperimentName c' (lineFields line)
            lines) ↔ TablesCreated sqlite m_ExperimentName c (lineFields line) lines := by simp
        rw [hline, hcreated, ← hfile, ← List.append_assoc, ← htables₁]
        by_cases hcolumns : lineFields line = []
        · rw [hcolumns] at h₁ ⊢
          exact ih h₁ hroom₁
        · obtain ⟨reader', a', hlines, h', hinserted, htables, hroom'⟩ := h₁.readLines hcolumns hroom₁
          rw [hinserted₁, List.nil_append] at hinserted
          refine .inl ⟨tablesCreated_of_ne hcolumns, reader', _, a', hlines, h', hinserted, ?_, hroom'⟩
          rw [htables, hinserted, statementsFrom_of_ne hcolumns]

theorem batches_length (h : Ledger sqlite m_ExperimentName file reader columns a) :
    a.batches.flatten.length = a.batches.length * (c_TransactionSize - 1) := by
  rw [List.length_flatten, List.map_congr_left h.full, List.map_const', List.sum_replicate_nat]

/-- The open transaction is shorter than a batch. -/
theorem pending_length_lt (h : Ledger sqlite m_ExperimentName file reader columns a)
    (hroom : reader.transactionCount < c_TransactionSize) :
    (a.pending.getD []).length < c_TransactionSize - 1 := by
  have hcount := h.count
  cases hes : a.pending with
  | none => exact (by decide : 0 < c_TransactionSize - 1)
  | some es =>
    rw [hes] at hcount
    have hlength : reader.transactionCount = es.length + 1 := hcount
    show es.length < c_TransactionSize - 1
    omega

theorem inserted_length (h : Ledger sqlite m_ExperimentName file reader columns a) :
    a.inserted.length =
      a.batches.length * (c_TransactionSize - 1) + (a.pending.getD []).length := by
  rw [Account.inserted, List.length_append, h.batches_length]

/-- The rows that are committed are those of the complete batches. -/
theorem batches_eq_take (h : Ledger sqlite m_ExperimentName file reader columns a)
    (hroom : reader.transactionCount < c_TransactionSize) :
    a.batches.flatten = a.inserted.take
      (a.inserted.length / (c_TransactionSize - 1) * (c_TransactionSize - 1)) := by
  have hpos : 0 < c_TransactionSize - 1 := by decide
  have hdiv : a.inserted.length / (c_TransactionSize - 1) = a.batches.length := by
    rw [h.inserted_length, Nat.add_comm, Nat.add_mul_div_right _ _ hpos,
      Nat.div_eq_of_lt (h.pending_length_lt hroom), Nat.zero_add]
  rw [hdiv, ← h.batches_length, Account.inserted, List.take_left']
  rfl

end Ledger

theorem startReading_run (sqlite : Text → Content → Option Content) (m_ExperimentName : Text)
    (file : Content) (input : Text) :
    (TablesCreated sqlite m_ExperimentName file [] (input.splitOn '\n') ∧
      ∃ reader columns a, startReading sqlite m_ExperimentName file input = .ok reader ∧
        Ledger sqlite m_ExperimentName file reader columns a ∧ a.inserted = insertions input ∧
        a.tables ++ a.inserted = statements input ∧
        reader.transactionCount < c_TransactionSize) ∨
    (¬ TablesCreated sqlite m_ExperimentName file [] (input.splitOn '\n') ∧
      ∃ database a, startReading sqlite m_ExperimentName file input = .error database ∧
        Booked sqlite m_ExperimentName file database a ∧ a.inserted = [] ∧ a.pending = none) := by
  have hopened : Ledger sqlite m_ExperimentName file (opened file) [] _ := Ledger.opened
  have hroom : (opened file).transactionCount < c_TransactionSize :=
    (by decide : 0 < c_TransactionSize)
  exact hopened.run hroom (input.splitOn '\n')

/-- What the file keeps of a log when there is a table: the rows of the complete batches. All rows
are counted as valid results. -/
theorem startReading_keeps
    (hcreated : TablesCreated sqlite m_ExperimentName file [] (input.splitOn '\n')) :
    ∃ reader tables, startReading sqlite m_ExperimentName file input = .ok reader ∧
      (∀ s ∈ tables, ¬ Statement.IsInsert s) ∧
      reader.m_DatabaseInterface.store.close =
        (tables ++ (insertions input).take
          ((insertions input).length / (c_TransactionSize - 1) * (c_TransactionSize - 1))).foldl
          (applied (perform sqlite m_ExperimentName)) file ∧
      reader.validCount = (insertions input).length := by
  rcases startReading_run sqlite m_ExperimentName file input with
    ⟨-, reader, columns, a, hrun, hledger, hinserted, -, hroom'⟩ | ⟨hnone, -⟩
  · refine ⟨reader, a.tables, hrun, hledger.tables, ?_, ?_⟩
    · rw [← hinserted, ← hledger.batches_eq_take hroom', hledger.toBooked.store_eq]
      rfl
    · rw [hledger.valid, hinserted]
  · exact absurd hcreated hnone

end

end CyphosReader

end CyPhOS
