import SimpleChubby.Lib.Prog
import SimpleChubby.Lib.SqlText
import SimpleChubby.Path

/-!
# The tables of the back store and the statements run on them

The two tables `ServerDB::create` makes (`server/serverdb.cc:420-454`) and the
statement shapes the other methods send. Every string argument reaches SQLite
between two double quotes, so a statement is what its format string says only
while the quoted tokens end where the format ends them; a token that names a
column of the table in scope is that column. What SQLite does with a text whose
tokens an argument has broken is left to the `Engine`.
-/

namespace SimpleChubby

open SqlText

/-- How a database call fails: a `std::exception`, or a failed `assert`, which
    ends the process. -/
inductive Fault where
  | exception
  | assertion
  deriving DecidableEq, Repr

/-- A row of `fs`. SQLite adds the row id. -/
structure FsRow where
  rowid : Int
  name : Str
  content : Str
  lockOwner : Str
  instanceNumber : Int
  contentGenerationNumber : Int
  lockGenerationNumber : Int
  fileContentChecksum : Int
  isDirectory : Int
  deriving DecidableEq, Repr

/-- The database: the rows of `fs` in the order of their row ids, the value of
    `max_instance_number` in `kvpairs` if its row is there, and whether the
    connection has a transaction open. -/
structure Store where
  fs : List FsRow
  maxInstanceNumber : Option Int
  inTransaction : Bool
  deriving DecidableEq, Repr

/-- What `ServerDB::create` leaves. -/
def Store.empty : Store := ⟨[], some 0, false⟩

/-- SQLite on the texts that are none of the shapes below, and the comparison
    of a text with an integer under numeric affinity. -/
structure Engine where
  brokenQuery : Str → Store → Except Fault (Option FsRow)
  brokenExec : Str → Prog Fault Store Unit
  textEqInteger : Str → Int → Bool

/-- The engine that refuses every broken text. -/
def Engine.refusing : Engine where
  brokenQuery _ _ := .error .exception
  brokenExec _ := Prog.halt .exception
  textEqInteger text n := text == decimal n

/-- The columns a token can name in a statement about `fs`. -/
inductive Column where
  | rowid | name | content | lockOwner | instanceNumber | contentGenerationNumber
  | lockGenerationNumber | fileContentChecksum | isDirectory
  deriving DecidableEq, Repr

/-- The names of the columns of `fs`, and the three names of the row id. -/
def columnNames : List (Str × Column) :=
  [("name".toList, .name), ("content".toList, .content), ("lock_owner".toList, .lockOwner),
   ("instance_number".toList, .instanceNumber),
   ("content_generation_number".toList, .contentGenerationNumber),
   ("lock_generation_number".toList, .lockGenerationNumber),
   ("file_content_checksum".toList, .fileContentChecksum),
   ("is_directory".toList, .isDirectory),
   ("_rowid_".toList, .rowid), ("rowid".toList, .rowid), ("oid".toList, .rowid)]

/-- The column a quoted token refers to, if it names one. -/
def columnOf (token : Str) : Option Column :=
  (columnNames.find? (fun p => sameIdent p.1 token)).map Prod.snd

/-- The value of a column: a text or an integer. -/
def FsRow.column (row : FsRow) : Column → Str ⊕ Int
  | .rowid => .inr row.rowid
  | .name => .inl row.name
  | .content => .inl row.content
  | .lockOwner => .inl row.lockOwner
  | .instanceNumber => .inr row.instanceNumber
  | .contentGenerationNumber => .inr row.contentGenerationNumber
  | .lockGenerationNumber => .inr row.lockGenerationNumber
  | .fileContentChecksum => .inr row.fileContentChecksum
  | .isDirectory => .inr row.isDirectory

/-- The value a quoted token has when it is stored in a TEXT column of `row`. -/
def textValue (token : Str) (row : FsRow) : Str :=
  match columnOf token with
  | none => token
  | some c =>
    match row.column c with
    | .inl text => text
    | .inr n => decimal n

/-- The condition `name = "token"` on `row`. -/
def nameIs (sq : Engine) (token : Str) (row : FsRow) : Bool :=
  match columnOf token with
  | none => row.name == token
  | some c =>
    match row.column c with
    | .inl text => row.name == text
    | .inr n => sq.textEqInteger row.name n

/-- Apply an update to the rows that meet a condition. -/
def Store.updateWhere (st : Store) (p : FsRow → Bool) (f : FsRow → FsRow) : Store :=
  { st with fs := st.fs.map fun row => if p row then f row else row }

section Statements

variable (sq : Engine)

/-- `SQLStmt s(db, "SELECT <columns> FROM fs WHERE name = \"%s\"", fileName)`
    followed by `s.step()`: the first row, if there is one. -/
def selectByName (columns fileName : Str) : Prog Fault Store (Option FsRow) := fun st =>
  match quoted fileName with
  | some token => .ret (st.fs.find? (nameIs sq token)) st
  | none =>
    match sq.brokenQuery ("SELECT ".toList ++ columns ++ " FROM fs WHERE name = \"".toList ++
      cString fileName ++ "\"".toList) st with
    | .ok row => .ret row st
    | .error e => .stop e st

/-- `sqlexec("BEGIN;")`: an error inside a transaction. -/
def sqlBegin : Prog Fault Store Unit := fun st =>
  if st.inTransaction then .stop .exception st
  else .ret () { st with inTransaction := true }

/-- `sqlexec("COMMIT;")`: an error outside a transaction. -/
def sqlCommit : Prog Fault Store Unit := fun st =>
  if st.inTransaction then .ret () { st with inTransaction := false }
  else .stop .exception st

/-- `INSERT INTO fs (name, instance_number, is_directory) VALUES ("%s", %d, %d);`
    No table is in scope of the values, so the name is always a literal; the
    columns not listed take their defaults. -/
def insertNode (fileName : Str) (instanceNumber : UInt64) (isDir : Bool) :
    Prog Fault Store Unit := fun st =>
  match quoted fileName with
  | some name =>
    if st.fs.any (fun row => row.name == name) then .stop .exception st
    else
      let row : FsRow :=
        { rowid := (st.fs.getLast?.map FsRow.rowid).getD 0 + 1
          name := name
          content := []
          lockOwner := "empty".toList
          instanceNumber := printfD instanceNumber
          contentGenerationNumber := 0
          lockGenerationNumber := 0
          fileContentChecksum := 0
          isDirectory := if isDir then 1 else 0 }
      .ret () { st with fs := st.fs ++ [row] }
  | none =>
    sq.brokenExec ("INSERT INTO fs (name, instance_number, is_directory) VALUES (\"".toList ++
      cString fileName ++ "\", ".toList ++ decimal (printfD instanceNumber) ++ ", ".toList ++
      (if isDir then "1".toList else "0".toList) ++ ");".toList) st

/-- `UPDATE kvpairs SET value = %d WHERE key = "max_instance_number";` -/
def updateMaxInstance (n : UInt64) : Prog Fault Store Unit :=
  Prog.modify fun st =>
    { st with maxInstanceNumber := st.maxInstanceNumber.map fun _ => printfD n }

/-- `DELETE FROM fs WHERE name = "%s";` -/
def deleteNode (fileName : Str) : Prog Fault Store Unit := fun st =>
  match quoted fileName with
  | some token => .ret () { st with fs := st.fs.filter fun row => !nameIs sq token row }
  | none =>
    sq.brokenExec ("DELETE FROM fs WHERE name = \"".toList ++ cString fileName ++
      "\";".toList) st

/-- `UPDATE fs SET content = "%s", content_generation_number = %d,
    file_content_checksum = %d  WHERE name = "%s";` -/
def updateContent (content : Str) (contentGenerationNumber checksum : UInt64) (fileName : Str) :
    Prog Fault Store Unit := fun st =>
  match quoted content, quoted fileName with
  | some value, some token =>
    .ret () (st.updateWhere (nameIs sq token) fun row =>
      { row with
        content := textValue value row
        contentGenerationNumber := printfD contentGenerationNumber
        fileContentChecksum := printfD checksum })
  | _, _ =>
    sq.brokenExec ("UPDATE fs SET content = \"".toList ++ cString content ++
      "\", content_generation_number = ".toList ++ decimal (printfD contentGenerationNumber) ++
      ", file_content_checksum = ".toList ++ decimal (printfD checksum) ++
      "  WHERE name = \"".toList ++ cString fileName ++ "\";".toList) st

/-- `UPDATE fs SET lock_owner = "%s", lock_generation_number = %d WHERE name = "%s";` -/
def updateLockOwner (owner : Str) (lockGenerationNumber : UInt64) (fileName : Str) :
    Prog Fault Store Unit := fun st =>
  match quoted owner, quoted fileName with
  | some value, some token =>
    .ret () (st.updateWhere (nameIs sq token) fun row =>
      { row with
        lockOwner := textValue value row
        lockGenerationNumber := printfD lockGenerationNumber })
  | _, _ =>
    sq.brokenExec ("UPDATE fs SET lock_owner = \"".toList ++ cString owner ++
      "\", lock_generation_number = ".toList ++ decimal (printfD lockGenerationNumber) ++
      " WHERE name = \"".toList ++ cString fileName ++ "\";".toList) st

/-- `UPDATE fs SET lock_owner = "%s" WHERE name = "%s";` -/
def clearLockOwner (owner fileName : Str) : Prog Fault Store Unit := fun st =>
  match quoted owner, quoted fileName with
  | some value, some token =>
    .ret () (st.updateWhere (nameIs sq token) fun row =>
      { row with lockOwner := textValue value row })
  | _, _ =>
    sq.brokenExec ("UPDATE fs SET lock_owner = \"".toList ++ cString owner ++
      "\" WHERE name = \"".toList ++ cString fileName ++ "\";".toList) st

end Statements

end SimpleChubby
