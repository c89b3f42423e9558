import SimpleChubby.ServerDb.Store

/-!
# `ServerDB`

The methods of `server/serverdb.cc:74-418`, statement by statement. A method
that returns `false` returns `none` or `false` here, one that fills its output
arguments returns them in `some`.
-/

namespace SimpleChubby

/-- `MetaData` (`include/server.x`). -/
structure MetaData where
  instanceNumber : UInt64
  contentGenerationNumber : UInt64
  lockGenerationNumber : UInt64
  fileContentChecksum : UInt64
  isDirectory : Bool
  deriving DecidableEq, Repr

/-- `ServerDB::NO_OWNER`. -/
def noOwner : Str := "empty".toList

/-- `/`, the node that always exists and has no row. -/
def root : Str := ['/']

namespace ServerDb

variable (sq : Engine) (strHash : Str → UInt64)

/-- The content and content generation number of the parent row, read by
    `checkAndCreate` and `checkAndDelete` before they change it. -/
structure ParentRow where
  content : Str
  contentGenerationNumber : UInt64

/-- The columns of the query on the parent. -/
def parentColumns : Str := "content, content_generation_number, is_directory".toList

/-- The update of the parent's content, generation number and checksum. -/
def updateParent (parentName newParentC : Str) (parentCn : UInt64) : Prog Fault Store Unit :=
  updateContent sq newParentC (parentCn + 1) (strHash newParentC) parentName

/-- The statements of `checkAndCreate` from `BEGIN` to `COMMIT`. -/
def createNode (fileName : Str) (isDir : Bool) (maxInstanceNum : UInt64)
    (parent : Option ParentRow) : Prog Fault Store Unit := do
  sqlBegin
  insertNode sq fileName maxInstanceNum isDir
  updateMaxInstance maxInstanceNum
  match parent with
  | none => pure ()
  | some p =>
    updateParent sq strHash (getParentName fileName) (dirContentCreate p.content fileName)
      p.contentGenerationNumber
  sqlCommit

/-- Read `max_instance_number` and create the node with the next number. -/
def createNext (fileName : Str) (isDir : Bool) (parent : Option ParentRow) :
    Prog Fault Store (Option UInt64) := do
  match ← Prog.gets Store.maxInstanceNumber with
  | none => Prog.halt .assertion
  | some value =>
    let maxInstanceNum := UInt64.ofInt value + 1
    createNode sq strHash fileName isDir maxInstanceNum parent
    return some maxInstanceNum

/-- `ServerDB::checkAndCreate`. -/
def checkAndCreate (fileName : Str) (isDir : Bool) : Prog Fault Store (Option UInt64) := do
  match ← selectByName sq "name".toList fileName with
  | some _ => return none
  | none =>
    let parentName := getParentName fileName
    if parentName = root then
      createNext sq strHash fileName isDir none
    else
      match ← selectByName sq parentColumns parentName with
      | none => return none
      | some par =>
        if par.isDirectory = 0 then return none
        else
          createNext sq strHash fileName isDir
            (some ⟨par.content, UInt64.ofInt par.contentGenerationNumber⟩)

/-- `ServerDB::checkAndOpen`. -/
def checkAndOpen (fileName : Str) : Prog Fault Store (Option UInt64) := do
  match ← selectByName sq "instance_number".toList fileName with
  | none => return none
  | some row => return some (UInt64.ofInt row.instanceNumber)

/-- The statements of `checkAndDelete` from `BEGIN` to `COMMIT`. -/
def removeNode (fileName : Str) (parent : Option ParentRow) : Prog Fault Store Unit := do
  sqlBegin
  deleteNode sq fileName
  match parent with
  | none => pure ()
  | some p =>
    updateParent sq strHash (getParentName fileName) (dirContentDelete p.content fileName)
      p.contentGenerationNumber
  sqlCommit

/-- `ServerDB::checkAndDelete`. -/
def checkAndDelete (fileName : Str) (instanceNumber : UInt64) : Prog Fault Store Bool := do
  match ← selectByName sq "lock_owner, instance_number, is_directory, content".toList fileName with
  | none => return false
  | some row =>
    if row.lockOwner ≠ noOwner then return false
    else if UInt64.ofInt row.instanceNumber ≠ instanceNumber then return false
    else if row.isDirectory ≠ 0 ∧ row.content ≠ [] then return false
    else
      let parentName := getParentName fileName
      if parentName = root then
        removeNode sq strHash fileName none
        return true
      else
        match ← selectByName sq parentColumns parentName with
        | none => Prog.halt .assertion
        | some par =>
          if par.isDirectory ≠ 1 then Prog.halt .assertion
          else
            removeNode sq strHash fileName
              (some ⟨par.content, UInt64.ofInt par.contentGenerationNumber⟩)
            return true

/-- `ServerDB::checkAndRead`. -/
def checkAndRead (fileName : Str) (instanceNumber : UInt64) :
    Prog Fault Store (Option (Str × MetaData)) := do
  match ← selectByName sq ("content, instance_number, content_generation_number, ".toList ++
      "lock_generation_number, file_content_checksum, is_directory".toList) fileName with
  | none => return none
  | some row =>
    if UInt64.ofInt row.instanceNumber ≠ instanceNumber then return none
    else
      return some (row.content,
        { instanceNumber := UInt64.ofInt row.instanceNumber
          contentGenerationNumber := UInt64.ofInt row.contentGenerationNumber
          lockGenerationNumber := UInt64.ofInt row.lockGenerationNumber
          fileContentChecksum := UInt64.ofInt row.fileContentChecksum
          isDirectory := row.isDirectory != 0 })

/-- `ServerDB::checkAndUpdate`. -/
def checkAndUpdate (fileName : Str) (instanceNumber : UInt64) (content : Str) :
    Prog Fault Store Bool := do
  match ← selectByName sq "instance_number, content_generation_number".toList fileName with
  | none => return false
  | some row =>
    if UInt64.ofInt row.instanceNumber ≠ instanceNumber then return false
    else
      sqlBegin
      updateContent sq content (UInt64.ofInt row.contentGenerationNumber + 1) (strHash content)
        fileName
      sqlCommit
      return true

/-- `ServerDB::testAndSetLockOwner`. -/
def testAndSetLockOwner (fileName : Str) (instanceNumber : UInt64) (clientId : Str) :
    Prog Fault Store Bool := do
  match ← selectByName sq "instance_number, lock_owner, lock_generation_number".toList
      fileName with
  | none => return false
  | some row =>
    if UInt64.ofInt row.instanceNumber ≠ instanceNumber then return false
    else if row.lockOwner ≠ noOwner then return false
    else
      sqlBegin
      updateLockOwner sq clientId (UInt64.ofInt row.lockGenerationNumber + 1) fileName
      sqlCommit
      return true

/-- `ServerDB::resetLockOwner`. -/
def resetLockOwner (fileName : Str) (instanceNumber : UInt64) : Prog Fault Store Bool := do
  match ← selectByName sq "instance_number".toList fileName with
  | none => return false
  | some row =>
    if UInt64.ofInt row.instanceNumber ≠ instanceNumber then return false
    else
      sqlBegin
      clearLockOwner sq noOwner fileName
      sqlCommit
      return true

/-- `ServerDB::getStates`: every node and its lock owner. -/
def getStates : Prog Fault Store (List (Str × Str)) :=
  Prog.gets fun st => st.fs.map fun row => (row.name, row.lockOwner)

end ServerDb

end SimpleChubby
