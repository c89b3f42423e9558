import SimpleChubby.Leader.State

/-!
# The RPC handlers

`server/serverimpl.cc`, handler by handler. A handler is a program over the
`Leader` state; the results the dispatcher throws away are left out. The
handlers call the database through `callDb`, where `none` is an exception.
-/

namespace SimpleChubby

/-- The assertions of `server/serverimpl.cc`. -/
inductive Assertion where
  /-- `assert(!client_id.empty())` at the start of a handler. -/
  | clientId
  /-- `assert(xid != (uint32_t) -1)` in `fileClose`. -/
  | internalClose
  /-- `assert(r == 1)` in `fileDelete`. -/
  | fileFds
  /-- `assert(file2lockQueue_map.count(fd->file_name) == 0)` in `acquire` and `tryAcquire`. -/
  | queueAbsent
  /-- `assert(lock_queue.size() != 0)` in `release`. -/
  | queueNonempty
  /-- `assert(!client_id_rpc.empty())` in `release`. -/
  | waiterClient
  deriving DecidableEq, Repr

/-- Why a handler does not return. -/
inductive Stop where
  | assertion (site : Assertion)
  /-- An assertion of `ServerDB`. -/
  | database
  /-- An exception no handler catches. -/
  | uncaught
  /-- A loop that never ends. -/
  | endless
  deriving DecidableEq, Repr

/-- A handler of the leader. -/
abbrev Api (δ α : Type) : Type := Prog Stop (Leader δ) α

/-- What the leader is built with: its database, `std::hash<std::string>`, and the
    memory it runs in. -/
structure Service (δ : Type) where
  db : Database δ
  strHash : Str → UInt64
  /-- Whether `fd->file_name` still reads as the name after `delete fd`, about which
      the language says nothing. Where it does not, it reads as no file's name. -/
  stillNamed : FdRecord → Bool

/-- With libstdc++ a name of at most 15 bytes lies in the record and is still there; of
    a longer one `free` overwrites the first bytes. -/
def inlineNamed (fd : FdRecord) : Bool := decide (fd.value.fileName.length < 16)

/-- What `fd->file_name` reads after `delete fd`; `none` is no file's name. -/
def Service.freedName {δ : Type} (E : Service δ) (fd : FdRecord) : Option Str :=
  if E.stillNamed fd then some fd.value.fileName else none

section

variable {δ α : Type}

/-- Call the database inside a `try` block; `none` is a caught exception. -/
def callDb (op : Prog Fault δ α) : Api δ (Option α) := do
  match ← Prog.embed Leader.db (fun db st => st.setDb db) op with
  | .ok a => return some a
  | .error .exception => return none
  | .error .assertion => Prog.halt .database

/-- Append to the log. -/
def record (action : Action) : Api δ Unit := Prog.modify (·.logged [action])

/-- `assert`. -/
def check (c : Bool) (site : Assertion) : Api δ Unit :=
  if c then pure () else Prog.halt (.assertion site)

/-- `chubby_server::reply`, which sends nothing for an internal call. -/
def reply (session : SessionId) (xid : Xid) (body : Reply) : Api δ Unit :=
  Prog.modify (·.logged (Leader.replyOf session xid body))

/-- `session2client_map[session]`. -/
def clientOf (session : SessionId) : Api δ Str := do
  Prog.modify (·.touchClient session)
  Prog.gets (·.client session)

/-- `new FileHandler()` filled with `fd`, and its two `push_back` calls. -/
def addFd (session : SessionId) (fd : FileHandler) : Api δ Unit :=
  Prog.modify (·.openFd session fd)

/-- `findFd`: the first record of the session with the fields of `fd`, or a new
    one. The final `return nullptr` is never reached. -/
def findFd (session : SessionId) (fd : FileHandler) : Api δ (Option FdRecord) := do
  Prog.modify (·.touchFds session)
  match (← Prog.gets (·.fds session)).find? (sameFd fd) with
  | some p => return some p
  | none =>
    let address ← Prog.gets Leader.nextAddress
    addFd session fd
    return some ⟨address, fd⟩

/-- `sendLockChangeEvent`. -/
def sendLockChangeEvent (fileName : Str) : Api δ Unit :=
  Prog.modify fun st => st.logged (st.lockEvents fileName)

/-- `sendContentChangeEvent`. -/
def sendContentChangeEvent (fileName : Str) : Api δ Unit :=
  Prog.modify fun st => st.logged (st.contentEvents fileName)

/-- The content event of the parent, except for the root. -/
def sendParentEvent (fileName : Str) : Api δ Unit :=
  if getParentName fileName = root then pure ()
  else sendContentChangeEvent (getParentName fileName)

end

section Handlers

variable {δ : Type} (E : Service δ)

/-- The handle `fileOpen` fills and signs. -/
def signFd (fileName : Str) (mode : Mode) (instanceNumber masterSequenceNumber : UInt64) :
    FileHandler :=
  let writeIsAllowed := mode.has ModeFlag.write
  { magicNumber := E.strHash (fileName ++ Nat.toDigits 10 instanceNumber.toNat ++
      (if writeIsAllowed then ['1'] else ['0']))
    masterSequenceNumber := masterSequenceNumber
    fileName := fileName
    instanceNumber := instanceNumber
    writeIsAllowed := writeIsAllowed }

/-- The end of `fileOpen`: sign and register the new handle, subscribe, reply,
    and announce the change of the parent's content. -/
def finishOpen (fileName : Str) (mode : Mode) (instanceNumber : UInt64) (session : SessionId)
    (xid : Xid) : Api δ Unit := do
  let masterSequenceNumber ← Prog.gets Leader.masterSequenceNumber
  let fd := signFd E fileName mode instanceNumber masterSequenceNumber
  addFd session fd
  Prog.modify (·.subscribed session fileName mode)
  reply session xid (.fd fd)
  sendParentEvent fileName

/-- `api_v1_server::fileOpen`. -/
def fileOpen (fileName : Str) (mode : Mode) (session : SessionId) (xid : Xid) : Api δ Unit := do
  let clientId ← clientOf session
  check (clientId ≠ []) .clientId
  if ¬ checkName fileName then
    reply session xid (.error .badArg)
  else if mode.has ModeFlag.createDirectory && mode.has ModeFlag.createFile then
    reply session xid (.error .badArg)
  else if mode.has ModeFlag.createDirectory || mode.has ModeFlag.createFile then
    match ← callDb (E.db.checkAndCreate fileName (mode.has ModeFlag.createDirectory)) with
    | none => reply session xid (.error .paxosError)
    | some none => reply session xid (.error .fsFail)
    | some (some instanceNumber) =>
      Prog.modify (·.markedEphemeral clientId fileName mode)
      finishOpen E fileName mode instanceNumber session xid
  else
    match ← callDb (E.db.checkAndOpen fileName) with
    | none => reply session xid (.error .paxosError)
    | some none => reply session xid (.error .fsFail)
    | some (some instanceNumber) => finishOpen E fileName mode instanceNumber session xid

/-- The end of `fileDelete`, after the database has deleted the node. The loop has
    freed every record of the file, `fd` with them, when `fd->file_name` is read
    for `client2ephemeral_map`. -/
def finishDelete (fd : FdRecord) (clientId : Str) (session : SessionId) (xid : Xid) :
    Api δ Unit := do
  let fileName := fd.value.fileName
  Prog.modify (·.dropRecords fileName)
  let present ← Prog.gets (·.file2fdMap.has fileName)
  Prog.modify (·.dropFile fileName)
  check present .fileFds
  Prog.modify (·.dropQueue fileName)
  Prog.modify (·.unmarkEphemeral clientId (E.freedName fd))
  reply session xid (.bool true)
  sendContentChangeEvent fileName
  sendParentEvent fileName
  Prog.modify (·.dropEvents fileName)

/-- `api_v1_server::fileDelete`; an `.error` result is the exception it throws
    on. The sentinel test compares the 32-bit xid with a 64-bit constant. -/
def fileDelete (fd : FileHandler) (session : SessionId) (xid : Xid) : Api δ (Except Unit Unit) := do
  let clientId ← clientOf session
  check (clientId ≠ []) .clientId
  match ← findFd session fd with
  | none =>
    reply session xid (.error .badArg)
    return .ok ()
  | some p =>
    match ← callDb (E.db.checkAndDelete p.value.fileName p.value.instanceNumber) with
    | none =>
      if xid.toUInt64 ≠ 0xFFFFFFFFFFFFFFFF then
        reply session xid (.error .paxosError)
        return .ok ()
      else return .error ()
    | some false =>
      reply session xid (.bool false)
      return .ok ()
    | some true =>
      finishDelete E p clientId session xid
      return .ok ()

/-- `api_v1_server::getContentsAndStat`. -/
def getContentsAndStat (fd : FileHandler) (session : SessionId) (xid : Xid) : Api δ Unit := do
  match ← findFd session fd with
  | none => reply session xid (.error .badArg)
  | some p =>
    match ← callDb (E.db.checkAndRead p.value.fileName p.value.instanceNumber) with
    | none => reply session xid (.error .paxosError)
    | some none => reply session xid (.error .fsFail)
    | some (some (content, metaData)) => reply session xid (.contents content metaData)

/-- `api_v1_server::setContents`. -/
def setContents (fd : FileHandler) (content : Str) (session : SessionId) (xid : Xid) :
    Api δ Unit := do
  match ← findFd session fd with
  | none => reply session xid (.error .badArg)
  | some p =>
    match ← callDb (E.db.checkAndUpdate p.value.fileName p.value.instanceNumber content) with
    | none => reply session xid (.error .paxosError)
    | some false => reply session xid (.error .fsFail)
    | some true =>
      reply session xid (.bool true)
      sendContentChangeEvent p.value.fileName

/-- The lock taken in the database: note it, reply, and announce the change. -/
def finishAcquire (fileName clientId : Str) (session : SessionId) (xid : Xid) : Api δ Unit := do
  let queued ← Prog.gets (·.file2lockQueueMap.has fileName)
  check (!queued) .queueAbsent
  Prog.modify (·.hold clientId fileName)
  reply session xid (.bool true)
  sendLockChangeEvent fileName

/-- `api_v1_server::acquire`. -/
def acquire (fd : FileHandler) (session : SessionId) (xid : Xid) : Api δ Unit := do
  let clientId ← clientOf session
  check (clientId ≠ []) .clientId
  match ← findFd session fd with
  | none => reply session xid (.error .badArg)
  | some p =>
    match ← callDb (E.db.testAndSetLockOwner p.value.fileName p.value.instanceNumber clientId) with
    | none => reply session xid (.error .paxosError)
    | some true => finishAcquire p.value.fileName clientId session xid
    | some false => Prog.modify (·.enqueue p.value.fileName session xid)

/-- `api_v1_server::tryAcquire`. -/
def tryAcquire (fd : FileHandler) (session : SessionId) (xid : Xid) : Api δ Unit := do
  let clientId ← clientOf session
  check (clientId ≠ []) .clientId
  match ← findFd session fd with
  | none => reply session xid (.error .badArg)
  | some p =>
    match ← callDb (E.db.testAndSetLockOwner p.value.fileName p.value.instanceNumber clientId) with
    | none => reply session xid (.error .paxosError)
    | some true => finishAcquire p.value.fileName clientId session xid
    | some false => reply session xid (.bool false)

/-- Pop the first waiter of the lock queue, hold the lock for its client and
    answer its `acquire`; an emptied queue is erased. -/
def handOff (fileName : Str) : Api δ Unit := do
  match ← Prog.gets (·.queue fileName) with
  | none => pure ()
  | some [] => Prog.halt (.assertion .queueNonempty)
  | some ((session, xid) :: lockQueue) =>
    Prog.modify (·.dequeue fileName session xid lockQueue)
    let clientIdRpc ← clientOf session
    check (clientIdRpc ≠ []) .waiterClient
    Prog.modify (·.hold clientIdRpc fileName)
    reply session xid (.bool true)
    if lockQueue.isEmpty then
      Prog.modify (·.dropQueue fileName)

/-- The end of `release`, after the database has reset the lock owner. -/
def finishRelease (fileName clientId : Str) (session : SessionId) (xid : Xid) : Api δ Unit := do
  Prog.modify (·.unhold clientId fileName)
  reply session xid (.bool true)
  handOff fileName
  sendLockChangeEvent fileName

/-- `api_v1_server::release`. -/
def release (fd : FileHandler) (session : SessionId) (xid : Xid) : Api δ Unit := do
  let clientId ← clientOf session
  check (clientId ≠ []) .clientId
  match ← findFd session fd with
  | none => reply session xid (.error .badArg)
  | some p =>
    match ← callDb (E.db.resetLockOwner p.value.fileName p.value.instanceNumber) with
    | none => reply session xid (.error .paxosError)
    | some false => reply session xid (.error .fsFail)
    | some true => finishRelease p.value.fileName clientId session xid

/-- The scan of `fileClose` over its copy of the lock queue. The loop does not
    advance its iterator: it ends at once on an empty queue or when the first
    waiter is the session, which is then erased; otherwise (`none`) never. -/
def scanQueue (session : SessionId) :
    List (SessionId × Xid) → Option (List (SessionId × Xid))
  | [] => some []
  | waiter :: rest => if waiter.1 = session then some rest else none

/-- "clear lock queue" in `fileClose`: the queue itself is erased only when the
    scanned copy came out empty. -/
def clearLockQueue (session : SessionId) (fileName : Str) : Api δ Unit := do
  match ← Prog.gets (·.queue fileName) with
  | none => pure ()
  | some queue =>
    match scanQueue session queue with
    | none => Prog.halt .endless
    | some copy =>
      if copy.isEmpty then
        Prog.modify (·.dropQueue fileName)

/-- The end of `fileClose`, for a node that stays. -/
def finishClose (fd : FdRecord) (session : SessionId) (xid : Xid) : Api δ Unit := do
  Prog.modify (·.removeFd session fd)
  clearLockQueue session fd.value.fileName
  Prog.modify (·.unsubscribed session fd.value.fileName)
  reply session xid (.bool true)

/-- `api_v1_server::fileClose`. -/
def fileClose (fd : FileHandler) (session : SessionId) (xid : Xid) : Api δ Unit := do
  let clientId ← clientOf session
  check (clientId ≠ []) .clientId
  match ← findFd session fd with
  | none =>
    check (xid ≠ internalXid) .internalClose
    reply session xid (.error .badArg)
  | some p =>
    if ← Prog.gets fun st => decide (p.value.fileName ∈ st.held clientId) then
      release E p.value session internalXid
    Prog.modify (·.touchEphemeral clientId)
    if ← Prog.gets fun st => decide (p.value.fileName ∈ st.ephemeral clientId) then
      match ← fileDelete E p.value session internalXid with
      | .error () => reply session xid (.error .paxosError)
      | .ok () => reply session xid (.bool true)
    else
      finishClose p session xid

/-- `api_v1_server::startSession`. -/
def startSession (clientId : Str) (session : SessionId) (xid : Xid) : Api δ Unit := do
  if ← Prog.gets fun st => !E.db.isLeaderAndInitialized st.db then
    reply session xid (.bool false)
  else
    Prog.modify (·.started session clientId)
    reply session xid (.bool true)

/-- `api_v1_server::fileReopen`. -/
def fileReopen (fd : FileHandler) (mode : Mode) (session : SessionId) (xid : Xid) :
    Api δ Unit := do
  addFd session fd
  Prog.modify (·.subscribed session fd.fileName mode)
  let clientId ← clientOf session
  Prog.modify (·.markedEphemeral clientId fd.fileName mode)
  reply session xid (.bool true)

/-- `api_v1_server::disconnect`: close every handle of a copy of the session's list. -/
def disconnect (session : SessionId) : Api δ Unit := do
  Prog.modify (·.touchFds session)
  let openedFds ← Prog.gets (·.fds session)
  Prog.forEach (fun fd => fileClose E fd.value session internalXid) openedFds
  Prog.modify (·.left session)

/-- `api_v1_server::initializeLeader`. -/
def initializeLeader : Api δ Unit := do
  Prog.modify Leader.cleared
  match ← callDb E.db.getStates with
  | none => Prog.halt .uncaught
  | some fileAndOwnerList =>
    Prog.forEach (fun p => Prog.modify (·.hold p.2 p.1)) fileAndOwnerList

/-- The dispatch of an RPC to its handler. -/
def dispatch (session : SessionId) (xid : Xid) : Request → Api δ Unit
  | .fileOpen name mode => fileOpen E name mode session xid
  | .fileClose fd => fileClose E fd session xid
  | .fileDelete fd => do
    match ← fileDelete E fd session xid with
    | .ok () => pure ()
    | .error () => Prog.halt .uncaught
  | .getContentsAndStat fd => getContentsAndStat E fd session xid
  | .setContents fd content => setContents E fd content session xid
  | .acquire fd => acquire E fd session xid
  | .tryAcquire fd => tryAcquire E fd session xid
  | .release fd => release E fd session xid
  | .startSession clientId => startSession E clientId session xid
  | .fileReopen fd mode => fileReopen fd mode session xid

/-- What can happen to the leader. -/
inductive Input where
  | rpc (session : SessionId) (xid : Xid) (request : Request)
  | disconnect (session : SessionId)
  | initializeLeader
  deriving DecidableEq, Repr

/-- Handle one input, noting it in the log. -/
def handle : Input → Api δ Unit
  | .rpc session xid request => do
    record (.call session xid request)
    dispatch E session xid request
  | .disconnect session => do
    record (.disconnected session)
    disconnect E session
  | .initializeLeader => do
    record .initialized
    initializeLeader E

/-- One step of the leader: an input whose handler returns. -/
def Leader.step (input : Input) (st : Leader δ) : Option (Leader δ) :=
  match handle E input st with
  | .ret _ st' => some st'
  | .stop _ _ => none

/-- The leader before its first input, over a database `db`. The sequence
    number is never set. -/
def Leader.fresh (db : δ) (masterSequenceNumber : UInt64) : Leader δ where
  db := db
  masterSequenceNumber := masterSequenceNumber
  session2clientMap := .empty
  file2fdMap := .empty
  session2fdMap := .empty
  file2lockQueueMap := .empty
  client2heldLockMap := .empty
  client2ephemeralMap := .empty
  file2lockChangeMap := .empty
  file2contentChangeMap := .empty
  nextAddress := 0
  log := []

end Handlers

end SimpleChubby
