import Mathlib.Data.Finset.Basic
import Mathlib.Tactic.Simps.Basic
import SimpleChubby.Lib.UMap
import SimpleChubby.ServerDb.Paxos

/-!
# The state of `api_v1_server`

The wire types of `include/server.x` and `include/event.x`, the maps of
`server/serverimpl.hh:84-101`, and the log of what the leader receives and
sends. A `FileHandler *` is an allocation number with the value it points to: no
handler changes a `FileHandler` once it is in a map. What `fileDelete` reads of a
record that it has freed is a parameter of the service (`Service.stillNamed`).
-/

namespace SimpleChubby

/-- `xdr::SessionId`. -/
abbrev SessionId := UInt32

/-- The transaction id of an RPC. -/
abbrev Xid := UInt32

/-- `Mode`: the flag bits of `fileOpen` and `fileReopen`. -/
abbrev Mode := UInt64

/-- `(uint32_t) -1`, the xid of the calls the handlers make themselves. -/
def internalXid : Xid := 0xFFFFFFFF

namespace ModeFlag

/-- `WRITE`. -/
def write : Mode := 0x2
/-- `CREATE_DIRECTORY`. -/
def createDirectory : Mode := 0x4
/-- `CREATE_FILE`. -/
def createFile : Mode := 0x8
/-- `EPHEMERAL`. -/
def ephemeral : Mode := 0x10
/-- `EV_LOCK_CHANGED`. -/
def evLockChanged : Mode := 0x100
/-- `EV_CONTENT_MODIFIED`. -/
def evContentModified : Mode := 0x200

end ModeFlag

/-- `mode & flag`, as a truth value. -/
def Mode.has (mode : Mode) (flag : Mode) : Bool := mode &&& flag != 0

/-- `enum ClientError`. -/
inductive ClientError where
  | badArg
  | fsFail
  | paxosError
  deriving DecidableEq, Repr

/-- `struct FileHandler`. -/
structure FileHandler where
  magicNumber : UInt64
  masterSequenceNumber : UInt64
  fileName : Str
  instanceNumber : UInt64
  writeIsAllowed : Bool
  deriving DecidableEq, Repr

/-- A `FileHandler *`: the allocation and the value in it. -/
structure FdRecord where
  address : Nat
  value : FileHandler
  deriving DecidableEq, Repr

/-- `struct SessionFdPair`. -/
structure SessionFdPair where
  session : SessionId
  fd : FdRecord
  deriving DecidableEq, Repr

/-- An RPC of the interface `api_v1`, with its argument. -/
inductive Request where
  | fileOpen (name : Str) (mode : Mode)
  | fileClose (fd : FileHandler)
  | fileDelete (fd : FileHandler)
  | getContentsAndStat (fd : FileHandler)
  | setContents (fd : FileHandler) (content : Str)
  | acquire (fd : FileHandler)
  | tryAcquire (fd : FileHandler)
  | release (fd : FileHandler)
  | startSession (clientId : Str)
  | fileReopen (fd : FileHandler) (mode : Mode)
  deriving DecidableEq, Repr

/-- The result unions `RetBool`, `RetFd` and `RetContentsAndStat`. -/
inductive Reply where
  | bool (val : Bool)
  | fd (val : FileHandler)
  | contents (content : Str) (stat : MetaData)
  | error (code : ClientError)
  deriving DecidableEq, Repr

/-- The two events the service sends. -/
inductive ChubbyEvent where
  | lockChanged
  | contentModified
  deriving DecidableEq, Repr

/-- What the leader does that its environment can see, and the two moves of a
    lock queue that the history of a run needs. -/
inductive Action where
  | call (session : SessionId) (xid : Xid) (request : Request)
  | disconnected (session : SessionId)
  | initialized
  | reply (session : SessionId) (xid : Xid) (body : Reply)
  | event (session : SessionId) (event : ChubbyEvent) (fileName : Str)
  | enqueue (fileName : Str) (session : SessionId) (xid : Xid)
  | dequeue (fileName : Str) (session : SessionId) (xid : Xid)
  deriving DecidableEq, Repr

/-! ## The server -/

/-- The server: its database, its maps, the next allocation, and the log. -/
structure Leader (δ : Type) where
  db : δ
  masterSequenceNumber : UInt64
  session2clientMap : UMap SessionId Str
  file2fdMap : UMap Str (List SessionFdPair)
  session2fdMap : UMap SessionId (List FdRecord)
  file2lockQueueMap : UMap Str (List (SessionId × Xid))
  client2heldLockMap : UMap Str (Finset Str)
  client2ephemeralMap : UMap Str (Finset Str)
  file2lockChangeMap : UMap Str (List SessionId)
  file2contentChangeMap : UMap Str (List SessionId)
  nextAddress : Nat
  log : List Action

/-- The comparison of `findFd`. -/
def sameFd (fd : FileHandler) (p : FdRecord) : Bool :=
  p.value.instanceNumber == fd.instanceNumber && p.value.magicNumber == fd.magicNumber &&
    p.value.masterSequenceNumber == fd.masterSequenceNumber &&
    p.value.fileName == fd.fileName && p.value.writeIsAllowed == fd.writeIsAllowed

/-- `findFd` compares every field. -/
theorem sameFd_iff {fd : FileHandler} {p : FdRecord} : sameFd fd p = true ↔ p.value = fd := by
  obtain ⟨address, value⟩ := p
  cases fd
  cases value
  simp only [sameFd, Bool.and_eq_true, beq_iff_eq, FileHandler.mk.injEq]
  constructor
  · rintro ⟨⟨⟨⟨rfl, rfl⟩, rfl⟩, rfl⟩, rfl⟩
    exact ⟨rfl, rfl, rfl, rfl, rfl⟩
  · rintro ⟨rfl, rfl, rfl, rfl, rfl⟩
    exact ⟨⟨⟨⟨rfl, rfl⟩, rfl⟩, rfl⟩, rfl⟩

/-- The loop of `fileDelete` that removes the records in `l` from the lists of
    their sessions, and every list it empties. -/
def dropFds : List SessionFdPair → UMap SessionId (List FdRecord) → UMap SessionId (List FdRecord)
  | [], m => m
  | p :: rest, m =>
    dropFds rest ((m.alter p.session (·.filter fun f => f.address != p.fd.address)).eraseIf
      p.session List.isEmpty)

/-- Remove a session from the subscribers of a file, and the list if that empties it. -/
def unsubscribe (m : UMap Str (List SessionId)) (session : SessionId) (fileName : Str) :
    UMap Str (List SessionId) :=
  if m.has fileName then
    (m.alter fileName (·.filter (· != session))).eraseIf fileName List.isEmpty
  else m

namespace Leader

variable {δ : Type} (st : Leader δ)

/-! ## What the handlers read -/

/-- `session2client_map[session]`: empty for a session that has not started. -/
def client (session : SessionId) : Str := st.session2clientMap.get session

/-- The open handles of a session. -/
def fds (session : SessionId) : List FdRecord := st.session2fdMap.get session

/-- The waiters for the lock of a file, if a queue is stored. -/
def queue (fileName : Str) : Option (List (SessionId × Xid)) := st.file2lockQueueMap.find fileName

/-- The locks noted for a client. -/
def held (client : Str) : Finset Str := st.client2heldLockMap.get client

/-- The ephemeral files noted for a client. -/
def ephemeral (client : Str) : Finset Str := st.client2ephemeralMap.get client

/-- The record `findFd` returns: the first of the session with the fields of
    `fd`, or a new one. -/
def findFd (session : SessionId) (fd : FileHandler) : FdRecord :=
  ((st.fds session).find? (sameFd fd)).getD ⟨st.nextAddress, fd⟩

/-- What `sendLockChangeEvent` sends. -/
def lockEvents (fileName : Str) : List Action :=
  (st.file2lockChangeMap.get fileName).map (.event · .lockChanged fileName)

/-- What `sendContentChangeEvent` sends. -/
def contentEvents (fileName : Str) : List Action :=
  (st.file2contentChangeMap.get fileName).map (.event · .contentModified fileName)

/-- The content events of the parent of a node, unless that is the root. -/
def parentEvents (fileName : Str) : List Action :=
  if getParentName fileName = root then [] else st.contentEvents (getParentName fileName)

/-! ## What the handlers change -/

/-- The database after a call. -/
@[simps] def setDb (db : δ) : Leader δ := { st with db := db }

/-- Append to the log. -/
@[simps] def logged (actions : List Action) : Leader δ := { st with log := st.log ++ actions }

@[simp] theorem logged_nil : st.logged [] = st := by
  simp [logged]

theorem logged_logged (l l' : List Action) : (st.logged l).logged l' = st.logged (l ++ l') := by
  simp [logged]

/-- The reply of a call, which an internal call does not have. -/
def replyOf (session : SessionId) (xid : Xid) (body : Reply) : List Action :=
  if xid = internalXid then [] else [.reply session xid body]

/-- `session2client_map[session]` has been read. -/
@[simps] def touchClient (session : SessionId) : Leader δ :=
  { st with session2clientMap := st.session2clientMap.touch session }

/-- `session2fd_map[session]` has been read. -/
@[simps] def touchFds (session : SessionId) : Leader δ :=
  { st with session2fdMap := st.session2fdMap.touch session }

/-- `client2ephemeral_map[client]` has been read. -/
@[simps] def touchEphemeral (client : Str) : Leader δ :=
  { st with client2ephemeralMap := st.client2ephemeralMap.touch client }

/-- A new record with the fields `fd`, in the list of its file and of its session. -/
@[simps] def openFd (session : SessionId) (fd : FileHandler) : Leader δ :=
  { st with
    file2fdMap := st.file2fdMap.alter fd.fileName (· ++ [⟨session, ⟨st.nextAddress, fd⟩⟩])
    session2fdMap := st.session2fdMap.alter session (· ++ [⟨st.nextAddress, fd⟩])
    nextAddress := st.nextAddress + 1 }

/-- The state `findFd` leaves. -/
@[simps] def foundFd (session : SessionId) (fd : FileHandler) : Leader δ :=
  let found := ((st.fds session).find? (sameFd fd)).isSome
  { st with
    file2fdMap :=
      if found then st.file2fdMap
      else st.file2fdMap.alter fd.fileName (· ++ [⟨session, ⟨st.nextAddress, fd⟩⟩])
    session2fdMap :=
      if found then st.session2fdMap.touch session
      else (st.session2fdMap.touch session).alter session (· ++ [⟨st.nextAddress, fd⟩])
    nextAddress := if found then st.nextAddress else st.nextAddress + 1 }

/-- The state in which most handlers call the database: the client and the
    handle have been looked up. -/
abbrev entered (session : SessionId) (fd : FileHandler) : Leader δ :=
  (st.touchClient session).foundFd session fd

/-- The session registered for the events of `mode`. -/
@[simps] def subscribed (session : SessionId) (fileName : Str) (mode : Mode) : Leader δ :=
  { st with
    file2lockChangeMap :=
      if mode.has ModeFlag.evLockChanged then
        st.file2lockChangeMap.alter fileName (· ++ [session])
      else st.file2lockChangeMap
    file2contentChangeMap :=
      if mode.has ModeFlag.evContentModified then
        st.file2contentChangeMap.alter fileName (· ++ [session])
      else st.file2contentChangeMap }

/-- `client2ephemeral_map[client].insert(fileName)`, if the mode asks for it. -/
@[simps] def markedEphemeral (client fileName : Str) (mode : Mode) : Leader δ :=
  { st with
    client2ephemeralMap :=
      if mode.has ModeFlag.ephemeral then
        st.client2ephemeralMap.alter client (insert fileName)
      else st.client2ephemeralMap }

/-- `client2heldLock_map[client].insert(fileName)`. -/
@[simps] def hold (client fileName : Str) : Leader δ :=
  { st with client2heldLockMap := st.client2heldLockMap.alter client (insert fileName) }

/-- `client2heldLock_map[client].erase(fileName)`, and the entry if that empties it. -/
@[simps] def unhold (client fileName : Str) : Leader δ :=
  { st with
    client2heldLockMap :=
      (st.client2heldLockMap.alter client (·.erase fileName)).eraseIf client (· = ∅) }

/-- A waiter pushed on the lock queue of a file. -/
@[simps] def enqueue (fileName : Str) (session : SessionId) (xid : Xid) : Leader δ :=
  { st with
    file2lockQueueMap := st.file2lockQueueMap.alter fileName (· ++ [(session, xid)])
    log := st.log ++ [.enqueue fileName session xid] }

/-- The first waiter popped off the lock queue of a file; `rest` stays. -/
@[simps] def dequeue (fileName : Str) (session : SessionId) (xid : Xid)
    (rest : List (SessionId × Xid)) : Leader δ :=
  { st with
    file2lockQueueMap := st.file2lockQueueMap.set fileName rest
    log := st.log ++ [.dequeue fileName session xid] }

/-- The lock queue of a file erased. -/
@[simps] def dropQueue (fileName : Str) : Leader δ :=
  { st with file2lockQueueMap := st.file2lockQueueMap.erase fileName }

/-- The records of a file removed from the lists of their sessions. -/
@[simps] def dropRecords (fileName : Str) : Leader δ :=
  { st with
    file2fdMap := st.file2fdMap.touch fileName
    session2fdMap := dropFds (st.file2fdMap.get fileName) st.session2fdMap }

/-- The list of records of a file erased. -/
@[simps] def dropFile (fileName : Str) : Leader δ :=
  { st with file2fdMap := st.file2fdMap.erase fileName }

/-- `client2ephemeral_map[client].erase(name)`, and the entry if that empties it; a
    `name` that is no file's is in no set. -/
@[simps] def unmarkEphemeral (client : Str) (name : Option Str) : Leader δ :=
  { st with
    client2ephemeralMap :=
      (st.client2ephemeralMap.alter client fun files => name.elim files files.erase).eraseIf
        client (· = ∅) }

/-- The subscribers of a file erased. -/
@[simps] def dropEvents (fileName : Str) : Leader δ :=
  { st with
    file2contentChangeMap := st.file2contentChangeMap.erase fileName
    file2lockChangeMap := st.file2lockChangeMap.erase fileName }

/-- A record removed from the list of its file and from the list of its
    session, and each list that this empties. -/
@[simps] def removeFd (session : SessionId) (fd : FdRecord) : Leader δ :=
  { st with
    file2fdMap :=
      (st.file2fdMap.alter fd.value.fileName
        (·.filter fun p => !(p.session == session && p.fd.address == fd.address))).eraseIf
          fd.value.fileName List.isEmpty
    session2fdMap :=
      (st.session2fdMap.alter session (·.filter fun f => f.address != fd.address)).eraseIf
        session List.isEmpty }

/-- The session removed from the subscribers of a file. -/
@[simps] def unsubscribed (session : SessionId) (fileName : Str) : Leader δ :=
  { st with
    file2lockChangeMap := unsubscribe st.file2lockChangeMap session fileName
    file2contentChangeMap := unsubscribe st.file2contentChangeMap session fileName }

/-- `session2client_map[session] = clientId`. -/
@[simps] def started (session : SessionId) (clientId : Str) : Leader δ :=
  { st with session2clientMap := st.session2clientMap.set session clientId }

/-- The end of `disconnect`. -/
@[simps] def left (session : SessionId) : Leader δ :=
  { st with session2clientMap := st.session2clientMap.erase session }

/-- Every map cleared. -/
@[simps] def cleared : Leader δ :=
  { st with
    session2clientMap := .empty
    file2fdMap := .empty
    session2fdMap := .empty
    file2lockQueueMap := .empty
    client2heldLockMap := .empty
    client2ephemeralMap := .empty
    file2lockChangeMap := .empty
    file2contentChangeMap := .empty }

end Leader

end SimpleChubby
