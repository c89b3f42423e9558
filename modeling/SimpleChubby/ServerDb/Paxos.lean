import SimpleChubby.ServerDb.Basic

/-!
# `ServerDBPaxos` and `ServerdbBackstore`

The parameter and result unions of `server/server_paxos.x`, the back store that
runs a parameter on its `ServerDB` (`server/serverdb_backstore.cc`), and the
client side with the interface of `ServerDB` (`server/serverdb_paxos.cc`).
Encoding and decoding a union is the identity; its `unsigned` fields have 32
bits. An output that the C++ leaves indeterminate is 0 here.
-/

namespace SimpleChubby

/-- `union ServerPaxosParam` (`server/server_paxos.x:72-89`). -/
inductive ServerPaxosParam where
  | checkAndCreate (fileName : Str) (isDir : Bool)
  | checkAndOpen (fileName : Str)
  | checkAndDelete (fileName : Str) (instanceNumber : UInt32)
  | checkAndRead (fileName : Str) (instanceNumber : UInt32)
  | checkAndUpdate (fileName : Str) (instanceNumber : UInt32) (content : Str)
  | testAndSetLockOwner (fileName : Str) (instanceNumber : UInt32) (clientId : Str)
  | resetLockOwner (fileName : Str) (instanceNumber : UInt32)
  | getStates
  deriving DecidableEq, Repr

/-- `union ServerPaxosResult` (`server/server_paxos.x:90-107`). -/
inductive ServerPaxosResult where
  | checkAndCreate (instanceNumber : UInt32) (success : Bool)
  | checkAndOpen (instanceNumber : UInt32) (success : Bool)
  | checkAndDelete (success : Bool)
  | checkAndRead (content : Str) (metaData : MetaData) (success : Bool)
  | checkAndUpdate (success : Bool)
  | testAndSetLockOwner (success : Bool)
  | resetLockOwner (success : Bool)
  | getStates (list : List (Str × Str))
  deriving DecidableEq, Repr

/-- The zero `MetaData` of a result union that was not filled. -/
def MetaData.zero : MetaData := ⟨0, 0, 0, 0, false⟩

/-- `ServerdbBackstore::Run`. The `GET_STATES` case calls `getStates` twice on
    one vector. -/
def ServerdbBackstore.run (sq : Engine) (strHash : Str → UInt64) :
    ServerPaxosParam → Prog Fault Store ServerPaxosResult
  | .checkAndCreate fileName isDir => do
    let r ← ServerDb.checkAndCreate sq strHash fileName isDir
    return .checkAndCreate (r.getD 0).toUInt32 r.isSome
  | .checkAndOpen fileName => do
    let r ← ServerDb.checkAndOpen sq fileName
    return .checkAndOpen (r.getD 0).toUInt32 r.isSome
  | .checkAndDelete fileName instanceNumber => do
    let success ← ServerDb.checkAndDelete sq strHash fileName instanceNumber.toUInt64
    return .checkAndDelete success
  | .checkAndRead fileName instanceNumber => do
    let r ← ServerDb.checkAndRead sq fileName instanceNumber.toUInt64
    let (content, metaData) := r.getD ([], MetaData.zero)
    return .checkAndRead content metaData r.isSome
  | .checkAndUpdate fileName instanceNumber content => do
    let success ← ServerDb.checkAndUpdate sq strHash fileName instanceNumber.toUInt64 content
    return .checkAndUpdate success
  | .testAndSetLockOwner fileName instanceNumber clientId => do
    let success ← ServerDb.testAndSetLockOwner sq fileName instanceNumber.toUInt64 clientId
    return .testAndSetLockOwner success
  | .resetLockOwner fileName instanceNumber => do
    let success ← ServerDb.resetLockOwner sq fileName instanceNumber.toUInt64
    return .resetLockOwner success
  | .getStates => do
    let first ← ServerDb.getStates
    let second ← ServerDb.getStates
    return .getStates (first ++ second)

/-- The interface of `ServerDBPaxos` to the service logic. -/
structure Database (δ : Type) where
  checkAndCreate : Str → Bool → Prog Fault δ (Option UInt64)
  checkAndOpen : Str → Prog Fault δ (Option UInt64)
  checkAndDelete : Str → UInt64 → Prog Fault δ Bool
  checkAndRead : Str → UInt64 → Prog Fault δ (Option (Str × MetaData))
  checkAndUpdate : Str → UInt64 → Str → Prog Fault δ Bool
  testAndSetLockOwner : Str → UInt64 → Str → Prog Fault δ Bool
  resetLockOwner : Str → UInt64 → Prog Fault δ Bool
  getStates : Prog Fault δ (List (Str × Str))
  isLeaderAndInitialized : δ → Bool

/-- What `ServerDBPaxos` uses of `PaxosLib`: `execute`, which throws when the
    replica is not the leader, and the leadership test. -/
structure PaxosLib (δ : Type) where
  execute : ServerPaxosParam → Prog Fault δ ServerPaxosResult
  isLeaderAndInitialized : δ → Bool

section Client

variable {δ : Type} (lib : PaxosLib δ)

/-- `ServerDBPaxos`. Reading a member of a union that holds another one throws. -/
def serverDbPaxos : Database δ where
  checkAndCreate fileName isDir := do
    match ← lib.execute (.checkAndCreate fileName isDir) with
    | .checkAndCreate instanceNumber success =>
      return if success then some instanceNumber.toUInt64 else none
    | _ => Prog.halt .exception
  checkAndOpen fileName := do
    match ← lib.execute (.checkAndOpen fileName) with
    | .checkAndOpen instanceNumber success =>
      return if success then some instanceNumber.toUInt64 else none
    | _ => Prog.halt .exception
  checkAndDelete fileName instanceNumber := do
    match ← lib.execute (.checkAndDelete fileName instanceNumber.toUInt32) with
    | .checkAndDelete success => return success
    | _ => Prog.halt .exception
  checkAndRead fileName instanceNumber := do
    match ← lib.execute (.checkAndRead fileName instanceNumber.toUInt32) with
    | .checkAndRead content metaData success =>
      return if success then some (content, metaData) else none
    | _ => Prog.halt .exception
  checkAndUpdate fileName instanceNumber content := do
    match ← lib.execute (.checkAndUpdate fileName instanceNumber.toUInt32 content) with
    | .checkAndUpdate success => return success
    | _ => Prog.halt .exception
  testAndSetLockOwner fileName instanceNumber clientId := do
    match ← lib.execute (.testAndSetLockOwner fileName instanceNumber.toUInt32 clientId) with
    | .testAndSetLockOwner success => return success
    | _ => Prog.halt .exception
  resetLockOwner fileName instanceNumber := do
    match ← lib.execute (.resetLockOwner fileName instanceNumber.toUInt32) with
    | .resetLockOwner success => return success
    | _ => Prog.halt .exception
  getStates := do
    match ← lib.execute .getStates with
    | .getStates list => return list
    | _ => Prog.halt .exception
  isLeaderAndInitialized := lib.isLeaderAndInitialized

end Client

/-- The Paxos library of an initialised leader whose every call succeeds: a
    command is run on the leader's own back store. -/
def leaderPaxos (sq : Engine) (strHash : Str → UInt64) : PaxosLib Store where
  execute := ServerdbBackstore.run sq strHash
  isLeaderAndInitialized _ := true

end SimpleChubby
