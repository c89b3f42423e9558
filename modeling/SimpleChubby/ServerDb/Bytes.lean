import SimpleChubby.ServerDb.Rows
import SimpleChubby.Xdr.Marshal

/-!
# The database in opaque bytes

Paxos carries a command as `opaque request<>` and its result as `opaque reply<>`
(`paxos/paxos.x`). `ServerDBPaxos::runPaxos` marshals the one and unmarshals the
other (`server/serverdb_paxos.cc:30-63`); `ServerdbBackstore::Run` does the
reverse (`server/serverdb_backstore.cc:8-134`). Between two machines of any byte
orders a call through the bytes is the call itself, unless a message would have
2^31 bytes; and bytes that are no command change nothing.
-/

namespace SimpleChubby

open Xdr

/-! ## The unions of `server_paxos.x` -/

/-- `enum CallType`. -/
inductive CallType where
  | checkAndCreate
  | checkAndOpen
  | checkAndDelete
  | checkAndRead
  | checkAndUpdate
  | testAndSetLockOwner
  | resetLockOwner
  | getStates
  deriving DecidableEq, Repr

namespace CallType

/-- The number of a `CallType`. -/
def number : CallType → UInt32
  | checkAndCreate => 0
  | checkAndOpen => 1
  | checkAndDelete => 2
  | checkAndRead => 3
  | checkAndUpdate => 4
  | testAndSetLockOwner => 5
  | resetLockOwner => 6
  | getStates => 7

/-- `_xdr_field_number` of both unions. -/
def ofNumber (which : UInt32) : Option CallType :=
  if which = 0 then some checkAndCreate
  else if which = 1 then some checkAndOpen
  else if which = 2 then some checkAndDelete
  else if which = 3 then some checkAndRead
  else if which = 4 then some checkAndUpdate
  else if which = 5 then some testAndSetLockOwner
  else if which = 6 then some resetLockOwner
  else if which = 7 then some getStates
  else none

theorem ofNumber_number (c : CallType) : ofNumber c.number = some c := by
  cases c <;> rfl

theorem number_of_ofNumber {which : UInt32} {c : CallType} (h : ofNumber which = some c) :
    which = c.number := by
  unfold ofNumber at h
  split_ifs at h <;> cases h <;> assumption

/-- The fields of the structure of a parameter. -/
def Param : CallType → Type
  | checkAndCreate => Str × Bool × Unit
  | checkAndOpen => Str × Unit
  | checkAndDelete => Str × UInt32 × Unit
  | checkAndRead => Str × UInt32 × Unit
  | checkAndUpdate => Str × UInt32 × Str × Unit
  | testAndSetLockOwner => Str × UInt32 × Str × Unit
  | resetLockOwner => Str × UInt32 × Unit
  | getStates => Bool × Unit

/-- The traits of the field of `ServerPaxosParam` for a call. -/
def param : (c : CallType) → XdrTraits c.Param
  | checkAndCreate => field xstring (field bool structEnd)
  | checkAndOpen => field xstring structEnd
  | checkAndDelete => field xstring (field uint32 structEnd)
  | checkAndRead => field xstring (field uint32 structEnd)
  | checkAndUpdate => field xstring (field uint32 (field xstring structEnd))
  | testAndSetLockOwner => field xstring (field uint32 (field xstring structEnd))
  | resetLockOwner => field xstring (field uint32 structEnd)
  | getStates => field bool structEnd

/-- The bytes of that field. -/
def paramFormat : (c : CallType) → XdrFormat c.param
  | checkAndCreate => .field .xstring (.field .bool .structEnd)
  | checkAndOpen => .field .xstring .structEnd
  | checkAndDelete => .field .xstring (.field .uint32 .structEnd)
  | checkAndRead => .field .xstring (.field .uint32 .structEnd)
  | checkAndUpdate => .field .xstring (.field .uint32 (.field .xstring .structEnd))
  | testAndSetLockOwner => .field .xstring (.field .uint32 (.field .xstring .structEnd))
  | resetLockOwner => .field .xstring (.field .uint32 .structEnd)
  | getStates => .field .bool .structEnd

end CallType

/-- The fields of a `NewMetaData`, which are those of a `MetaData`. -/
def fieldsOfNewMetaData (m : MetaData) : UInt64 × UInt64 × UInt64 × UInt64 × Bool × Unit :=
  (m.instanceNumber, m.contentGenerationNumber, m.lockGenerationNumber, m.fileContentChecksum,
    m.isDirectory, ())

/-- The fields of a `NewMetaData`, both ways. -/
def newMetaDataFields : MetaData ≃ UInt64 × UInt64 × UInt64 × UInt64 × Bool × Unit where
  toFun := fieldsOfNewMetaData
  invFun p := ⟨p.1, p.2.1, p.2.2.1, p.2.2.2.1, p.2.2.2.2.1⟩
  left_inv _ := rfl
  right_inv _ := rfl

/-- `xdr_traits<NewMetaData>`. -/
def newMetaData : XdrTraits MetaData :=
  struct newMetaDataFields (field uint64 (field uint64 (field uint64 (field uint64
    (field bool structEnd)))))

/-- The bytes of a `NewMetaData`. -/
def newMetaDataFormat : XdrFormat newMetaData :=
  .struct _ (.field .uint64 (.field .uint64 (.field .uint64 (.field .uint64
    (.field .bool .structEnd)))))

/-- `struct key_value`. -/
def keyValueFields : Str × Str ≃ Str × Str × Unit where
  toFun p := (p.1, p.2, ())
  invFun p := (p.1, p.2.1)
  left_inv _ := rfl
  right_inv _ := rfl

/-- `xdr_traits<key_value>`. -/
def keyValue : XdrTraits (Str × Str) :=
  struct keyValueFields (field xstring (field xstring structEnd))

/-- The bytes of a `key_value`. -/
def keyValueFormat : XdrFormat keyValue := .struct _ (.field .xstring (.field .xstring .structEnd))

namespace CallType

/-- The fields of the structure of a result. -/
def Result : CallType → Type
  | checkAndCreate => UInt32 × Bool × Unit
  | checkAndOpen => UInt32 × Bool × Unit
  | checkAndDelete => Bool × Unit
  | checkAndRead => Str × MetaData × Bool × Unit
  | checkAndUpdate => Bool × Unit
  | testAndSetLockOwner => Bool × Unit
  | resetLockOwner => Bool × Unit
  | getStates => List (Str × Str) × Unit

/-- The traits of the field of `ServerPaxosResult` for a call. -/
def result : (c : CallType) → XdrTraits c.Result
  | checkAndCreate => field uint32 (field bool structEnd)
  | checkAndOpen => field uint32 (field bool structEnd)
  | checkAndDelete => field bool structEnd
  | checkAndRead => field xstring (field newMetaData (field bool structEnd))
  | checkAndUpdate => field bool structEnd
  | testAndSetLockOwner => field bool structEnd
  | resetLockOwner => field bool structEnd
  | getStates => field (xvector keyValue xdrMaxLen) structEnd

/-- The bytes of that field. -/
def resultFormat : (c : CallType) → XdrFormat c.result
  | checkAndCreate => .field .uint32 (.field .bool .structEnd)
  | checkAndOpen => .field .uint32 (.field .bool .structEnd)
  | checkAndDelete => .field .bool .structEnd
  | checkAndRead => .field .xstring (.field newMetaDataFormat (.field .bool .structEnd))
  | checkAndUpdate => .field .bool .structEnd
  | testAndSetLockOwner => .field .bool .structEnd
  | resetLockOwner => .field .bool .structEnd
  | getStates => .field (.xvector keyValueFormat xdrMaxLen) .structEnd

end CallType

/-- `ServerPaxosParam` as `gen_hh.cc` writes it. -/
def paramUnion : XdrUnion where
  badValue := "bad value of type in ServerPaxosParam"
  readTag d := d
  Arm := CallType
  fieldNumber := CallType.ofNumber
  Field := CallType.Param
  traits := CallType.param
  zeroArm := .checkAndCreate
  fieldNumber_zero := rfl

/-- `ServerPaxosResult` as `gen_hh.cc` writes it. -/
def resultUnion : XdrUnion where
  badValue := "bad value of type in ServerPaxosResult"
  readTag d := d
  Arm := CallType
  fieldNumber := CallType.ofNumber
  Field := CallType.Result
  traits := CallType.result
  zeroArm := .checkAndCreate
  fieldNumber_zero := rfl

/-- The bytes of a `ServerPaxosParam`. -/
def paramUnionFormat : XdrFormat paramUnion.unionTraits :=
  .union paramUnion CallType.paramFormat (fun _ _ _ => rfl) fun _ h => CallType.number_of_ofNumber h

/-- The bytes of a `ServerPaxosResult`. -/
def resultUnionFormat : XdrFormat resultUnion.unionTraits :=
  .union resultUnion CallType.resultFormat (fun _ _ _ => rfl)
    fun _ h => CallType.number_of_ofNumber h

/-! ## Parameters and results as objects -/

/-- An object of `ServerPaxosParam` for a call. -/
def paramObj (c : CallType) (p : c.Param) : paramUnion.Obj :=
  ⟨c.number, c, c.ofNumber_number, p⟩

/-- An object of `ServerPaxosResult` for a call. -/
def resultObj (c : CallType) (r : c.Result) : resultUnion.Obj :=
  ⟨c.number, c, c.ofNumber_number, r⟩

/-- The object that the methods of `ServerDBPaxos` fill; `dumb` stays `false`. -/
def ServerPaxosParam.toObj : ServerPaxosParam → paramUnion.Obj
  | .checkAndCreate fileName isDir => paramObj .checkAndCreate (fileName, isDir, ())
  | .checkAndOpen fileName => paramObj .checkAndOpen (fileName, ())
  | .checkAndDelete fileName n => paramObj .checkAndDelete (fileName, n, ())
  | .checkAndRead fileName n => paramObj .checkAndRead (fileName, n, ())
  | .checkAndUpdate fileName n content => paramObj .checkAndUpdate (fileName, n, content, ())
  | .testAndSetLockOwner fileName n clientId =>
    paramObj .testAndSetLockOwner (fileName, n, clientId, ())
  | .resetLockOwner fileName n => paramObj .resetLockOwner (fileName, n, ())
  | .getStates => paramObj .getStates (false, ())

/-- What the `switch` of `Run` reads of an object. -/
def ServerPaxosParam.ofObj : paramUnion.Obj → ServerPaxosParam
  | ⟨_, .checkAndCreate, _, (fileName, isDir, _)⟩ => .checkAndCreate fileName isDir
  | ⟨_, .checkAndOpen, _, (fileName, _)⟩ => .checkAndOpen fileName
  | ⟨_, .checkAndDelete, _, (fileName, n, _)⟩ => .checkAndDelete fileName n
  | ⟨_, .checkAndRead, _, (fileName, n, _)⟩ => .checkAndRead fileName n
  | ⟨_, .checkAndUpdate, _, (fileName, n, content, _)⟩ => .checkAndUpdate fileName n content
  | ⟨_, .testAndSetLockOwner, _, (fileName, n, clientId, _)⟩ =>
    .testAndSetLockOwner fileName n clientId
  | ⟨_, .resetLockOwner, _, (fileName, n, _)⟩ => .resetLockOwner fileName n
  | ⟨_, .getStates, _, _⟩ => .getStates

/-- The object that `Run` fills. -/
def ServerPaxosResult.toObj : ServerPaxosResult → resultUnion.Obj
  | .checkAndCreate n success => resultObj .checkAndCreate (n, success, ())
  | .checkAndOpen n success => resultObj .checkAndOpen (n, success, ())
  | .checkAndDelete success => resultObj .checkAndDelete (success, ())
  | .checkAndRead content metaData success =>
    resultObj .checkAndRead (content, metaData, success, ())
  | .checkAndUpdate success => resultObj .checkAndUpdate (success, ())
  | .testAndSetLockOwner success => resultObj .testAndSetLockOwner (success, ())
  | .resetLockOwner success => resultObj .resetLockOwner (success, ())
  | .getStates list => resultObj .getStates (list, ())

/-- What the methods of `ServerDBPaxos` read of an object. -/
def ServerPaxosResult.ofObj : resultUnion.Obj → ServerPaxosResult
  | ⟨_, .checkAndCreate, _, (n, success, _)⟩ => .checkAndCreate n success
  | ⟨_, .checkAndOpen, _, (n, success, _)⟩ => .checkAndOpen n success
  | ⟨_, .checkAndDelete, _, (success, _)⟩ => .checkAndDelete success
  | ⟨_, .checkAndRead, _, (content, metaData, success, _)⟩ =>
    .checkAndRead content metaData success
  | ⟨_, .checkAndUpdate, _, (success, _)⟩ => .checkAndUpdate success
  | ⟨_, .testAndSetLockOwner, _, (success, _)⟩ => .testAndSetLockOwner success
  | ⟨_, .resetLockOwner, _, (success, _)⟩ => .resetLockOwner success
  | ⟨_, .getStates, _, (list, _)⟩ => .getStates list

theorem ServerPaxosParam.ofObj_toObj (p : ServerPaxosParam) : ofObj p.toObj = p := by
  cases p <;> rfl

theorem ServerPaxosResult.ofObj_toObj (r : ServerPaxosResult) : ofObj r.toObj = r := by
  cases r <;> rfl

/-! ## Calls through bytes -/

/-- What an exception or a failed assertion of the XDR library is to the caller. -/
def faultOf : XdrFault → Fault
  | .assertion => .assertion
  | .outside => .assertion
  | _ => .exception

/-- What can leave `Run`: a failure of the XDR library, or of the database. -/
inductive RunFault where
  | xdr (e : XdrFault)
  | db (e : Fault)
  deriving DecidableEq, Repr

/-- What the failure is to the caller of `Run`. -/
def RunFault.fault : RunFault → Fault
  | .xdr e => faultOf e
  | .db e => e

/-- The end of `ServerdbBackstore::Run`, when the parameter has been unmarshaled. -/
def ServerdbBackstore.runParam (host : ByteOrder) (sq : Engine) (strHash : Str → UInt64)
    (param : ServerPaxosParam) : Prog RunFault Store (List UInt8) := do
  let result ← Prog.mapStop RunFault.db (ServerdbBackstore.run sq strHash param)
  let serializedResult ← orThrow RunFault.xdr (xdrToMsg host resultUnion.unionTraits result.toObj)
  return serializedResult.data

/-- `ServerdbBackstore::Run`. -/
def ServerdbBackstore.runBytes (host : ByteOrder) (sq : Engine) (strHash : Str → UInt64)
    (input : List UInt8) : Prog RunFault Store (List UInt8) := do
  let serializedParam ← orThrow RunFault.xdr (messageOf input)
  let param ←
    orThrow RunFault.xdr (xdrFromMsg host paramUnion.unionTraits serializedParam paramUnion.fresh)
  ServerdbBackstore.runParam host sq strHash (.ofObj param)

/-- `execute`, with the command and its result as opaque bytes. -/
structure OpaquePaxos (δ : Type) where
  execute : List UInt8 → Prog Fault δ (List UInt8)
  isLeaderAndInitialized : δ → Bool

/-- `ServerDBPaxos::runPaxos`. -/
def runPaxos {δ : Type} (host : ByteOrder) (lib : OpaquePaxos δ) (param : ServerPaxosParam) :
    Prog Fault δ ServerPaxosResult := do
  let serializedParam ← orThrow faultOf (xdrToMsg host paramUnion.unionTraits param.toObj)
  let reply ← lib.execute serializedParam.data
  let serializedResult ← orThrow faultOf (messageOf reply)
  let result ←
    orThrow faultOf (xdrFromMsg host resultUnion.unionTraits serializedResult resultUnion.fresh)
  return .ofObj result

/-- The library that `ServerDBPaxos` is over, when the commands are bytes. -/
def OpaquePaxos.typed {δ : Type} (host : ByteOrder) (lib : OpaquePaxos δ) : PaxosLib δ where
  execute := runPaxos host lib
  isLeaderAndInitialized := lib.isLeaderAndInitialized

/-- An initialised leader whose every call succeeds, on bytes. -/
def leaderOpaque (host : ByteOrder) (sq : Engine) (strHash : Str → UInt64) : OpaquePaxos Store where
  execute input := Prog.mapStop RunFault.fault (ServerdbBackstore.runBytes host sq strHash input)
  isLeaderAndInitialized _ := true

/-! ## The bytes carry the call -/

/-- The characters of the strings are bytes. -/
def ServerPaxosParam.IsBytes : ServerPaxosParam → Prop
  | .checkAndCreate fileName _ => XdrFormat.IsBytes fileName
  | .checkAndOpen fileName => XdrFormat.IsBytes fileName
  | .checkAndDelete fileName _ => XdrFormat.IsBytes fileName
  | .checkAndRead fileName _ => XdrFormat.IsBytes fileName
  | .checkAndUpdate fileName _ content => XdrFormat.IsBytes fileName ∧ XdrFormat.IsBytes content
  | .testAndSetLockOwner fileName _ clientId =>
    XdrFormat.IsBytes fileName ∧ XdrFormat.IsBytes clientId
  | .resetLockOwner fileName _ => XdrFormat.IsBytes fileName
  | .getStates => True

/-- The characters of the strings are bytes. -/
def ServerPaxosResult.IsBytes : ServerPaxosResult → Prop
  | .checkAndRead content _ _ => XdrFormat.IsBytes content
  | .getStates list => ∀ p ∈ list, XdrFormat.IsBytes p.1 ∧ XdrFormat.IsBytes p.2
  | _ => True

theorem ServerPaxosParam.fits {p : ServerPaxosParam} (h : p.IsBytes) :
    paramUnionFormat.Fits p.toObj := by
  cases p with
  | checkAndCreate fileName isDir => exact ⟨h, trivial, trivial⟩
  | checkAndOpen fileName => exact ⟨h, trivial⟩
  | checkAndDelete fileName n => exact ⟨h, trivial, trivial⟩
  | checkAndRead fileName n => exact ⟨h, trivial, trivial⟩
  | checkAndUpdate fileName n content => exact ⟨h.1, trivial, h.2, trivial⟩
  | testAndSetLockOwner fileName n clientId => exact ⟨h.1, trivial, h.2, trivial⟩
  | resetLockOwner fileName n => exact ⟨h, trivial, trivial⟩
  | getStates => exact ⟨trivial, trivial⟩

/-- A list of states that fits into a message has no more entries than the type allows. -/
theorem ServerPaxosResult.fits {r : ServerPaxosResult} (h : r.IsBytes)
    (hsize : (resultUnionFormat.encode r.toObj).length < 0x80000000) :
    resultUnionFormat.Fits r.toObj := by
  cases r with
  | checkAndCreate n success => exact ⟨trivial, trivial, trivial⟩
  | checkAndOpen n success => exact ⟨trivial, trivial, trivial⟩
  | checkAndDelete success => exact ⟨trivial, trivial⟩
  | checkAndRead content metaData success =>
    exact ⟨h, ⟨trivial, trivial, trivial, trivial, trivial, trivial⟩, trivial, trivial⟩
  | checkAndUpdate success => exact ⟨trivial, trivial⟩
  | testAndSetLockOwner success => exact ⟨trivial, trivial⟩
  | resetLockOwner success => exact ⟨trivial, trivial⟩
  | getStates list =>
    have hentry : ∀ p : Str × Str, 1 ≤ (keyValueFormat.encode p).length := by
      intro p
      have hpair : keyValueFormat.encode p =
          XdrFormat.xstring.encode p.1 ++ (XdrFormat.xstring.encode p.2 ++ []) := rfl
      have hfirst : (XdrFormat.xstring.encode p.1).length = ((bytesOf p.1).length + 7) / 4 * 4 :=
        XdrFormat.varBytes_length _
      rw [hpair, List.length_append, hfirst]
      omega
    have hlist := keyValueFormat.le_encodeElements hentry list
    have hbytes : (resultUnionFormat.encode (ServerPaxosResult.getStates list).toObj).length =
        (be32 7 ++ ((be32 (UInt32.ofNat list.length) ++ keyValueFormat.encodeElements list) ++
          [])).length := rfl
    have hmax : xdrMaxLen.toNat = 0xfffffffc := rfl
    simp only [hbytes, List.length_append] at hsize
    have hlen : list.length ≤ xdrMaxLen.toNat := by omega
    exact ⟨⟨hlen, fun p hp => ⟨(h p hp).1, (h p hp).2, trivial⟩⟩, trivial⟩

section Leader

variable (host host' : ByteOrder) (sq : Engine) (strHash : Str → UInt64)

/-- Once the parameter has been read, the command is run, and then an assertion fails
    if its result has 2^31 bytes. -/
theorem runParam_eq (p : ServerPaxosParam) (st : Store) :
    ServerdbBackstore.runParam host sq strHash p st =
      match ServerdbBackstore.run sq strHash p st with
      | .ret r st' =>
        if (resultUnionFormat.encode r.toObj).length < 0x80000000 then
          .ret (resultUnionFormat.encode r.toObj) st'
        else .stop (.xdr .assertion) st'
      | .stop e st' => .stop (.db e) st' := by
  unfold ServerdbBackstore.runParam
  cases hrun : ServerdbBackstore.run sq strHash p st with
  | stop e st' => exact Prog.bind_of_stop (Prog.mapStop_of_stop hrun)
  | ret r st' =>
    rw [Prog.bind_of_ret (Prog.mapStop_of_ret hrun)]
    dsimp only
    rw [xdrToMsg_eq resultUnionFormat]
    split_ifs <;> rfl

/-- The bytes of a command run the command. -/
theorem runBytes_of_xdrToMsg {host' : ByteOrder} {p : ServerPaxosParam} {m : Message}
    (hp : p.IsBytes) (h : xdrToMsg host' paramUnion.unionTraits p.toObj = .ok m) :
    ServerdbBackstore.runBytes host sq strHash m.data =
      ServerdbBackstore.runParam host sq strHash p := by
  have hread : xdrFromMsg host paramUnion.unionTraits m paramUnion.fresh = .ok p.toObj :=
    xdrFromMsg_xdrToMsg paramUnionFormat (ServerPaxosParam.fits hp) h host
  unfold ServerdbBackstore.runBytes
  rw [messageOf_data, orThrow_ok, hread, orThrow_ok, ServerPaxosParam.ofObj_toObj]

/-- The result whose bytes `execute` returns is the result of the call. -/
theorem runPaxos_of_ret {host : ByteOrder} {δ : Type} {lib : OpaquePaxos δ}
    {p : ServerPaxosParam} {m : Message} {r : ServerPaxosResult} {d d' : δ}
    (hm : xdrToMsg host paramUnion.unionTraits p.toObj = .ok m) (hr : r.IsBytes)
    (hshort : (resultUnionFormat.encode r.toObj).length < 0x80000000)
    (h : lib.execute m.data d = .ret (resultUnionFormat.encode r.toObj) d') :
    runPaxos host lib p d = .ret r d' := by
  have hm' : xdrToMsg host resultUnion.unionTraits r.toObj = .ok ⟨_, hshort⟩ :=
    (xdrToMsg_eq resultUnionFormat host r.toObj).trans (dif_pos hshort)
  have hread : xdrFromMsg host resultUnion.unionTraits ⟨_, hshort⟩ resultUnion.fresh =
      .ok r.toObj :=
    xdrFromMsg_xdrToMsg resultUnionFormat (ServerPaxosResult.fits hr hshort) hm' host
  have halloc : messageOf (resultUnionFormat.encode r.toObj) = .ok ⟨_, hshort⟩ := dif_pos hshort
  unfold runPaxos
  rw [hm, orThrow_ok, Prog.bind_of_ret h, halloc, orThrow_ok, hread, orThrow_ok,
    ServerPaxosResult.ofObj_toObj]
  rfl

/-- The call ends where `execute` does. -/
theorem runPaxos_of_stop {host : ByteOrder} {δ : Type} {lib : OpaquePaxos δ}
    {p : ServerPaxosParam} {m : Message} {e : Fault} {d d' : δ}
    (hm : xdrToMsg host paramUnion.unionTraits p.toObj = .ok m)
    (h : lib.execute m.data d = .stop e d') : runPaxos host lib p d = .stop e d' := by
  unfold runPaxos
  rw [hm, orThrow_ok]
  exact Prog.bind_of_stop h

/-- A call of `ServerDBPaxos` through the bytes, on a leader whose every call
    succeeds: it ends as the call itself, unless the command or the result would
    have 2^31 bytes; then an assertion fails, before the command has been run or
    after. -/
theorem runPaxos_leaderOpaque (p : ServerPaxosParam) (st : Store) (hp : p.IsBytes)
    (hresult : ∀ r st', ServerdbBackstore.run sq strHash p st = .ret r st' → r.IsBytes) :
    runPaxos host (leaderOpaque host' sq strHash) p st =
      if (paramUnionFormat.encode p.toObj).length < 0x80000000 then
        match ServerdbBackstore.run sq strHash p st with
        | .ret r st' =>
          if (resultUnionFormat.encode r.toObj).length < 0x80000000 then .ret r st'
          else .stop .assertion st'
        | .stop e st' => .stop e st'
      else .stop .assertion st := by
  rcases xdrToMsg_cases paramUnionFormat host p.toObj with ⟨hlong, herr⟩ | ⟨hshort, m, hm⟩
  · unfold runPaxos
    rw [if_neg hlong, herr, orThrow_error]
    rfl
  · have hexec : (leaderOpaque host' sq strHash).execute m.data =
        Prog.mapStop RunFault.fault (ServerdbBackstore.runParam host' sq strHash p) := by
      show Prog.mapStop RunFault.fault (ServerdbBackstore.runBytes host' sq strHash m.data) = _
      rw [runBytes_of_xdrToMsg host' sq strHash hp hm]
    have hrun := runParam_eq host' sq strHash p st
    rw [if_pos hshort]
    cases hend : ServerdbBackstore.run sq strHash p st with
    | stop e st' =>
      rw [hend] at hrun
      refine runPaxos_of_stop hm ?_
      rw [hexec]
      exact Prog.mapStop_of_stop hrun
    | ret r st' =>
      rw [hend] at hrun
      dsimp only at hrun ⊢
      split_ifs at hrun ⊢ with hshort'
      · refine runPaxos_of_ret hm (hresult r st' hend) hshort' ?_
        rw [hexec]
        exact Prog.mapStop_of_ret hrun
      · refine runPaxos_of_stop hm ?_
        rw [hexec]
        exact Prog.mapStop_of_stop hrun

/-- What can be read as an object of `ServerPaxosParam` is a command. -/
theorem ServerPaxosParam.isBytes_ofObj {obj : paramUnion.Obj} (h : paramUnionFormat.Fits obj) :
    (ofObj obj).IsBytes := by
  obtain ⟨disc, arm, hnamed, f⟩ := obj
  cases arm with
  | checkAndCreate => exact h.1
  | checkAndOpen => exact h.1
  | checkAndDelete => exact h.1
  | checkAndRead => exact h.1
  | checkAndUpdate => exact ⟨h.1, h.2.2.1⟩
  | testAndSetLockOwner => exact ⟨h.1, h.2.2.1⟩
  | resetLockOwner => exact h.1
  | getStates => trivial

/-- Whatever bytes reach the back store, they leave the database as it was, or one of
    the commands is run on it. -/
theorem runBytes_cases (input : List UInt8) (st : Store) :
    (∃ e, ServerdbBackstore.runBytes host sq strHash input st = .stop e st) ∨
    ∃ p : ServerPaxosParam, p.IsBytes ∧ ServerdbBackstore.runBytes host sq strHash input st =
      ServerdbBackstore.runParam host sq strHash p st := by
  unfold ServerdbBackstore.runBytes
  cases halloc : messageOf input with
  | error e => exact Or.inl ⟨.xdr e, rfl⟩
  | ok m =>
    have hsafe := xdrFromMsg_safe paramUnionFormat host m paramUnion.fresh
    rw [orThrow_ok]
    cases hread : xdrFromMsg host paramUnion.unionTraits m paramUnion.fresh with
    | error e => exact Or.inl ⟨.xdr e, rfl⟩
    | ok obj =>
      rw [hread] at hsafe
      exact Or.inr ⟨.ofObj obj, ServerPaxosParam.isBytes_ofObj hsafe.1, rfl⟩

/-- The database after some commands, whatever came of each. -/
def ServerdbBackstore.replay : List ServerPaxosParam → Store → Store
  | [], st => st
  | p :: rest, st =>
    match ServerdbBackstore.run sq strHash p st with
    | .ret _ st' => replay rest st'
    | .stop _ st' => replay rest st'

/-- The results of some commands, where each returns. -/
def ServerdbBackstore.runAll : List ServerPaxosParam → Prog Fault Store (List ServerPaxosResult)
  | [] => return []
  | p :: rest => do
    let r ← ServerdbBackstore.run sq strHash p
    let results ← runAll rest
    return r :: results

theorem ServerdbBackstore.replay_append (ps ps' : List ServerPaxosParam) (st : Store) :
    replay sq strHash (ps ++ ps') st = replay sq strHash ps' (replay sq strHash ps st) := by
  induction ps generalizing st with
  | nil => rfl
  | cons p rest ih =>
    show (match ServerdbBackstore.run sq strHash p st with
      | .ret _ st' => replay sq strHash (rest ++ ps') st'
      | .stop _ st' => replay sq strHash (rest ++ ps') st') =
      replay sq strHash ps' (match ServerdbBackstore.run sq strHash p st with
        | .ret _ st' => replay sq strHash rest st'
        | .stop _ st' => replay sq strHash rest st')
    cases ServerdbBackstore.run sq strHash p st <;> exact ih _

/-- What a run through the bytes leaves behind is what commands leave behind. -/
theorem runBytes_replay (input : List UInt8) (st : Store) :
    ∃ ps : List ServerPaxosParam, (∀ p ∈ ps, p.IsBytes) ∧
      Prog.wp (ServerdbBackstore.runBytes host sq strHash input)
        (fun _ st' => st' = ServerdbBackstore.replay sq strHash ps st)
        (fun _ st' => st' = ServerdbBackstore.replay sq strHash ps st) st := by
  rcases runBytes_cases host sq strHash input st with ⟨e, hstop⟩ | ⟨p, hp, hrun⟩
  · refine ⟨[], by simp, ?_⟩
    unfold Prog.wp
    rw [hstop]
    rfl
  · refine ⟨[p], by simpa using hp, ?_⟩
    unfold Prog.wp
    rw [hrun, runParam_eq]
    unfold ServerdbBackstore.replay ServerdbBackstore.replay
    cases ServerdbBackstore.run sq strHash p st with
    | ret r st' =>
      dsimp only
      by_cases hshort : (resultUnionFormat.encode r.toObj).length < 0x80000000
      · rw [if_pos hshort]
      · rw [if_neg hshort]
    | stop e st' => rfl

end Leader

theorem runPaxos_create :
    runPaxos .big (leaderOpaque .little .refusing fun _ => 0)
        (.checkAndCreate "/f".toList false) .empty =
      .ret (.checkAndCreate 1 true) (Store.empty.create "/f".toList false 1) := by
  have hrun : ServerdbBackstore.run .refusing (fun _ => 0) (.checkAndCreate "/f".toList false)
      .empty = .ret (.checkAndCreate 1 true) (Store.empty.create "/f".toList false 1) := rfl
  have hbytes : (ServerPaxosParam.checkAndCreate "/f".toList false).IsBytes := by
    show XdrFormat.IsBytes ['/', 'f']
    simp
  have hcall := runPaxos_leaderOpaque .big .little .refusing (fun _ => 0) _ .empty hbytes (by
    intro r st' hr
    rw [hrun] at hr
    cases hr
    trivial)
  rw [hrun, if_pos (by decide)] at hcall
  exact hcall.trans (if_pos (by decide))

end SimpleChubby
