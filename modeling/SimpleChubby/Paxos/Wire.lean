import SimpleChubby.Paxos.Replica
import SimpleChubby.Rpc.Synchronous
import SimpleChubby.ServerDb.Bytes

/-!
# The calls between replicas

The interface `paxos_v1` of `paxos/paxos.x` and its `replicate`
(`paxos/paxos_impl.cc:15-40`), with the messages of `replicateCommand`
(`paxos/execute_replicate_engine.cc`). A command that the leader sends is run by
the back store of the backup as it was given to the leader, and a view arrives as
it was sent. Whatever bytes reach a replica, it only ever takes over a view, runs
one of the commands, or serves `init_view`.
-/

namespace SimpleChubby

open Xdr Rpc

namespace Paxos

/-! ## The types of `paxos.x` -/

/-- `struct viewstamp_t`. -/
structure Viewstamp where
  vid : ViewId
  ts : UInt32
  deriving DecidableEq, Repr

/-- `struct execute_arg`. -/
structure ExecuteArg where
  cid : Str
  rid : UInt32
  vid : ViewId
  request : List UInt8
  deriving DecidableEq, Repr

/-- `struct replicate_arg`. -/
structure WireReplicateArg where
  vs : Viewstamp
  arg : ExecuteArg
  committed : Viewstamp
  deriving DecidableEq, Repr

/-- `struct init_view_request`. -/
structure InitViewRequest where
  newview : View
  prev : Viewstamp
  deriving DecidableEq, Repr

/-- `struct view_change_arg`, and `struct view_change_reject` with the same fields. -/
structure ViewChangeArg where
  oldview : View
  newvid : ViewId
  deriving DecidableEq, Repr

/-- `struct view_change_accept`. -/
structure ViewChangeAccept where
  myid : Str
  latest : Viewstamp
  newview : View
  deriving DecidableEq, Repr

/-- `struct new_view_arg`. -/
structure NewViewArg where
  latest : Viewstamp
  view : View
  deriving DecidableEq, Repr

/-- The fields of a `viewid_t`, in the order of `paxos.x`. -/
def ViewId.fields : ViewId ≃ UInt64 × Str × Unit where
  toFun v := (v.counter, v.manager, ())
  invFun p := ⟨p.1, p.2.1⟩
  left_inv _ := rfl
  right_inv _ := rfl

/-- The fields of a `viewstamp_t`, in the order of `paxos.x`. -/
def Viewstamp.fields : Viewstamp ≃ ViewId × UInt32 × Unit where
  toFun v := (v.vid, v.ts, ())
  invFun p := ⟨p.1, p.2.1⟩
  left_inv _ := rfl
  right_inv _ := rfl

/-- The fields of a `cohort_t`, in the order of `paxos.x`. -/
def Cohort.fields : Cohort ≃ Str × Str × Unit where
  toFun c := (c.id, c.addr, ())
  invFun p := ⟨p.1, p.2.1⟩
  left_inv _ := rfl
  right_inv _ := rfl

/-- The fields of a `view_t`, in the order of `paxos.x`. -/
def View.fields : View ≃ ViewId × Cohort × List Cohort × Unit where
  toFun v := (v.vid, v.primary, v.backups, ())
  invFun p := ⟨p.1, p.2.1, p.2.2.1⟩
  left_inv _ := rfl
  right_inv _ := rfl

/-- The fields of an `execute_arg`, in the order of `paxos.x`. -/
def ExecuteArg.fields : ExecuteArg ≃ Str × UInt32 × ViewId × List UInt8 × Unit where
  toFun a := (a.cid, a.rid, a.vid, a.request, ())
  invFun p := ⟨p.1, p.2.1, p.2.2.1, p.2.2.2.1⟩
  left_inv _ := rfl
  right_inv _ := rfl

/-- The fields of a `replicate_arg`, in the order of `paxos.x`. -/
def WireReplicateArg.fields : WireReplicateArg ≃ Viewstamp × ExecuteArg × Viewstamp × Unit where
  toFun a := (a.vs, a.arg, a.committed, ())
  invFun p := ⟨p.1, p.2.1, p.2.2.1⟩
  left_inv _ := rfl
  right_inv _ := rfl

/-- The fields of an `init_view_request`, in the order of `paxos.x`. -/
def InitViewRequest.fields : InitViewRequest ≃ View × Viewstamp × Unit where
  toFun r := (r.newview, r.prev, ())
  invFun p := ⟨p.1, p.2.1⟩
  left_inv _ := rfl
  right_inv _ := rfl

/-- The fields of a `view_change_arg`, in the order of `paxos.x`. -/
def ViewChangeArg.fields : ViewChangeArg ≃ View × ViewId × Unit where
  toFun a := (a.oldview, a.newvid, ())
  invFun p := ⟨p.1, p.2.1⟩
  left_inv _ := rfl
  right_inv _ := rfl

/-- The fields of a `view_change_accept`, in the order of `paxos.x`. -/
def ViewChangeAccept.fields : ViewChangeAccept ≃ Str × Viewstamp × View × Unit where
  toFun a := (a.myid, a.latest, a.newview, ())
  invFun p := ⟨p.1, p.2.1, p.2.2.1⟩
  left_inv _ := rfl
  right_inv _ := rfl

/-- The fields of a `new_view_arg`, in the order of `paxos.x`. -/
def NewViewArg.fields : NewViewArg ≃ Viewstamp × View × Unit where
  toFun a := (a.latest, a.view, ())
  invFun p := ⟨p.1, p.2.1⟩
  left_inv _ := rfl
  right_inv _ := rfl

/-- `xdr_traits<viewid_t>`. -/
def viewId : XdrTraits ViewId := struct ViewId.fields (field uint64 (field xstring structEnd))

/-- `xdr_traits<viewstamp_t>`. -/
def viewstamp : XdrTraits Viewstamp :=
  struct Viewstamp.fields (field viewId (field uint32 structEnd))

/-- `xdr_traits<cohort_t>`. -/
def cohort : XdrTraits Cohort := struct Cohort.fields (field xstring (field xstring structEnd))

/-- `xdr_traits<view_t>`. -/
def view : XdrTraits View :=
  struct View.fields (field viewId (field cohort (field (xvector cohort xdrMaxLen) structEnd)))

/-- `xdr_traits<execute_arg>`. -/
def executeArg : XdrTraits ExecuteArg :=
  struct ExecuteArg.fields (field xstring (field uint32 (field viewId
    (field (opaqueVec xdrMaxLen) structEnd))))

/-- `xdr_traits<replicate_arg>`. -/
def replicateArg : XdrTraits WireReplicateArg :=
  struct WireReplicateArg.fields (field viewstamp (field executeArg (field viewstamp structEnd)))

/-- `xdr_traits<init_view_request>`. -/
def initViewRequest : XdrTraits InitViewRequest :=
  struct InitViewRequest.fields (field view (field viewstamp structEnd))

/-- `xdr_traits<view_change_arg>`. -/
def viewChangeArg : XdrTraits ViewChangeArg :=
  struct ViewChangeArg.fields (field view (field viewId structEnd))

/-- `xdr_traits<view_change_accept>`. -/
def viewChangeAccept : XdrTraits ViewChangeAccept :=
  struct ViewChangeAccept.fields (field xstring (field viewstamp (field view structEnd)))

/-- `xdr_traits<new_view_arg>`. -/
def newViewArg : XdrTraits NewViewArg :=
  struct NewViewArg.fields (field viewstamp (field view structEnd))

/-- `struct replicate_res`. -/
def replicateRes : XdrTraits (Viewstamp × Unit) := field viewstamp structEnd

/-- `struct new_view_res` and `struct init_view_res`. -/
def boolRes : XdrTraits (Bool × Unit) := field bool structEnd

/-- `struct init_view_arg`. -/
def initViewArg : XdrTraits (View × Unit) := field view structEnd

/-- `union view_change_res`: the field for `accepted`. -/
def viewChangeRes : XdrUnion where
  badValue := "bad value of accepted in view_change_res"
  readTag d := if d = 0 then 0 else 1
  Arm := Bool
  fieldNumber which := if which = 0 then some false else if which = 1 then some true else none
  Field
    | false => ViewChangeArg
    | true => ViewChangeAccept
  traits
    | false => viewChangeArg
    | true => viewChangeAccept
  zeroArm := false
  fieldNumber_zero := rfl

/-- The bytes of a `viewid_t`. -/
def viewIdFormat : XdrFormat viewId := .struct _ (.field .uint64 (.field .xstring .structEnd))

/-- The bytes of a `viewstamp_t`. -/
def viewstampFormat : XdrFormat viewstamp :=
  .struct _ (.field viewIdFormat (.field .uint32 .structEnd))

/-- The bytes of a `cohort_t`. -/
def cohortFormat : XdrFormat cohort := .struct _ (.field .xstring (.field .xstring .structEnd))

/-- The bytes of a `view_t`. -/
def viewFormat : XdrFormat view :=
  .struct _ (.field viewIdFormat (.field cohortFormat
    (.field (.xvector cohortFormat xdrMaxLen) .structEnd)))

/-- The bytes of an `execute_arg`. -/
def executeArgFormat : XdrFormat executeArg :=
  .struct _ (.field .xstring (.field .uint32 (.field viewIdFormat
    (.field (.opaqueVec xdrMaxLen) .structEnd))))

/-- The bytes of a `replicate_arg`. -/
def replicateArgFormat : XdrFormat replicateArg :=
  .struct _ (.field viewstampFormat (.field executeArgFormat (.field viewstampFormat .structEnd)))

/-- The bytes of an `init_view_request`. -/
def initViewRequestFormat : XdrFormat initViewRequest :=
  .struct _ (.field viewFormat (.field viewstampFormat .structEnd))

/-- The bytes of a `view_change_arg`. -/
def viewChangeArgFormat : XdrFormat viewChangeArg :=
  .struct _ (.field viewFormat (.field viewIdFormat .structEnd))

/-- The bytes of a `view_change_accept`. -/
def viewChangeAcceptFormat : XdrFormat viewChangeAccept :=
  .struct _ (.field .xstring (.field viewstampFormat (.field viewFormat .structEnd)))

/-- The bytes of a `new_view_arg`. -/
def newViewArgFormat : XdrFormat newViewArg :=
  .struct _ (.field viewstampFormat (.field viewFormat .structEnd))

/-- The bytes of a `replicate_res`. -/
def replicateResFormat : XdrFormat replicateRes := .field viewstampFormat .structEnd

/-- The bytes of a `new_view_res` and of an `init_view_res`. -/
def boolResFormat : XdrFormat boolRes := .field .bool .structEnd

/-- The bytes of an `init_view_arg`. -/
def initViewArgFormat : XdrFormat initViewArg := .field viewFormat .structEnd

/-- The bytes of a `view_change_res`. Any word but 0 is read as `true`, and `true` is
    written as 1. -/
def viewChangeResFormat : XdrFormat viewChangeRes.unionTraits :=
  .union viewChangeRes
    (fun
      | false => viewChangeArgFormat
      | true => viewChangeAcceptFormat)
    (by
      intro d arm h
      simp only [viewChangeRes] at h ⊢
      split_ifs at h ⊢ with hzero hone
      · exact hzero.symm
      · exact hone.symm)
    (by
      intro d h
      simp only [viewChangeRes] at h
      split_ifs at h with hzero hone
      · exact hzero
      · cases h)

/-! ## `paxos_v1_server` -/

/-- A replica as its listener finds it: the state behind the lock, and the database
    of its back store. -/
structure Backup where
  state : ReplicaState
  store : Store

/-- The message of `replicate`: over the length and the data of a new message, those
    of the message in the request are copied. -/
def rawMessage (request : List UInt8) : Except XdrFault Message :=
  if request.length < 4 then .error .assertion else messageOf (request.drop 4)

section Server

variable (host : ByteOrder) (cfg : Config) (self : Nat) (sq : Engine) (strHash : Str → UInt64)

/-- `BackUp`. -/
def backUp (request : List UInt8) : Prog Thrown Backup Unit := do
  match ← Prog.embed Backup.store (fun st b => { b with store := st })
      (ServerdbBackstore.runBytes host sq strHash request) with
  | .ok _ => return ()
  | .error (.xdr e) => Prog.halt (.xdr e)
  | .error (.db _) => Prog.halt .other

/-- `replicate`. The C++ does not say what it returns when it has run a command; it
    is the new result here. -/
def replicate (arg : WireReplicateArg) : Prog Thrown Backup (Viewstamp × Unit) := do
  if arg.vs.ts = 0 then
    -- new view
    let message ← orThrow Thrown.xdr (rawMessage arg.arg.request)
    let request ←
      orThrow Thrown.xdr (xdrFromMsg host initViewRequest message initViewRequest.fresh)
    Prog.modify fun b => { b with state := b.state.newView request.newview }
    return replicateRes.fresh
  else
    backUp host sq strHash arg.arg.request
    return replicateRes.fresh

/-- `init_view`; `announce` is how `replicateCommand` and `initializeLeader` end when
    the other replicas are sent the view. -/
def initView (announce : View → Option Thrown) : Prog Thrown Backup (Bool × Unit) := do
  if ← Prog.gets fun b => b.state.isLeader then return (false, ())
  else
    Prog.modify fun b => { b with state := b.state.lead cfg self }
    match announce (← Prog.gets fun b => b.state.view) with
    | some e => Prog.halt e
    | none =>
      Prog.modify fun b => { b with state := { b.state with isInitialized := true } }
      return (true, ())

variable (announce : View → Option Thrown)

/-- The number of `paxos_interface`. -/
def paxosInterface : UInt32 := 0x30037075

/-- `call_dispatch` of `paxos_v1`; the bodies of `view_change` and `new_view` are empty. -/
def paxosProcedures (proc : UInt32) : Option (Method Backup) :=
  if proc = 2 then
    some ⟨_, _, replicateArg, replicateRes, replicateArgFormat, replicateResFormat,
      replicate host sq strHash⟩
  else if proc = 101 then
    some ⟨_, _, viewChangeArg, viewChangeRes.unionTraits, viewChangeArgFormat, viewChangeResFormat,
      fun _ => return viewChangeRes.fresh⟩
  else if proc = 102 then
    some ⟨_, _, newViewArg, boolRes, newViewArgFormat, boolResFormat,
      fun _ => return boolRes.fresh⟩
  else if proc = 103 then
    some ⟨_, _, initViewArg, boolRes, initViewArgFormat, boolResFormat,
      fun _ => initView cfg self announce⟩
  else none

/-- The services of the listener of a replica. -/
def paxosServers : List (Interface (UInt32 → Prog Thrown Backup Message)) :=
  register (synchronousServer host paxosInterface 1
    (paxosProcedures host cfg self sq strHash announce)) []

/-- `rpc_tcp_listener::receive_cb`: the reply for the socket; `none` means that the
    socket is closed. -/
def receive (m : Message) : Prog Thrown Backup (Option Message) := fun b =>
  match Rpc.serve host (paxosServers host cfg self sq strHash announce) m b with
  | .ret reply b' => .ret reply b'
  | .stop e b' => if e.IsRuntimeError then .ret none b' else .stop e b'

end Server

/-! ## `replicateCommand` -/

/-- The `command` of `replicateCommand`: a new one but for its time and its request. -/
def replicateCommandArg (ts : UInt32) (request : List UInt8) : WireReplicateArg :=
  { replicateArg.fresh with
    vs := { replicateArg.fresh.vs with ts := ts }
    arg := { replicateArg.fresh.arg with request := request } }

/-- What is sent for a request of a client. -/
def commandArg (request : List UInt8) : WireReplicateArg := replicateCommandArg 1 request

/-- What is sent for a view in the message `m`. -/
def viewArg (m : Message) : WireReplicateArg := replicateCommandArg 0 m.raw

/-- The `maxmsglen` of the sockets of a listener. -/
def maxmsglen : Nat := 0x100000

/-- The call of `replicate`. The socket of the backup does not take a message that is
    longer than `maxmsglen`: its listener closes the connection without having read the
    call, and the leader's `write` or `read` fails with `closed`. -/
def callReplicate (host host' : ByteOrder)
    (servers : List (Interface (UInt32 → Prog Thrown Backup Message))) (closed : XdrFault)
    (xid : UInt32) (arg : WireReplicateArg) :
    Prog Thrown Backup (Except XdrFault (Viewstamp × Unit)) :=
  match xdrToMsg host (argpack rpcMsg replicateArg) (callHeader xid paxosInterface 1 2, arg) with
  | .error e => return .error e
  | .ok m =>
    if maxmsglen < m.data.length then return .error closed
    else
      invoke "synchronous_client" host host' servers xid paxosInterface 1 2 replicateArg
        replicateRes arg

/-! ## What a call of the leader does at a backup -/

section Calls

variable (host host' : ByteOrder) (cfg : Config) (self : Nat) (sq : Engine)
  (strHash : Str → UInt64) (announce : View → Option Thrown)

/-- How the run of a command ends at a backup: the result is marshaled for nobody, and
    an exception of the database is none of the RPC library. -/
def backedUp (st : ReplicaState) :
    Outcome Fault Store ServerPaxosResult → Outcome Thrown Backup Unit
  | .ret r store =>
    if (resultUnionFormat.encode r.toObj).length < 0x80000000 then .ret () ⟨st, store⟩
    else .stop (.xdr .assertion) ⟨st, store⟩
  | .stop _ store => .stop .other ⟨st, store⟩

theorem backUp_command {p : ServerPaxosParam} {m : Message} (hp : p.IsBytes)
    (h : xdrToMsg host' paramUnion.unionTraits p.toObj = .ok m) (b : Backup) :
    backUp host sq strHash m.data b =
      backedUp b.state (ServerdbBackstore.run sq strHash p b.store) := by
  have hbytes := runBytes_of_xdrToMsg host sq strHash hp h
  have hrun := runParam_eq host sq strHash p b.store
  unfold backUp
  rw [hbytes]
  cases hend : ServerdbBackstore.run sq strHash p b.store with
  | stop e store =>
    rw [hend] at hrun
    exact Prog.bind_of_ret (Prog.embed_of_stop hrun)
  | ret r store =>
    rw [hend] at hrun
    unfold backedUp
    dsimp only at hrun ⊢
    split_ifs at hrun ⊢ with hshort
    · exact Prog.bind_of_ret (Prog.embed_of_ret hrun)
    · exact Prog.bind_of_ret (Prog.embed_of_stop hrun)

/-- The exceptions of a backup that runs a command leave its listener. -/
theorem backedUp_stop {st : ReplicaState} {o : Outcome Fault Store ServerPaxosResult} {e : Thrown}
    {b : Backup} (h : backedUp st o = .stop e b) : ¬ e.IsRuntimeError := by
  cases o with
  | ret r store =>
    unfold backedUp at h
    dsimp only at h
    split_ifs at h
    cases h
    exact id
  | stop e' store =>
    cases h
    exact id

theorem replicate_command {p : ServerPaxosParam} {m : Message} (hp : p.IsBytes)
    (h : xdrToMsg host' paramUnion.unionTraits p.toObj = .ok m) (b : Backup) :
    replicate host sq strHash (commandArg m.data) b =
      (backedUp b.state (ServerdbBackstore.run sq strHash p b.store)).map
        fun _ => replicateRes.fresh := by
  rw [← backUp_command host host' sq strHash hp h b]
  exact Prog.bind_pure _ _ b

/-- The message of a view, as it is read by `replicate`. -/
theorem rawMessage_raw (m : Message) : rawMessage m.raw = .ok m := by
  have hlen : ¬ m.raw.length < 4 := by
    simp [Message.raw, lengthField]
  have hdrop : m.raw.drop 4 = m.data := rfl
  unfold rawMessage
  rw [if_neg hlen, hdrop, messageOf_data]

theorem replicate_view {request : InitViewRequest} {m : Message}
    (hfits : initViewRequestFormat.Fits request)
    (h : xdrToMsg host' initViewRequest request = .ok m) (b : Backup) :
    replicate host sq strHash (viewArg m) b =
      .ret replicateRes.fresh { b with state := b.state.newView request.newview } := by
  have hread : xdrFromMsg host initViewRequest m initViewRequest.fresh = .ok request :=
    xdrFromMsg_xdrToMsg initViewRequestFormat hfits h host
  have hraw : rawMessage (viewArg m).arg.request = .ok m := rawMessage_raw m
  unfold replicate
  rw [if_pos (show (viewArg m).vs.ts = 0 from rfl), hraw, orThrow_ok, hread, orThrow_ok]
  rfl

/-! ## The call through the wire -/

theorem replicateCommandArg_serialSize (ts : UInt32) (request : List UInt8) :
    replicateArg.serialSize (replicateCommandArg ts request) =
      (request.length + 7) / 4 * 4 + 52 := by
  have hvs : viewstamp.serialSize ⟨viewId.fresh, ts⟩ = viewId.serialSize viewId.fresh + 4 := rfl
  have hcommitted : viewstamp.serialSize viewstamp.fresh = 16 := by decide
  have hvid : viewId.serialSize viewId.fresh = 12 := by decide
  have hcid : xstring.serialSize [] = 4 := by decide
  have hsize : replicateArg.serialSize (replicateCommandArg ts request) =
      viewstamp.serialSize ⟨viewId.fresh, ts⟩ + (xstring.serialSize [] +
        (4 + (viewId.serialSize viewId.fresh + ((request.length + 7) / 4 * 4 + 0))) +
        (viewstamp.serialSize viewstamp.fresh + 0)) := rfl
  omega

theorem fits_replicateCommandArg {ts : UInt32} {request : List UInt8}
    (h : request.length < 0x80000000) :
    replicateArgFormat.Fits (replicateCommandArg ts request) := by
  have hmax : xdrMaxLen.toNat = 0xfffffffc := rfl
  have hrequest : request.length ≤ xdrMaxLen.toNat := by omega
  exact ⟨⟨⟨trivial, XdrFormat.isBytes_nil, trivial⟩, trivial, trivial⟩,
    ⟨XdrFormat.isBytes_nil, trivial, ⟨trivial, XdrFormat.isBytes_nil, trivial⟩, hrequest, trivial⟩,
    ⟨⟨trivial, XdrFormat.isBytes_nil, trivial⟩, trivial, trivial⟩, trivial⟩

/-- A request has 92 bytes of headers, its length and at most three bytes of padding. -/
theorem replicateCommandArg_length (ts : UInt32) (request : List UInt8)
    (xid prog vers proc : UInt32) :
    ((rpcMsgFormat.argpack replicateArgFormat).encode
      (callHeader xid prog vers proc, replicateCommandArg ts request)).length =
      (request.length + 7) / 4 * 4 + 92 := by
  have hhdr := callHeader_serialSize xid prog vers proc
  have harg := replicateCommandArg_serialSize ts request
  rw [rpcMsgFormat.serialSize_eq] at hhdr
  rw [replicateArgFormat.serialSize_eq] at harg
  rw [XdrFormat.argpack_encode, List.length_append, hhdr, harg]
  omega

/-- The longest request that a backup takes. -/
def maxRequest : Nat := maxmsglen - 96

/-- The message of a request is one that the socket of a backup takes. -/
theorem carried_iff (n : Nat) : (n + 7) / 4 * 4 + 92 ≤ maxmsglen ↔ n ≤ maxRequest := by
  unfold maxRequest maxmsglen
  omega

theorem short_replicateCommandArg {ts : UInt32} {request : List UInt8}
    (h : request.length ≤ maxRequest) (xid prog vers proc : UInt32) :
    Short replicateArgFormat (callHeader xid prog vers proc) (replicateCommandArg ts request) := by
  have hcarried := (carried_iff request.length).mpr h
  unfold maxmsglen at hcarried
  unfold Short
  rw [replicateCommandArg_length]
  omega

theorem fits_replicateRes : replicateResFormat.Fits replicateRes.fresh :=
  ⟨⟨⟨trivial, XdrFormat.isBytes_nil, trivial⟩, trivial, trivial⟩, trivial⟩

theorem short_replicateRes (xid : UInt32) :
    Short replicateResFormat (replyHeader xid) replicateRes.fresh := by
  have hhdr := acceptedHeader_serialSize xid ⟨success, .results, rfl, fun i : Fin 0 => i.elim0⟩
  have hres : (replicateResFormat.encode replicateRes.fresh).length = 16 := by decide
  have hnone : replyData.unionTraits.serialSize
      ⟨success, .results, rfl, fun i : Fin 0 => i.elim0⟩ = 4 := rfl
  rw [rpcMsgFormat.serialSize_eq, hnone] at hhdr
  unfold Short
  rw [XdrFormat.argpack_encode, List.length_append, hres]
  show (rpcMsgFormat.encode (acceptedHeader xid _)).length + 16 < _
  omega

/-- The method of `replicate`. -/
abbrev replicateMethod : Method Backup :=
  ⟨_, _, replicateArg, replicateRes, replicateArgFormat, replicateResFormat,
    replicate host' sq strHash⟩

section Call

variable {host host' cfg self sq strHash announce}
variable {servers : List (Interface (UInt32 → Prog Thrown Backup Message))} {closed : XdrFault}
  {xid ts : UInt32} {request : List UInt8} {b : Backup}

/-- A request that is not too long is sent. -/
theorem callReplicate_carried (h : request.length ≤ maxRequest) :
    callReplicate host host' servers closed xid (replicateCommandArg ts request) =
      invoke "synchronous_client" host host' servers xid paxosInterface 1 2 replicateArg
        replicateRes (replicateCommandArg ts request) := by
  have hmsg : xdrToMsg host (argpack rpcMsg replicateArg)
      (callHeader xid paxosInterface 1 2, replicateCommandArg ts request) =
      .ok ⟨_, short_replicateCommandArg h xid paxosInterface 1 2⟩ :=
    (xdrToMsg_eq (rpcMsgFormat.argpack replicateArgFormat) host _).trans (dif_pos _)
  have hlen := (carried_iff request.length).mpr h
  rw [← replicateCommandArg_length ts request xid paxosInterface 1 2] at hlen
  unfold callReplicate
  rw [hmsg]
  exact if_neg (Nat.not_lt.mpr hlen)

/-- The call with a longer request throws, and the backup has not seen it. -/
theorem callReplicate_tooLong (h : maxRequest < request.length) :
    ∃ e, callReplicate host host' servers closed xid (replicateCommandArg ts request) b =
      .ret (.error e) b := by
  have hlen : ¬ (request.length + 7) / 4 * 4 + 92 ≤ maxmsglen := fun hle =>
    Nat.not_le.mpr h ((carried_iff _).mp hle)
  rw [← replicateCommandArg_length ts request xid paxosInterface 1 2] at hlen
  unfold callReplicate
  rw [xdrToMsg_eq (rpcMsgFormat.argpack replicateArgFormat) host]
  by_cases hshort : Short replicateArgFormat (callHeader xid paxosInterface 1 2)
      (replicateCommandArg ts request)
  · refine ⟨closed, ?_⟩
    rw [dif_pos hshort]
    exact congrFun (if_pos (Nat.not_le.mp hlen)) b
  · refine ⟨.assertion, ?_⟩
    rw [dif_neg hshort]
    rfl

/-- A call of `replicate` is what `replicate` does, whatever the byte orders of the two
    machines. -/
theorem callReplicate_eq (h : request.length ≤ maxRequest)
    (hres : ∀ res b', replicate host' sq strHash (replicateCommandArg ts request) b = .ret res b' →
      res = replicateRes.fresh) :
    callReplicate host host' (paxosServers host' cfg self sq strHash announce) closed xid
        (replicateCommandArg ts request) b =
      match replicate host' sq strHash (replicateCommandArg ts request) b with
      | .ret res b' => .ret (.ok res) b'
      | .stop e b' =>
        if e.IsRuntimeError then .ret (.error (.runtimeError Refusal.garbageArgs.what)) b'
        else .stop e b' := by
  have hlen : request.length < 0x80000000 := by
    unfold maxRequest maxmsglen at h
    omega
  have hcall := invoke_eq (replicateMethod host' sq strHash) "synchronous_client" host host'
    (paxosServers host' cfg self sq strHash announce) _ xid paxosInterface 1 2
    (replicateCommandArg ts request) b rfl rfl (fits_replicateCommandArg hlen)
    (short_replicateCommandArg h _ _ _ _) (by
      intro res b' hret
      obtain rfl := hres res b' hret
      exact ⟨fits_replicateRes, short_replicateRes xid⟩)
  rw [callReplicate_carried h]
  refine hcall.trans ?_
  dsimp only
  cases replicate host' sq strHash (replicateCommandArg ts request) b <;> rfl

/-- A command that the leader sends is run on the database of the backup. -/
theorem callReplicate_command {p : ServerPaxosParam} {m : Message} (hp : p.IsBytes)
    (h : xdrToMsg host paramUnion.unionTraits p.toObj = .ok m) (hlen : m.data.length ≤ maxRequest) :
    callReplicate host host' (paxosServers host' cfg self sq strHash announce) closed xid
        (commandArg m.data) b =
      (backedUp b.state (ServerdbBackstore.run sq strHash p b.store)).map
        fun _ => .ok replicateRes.fresh := by
  have hrun := replicate_command host' host sq strHash hp h b
  have hres : ∀ res b', replicate host' sq strHash (replicateCommandArg 1 m.data) b = .ret res b' →
      res = replicateRes.fresh := by
    intro res b' hres
    have hres := hrun.symm.trans hres
    cases hend : backedUp b.state (ServerdbBackstore.run sq strHash p b.store) with
    | ret u b'' =>
      rw [hend] at hres
      cases hres
      rfl
    | stop e b'' =>
      rw [hend] at hres
      cases hres
  refine (callReplicate_eq hlen hres).trans ?_
  rw [show replicate host' sq strHash (replicateCommandArg 1 m.data) b = _ from hrun]
  cases hend : backedUp b.state (ServerdbBackstore.run sq strHash p b.store) with
  | ret u b' => rfl
  | stop e b' => exact if_neg (backedUp_stop hend)

end Call

/-- The view that a new leader sends is taken over: the message inside the request of
    the call is read as it was written. -/
theorem callReplicate_view (closed : XdrFault) (xid : UInt32) (request : InitViewRequest)
    (m : Message) (b : Backup) (hfits : initViewRequestFormat.Fits request)
    (h : xdrToMsg host initViewRequest request = .ok m) (hlen : m.raw.length ≤ maxRequest) :
    callReplicate host host' (paxosServers host' cfg self sq strHash announce) closed xid
        (viewArg m) b =
      .ret (.ok replicateRes.fresh) { b with state := b.state.newView request.newview } := by
  have hrun := replicate_view host' host sq strHash hfits h b
  have hres : ∀ res b', replicate host' sq strHash (replicateCommandArg 0 m.raw) b = .ret res b' →
      res = replicateRes.fresh := by
    intro res b' hres
    cases hrun.symm.trans hres
    rfl
  refine (callReplicate_eq hlen hres).trans ?_
  rw [show replicate host' sq strHash (replicateCommandArg 0 m.raw) b = _ from hrun]

/-! ## Whatever a replica receives -/

/-- What messages do to a replica: its database is run by commands, and it is a leader
    only as it was before or with itself as the primary. -/
structure Kept (b b' : Backup) : Prop where
  database : ∃ ps : List ServerPaxosParam, (∀ p ∈ ps, p.IsBytes) ∧
    b'.store = ServerdbBackstore.replay sq strHash ps b.store
  leader : b'.state.isLeader = true →
    b.state.isLeader = true ∧ b'.state.view = b.state.view ∨
      b'.state.view.primary = cohortOf cfg self

namespace Kept

variable {cfg self sq strHash}

theorem of_store {b b' : Backup} (hstore : b'.store = b.store)
    (h : b'.state.isLeader = true →
      b.state.isLeader = true ∧ b'.state.view = b.state.view ∨ b'.state.view.primary =
        cohortOf cfg self) :
    Kept cfg self sq strHash b b' :=
  ⟨⟨[], by simp, hstore⟩, h⟩

theorem refl (b : Backup) : Kept cfg self sq strHash b b :=
  of_store rfl fun h => Or.inl ⟨h, rfl⟩

theorem trans (b b' b'' : Backup) (h : Kept cfg self sq strHash b b')
    (h' : Kept cfg self sq strHash b' b'') : Kept cfg self sq strHash b b'' := by
  obtain ⟨⟨ps, hps, hstore⟩, hleader⟩ := h
  obtain ⟨⟨ps', hps', hstore'⟩, hleader'⟩ := h'
  refine ⟨⟨ps ++ ps', ?_, ?_⟩, ?_⟩
  · intro p hp
    rcases List.mem_append.mp hp with hp | hp
    · exact hps p hp
    · exact hps' p hp
  · rw [hstore', hstore, ServerdbBackstore.replay_append]
  · intro hleads
    rcases hleader' hleads with ⟨hbefore, hview⟩ | hown
    · rw [hview]
      exact hleader hbefore
    · exact Or.inr hown

end Kept

theorem backUp_guards (request : List UInt8) :
    Prog.Guards (fun _ => True) (Kept cfg self sq strHash) (backUp host sq strHash request) := by
  intro b _
  obtain ⟨ps, hps, hrun⟩ := runBytes_replay host sq strHash request b.store
  have hkept : ∀ store, store = ServerdbBackstore.replay sq strHash ps b.store →
      Kept cfg self sq strHash b { b with store := store } := fun store hstore =>
    ⟨⟨ps, hps, hstore⟩, fun h => Or.inl ⟨h, rfl⟩⟩
  unfold backUp
  rw [Prog.wp_bind, Prog.wp_embed]
  refine Prog.wp_mono hrun (fun reply store hstore => ?_) (fun e store hstore => ?_)
  · exact ⟨trivial, hkept store hstore⟩
  · cases e with
    | xdr e => exact hkept store hstore
    | db e => exact hkept store hstore

theorem replicate_guards (arg : WireReplicateArg) :
    Prog.Guards (fun _ => True) (Kept cfg self sq strHash) (replicate host sq strHash arg) := by
  have hread : ∀ {α : Type} (x : Except XdrFault α),
      Prog.Guards (fun _ => True) (Kept cfg self sq strHash) (orThrow Thrown.xdr x) := by
    intro α x
    cases x with
    | error e => exact Prog.Guards.halt Kept.refl _
    | ok a => exact Prog.Guards.pure Kept.refl a
  unfold replicate
  refine Prog.Guards.ite ?_ ?_
  · refine Prog.Guards.bind Kept.trans (hread _) fun message => ?_
    refine Prog.Guards.bind Kept.trans (hread _) fun request => ?_
    refine Prog.Guards.bind Kept.trans (Prog.Guards.modify fun b _ => ⟨trivial, ?_⟩) fun _ =>
      Prog.Guards.pure Kept.refl _
    -- whoever takes over a view is no leader
    exact Kept.of_store rfl fun h => by cases h
  · exact Prog.Guards.bind Kept.trans (backUp_guards host cfg self sq strHash _) fun _ =>
      Prog.Guards.pure Kept.refl _

theorem initView_guards :
    Prog.Guards (fun _ => True) (Kept cfg self sq strHash) (initView cfg self announce) := by
  have hinit : ∀ b : Backup, Kept cfg self sq strHash b
      { b with state := { b.state with isInitialized := true } } := fun b =>
    Kept.of_store rfl fun h => Or.inl ⟨h, rfl⟩
  unfold initView
  refine Prog.Guards.bind Kept.trans (Prog.Guards.gets Kept.refl _) fun leads => ?_
  refine Prog.Guards.ite (Prog.Guards.pure Kept.refl _) ?_
  refine Prog.Guards.bind Kept.trans (Prog.Guards.modify fun b _ => ⟨trivial, ?_⟩) fun _ => ?_
  · exact Kept.of_store rfl fun _ => Or.inr rfl
  · refine Prog.Guards.bind Kept.trans (Prog.Guards.gets Kept.refl _) fun view => ?_
    cases announce view with
    | some e => exact Prog.Guards.halt Kept.refl e
    | none =>
      exact Prog.Guards.bind Kept.trans (Prog.Guards.modify fun b _ => ⟨trivial, hinit b⟩) fun _ =>
        Prog.Guards.pure Kept.refl _

theorem receive_guards (m : Message) :
    Prog.Guards (fun _ => True) (Kept cfg self sq strHash)
      (receive host cfg self sq strHash announce m) := by
  have hserve : Prog.Guards (fun _ => True) (Kept cfg self sq strHash)
      (Rpc.serve host (paxosServers host cfg self sq strHash announce) m) := by
    refine serve_synchronous Kept.refl Kept.trans ?_ m
    intro proc p hp a _
    unfold paxosProcedures at hp
    split_ifs at hp <;> cases hp
    · exact replicate_guards host cfg self sq strHash a
    · exact Prog.Guards.pure Kept.refl _
    · exact Prog.Guards.pure Kept.refl _
    · exact initView_guards cfg self sq strHash announce
  intro b hb
  have hmessage := hserve b hb
  unfold Prog.wp at hmessage ⊢
  unfold receive
  cases hend : Rpc.serve host (paxosServers host cfg self sq strHash announce) m b with
  | ret reply b' =>
    rw [hend] at hmessage
    exact hmessage
  | stop e b' =>
    rw [hend] at hmessage
    dsimp only at hmessage ⊢
    split_ifs
    · exact ⟨trivial, hmessage⟩
    · exact hmessage

/-- The listener of a replica, on the messages of all its sockets. -/
def listen (messages : List Message) : Prog Thrown Backup Unit :=
  Prog.forEach (fun m => do
    let _ ← receive host cfg self sq strHash announce m
    return ()) messages

/-- Whatever bytes a replica receives, its database is run by commands that a leader
    could have sent, and it becomes a leader only with itself as the primary. -/
theorem listen_kept (messages : List Message) (b : Backup) :
    Prog.wp (listen host cfg self sq strHash announce messages)
      (fun _ b' => Kept cfg self sq strHash b b')
      (fun _ b' => Kept cfg self sq strHash b b') b := by
  have hlisten := Prog.Guards.forEach (I := fun _ => True) Kept.refl Kept.trans (fun m =>
    Prog.Guards.bind Kept.trans (receive_guards host cfg self sq strHash announce m) fun _ =>
      Prog.Guards.pure Kept.refl ()) messages b trivial
  exact Prog.wp_mono hlisten (fun _ _ h => h.2) fun _ _ h => h

end Calls

/-- The view of the leader `a`, with a counter and a backup. -/
def promoted : InitViewRequest :=
  ⟨⟨⟨3, []⟩, ⟨"a".toList, "b".toList⟩, [⟨"c".toList, []⟩]⟩, ⟨⟨0, []⟩, 0⟩⟩

theorem callReplicate_promoted :
    callReplicate .little .big
        (paxosServers .big ⟨0, []⟩ 1 .refusing (fun _ => 0) fun _ => none)
        (.badMessageSize "read_message: premature EOF") 1
        (viewArg ⟨initViewRequestFormat.encode promoted, by decide⟩) ⟨.fresh, .empty⟩ =
      .ret (.ok replicateRes.fresh) ⟨⟨false, false, .manager, promoted.newview⟩, .empty⟩ := by
  have hletter : ∀ c : Char, c.toNat < 256 → XdrFormat.IsBytes [c] := by
    intro c hc
    simpa using hc
  have hempty := XdrFormat.isBytes_nil
  have hbackups : ∀ c ∈ promoted.newview.backups, cohortFormat.Fits c := by
    intro c hc
    obtain rfl := List.mem_singleton.mp hc
    exact ⟨hletter 'c' (by decide), hempty, trivial⟩
  have hview : viewFormat.Fits promoted.newview :=
    ⟨⟨trivial, hempty, trivial⟩, ⟨hletter 'a' (by decide), hletter 'b' (by decide), trivial⟩,
      ⟨by decide, hbackups⟩, trivial⟩
  have hfits : initViewRequestFormat.Fits promoted :=
    ⟨hview, ⟨⟨trivial, hempty, trivial⟩, trivial, trivial⟩, trivial⟩
  have hmsg : xdrToMsg .little initViewRequest promoted =
      .ok ⟨initViewRequestFormat.encode promoted, by decide⟩ :=
    (xdrToMsg_eq initViewRequestFormat .little promoted).trans (dif_pos (by decide))
  exact callReplicate_view .little .big ⟨0, []⟩ 1 .refusing (fun _ => 0) (fun _ => none)
    (.badMessageSize "read_message: premature EOF") 1 promoted
    ⟨initViewRequestFormat.encode promoted, by decide⟩ ⟨.fresh, .empty⟩ hfits hmsg (by decide)

end Paxos

end SimpleChubby
