import SimpleChubby.Rpc.Dispatch
import SimpleChubby.Session.LiveSessions

/-!
# The interface `api_v1`

The types of `include/server.x` with their traits and formats, and the table of
`api_v1::call_dispatch` (`include/server.hh`). The result of a procedure is one
of three unions, which differ in the type of `val` only.
-/

namespace SimpleChubby

open Xdr

namespace Rpc

/-! ## Arguments and results -/

/-- `struct ArgOpen`. -/
structure ArgOpen where
  name : Str
  mode : Mode
  deriving DecidableEq, Repr

/-- `struct ArgReopen`. -/
structure ArgReopen where
  fd : FileHandler
  mode : Mode
  deriving DecidableEq, Repr

/-- `struct ArgSetContents`. -/
structure ArgSetContents where
  fd : FileHandler
  content : Str
  deriving DecidableEq, Repr

/-- `struct ContentsAndStat`. -/
structure ContentsAndStat where
  content : Str
  stat : MetaData
  deriving DecidableEq, Repr

/-- The fields of a `MetaData`, in the order of `server.x`. -/
def metaDataFields : MetaData ≃ UInt64 × UInt64 × UInt64 × UInt64 × Bool × Unit where
  toFun m := (m.instanceNumber, m.contentGenerationNumber, m.lockGenerationNumber,
    m.fileContentChecksum, m.isDirectory, ())
  invFun p := ⟨p.1, p.2.1, p.2.2.1, p.2.2.2.1, p.2.2.2.2.1⟩
  left_inv _ := rfl
  right_inv _ := rfl

/-- The fields of a `FileHandler`, in the order of `server.x`. -/
def fileHandlerFields : FileHandler ≃ UInt64 × UInt64 × Str × UInt64 × Bool × Unit where
  toFun fd := (fd.magicNumber, fd.masterSequenceNumber, fd.fileName, fd.instanceNumber,
    fd.writeIsAllowed, ())
  invFun p := ⟨p.1, p.2.1, p.2.2.1, p.2.2.2.1, p.2.2.2.2.1⟩
  left_inv _ := rfl
  right_inv _ := rfl

/-- The fields of an `ArgOpen`, in the order of `server.x`. -/
def ArgOpen.fields : ArgOpen ≃ Str × UInt64 × Unit where
  toFun a := (a.name, a.mode, ())
  invFun p := ⟨p.1, p.2.1⟩
  left_inv _ := rfl
  right_inv _ := rfl

/-- The fields of an `ArgReopen`, in the order of `server.x`. -/
def ArgReopen.fields : ArgReopen ≃ FileHandler × UInt64 × Unit where
  toFun a := (a.fd, a.mode, ())
  invFun p := ⟨p.1, p.2.1⟩
  left_inv _ := rfl
  right_inv _ := rfl

/-- The fields of an `ArgSetContents`, in the order of `server.x`. -/
def ArgSetContents.fields : ArgSetContents ≃ FileHandler × Str × Unit where
  toFun a := (a.fd, a.content, ())
  invFun p := ⟨p.1, p.2.1⟩
  left_inv _ := rfl
  right_inv _ := rfl

/-- The fields of a `ContentsAndStat`, in the order of `server.x`. -/
def ContentsAndStat.fields : ContentsAndStat ≃ Str × MetaData × Unit where
  toFun c := (c.content, c.stat, ())
  invFun p := ⟨p.1, p.2.1⟩
  left_inv _ := rfl
  right_inv _ := rfl

/-- `xdr_traits<MetaData>`. -/
def metaData : XdrTraits MetaData :=
  struct metaDataFields (field uint64 (field uint64 (field uint64 (field uint64
    (field bool structEnd)))))

/-- `xdr_traits<FileHandler>`. -/
def fileHandler : XdrTraits FileHandler :=
  struct fileHandlerFields (field uint64 (field uint64 (field xstring (field uint64
    (field bool structEnd)))))

/-- `xdr_traits<ArgOpen>`. -/
def argOpen : XdrTraits ArgOpen := struct ArgOpen.fields (field xstring (field uint64 structEnd))

/-- `xdr_traits<ArgReopen>`. -/
def argReopen : XdrTraits ArgReopen :=
  struct ArgReopen.fields (field fileHandler (field uint64 structEnd))

/-- `xdr_traits<ArgSetContents>`. -/
def argSetContents : XdrTraits ArgSetContents :=
  struct ArgSetContents.fields (field fileHandler (field xstring structEnd))

/-- `xdr_traits<ContentsAndStat>`. -/
def contentsAndStat : XdrTraits ContentsAndStat :=
  struct ContentsAndStat.fields (field xstring (field metaData structEnd))

/-- The bytes of a `MetaData`. -/
def metaDataFormat : XdrFormat metaData :=
  .struct _ (.field .uint64 (.field .uint64 (.field .uint64 (.field .uint64
    (.field .bool .structEnd)))))

/-- The bytes of a `FileHandler`. -/
def fileHandlerFormat : XdrFormat fileHandler :=
  .struct _ (.field .uint64 (.field .uint64 (.field .xstring (.field .uint64
    (.field .bool .structEnd)))))

/-- The bytes of an `ArgOpen`. -/
def argOpenFormat : XdrFormat argOpen := .struct _ (.field .xstring (.field .uint64 .structEnd))

/-- The bytes of an `ArgReopen`. -/
def argReopenFormat : XdrFormat argReopen :=
  .struct _ (.field fileHandlerFormat (.field .uint64 .structEnd))

/-- The bytes of an `ArgSetContents`. -/
def argSetContentsFormat : XdrFormat argSetContents :=
  .struct _ (.field fileHandlerFormat (.field .xstring .structEnd))

/-- The bytes of a `ContentsAndStat`. -/
def contentsAndStatFormat : XdrFormat contentsAndStat :=
  .struct _ (.field .xstring (.field metaDataFormat .structEnd))

/-! ## Results -/

/-- The fields of a result union. -/
inductive RetArm where
  | val
  | errCode
  | void
  deriving DecidableEq

/-- `RetBool`, `RetFd` and `RetContentsAndStat`. -/
inductive ResultType where
  | retBool
  | retFd
  | retContentsAndStat
  deriving DecidableEq, Repr

namespace ResultType

/-- The type of `val`. -/
def Val : ResultType → Type
  | retBool => Bool
  | retFd => FileHandler
  | retContentsAndStat => ContentsAndStat

/-- The traits of `val`. -/
def val : (r : ResultType) → XdrTraits r.Val
  | retBool => bool
  | retFd => fileHandler
  | retContentsAndStat => contentsAndStat

/-- The bytes of `val`. -/
def valFormat : (r : ResultType) → XdrFormat r.val
  | retBool => .bool
  | retFd => fileHandlerFormat
  | retContentsAndStat => contentsAndStatFormat

/-- What `xdr_bad_discriminant` is thrown with. -/
def badValue : ResultType → String
  | retBool => "bad value of discriminant in RetBool"
  | retFd => "bad value of discriminant in RetFd"
  | retContentsAndStat => "bad value of discriminant in RetContentsAndStat"

/-- The type of the field. -/
def ArmType (r : ResultType) : RetArm → Type
  | .val => r.Val
  | .errCode => UInt32
  | .void => Unit

/-- The traits of the field. -/
def armTraits (r : ResultType) : (arm : RetArm) → XdrTraits (r.ArmType arm)
  | .val => r.val
  | .errCode => uint32
  | .void => structEnd

/-- The bytes of the field. -/
def armFormat (r : ResultType) : (arm : RetArm) → XdrFormat (r.armTraits arm)
  | .val => r.valFormat
  | .errCode => .uint32
  | .void => .structEnd

/-- The field for a discriminant. -/
def armOf (discriminant : UInt32) : RetArm :=
  if discriminant = 0 then .val else if discriminant = 1 then .errCode else .void

/-- The union. -/
def union (r : ResultType) : XdrUnion where
  badValue := r.badValue
  readTag d := d
  Arm := RetArm
  fieldNumber d := some (armOf d)
  Field := r.ArmType
  traits := r.armTraits
  zeroArm := .val
  fieldNumber_zero := rfl

/-- `xdr_traits` of the union. -/
def traits (r : ResultType) : XdrTraits r.union.Obj := r.union.unionTraits

theorem armOf_val {d : UInt32} (h : armOf d = .val) : d = 0 := by
  unfold armOf at h
  split_ifs at h with hd
  exact hd

/-- The bytes of the union. -/
def format (r : ResultType) : XdrFormat r.traits :=
  .union r.union r.armFormat (fun _ _ _ => rfl) fun _ h => armOf_val (Option.some.inj h)

end ResultType

/-! ## The procedures -/

/-- What a procedure does for a session and a transaction id. -/
abbrev Serve := SessionId → Xid → ServerInput

/-- `program` and `version` of `api_v1`. -/
def serverApi : UInt32 := 0x40048086
/-- `api_v1::version`. -/
def apiV1Version : UInt32 := 1

/-- `api_v1::call_dispatch`. -/
def apiProcedures : UInt32 → Option (Procedure Serve)
  | 1 => some ⟨_, argOpen, argOpenFormat, fun a s x => .rpc s x (.fileOpen a.name a.mode)⟩
  | 2 => some ⟨_, fileHandler, fileHandlerFormat, fun fd s x => .rpc s x (.fileClose fd)⟩
  | 3 => some ⟨_, fileHandler, fileHandlerFormat, fun fd s x => .rpc s x (.fileDelete fd)⟩
  | 4 => some ⟨_, fileHandler, fileHandlerFormat, fun fd s x => .rpc s x (.getContentsAndStat fd)⟩
  | 5 =>
    some ⟨_, argSetContents, argSetContentsFormat,
      fun a s x => .rpc s x (.setContents a.fd a.content)⟩
  | 6 => some ⟨_, fileHandler, fileHandlerFormat, fun fd s x => .rpc s x (.acquire fd)⟩
  | 7 => some ⟨_, fileHandler, fileHandlerFormat, fun fd s x => .rpc s x (.tryAcquire fd)⟩
  | 8 => some ⟨_, fileHandler, fileHandlerFormat, fun fd s x => .rpc s x (.release fd)⟩
  | 21 => some ⟨_, xstring, .xstring, fun clientId s x => .rpc s x (.startSession clientId)⟩
  | 22 => some ⟨_, argReopen, argReopenFormat, fun a s x => .rpc s x (.fileReopen a.fd a.mode)⟩
  | 991 => some ⟨_, uint32, .uint32, fun _ s x => .increment s x⟩
  | 992 => some ⟨_, uint32, .uint32, fun _ s x => .decrement s x⟩
  | _ => none

/-- `chubby_service_base<api_v1_server>`. -/
def apiV1 : Interface Serve where
  prog := serverApi
  vers := apiV1Version
  procedures := apiProcedures

/-- `servers_` of the `chubby_server` in `server/server.cc`. -/
def chubbyServers : List (Interface Serve) := register apiV1 []

/-! ## Requests -/

/-- The message of `invoke<P>(v)`: the header of `prepare_call` and the argument. -/
def marshalCall {T : Type} (host : ByteOrder) (xid : Xid) (proc : UInt32) (t : XdrTraits T)
    (v : T) : Except XdrFault Message :=
  xdrToMsg host (argpack rpcMsg t) (callHeader xid serverApi apiV1Version proc, v)

/-- The number of the procedure. -/
def proc : Request → UInt32
  | .fileOpen _ _ => 1
  | .fileClose _ => 2
  | .fileDelete _ => 3
  | .getContentsAndStat _ => 4
  | .setContents _ _ => 5
  | .acquire _ => 6
  | .tryAcquire _ => 7
  | .release _ => 8
  | .startSession _ => 21
  | .fileReopen _ _ => 22

/-- The message of a request. -/
def callMessage (host : ByteOrder) (xid : Xid) : Request → Except XdrFault Message
  | .fileOpen name mode => marshalCall host xid 1 argOpen ⟨name, mode⟩
  | .fileClose fd => marshalCall host xid 2 fileHandler fd
  | .fileDelete fd => marshalCall host xid 3 fileHandler fd
  | .getContentsAndStat fd => marshalCall host xid 4 fileHandler fd
  | .setContents fd content => marshalCall host xid 5 argSetContents ⟨fd, content⟩
  | .acquire fd => marshalCall host xid 6 fileHandler fd
  | .tryAcquire fd => marshalCall host xid 7 fileHandler fd
  | .release fd => marshalCall host xid 8 fileHandler fd
  | .startSession clientId => marshalCall host xid 21 xstring clientId
  | .fileReopen fd mode => marshalCall host xid 22 argReopen ⟨fd, mode⟩

/-! ## The dispatch of a request -/

theorem fits_fileHandler {fd : FileHandler} (h : XdrFormat.IsBytes fd.fileName) :
    fileHandlerFormat.Fits fd := ⟨trivial, trivial, h, trivial, trivial, trivial⟩

/-- The characters of the strings are bytes. -/
def IsBytes : Request → Prop
  | .fileOpen name _ => XdrFormat.IsBytes name
  | .setContents fd content => XdrFormat.IsBytes fd.fileName ∧ XdrFormat.IsBytes content
  | .startSession clientId => XdrFormat.IsBytes clientId
  | .fileClose fd => XdrFormat.IsBytes fd.fileName
  | .fileDelete fd => XdrFormat.IsBytes fd.fileName
  | .getContentsAndStat fd => XdrFormat.IsBytes fd.fileName
  | .acquire fd => XdrFormat.IsBytes fd.fileName
  | .tryAcquire fd => XdrFormat.IsBytes fd.fileName
  | .release fd => XdrFormat.IsBytes fd.fileName
  | .fileReopen fd _ => XdrFormat.IsBytes fd.fileName

/-- A procedure that is found runs on the argument of the call. -/
theorem dispatch_marshalCall {A : Type} {t : XdrTraits A} {fmt : XdrFormat t} {run : A → Serve}
    (host' : ByteOrder) {host : ByteOrder} {xid : Xid} {n : UInt32} {a : A} {m : Message}
    (h : marshalCall host xid n t a = .ok m) (hproc : apiProcedures n = some ⟨A, t, fmt, run⟩)
    (hfits : fmt.Fits a) : dispatch host' chubbyServers m = .ok (xid, .runs (run a)) := by
  have hfind : find chubbyServers ⟨2, serverApi, apiV1Version, n, noAuth, noAuth⟩ = .ok apiV1 := rfl
  exact dispatch_call host' hfind hproc hfits h

/-- The procedures whose argument is a file handle. -/
theorem dispatch_fileHandler {run : FileHandler → Serve} (host' : ByteOrder) {host : ByteOrder}
    {xid : Xid} {n : UInt32} {fd : FileHandler} {m : Message}
    (h : marshalCall host xid n fileHandler fd = .ok m)
    (hproc : apiProcedures n = some ⟨_, fileHandler, fileHandlerFormat, run⟩)
    (hbytes : XdrFormat.IsBytes fd.fileName) :
    dispatch host' chubbyServers m = .ok (xid, .runs (run fd)) :=
  dispatch_marshalCall host' h hproc (fits_fileHandler hbytes)

/-- The message of a request reaches the handler of its procedure with its
    arguments. -/
theorem dispatch_callMessage (host' : ByteOrder) {host : ByteOrder} {xid : Xid} {r : Request}
    {m : Message} (hbytes : IsBytes r) (h : callMessage host xid r = .ok m) :
    dispatch host' chubbyServers m = .ok (xid, .runs fun s x => .rpc s x r) := by
  cases r with
  | fileOpen name mode => exact dispatch_marshalCall host' h rfl ⟨hbytes, trivial, trivial⟩
  | fileClose fd => exact dispatch_fileHandler host' h rfl hbytes
  | fileDelete fd => exact dispatch_fileHandler host' h rfl hbytes
  | getContentsAndStat fd => exact dispatch_fileHandler host' h rfl hbytes
  | setContents fd content =>
    exact dispatch_marshalCall host' h rfl ⟨fits_fileHandler hbytes.1, hbytes.2, trivial⟩
  | acquire fd => exact dispatch_fileHandler host' h rfl hbytes
  | tryAcquire fd => exact dispatch_fileHandler host' h rfl hbytes
  | release fd => exact dispatch_fileHandler host' h rfl hbytes
  | startSession clientId => exact dispatch_marshalCall host' h rfl hbytes
  | fileReopen fd mode =>
    exact dispatch_marshalCall host' h rfl ⟨fits_fileHandler hbytes, trivial, trivial⟩

end Rpc

end SimpleChubby
