import SimpleChubby.Xdr.Marshal

/-!
# The header of an RPC message

The types of `xdrpp/rpc_msg.x` with their traits and formats. An enumeration is a
word: an archive reads any.
-/

namespace SimpleChubby

open Xdr

namespace Rpc

/-! ## The values of the enumerations -/

/-- `CALL` of `msg_type`. -/
def call : UInt32 := 0
/-- `REPLY` of `msg_type`. -/
def reply : UInt32 := 1

/-- `MSG_ACCEPTED` of `reply_stat`. -/
def msgAccepted : UInt32 := 0
/-- `MSG_DENIED` of `reply_stat`. -/
def msgDenied : UInt32 := 1

/-- `SUCCESS` of `accept_stat`. -/
def success : UInt32 := 0
/-- `PROG_UNAVAIL` of `accept_stat`. -/
def progUnavail : UInt32 := 1
/-- `PROG_MISMATCH` of `accept_stat`. -/
def progMismatch : UInt32 := 2
/-- `PROC_UNAVAIL` of `accept_stat`. -/
def procUnavail : UInt32 := 3
/-- `GARBAGE_ARGS` of `accept_stat`. -/
def garbageArgs : UInt32 := 4

/-- `RPC_MISMATCH` of `reject_stat`. -/
def rpcMismatch : UInt32 := 0
/-- `AUTH_ERROR` of `reject_stat`. -/
def authError : UInt32 := 1

/-- `AUTH_NONE` of `auth_flavor`. -/
def authNone : UInt32 := 0
/-- `AUTH_FAILED` of `auth_stat`. -/
def authFailed : UInt32 := 7

/-! ## Structures -/

/-- `struct opaque_auth`. -/
structure OpaqueAuth where
  flavor : UInt32
  body : List UInt8
  deriving DecidableEq, Repr

/-- `struct call_body`. -/
structure CallBody where
  rpcvers : UInt32
  prog : UInt32
  vers : UInt32
  proc : UInt32
  cred : OpaqueAuth
  verf : OpaqueAuth
  deriving DecidableEq, Repr

/-- `mismatch_info`. -/
structure MismatchInfo where
  low : UInt32
  high : UInt32
  deriving DecidableEq, Repr

/-- The fields of an `opaque_auth`, in the order of `rpc_msg.x`. -/
def OpaqueAuth.fields : OpaqueAuth ≃ UInt32 × List UInt8 × Unit where
  toFun a := (a.flavor, a.body, ())
  invFun p := ⟨p.1, p.2.1⟩
  left_inv _ := rfl
  right_inv _ := rfl

/-- The fields of a `call_body`, in the order of `rpc_msg.x`. -/
def CallBody.fields :
    CallBody ≃ UInt32 × UInt32 × UInt32 × UInt32 × OpaqueAuth × OpaqueAuth × Unit where
  toFun b := (b.rpcvers, b.prog, b.vers, b.proc, b.cred, b.verf, ())
  invFun p := ⟨p.1, p.2.1, p.2.2.1, p.2.2.2.1, p.2.2.2.2.1, p.2.2.2.2.2.1⟩
  left_inv _ := rfl
  right_inv _ := rfl

/-- The fields of a `mismatch_info`, in the order of `rpc_msg.x`. -/
def MismatchInfo.fields : MismatchInfo ≃ UInt32 × UInt32 × Unit where
  toFun m := (m.low, m.high, ())
  invFun p := ⟨p.1, p.2.1⟩
  left_inv _ := rfl
  right_inv _ := rfl

/-- `xdr_traits<opaque_auth>`. -/
def opaqueAuth : XdrTraits OpaqueAuth :=
  struct OpaqueAuth.fields (field uint32 (field (opaqueVec 400) structEnd))

/-- `xdr_traits<call_body>`. -/
def callBody : XdrTraits CallBody :=
  struct CallBody.fields
    (field uint32 (field uint32 (field uint32 (field uint32
      (field opaqueAuth (field opaqueAuth structEnd))))))

/-- `xdr_traits<mismatch_info>`. -/
def mismatchInfo : XdrTraits MismatchInfo :=
  struct MismatchInfo.fields (field uint32 (field uint32 structEnd))

/-! ## Unions -/

/-- The fields of `reply_data`. -/
inductive ReplyDataArm where
  | results
  | mismatchInfo
  | void
  deriving DecidableEq

/-- `reply_data` of `struct accepted_reply`. -/
def replyData : XdrUnion where
  badValue := "bad value of stat in _reply_data_t"
  readTag d := d
  Arm := ReplyDataArm
  fieldNumber stat :=
    some (if stat = success then .results
      else if stat = progMismatch then .mismatchInfo
      else .void)
  Field
    | .results => Fin 0 → UInt8
    | .mismatchInfo => MismatchInfo
    | .void => Unit
  traits
    | .results => opaqueArray 0
    | .mismatchInfo => mismatchInfo
    | .void => structEnd
  zeroArm := .results
  fieldNumber_zero := rfl

/-- `struct accepted_reply`. -/
structure AcceptedReply where
  verf : OpaqueAuth
  replyData : Rpc.replyData.Obj

/-- The fields of an `accepted_reply`, in the order of `rpc_msg.x`. -/
def AcceptedReply.fields : AcceptedReply ≃ OpaqueAuth × Rpc.replyData.Obj × Unit where
  toFun a := (a.verf, a.replyData, ())
  invFun p := ⟨p.1, p.2.1⟩
  left_inv _ := rfl
  right_inv _ := rfl

/-- `xdr_traits<accepted_reply>`. -/
def acceptedReply : XdrTraits AcceptedReply :=
  struct AcceptedReply.fields (field opaqueAuth (field replyData.unionTraits structEnd))

/-- The fields of `union rejected_reply`. -/
inductive RejectedReplyArm where
  | mismatchInfo
  | rjWhy
  deriving DecidableEq

/-- `union rejected_reply`. -/
def rejectedReply : XdrUnion where
  badValue := "bad value of stat in rejected_reply"
  readTag d := d
  Arm := RejectedReplyArm
  fieldNumber stat :=
    if stat = rpcMismatch then some .mismatchInfo
    else if stat = authError then some .rjWhy
    else none
  Field
    | .mismatchInfo => MismatchInfo
    | .rjWhy => UInt32
  traits
    | .mismatchInfo => mismatchInfo
    | .rjWhy => uint32
  zeroArm := .mismatchInfo
  fieldNumber_zero := rfl

/-- The fields of `union reply_body`. -/
inductive ReplyBodyArm where
  | areply
  | rreply
  deriving DecidableEq

/-- `union reply_body`. -/
def replyBody : XdrUnion where
  badValue := "bad value of stat in reply_body"
  readTag d := d
  Arm := ReplyBodyArm
  fieldNumber stat :=
    if stat = msgAccepted then some .areply
    else if stat = msgDenied then some .rreply
    else none
  Field
    | .areply => AcceptedReply
    | .rreply => rejectedReply.Obj
  traits
    | .areply => acceptedReply
    | .rreply => rejectedReply.unionTraits
  zeroArm := .areply
  fieldNumber_zero := rfl

/-- The fields of the `body` of `struct rpc_msg`. -/
inductive BodyArm where
  | cbody
  | rbody
  deriving DecidableEq

/-- The `body` of `struct rpc_msg`. -/
def body : XdrUnion where
  badValue := "bad value of mtype in _body_t"
  readTag d := d
  Arm := BodyArm
  fieldNumber mtype :=
    if mtype = call then some .cbody
    else if mtype = reply then some .rbody
    else none
  Field
    | .cbody => CallBody
    | .rbody => replyBody.Obj
  traits
    | .cbody => callBody
    | .rbody => replyBody.unionTraits
  zeroArm := .cbody
  fieldNumber_zero := rfl

/-- `struct rpc_msg`. -/
structure RpcMsg where
  xid : UInt32
  body : Rpc.body.Obj

/-- The fields of an `rpc_msg`, in the order of `rpc_msg.x`. -/
def RpcMsg.fields : RpcMsg ≃ UInt32 × Rpc.body.Obj × Unit where
  toFun m := (m.xid, m.body, ())
  invFun p := ⟨p.1, p.2.1⟩
  left_inv _ := rfl
  right_inv _ := rfl

/-- `xdr_traits<rpc_msg>`. -/
def rpcMsg : XdrTraits RpcMsg :=
  struct RpcMsg.fields (field uint32 (field body.unionTraits structEnd))

/-! ## Formats -/

/-- The bytes of an `opaque_auth`. -/
def opaqueAuthFormat : XdrFormat opaqueAuth :=
  .struct _ (.field .uint32 (.field (.opaqueVec 400) .structEnd))

/-- The bytes of a `call_body`. -/
def callBodyFormat : XdrFormat callBody :=
  .struct _ (.field .uint32 (.field .uint32 (.field .uint32 (.field .uint32
    (.field opaqueAuthFormat (.field opaqueAuthFormat .structEnd))))))

/-- The bytes of a `mismatch_info`. -/
def mismatchInfoFormat : XdrFormat mismatchInfo :=
  .struct _ (.field .uint32 (.field .uint32 .structEnd))

/-- The bytes of `reply_data`. Only `SUCCESS` has the field of the default object. -/
def replyDataFormat : XdrFormat replyData.unionTraits :=
  .union replyData
    (fun
      | .results => .opaqueArray 0
      | .mismatchInfo => mismatchInfoFormat
      | .void => .structEnd)
    (fun _ _ _ => rfl)
    (by
      intro d h
      simp only [replyData, Option.some.injEq] at h
      split_ifs at h with hd
      exact hd)

/-- The bytes of an `accepted_reply`. -/
def acceptedReplyFormat : XdrFormat acceptedReply :=
  .struct _ (.field opaqueAuthFormat (.field replyDataFormat .structEnd))

/-- The bytes of a `rejected_reply`. -/
def rejectedReplyFormat : XdrFormat rejectedReply.unionTraits :=
  .union rejectedReply
    (fun
      | .mismatchInfo => mismatchInfoFormat
      | .rjWhy => .uint32)
    (fun _ _ _ => rfl)
    (by
      intro d h
      simp only [rejectedReply] at h
      split_ifs at h with hd
      · exact hd
      · cases h)

/-- The bytes of a `reply_body`. -/
def replyBodyFormat : XdrFormat replyBody.unionTraits :=
  .union replyBody
    (fun
      | .areply => acceptedReplyFormat
      | .rreply => rejectedReplyFormat)
    (fun _ _ _ => rfl)
    (by
      intro d h
      simp only [replyBody] at h
      split_ifs at h with hd
      · exact hd
      · cases h)

/-- The bytes of the two fields of `body`. -/
def bodyFields : (arm : body.Arm) → XdrFormat (body.traits arm)
  | .cbody => callBodyFormat
  | .rbody => replyBodyFormat

/-- The bytes of `body`, with `mtype` before the field. -/
def bodyFormat : XdrFormat body.unionTraits :=
  .union body bodyFields (fun _ _ _ => rfl)
    (by
      intro d h
      simp only [body] at h
      split_ifs at h with hd
      · exact hd
      · cases h)

/-- The bytes of an `rpc_msg`. -/
def rpcMsgFormat : XdrFormat rpcMsg :=
  .struct _ (.field .uint32 (.field bodyFormat .structEnd))

end Rpc

end SimpleChubby
