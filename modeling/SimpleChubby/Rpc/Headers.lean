import SimpleChubby.Rpc.RpcMsg

/-!
# The headers of calls and replies

The headers that `prepare_call`, `chubby_server::reply` and `rpc_mkerr` build, and
`check_call_hdr` with the texts of `rpc_errmsg` (`xdrpp/rpc_msg.cc`). A call that
is not run is refused for one of the reasons of `Refusal`; its caller is told by
an exception with the text for that reason.
-/

namespace SimpleChubby

open Xdr

namespace Rpc

/-- A new `opaque_auth`. -/
def noAuth : OpaqueAuth := ⟨authNone, []⟩

/-- The header of a call: `prepare_call` on a new `rpc_msg`. -/
def callHeader (xid prog vers proc : UInt32) : RpcMsg :=
  ⟨xid, ⟨call, .cbody, rfl, (⟨2, prog, vers, proc, noAuth, noAuth⟩ : CallBody)⟩⟩

/-- The header of a reply with the status `MSG_ACCEPTED`. -/
def acceptedHeader (xid : UInt32) (data : replyData.Obj) : RpcMsg :=
  ⟨xid, ⟨reply, .rbody, rfl, ⟨msgAccepted, .areply, rfl, (⟨noAuth, data⟩ : AcceptedReply)⟩⟩⟩

/-- The header of a reply with the status `MSG_DENIED`. -/
def deniedHeader (xid : UInt32) (data : rejectedReply.Obj) : RpcMsg :=
  ⟨xid, ⟨reply, .rbody, rfl, ⟨msgDenied, .rreply, rfl, data⟩⟩⟩

/-- The header in front of a result. -/
def replyHeader (xid : UInt32) : RpcMsg :=
  acceptedHeader xid ⟨success, .results, rfl, fun i : Fin 0 => i.elim0⟩

/-- Why a call is not run. -/
inductive Refusal where
  | rpcMismatch
  | progUnavail
  | progMismatch (low high : UInt32)
  | procUnavail
  | garbageArgs
  deriving DecidableEq, Repr

/-- The header by which a call is refused: `rpc_mkerr` on the header of the call. -/
def Refusal.header (xid : UInt32) : Refusal → RpcMsg
  | .rpcMismatch => deniedHeader xid ⟨Rpc.rpcMismatch, .mismatchInfo, rfl, (⟨2, 2⟩ : MismatchInfo)⟩
  | .progUnavail => acceptedHeader xid ⟨Rpc.progUnavail, .void, rfl, ()⟩
  | .progMismatch low high =>
    acceptedHeader xid ⟨Rpc.progMismatch, .mismatchInfo, rfl, (⟨low, high⟩ : MismatchInfo)⟩
  | .procUnavail => acceptedHeader xid ⟨Rpc.procUnavail, .void, rfl, ()⟩
  | .garbageArgs => acceptedHeader xid ⟨Rpc.garbageArgs, .void, rfl, ()⟩

/-- `body.cbody()`, where the body is that of a call. -/
def RpcMsg.cbody : RpcMsg → Option CallBody
  | ⟨_, ⟨_, .cbody, _, b⟩⟩ => some b
  | ⟨_, ⟨_, .rbody, _, _⟩⟩ => none

/-! ## `rpc_errmsg` -/

/-- `rpc_errmsg(accept_stat)`. -/
def acceptErrmsg (stat : UInt32) : String :=
  if stat = success then "RPC executed successfully"
  else if stat = progUnavail then "remote hasn't exported program"
  else if stat = progMismatch then "remote can't support version #"
  else if stat = procUnavail then "program can't support procedure"
  else if stat = garbageArgs then "procedure can't decode params"
  else if stat = 5 then "RPC system error"
  else "unknown accept_stat error"

/-- `rpc_errmsg(auth_stat)`. -/
def authErrmsg (why : UInt32) : String :=
  if why = 0 then "success"
  else if why = 1 then "bad credential (seal broken)"
  else if why = 2 then "client must begin new session"
  else if why = 3 then "bad verifier (seal broken)"
  else if why = 4 then "verifier expired or replayed"
  else if why = 5 then "rejected for security reasons"
  else if why = 6 then "bogus response verifier"
  else if why = authFailed then "reason unknown"
  else if why = 8 then "kerberos generic error"
  else if why = 9 then "time of credential expired"
  else if why = 10 then "problem with ticket file"
  else if why = 11 then "can't decode authenticator"
  else if why = 12 then "wrong net address in ticket"
  else if why = 13 then "no credentials for user"
  else if why = 14 then "problem with context"
  else "auth_stat error"

/-- `rpc_errmsg(reject_stat)`. -/
def rejectErrmsg (stat : UInt32) : String :=
  if stat = rpcMismatch then "rpcvers field mismatch"
  else if stat = authError then authErrmsg authFailed
  else "unknown reject_stat status"

/-- `check_call_hdr`: the text of the exception, if it throws one. -/
def checkCallHdr : RpcMsg → Option String
  | ⟨_, ⟨_, .cbody, _, _⟩⟩ => some "call received when reply expected"
  | ⟨_, ⟨_, .rbody, _, (⟨_, .areply, _, a⟩ : replyBody.Obj)⟩⟩ =>
    let a : AcceptedReply := a
    if a.replyData.disc = success then none else some (acceptErrmsg a.replyData.disc)
  | ⟨_, ⟨_, .rbody, _, (⟨_, .rreply, _, (⟨_, .rjWhy, _, why⟩ : rejectedReply.Obj)⟩ :
      replyBody.Obj)⟩⟩ => some (authErrmsg why)
  | ⟨_, ⟨_, .rbody, _, (⟨_, .rreply, _, (⟨stat, .mismatchInfo, _, _⟩ : rejectedReply.Obj)⟩ :
      replyBody.Obj)⟩⟩ => some (rejectErrmsg stat)

/-- The text that the caller of a refused call sees. -/
def Refusal.what : Refusal → String
  | .rpcMismatch => "rpcvers field mismatch"
  | .progUnavail => "remote hasn't exported program"
  | .progMismatch _ _ => "remote can't support version #"
  | .procUnavail => "program can't support procedure"
  | .garbageArgs => "procedure can't decode params"

theorem checkCallHdr_header (xid : UInt32) (r : Refusal) :
    checkCallHdr (r.header xid) = some r.what := by
  cases r <;> rfl

theorem checkCallHdr_reply (xid : UInt32) : checkCallHdr (replyHeader xid) = none := rfl

/-! ## What the headers look like on the wire -/

/-- The headers are within the bounds of their type. -/
theorem fits_callHeader (xid prog vers proc : UInt32) :
    rpcMsgFormat.Fits (callHeader xid prog vers proc) :=
  ⟨trivial, ⟨trivial, trivial, trivial, trivial, ⟨trivial, Nat.zero_le _, trivial⟩,
    ⟨trivial, Nat.zero_le _, trivial⟩, trivial⟩, trivial⟩

theorem fits_replyHeader (xid : UInt32) : rpcMsgFormat.Fits (replyHeader xid) :=
  ⟨trivial, ⟨⟨trivial, Nat.zero_le _, trivial⟩, trivial, trivial⟩, trivial⟩

theorem fits_header (xid : UInt32) (r : Refusal) : rpcMsgFormat.Fits (r.header xid) := by
  cases r with
  | rpcMismatch => exact ⟨trivial, ⟨trivial, trivial, trivial⟩, trivial⟩
  | progUnavail => exact ⟨trivial, ⟨⟨trivial, Nat.zero_le _, trivial⟩, trivial, trivial⟩, trivial⟩
  | progMismatch low high =>
    exact ⟨trivial, ⟨⟨trivial, Nat.zero_le _, trivial⟩, ⟨trivial, trivial, trivial⟩, trivial⟩,
      trivial⟩
  | procUnavail => exact ⟨trivial, ⟨⟨trivial, Nat.zero_le _, trivial⟩, trivial, trivial⟩, trivial⟩
  | garbageArgs => exact ⟨trivial, ⟨⟨trivial, Nat.zero_le _, trivial⟩, trivial, trivial⟩, trivial⟩

theorem callHeader_serialSize (xid prog vers proc : UInt32) :
    rpcMsg.serialSize (callHeader xid prog vers proc) = 40 := by
  have hauth : opaqueAuth.serialSize noAuth = 8 := by decide
  have hsize : rpcMsg.serialSize (callHeader xid prog vers proc) =
      4 + (4 + (4 + (4 + (4 + (opaqueAuth.serialSize noAuth +
        (opaqueAuth.serialSize noAuth + 0))))) + 4) := rfl
  omega

theorem acceptedHeader_serialSize (xid : UInt32) (data : replyData.Obj) :
    rpcMsg.serialSize (acceptedHeader xid data) = replyData.unionTraits.serialSize data + 20 := by
  have hauth : opaqueAuth.serialSize noAuth = 8 := by decide
  have hsize : rpcMsg.serialSize (acceptedHeader xid data) =
      4 +
        (opaqueAuth.serialSize noAuth + (replyData.unionTraits.serialSize data + 0) + 4 + 4 + 0) :=
    rfl
  omega

/-- The header of a refusal fits into a message. -/
theorem refusal_message (host : ByteOrder) (xid : UInt32) (r : Refusal) :
    ∃ m, xdrToMsg host rpcMsg (r.header xid) = .ok m := by
  have hsize : rpcMsg.serialSize (r.header xid) ≤ 32 := by
    cases r with
    | rpcMismatch => exact (by decide : 24 ≤ 32)
    | progMismatch low high => exact (acceptedHeader_serialSize xid _).trans_le (Nat.le_refl 32)
    | progUnavail => exact (acceptedHeader_serialSize xid _).trans_le (by decide : 24 ≤ 32)
    | procUnavail => exact (acceptedHeader_serialSize xid _).trans_le (by decide : 24 ≤ 32)
    | garbageArgs => exact (acceptedHeader_serialSize xid _).trans_le (by decide : 24 ≤ 32)
  rw [rpcMsgFormat.serialSize_eq] at hsize
  exact ⟨_, (xdrToMsg_eq rpcMsgFormat host _).trans (dif_pos (by omega))⟩

/-- The header of a reply is read into that of the call, which `invoke` keeps its
    header in, as into a new one: the body is another field of the union. -/
theorem reads_reply (host : ByteOrder) (old hdr : RpcMsg) {b : CallBody}
    (hold : old.cbody = some b) (hnew : hdr.cbody = none) (hfits : rpcMsgFormat.Fits hdr)
    (hlen : (rpcMsgFormat.encode hdr).length < 2 ^ 32) :
    Prog.Reads (rpcMsg.load host old) (rpcMsgFormat.encode hdr) hdr := by
  have hother : hdr.body.arm ≠ old.body.arm := by
    intro hsame
    obtain ⟨_, disc, arm, hnamed, f⟩ := hdr
    obtain ⟨_, disc', arm', hnamed', f'⟩ := old
    cases hsame
    cases arm with
    | cbody => cases hnew
    | rbody => cases hold
  have hmade := XdrUnion.discriminant_other hdr.body.named hother
  have hsplit : rpcMsgFormat.encode hdr = be32 hdr.xid ++
      ((be32 hdr.body.disc ++ (bodyFields hdr.body.arm).encode hdr.body.field) ++ []) := rfl
  have hfield : ((bodyFields hdr.body.arm).encode hdr.body.field).length < 2 ^ 32 := by
    simp only [hsplit, List.length_append] at hlen
    omega
  have hbody := XdrFormat.reads_made bodyFields host hfits.2.1 hfield hmade
  have hend : Prog.Reads (structEnd.load host ()) [] () := .nothing ()
  apply Prog.Reads.andThen
  · apply Prog.Reads.append (Get.reads_uint32 host hdr.xid)
    apply Prog.Reads.andThen
    · apply Prog.Reads.append hbody
      apply Prog.Reads.andThen hend
      exact .nothing _
    · exact .nothing _
  · exact .nothing _

end Rpc

end SimpleChubby
