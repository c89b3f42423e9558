import SimpleChubby.Leader.Results
import SimpleChubby.Rpc.ServerApi

/-!
# What the server sends, and what the client makes of it

The messages of `chubby_server::reply` and `chubby_server::send`. On one socket
the client gets replies, refusals and events: `poll_recv_cb` tells them apart by
the header, `invoke` reads the replies and `evcb_loop` the events. The result of
a call is read as the leader has sent it, over every run and from a machine of
either byte order.
-/

namespace SimpleChubby

open Xdr

namespace Rpc

/-! ## Replies -/

/-- The type of the result of a procedure. -/
def resultType : Request → ResultType
  | .fileOpen _ _ => .retFd
  | .fileClose _ => .retBool
  | .fileDelete _ => .retBool
  | .getContentsAndStat _ => .retContentsAndStat
  | .setContents _ _ => .retBool
  | .acquire _ => .retBool
  | .tryAcquire _ => .retBool
  | .release _ => .retBool
  | .startSession _ => .retBool
  | .fileReopen _ _ => .retBool

/-- The number of a `ClientError`. -/
def errorCode : ClientError → UInt32
  | .badArg => 0
  | .fsFail => 1
  | .paxosError => 2

/-- A reply as an object of a result type, if it is one. -/
def result : (r : ResultType) → Reply → Option r.union.Obj
  | .retBool, .bool val => some ⟨0, .val, rfl, val⟩
  | .retFd, .fd val => some ⟨0, .val, rfl, val⟩
  | .retContentsAndStat, .contents content stat =>
    some ⟨0, .val, rfl, (⟨content, stat⟩ : ContentsAndStat)⟩
  | _, .error code => some ⟨1, .errCode, rfl, errorCode code⟩
  | _, _ => none

/-- The `ClientError` of a number. -/
def clientError : UInt32 → Option ClientError
  | 0 => some .badArg
  | 1 => some .fsFail
  | 2 => some .paxosError
  | _ => none

/-- The reply that an object holds: `val()` or `errCode()`, as the discriminant says. -/
def ofResult : (r : ResultType) → r.union.Obj → Option Reply
  | .retBool, ⟨_, .val, _, (val : Bool)⟩ => some (.bool val)
  | .retFd, ⟨_, .val, _, (val : FileHandler)⟩ => some (.fd val)
  | .retContentsAndStat, ⟨_, .val, _, (val : ContentsAndStat)⟩ =>
    some (.contents val.content val.stat)
  | _, ⟨_, .errCode, _, (code : UInt32)⟩ => (clientError code).map .error
  | _, ⟨_, .void, _, _⟩ => none

/-- The message that `reply` puts on the socket. -/
def replyMessage (host : ByteOrder) (xid : Xid) (r : ResultType) (obj : r.union.Obj) :
    Except XdrFault Message :=
  xdrToMsg host (argpack rpcMsg r.traits) (replyHeader xid, obj)

/-- `reply` sends `body` in this message, whatever result type it is an object of. -/
def Replies (host : ByteOrder) (xid : Xid) (body : Reply) (m : Message) : Prop :=
  ∃ r obj, result r body = some obj ∧ replyMessage host xid r obj = .ok m

/-- The bytes of a reply, behind the header. -/
def encodeReply : Reply → List UInt8
  | .bool val => be32 0 ++ XdrFormat.bool.encode val
  | .fd val => be32 0 ++ fileHandlerFormat.encode val
  | .contents content stat => be32 0 ++ contentsAndStatFormat.encode ⟨content, stat⟩
  | .error code => be32 1 ++ be32 (errorCode code)

/-- The characters of the strings in a reply are bytes. -/
def ReplyIsBytes : Reply → Prop
  | .fd val => XdrFormat.IsBytes val.fileName
  | .contents content _ => XdrFormat.IsBytes content
  | _ => True

section Reply

variable {r : ResultType} {obj : r.union.Obj} {body : Reply}

/-- The objects that hold a reply. -/
theorem result_cases {motive : (r : ResultType) → r.union.Obj → Reply → Prop}
    (bool : ∀ val : Bool, motive .retBool ⟨0, .val, rfl, val⟩ (.bool val))
    (fd : ∀ val : FileHandler, motive .retFd ⟨0, .val, rfl, val⟩ (.fd val))
    (contents : ∀ content stat, motive .retContentsAndStat
      ⟨0, .val, rfl, (⟨content, stat⟩ : ContentsAndStat)⟩ (.contents content stat))
    (error : ∀ r code, motive r ⟨1, .errCode, rfl, errorCode code⟩ (.error code))
    (h : result r body = some obj) : motive r obj body := by
  cases r <;> cases body <;> cases h
  · exact bool _
  · exact error _ _
  · exact fd _
  · exact error _ _
  · exact contents _ _
  · exact error _ _

/-- The result types have the same bytes for the same reply. -/
theorem encode_result (h : result r body = some obj) :
    r.format.encode obj = encodeReply body := by
  refine result_cases (motive := fun r obj body => r.format.encode obj = encodeReply body)
    ?_ ?_ ?_ ?_ h
  · exact fun _ => rfl
  · exact fun _ => rfl
  · exact fun _ _ => rfl
  · intro r code
    cases r <;> rfl

/-- The reply can be read from the object. -/
theorem ofResult_result (h : result r body = some obj) : ofResult r obj = some body := by
  refine result_cases (motive := fun r obj body => ofResult r obj = some body) ?_ ?_ ?_ ?_ h
  · exact fun _ => rfl
  · exact fun _ => rfl
  · exact fun _ _ => rfl
  · intro r code
    cases r <;> cases code <;> rfl

/-- What a procedure can have for its result is an object of its result type. -/
theorem result_of_accepts {request : Request} (h : request.Accepts body) :
    ∃ obj, result (resultType request) body = some obj := by
  cases request <;> cases body <;> first | exact ⟨_, rfl⟩ | exact h.elim

/-- The object that holds a reply is within its bounds. -/
theorem fits_result (h : result r body = some obj) (hbytes : ReplyIsBytes body) :
    r.format.Fits obj := by
  revert hbytes
  refine result_cases (motive := fun r obj body => ReplyIsBytes body → r.format.Fits obj)
    ?_ ?_ ?_ ?_ h
  · exact fun _ _ => trivial
  · exact fun _ hbytes => fits_fileHandler hbytes
  · intro content stat hbytes
    exact ⟨hbytes, ⟨trivial, trivial, trivial, trivial, trivial, trivial⟩, trivial⟩
  · intro r code _
    cases r <;> trivial

/-- What a message of `reply` holds. -/
theorem startGet_replies {host : ByteOrder} {xid : Xid} {m : Message}
    (h : Replies host xid body m) :
    startGet m = .ok (rpcMsgFormat.encode (replyHeader xid) ++ encodeReply body) := by
  obtain ⟨r, obj, hresult, hmsg⟩ := h
  rw [startGet_of_argpack r.format hmsg, encode_result hresult]

end Reply

/-! ## `poll_recv_cb` -/

/-- The two queues of `chubby_client`. -/
inductive Queue where
  | reply
  | event
  deriving DecidableEq, Repr

/-- `poll_recv_cb` with a message: the queue that it is put into. -/
def pollRecvCb (host : ByteOrder) (m : Message) : Except XdrFault Queue := do
  let (hdr, _) ← readHeader host rpcMsg.fresh m
  return if hdr.body.disc = reply then .reply else .event

theorem pollRecvCb_of_reads {host : ByteOrder} {hdr : RpcMsg} {m : Message} {rest : List UInt8}
    (hfits : rpcMsgFormat.Fits hdr) (hstart : startGet m = .ok (rpcMsgFormat.encode hdr ++ rest)) :
    pollRecvCb host m = .ok (if hdr.body.disc = reply then .reply else .event) := by
  unfold pollRecvCb
  rw [readHeader_of_reads hstart (rpcMsgFormat.reads host hdr hfits)]
  rfl

theorem pollRecvCb_replies {host host' : ByteOrder} {xid : Xid} {body : Reply} {m : Message}
    (h : Replies host xid body m) : pollRecvCb host' m = .ok .reply :=
  pollRecvCb_of_reads (fits_replyHeader xid) (startGet_replies h)

/-! ## Events -/

/-- `struct EventContent`. -/
structure EventContent where
  event : UInt32
  fname : Str
  deriving DecidableEq, Repr

/-- The fields of an `EventContent`, in the order of `event.x`. -/
def EventContent.fields : EventContent ≃ UInt32 × Str × Unit where
  toFun e := (e.event, e.fname, ())
  invFun p := ⟨p.1, p.2.1⟩
  left_inv _ := rfl
  right_inv _ := rfl

/-- `xdr_traits<EventContent>`. -/
def eventContent : XdrTraits EventContent :=
  struct EventContent.fields (field uint32 (field xstring structEnd))

/-- The bytes of an `EventContent`. -/
def eventContentFormat : XdrFormat eventContent :=
  .struct _ (.field .uint32 (.field .xstring .structEnd))

/-- The number of a `ChubbyEvent`. -/
def eventNumber : ChubbyEvent → UInt32
  | .lockChanged => 0x100
  | .contentModified => 0x200

/-- `program` and `version` of `handler_v1`, and `proc` of `event_callback`. -/
def eventHandler : UInt32 := 0x40048086
/-- `handler_v1::version`. -/
def handlerV1Version : UInt32 := 1
/-- `handler_v1::event_callback_t::proc`. -/
def eventCallback : UInt32 := 77

/-- The message that `send` writes; `xid` is from `xid_send_counter_`. -/
def eventMessage (host : ByteOrder) (xid : Xid) (event : ChubbyEvent) (fname : Str) :
    Except XdrFault Message :=
  xdrToMsg host (argpack rpcMsg eventContent)
    (callHeader xid eventHandler handlerV1Version eventCallback, ⟨eventNumber event, fname⟩)

/-- What `evcb_loop` checks in the header of an event. -/
def checkEvent (cb : CallBody) : Except XdrFault Unit :=
  if cb.rpcvers ≠ 2 then
    .error (.runtimeError "chubby_client: rpc version doesn't match for event message")
  else if cb.prog ≠ eventHandler then
    .error (.runtimeError "chubby_client: rpc event program doesn't match for event message")
  else if cb.vers ≠ handlerV1Version then
    .error (.runtimeError "chubby_client: rpc event version doesn't match for event message")
  else .ok ()

/-- A turn of `evcb_loop`, up to the look-up of the callback. -/
def evcbLoop (host : ByteOrder) (m : Message) : Except XdrFault EventContent := do
  let (hdr, rest) ← readHeader host rpcMsg.fresh m
  match hdr.cbody with
  | none => .error (.wrongUnion "_body_t: cbody accessed when not selected")
  | some cb =>
    checkEvent cb
    loadAll host eventContent eventContent.fresh "chubby_client: did not consume whole message" rest

/-- The client takes what `send` writes for the event that it is. -/
theorem evcbLoop_eventMessage {host host' : ByteOrder} {xid : Xid} {event : ChubbyEvent}
    {fname : Str} {m : Message} (hbytes : XdrFormat.IsBytes fname)
    (h : eventMessage host xid event fname = .ok m) :
    pollRecvCb host' m = .ok .event ∧ evcbLoop host' m = .ok ⟨eventNumber event, fname⟩ := by
  have hstart := startGet_of_argpack eventContentFormat h
  have hfits : eventContentFormat.Fits ⟨eventNumber event, fname⟩ := ⟨trivial, hbytes, trivial⟩
  have hlen := length_of_startGet hstart
  rw [List.length_append] at hlen
  constructor
  · exact pollRecvCb_of_reads (fits_callHeader _ _ _ _) hstart
  · have hread := readHeader_call eventContentFormat host' h
    unfold evcbLoop
    rw [hread]
    exact loadAll_encode eventContentFormat host' hfits (by omega) _

/-! ## Every run -/

/-- The client's call with the transaction id of the reply has the reply for its
    result. -/
theorem invokeResult_replies (host' : ByteOrder) {host : ByteOrder} {xid : Xid} {request : Request}
    {body : Reply} {m : Message} (haccepts : request.Accepts body) (hbytes : ReplyIsBytes body)
    (h : Replies host xid body m) :
    ∃ obj, invokeResult "chubby_client" host'
        (callHeader xid serverApi apiV1Version (proc request)) (resultType request).traits m =
          .ok obj ∧
      ofResult (resultType request) obj = some body := by
  obtain ⟨obj, hresult⟩ := result_of_accepts haccepts
  have hstart := startGet_replies h
  rw [← encode_result hresult] at hstart
  exact ⟨obj, invokeResult_of_startGet _ "chubby_client" (fits_result hresult hbytes) hstart,
    ofResult_result hresult⟩

/-- In every run over any database, each reply of the leader is sorted as a reply
    by the client and read as what it is, by a call that the client has made before
    on that session and with that transaction id. -/
theorem wireReplies_reachable {δ : Type} (E : Service δ) (db : δ) (masterSequenceNumber : UInt64)
    (st : Leader δ) (h : (E.leader db masterSequenceNumber).Reach (fun _ _ => True) st)
    (before after : List Action) (session : SessionId) (xid : Xid) (body : Reply)
    (hlog : st.log = before ++ .reply session xid body :: after) (host host' : ByteOrder)
    (m : Message) (hbytes : ReplyIsBytes body) (hm : Replies host xid body m) :
    pollRecvCb host' m = .ok .reply ∧
      ∃ request obj, .call session xid request ∈ before ∧
        invokeResult "chubby_client" host'
          (callHeader xid serverApi apiV1Version (proc request)) (resultType request).traits m =
            .ok obj ∧
        ofResult (resultType request) obj = some body := by
  have hanswered := (Leader.Typed.of_reach h).answered
  rw [hlog] at hanswered
  obtain ⟨request, hcall, haccepts⟩ := hanswered.at_reply
  obtain ⟨obj, hinvoke, hobj⟩ := invokeResult_replies host' haccepts hbytes hm
  exact ⟨pollRecvCb_replies hm, request, obj, by simpa using hcall, hinvoke, hobj⟩

theorem wireReplies_contention :
    ∃ st m, ((Service.paxos .refusing (fun _ => 0) inlineNamed).leader .empty 0).exec
      (fun _ _ => True) contention
      (.fresh .empty 0) = some st ∧ Replies .big 2 (.bool true) m ∧
      pollRecvCb .little m = .ok .reply ∧
      ∃ request obj, .call 2 2 request ∈ st.log.dropLast ∧
        invokeResult "chubby_client" .little
          (callHeader 2 serverApi apiV1Version (proc request)) (resultType request).traits m =
            .ok obj ∧
        ofResult (resultType request) obj = some (.bool true) := by
  obtain ⟨st, hst, hlog⟩ := contention_last
  have hreach := Lts.Reach.exec (.init rfl) hst
  have hm : Replies .big 2 (.bool true) ⟨_, _⟩ := ⟨.retBool, _, rfl, rfl⟩
  exact ⟨st, _, hst, hm, wireReplies_reachable _ _ _ st hreach st.log.dropLast [] 2 2 (.bool true)
    hlog .big .little _ trivial hm⟩

end Rpc

end SimpleChubby
