import SimpleChubby.Leader.State
import SimpleChubby.Lib.Lts

/-!
# `chubby_client`

One client with its threads (`server/chubby_client.h`, `server/chubby_client.cc`):
any number of threads in `invoke`, the poll thread with `poll_recv_cb` and
`connect_server_and_recover`, and the thread of `evcb_loop`, from whose
callbacks `invoke` may be called too. A step is what a thread does between two
points at which the others can see it; a write puts a whole message on the
connection or throws. The server is what the client relies on: it answers every
request that reaches it once, with its transaction id, whenever it likes, and
sends events. A thread that waits for `rpclk_` has done nothing yet, so it has
no state.
-/

namespace SimpleChubby

namespace Client

/-! ## Messages -/

/-- A request as `prepare_call` numbers it. `serial` counts the calls and is not
    part of the message. -/
structure Call where
  serial : Nat
  xid : Xid
  request : Request
  deriving DecidableEq, Repr

/-- A reply: whether `check_call_hdr` lets it pass, and the result if it can be
    unmarshalled. `serial` is that of the request it answers. -/
structure Answer where
  serial : Nat
  xid : Xid
  accepted : Bool
  result : Option Reply
  deriving DecidableEq, Repr

/-- An event the server sends. -/
structure Event where
  event : ChubbyEvent
  fname : Str
  deriving DecidableEq, Repr

/-- A message from the server. -/
inductive Incoming where
  | reply (a : Answer)
  | call (e : Event)
  deriving DecidableEq, Repr

/-- The serial number and the transaction id of a request, and of a reply. -/
def Call.ids (c : Call) : Nat × Xid := (c.serial, c.xid)

/-- Those of a reply. -/
def Answer.ids (a : Answer) : Nat × Xid := (a.serial, a.xid)

/-- The numbers of a reply; an event has none. -/
def Incoming.ids : Incoming → Option (Nat × Xid)
  | .reply a => some a.ids
  | .call _ => none

/-! ## The threads -/

/-- Where the thread that holds `rpclk_` is in `invoke`. -/
inductive Phase where
  /-- The header is filled. -/
  | prepared (call : Call)
  /-- `store_bkup_before_call` has returned. -/
  | stored (call : Call)
  /-- The request is written. -/
  | waiting (call : Call)
  /-- The reply is taken from `reply_queue_`. -/
  | received (call : Call) (a : Answer)
  /-- The reply is accepted and unmarshalled. -/
  | unpacked (call : Call) (a : Answer) (r : Reply)
  deriving DecidableEq, Repr

/-- The call of the thread. -/
def Phase.call : Phase → Call
  | .prepared c => c
  | .stored c => c
  | .waiting c => c
  | .received c _ => c
  | .unpacked c _ _ => c

/-- Where the poll thread is. -/
inductive Poll where
  /-- In `poll_loop`, with a `msg_sock` on the connection. -/
  | polling
  /-- In the loop of `connect_server_and_recover`, with `fd_ == -1`. -/
  | connecting
  /-- `tcp_connect` has returned and `fd_` is set. -/
  | connected
  /-- In the `invoke` of `startSession`. -/
  | starting (call : Call)
  /-- The session has started. -/
  | started
  /-- `bkup_lk_` is held; `rest` is still to be opened again. -/
  | reopening (rest : List (FileHandler × Mode))
  /-- In the `invoke` of `fileReopen`. -/
  | opening (call : Call) (rest : List (FileHandler × Mode))
  /-- An exception has left the thread, which ends the process. -/
  | ended
  deriving DecidableEq, Repr

/-- The call of the poll thread's own `synchronous_client_base`. -/
def Poll.call : Poll → Option Call
  | .starting c => some c
  | .opening c _ => some c
  | _ => none

/-- Whether the poll thread holds `bkup_lk_`. -/
def Poll.locks : Poll → Bool
  | .reopening _ => true
  | .opening _ _ => true
  | _ => false

/-- How an `invoke` ends. -/
inductive Done where
  | returned (call : Call) (a : Answer)
  /-- `chubby_client: unexpected xid`. -/
  | unexpectedXid (call : Call) (a : Answer)
  /-- Another exception. -/
  | threw (call : Call)
  deriving DecidableEq, Repr

/-! ## The client -/

/-- The client, its connection, and the history of the run. -/
structure State where
  id : Str
  fd : Option Nat
  xidCounter : Xid
  /-- The thread that holds `rpclk_`; thread 0 is that of `evcb_loop`. -/
  rpclk : Option (Nat × Phase)
  poll : Poll
  /-- The event whose callback is running. -/
  callback : Option Event
  ecbs : ChubbyEvent → Bool
  eventQueue : List Event
  replyQueue : List Answer
  /-- `lk_acq_fd_bkup_` and `hdr_bkup_`. -/
  lkAcqFdBkup : Option Call
  eventBkup : List (FileHandler × Mode)
  /-- The newest connection, whether it stands, what is on it for the client, and
      what the server has still to answer. -/
  conn : Nat
  alive : Bool
  incoming : List Incoming
  pending : List Call
  /-- The calls numbered, the writes with their connections, the replies put into
      `reply_queue_`, the calls ended, the events sent, and the events taken from
      `event_queue_`, with whether there was a callback. -/
  serial : Nat
  written : List (Nat × Call)
  delivered : List (Nat × Answer)
  done : List Done
  sent : List Event
  taken : List (Event × Bool)

/-- The constructor has connected. -/
def State.fresh (id : Str) (xidCounter : Xid) : State where
  id := id
  fd := some 0
  xidCounter := xidCounter
  rpclk := none
  poll := .polling
  callback := none
  ecbs := fun _ => false
  eventQueue := []
  replyQueue := []
  lkAcqFdBkup := none
  eventBkup := []
  conn := 0
  alive := true
  incoming := []
  pending := []
  serial := 0
  written := []
  delivered := []
  done := []
  sent := []
  taken := []

/-- What can happen. -/
inductive Label where
  /-- A thread gets `rpclk_` and fills the header of its call. -/
  | prepare (thread : Nat) (request : Request)
  | storeBefore
  | write (ok : Bool)
  | receive
  | unpack
  | storeAfter
  /-- A message arrives, or the connection is found to be down. -/
  | pollRecvCb
  | connect
  | startSession (ok : Bool)
  | sessionStarted
  | lockBkup
  | fileReopen (ok : Bool)
  | fileReopened
  | writeBkup (ok : Bool)
  | takeEvent
  | callbackReturns
  | registerCallback (event : ChubbyEvent) (present : Bool)
  | answer (i : Nat) (accepted : Bool) (result : Option Reply)
  | sendEvent (e : Event)
  | lose
  deriving DecidableEq, Repr

namespace State

variable (s : State)

/-! ## Steps of `invoke` -/

/-- The transaction id `prepare_call` takes. -/
def nextXid : Xid := s.xidCounter + 1

/-- `prepare_call`: the call gets the next transaction id. -/
def numbered (request : Request) : Call := ⟨s.serial, s.nextXid, request⟩

/-- A message is on the connection; the server gets it if the connection stands. -/
def put (call : Call) : State :=
  { s with
    written := s.written ++ [(s.conn, call)]
    pending := if s.alive then s.pending ++ [call] else s.pending }

/-- `invoke` throws. -/
def throws (d : Done) : State := { s with rpclk := none, done := s.done ++ [d] }

/-- The beginning of `invoke`, once the lock is there. -/
def prepare (thread : Nat) (request : Request) : Option State :=
  if s.rpclk.isSome then none
  else if thread = 0 ∧ s.callback = none then none
  else
    some { s with
      rpclk := some (thread, .prepared (s.numbered request))
      xidCounter := s.nextXid
      serial := s.serial + 1 }

/-- `store_bkup_before_call`: only that of `acquire` does anything, under `bkup_lk_`. -/
def storeBkupBeforeCall : Option State :=
  match s.rpclk with
  | some (t, .prepared call) =>
    match call.request with
    | .acquire _ =>
      if s.poll.locks then none
      else some { s with rpclk := some (t, .stored call), lkAcqFdBkup := some call }
    | _ => some { s with rpclk := some (t, .stored call) }
  | _ => none

/-- `write_message(fd_, …)`. -/
def write (ok : Bool) : Option State :=
  match s.rpclk with
  | some (t, .stored call) =>
    if ok && s.fd.isSome then some { s.put call with rpclk := some (t, .waiting call) }
    else some (s.throws (.threw call))
  | _ => none

/-- The front of `reply_queue_` is taken. -/
def receive : Option State :=
  match s.rpclk, s.replyQueue with
  | some (t, .waiting call), a :: rest =>
    some { s with rpclk := some (t, .received call a), replyQueue := rest }
  | _, _ => none

/-- The checks of the reply. -/
def unpack : Option State :=
  match s.rpclk with
  | some (t, .received call a) =>
    if ¬ a.accepted then some (s.throws (.threw call))
    else if a.xid ≠ call.xid then some (s.throws (.unexpectedXid call a))
    else
      match a.result with
      | none => some (s.throws (.threw call))
      | some r => some { s with rpclk := some (t, .unpacked call a r) }
  | _ => none

/-- What `store_bkup_after_call` does to `event_bkup_`. -/
def eventBkupAfterCall (request : Request) (r : Reply) (bkup : List (FileHandler × Mode)) :
    List (FileHandler × Mode) :=
  match request, r with
  | .fileClose fd, _ => bkup.filter fun p => p.1.fileName ≠ fd.fileName
  | .fileOpen _ mode, .fd fd => bkup ++ [(fd, mode)]
  | _, _ => bkup

/-- Whether `store_bkup_after_call` takes `bkup_lk_`. -/
def locksAfterCall (request : Request) (r : Reply) : Bool :=
  match request, r with
  | .acquire _, _ => true
  | .fileClose _, _ => true
  | .fileOpen _ _, .fd _ => true
  | _, _ => false

/-- `store_bkup_after_call` and the return of `invoke`. -/
def storeBkupAfterCall : Option State :=
  match s.rpclk with
  | some (_, .unpacked call a r) =>
    if locksAfterCall call.request r && s.poll.locks then none
    else
      some { s with
        rpclk := none
        lkAcqFdBkup := match call.request with
          | .acquire _ => none
          | _ => s.lkAcqFdBkup
        eventBkup := eventBkupAfterCall call.request r s.eventBkup
        done := s.done ++ [.returned call a] }
  | _ => none

/-! ## Steps of the poll thread -/

/-- `poll_recv_cb`, with the next message or, when the connection is down, with none. -/
def pollRecvCb : Option State :=
  if s.poll ≠ .polling then none
  else
    match s.incoming with
    | .reply a :: rest =>
      some { s with
        incoming := rest
        replyQueue := s.replyQueue ++ [a]
        delivered := s.delivered ++ [(s.conn, a)] }
    | .call e :: rest => some { s with incoming := rest, eventQueue := s.eventQueue ++ [e] }
    | [] => if s.alive then none else some { s with fd := none, poll := .connecting }

/-- `tcp_connect` has found a server. -/
def connect : Option State :=
  if s.poll = .connecting then
    some { s with
      fd := some (s.conn + 1)
      poll := .connected
      conn := s.conn + 1
      alive := true
      incoming := []
      pending := [] }
  else none

/-- The attempt fails: `fd_ = -1`, and what is on the connection is read by nobody. -/
def abandon : State :=
  { s with fd := none, poll := .connecting, alive := false, incoming := [], pending := [] }

/-- The process ends, and its connection with it. -/
def ends : State := { s with poll := .ended, alive := false, incoming := [], pending := [] }

/-- The `startSession` call is numbered and written. -/
def startSession (ok : Bool) : Option State :=
  if s.poll ≠ .connected then none
  else
    let s' := { s with xidCounter := s.nextXid, serial := s.serial + 1 }
    if ok then
      some { s'.put (s.numbered (.startSession s.id)) with
        poll := .starting (s.numbered (.startSession s.id)) }
    else some s'.abandon

/-- The message `read_message` returns to a synchronous call, if there is one, and
    whether the call accepts it. -/
def syncReply (call : Call) (m : Incoming) : Option Reply :=
  match m with
  | .reply a => if a.accepted ∧ a.xid = call.xid then a.result else none
  | .call _ => none

/-- The reply of `startSession`. -/
def sessionStarted : Option State :=
  match s.poll with
  | .starting call =>
    match s.incoming with
    | m :: rest =>
      match syncReply call m with
      | some (.bool true) => some { s with incoming := rest, poll := .started }
      | _ => some s.abandon
    | [] => if s.alive then none else some s.abandon
  | _ => none

/-- `bkup_lk_` is taken. -/
def lockBkup : Option State :=
  if s.poll = .started then some { s with poll := .reopening s.eventBkup } else none

/-- The next `fileReopen` call is numbered and written. -/
def fileReopen (ok : Bool) : Option State :=
  match s.poll with
  | .reopening ((fd, mode) :: rest) =>
    let s' := { s with xidCounter := s.nextXid, serial := s.serial + 1 }
    if ok then
      some { s'.put (s.numbered (.fileReopen fd mode)) with
        poll := .opening (s.numbered (.fileReopen fd mode)) rest }
    else some s'.ends
  | _ => none

/-- The reply of `fileReopen`; a failure it reports is ignored. -/
def fileReopened : Option State :=
  match s.poll with
  | .opening call rest =>
    match s.incoming with
    | m :: tail =>
      match syncReply call m with
      | some _ => some { s with incoming := tail, poll := .reopening rest }
      | none => some s.ends
    | [] => if s.alive then none else some s.ends
  | _ => none

/-- The outstanding `acquire` is written again, and `poll_loop` goes on with a new
    `msg_sock`. -/
def writeBkup (ok : Bool) : Option State :=
  match s.poll with
  | .reopening [] =>
    match s.lkAcqFdBkup with
    | none => some { s with poll := .polling }
    | some call => if ok then some { s.put call with poll := .polling } else some s.ends
  | _ => none

/-! ## Steps of the event thread -/

/-- The front of `event_queue_` is taken, and its callback called if there is one. -/
def takeEvent : Option State :=
  match s.eventQueue with
  | e :: rest =>
    if s.callback.isSome then none
    else
      some { s with
        eventQueue := rest
        callback := if s.ecbs e.event then some e else none
        taken := s.taken ++ [(e, s.ecbs e.event)] }
  | [] => none

/-- The callback returns; it is in no `invoke` then. -/
def callbackReturns : Option State :=
  match s.callback, s.rpclk with
  | some _, some (0, _) => none
  | some _, _ => some { s with callback := none }
  | none, _ => none

/-- `register_callback` and `delete_callback`. -/
def registerCallback (event : ChubbyEvent) (present : Bool) : State :=
  { s with ecbs := fun e => if e = event then present else s.ecbs e }

/-! ## Steps of the server and the connection -/

/-- The server answers a request that has reached it. -/
def answer (i : Nat) (accepted : Bool) (result : Option Reply) : Option State :=
  (s.pending[i]?).map fun call =>
    { s with
      pending := s.pending.eraseIdx i
      incoming := s.incoming ++ [.reply ⟨call.serial, call.xid, accepted, result⟩] }

/-- The server sends an event. -/
def sendEvent (e : Event) : Option State :=
  if s.alive then some { s with incoming := s.incoming ++ [.call e], sent := s.sent ++ [e] }
  else none

/-- The connection is lost, with what is on it. -/
def lose : State := { s with alive := false, incoming := [], pending := [] }

end State

/-- One step; there is none after the process has ended. -/
def step (l : Label) (s : State) : Option State :=
  if s.poll = .ended then none
  else
    match l with
    | .prepare thread request => s.prepare thread request
    | .storeBefore => s.storeBkupBeforeCall
    | .write ok => s.write ok
    | .receive => s.receive
    | .unpack => s.unpack
    | .storeAfter => s.storeBkupAfterCall
    | .pollRecvCb => s.pollRecvCb
    | .connect => s.connect
    | .startSession ok => s.startSession ok
    | .sessionStarted => s.sessionStarted
    | .lockBkup => s.lockBkup
    | .fileReopen ok => s.fileReopen ok
    | .fileReopened => s.fileReopened
    | .writeBkup ok => s.writeBkup ok
    | .takeEvent => s.takeEvent
    | .callbackReturns => s.callbackReturns
    | .registerCallback event present => some (s.registerCallback event present)
    | .answer i accepted result => s.answer i accepted result
    | .sendEvent e => s.sendEvent e
    | .lose => some s.lose

/-- The runs of a client that has connected, whatever the counter is then. -/
def chubbyClient : Lts State Label where
  init s := ∃ id xidCounter, s = .fresh id xidCounter
  step := step

end Client

end SimpleChubby
