import SimpleChubby.Lib.Lts
import SimpleChubby.Session.MsgSock

/-!
# Replies and events on one connection

`chubby_server::reply` queues its message in the `msg_sock` of the session;
`chubby_server::send` writes an event straight to the descriptor, past the
queue. In the runs in which no event is written while a reply is half written,
the client receives whole messages one after the other.
-/

namespace SimpleChubby

/-! ## The connection -/

/-- A session's connection. `received` is the stream the client reads, and
    `replies` and `events` are the messages the service has asked to be sent. -/
structure Connection where
  sock : MsgSock
  received : List UInt8
  /-- The assertion in `send` has failed. -/
  ended : Bool
  replies : List Message
  events : List Message
  deriving DecidableEq, Repr

/-- A connection that has been accepted. -/
def Connection.fresh : Connection := ⟨.fresh, [], false, [], []⟩

/-- What can happen on a connection; `w` is what comes of the write that is made. -/
inductive Sending where
  | reply (xid : Xid) (m : Message) (w : Written)
  | send (m : Message) (w : Written)
  | ready (w : Written)
  deriving DecidableEq, Repr

namespace Connection

/-- The queue of the connection has been worked on, and `bytes` written. -/
def wrote (c : Connection) (sock : MsgSock) (bytes : List UInt8) : Connection :=
  { c with sock := sock, received := c.received ++ bytes }

/-- `chubby_server::reply`, up to the framing of the reply. -/
def reply (xid : Xid) (m : Message) (w : Written) (c : Connection) : Option Connection :=
  if xid = internalXid then some c
  else
    (c.sock.putmsg m w).map fun r =>
      { c.wrote r.1 r.2 with replies := c.replies ++ [m] }

/-- `chubby_server::send`, up to the framing of the event. -/
def send (m : Message) (w : Written) (c : Connection) : Option Connection :=
  match w with
  | .bytes n =>
    if m.raw.length < n then none
    else
      some { c with
        received := c.received ++ m.raw.take n
        ended := decide (n ≠ m.raw.length)
        events := c.events ++ [m] }
  | _ => some { c with ended := true, events := c.events ++ [m] }

/-- The descriptor can be written again. -/
def ready (w : Written) (c : Connection) : Option Connection :=
  if c.sock.callback then (c.sock.output true w).map fun r => c.wrote r.1 r.2 else none

/-- One step; there is none after the process has ended. -/
def step (l : Sending) (c : Connection) : Option Connection :=
  if c.ended then none
  else
    match l with
    | .reply xid m w => c.reply xid m w
    | .send m w => c.send m w
    | .ready w => c.ready w

end Connection

/-- The runs of a connection. -/
def connection : Lts Connection Sending where
  init c := c = .fresh
  step := Connection.step

/-! ## Whole messages -/

/-- A message of one of the two kinds. -/
inductive Sent where
  | reply (m : Message)
  | event (m : Message)
  deriving DecidableEq, Repr

namespace Sent

/-- The message itself. -/
def message : Sent → Message
  | .reply m => m
  | .event m => m

/-- The message, if it is a reply. -/
def reply? : Sent → Option Message
  | .reply m => some m
  | .event _ => none

/-- The message, if it is an event. -/
def event? : Sent → Option Message
  | .reply _ => none
  | .event m => some m

end Sent

/-- What the client has received is the beginning of whole messages one after
    the other: every reply once, in the order of the calls, and every event once. -/
def Connection.Unmixed (c : Connection) : Prop :=
  ∃ order : List Sent, c.received <+: rawBytes (order.map Sent.message) ∧
    order.filterMap Sent.reply? = c.replies ∧ (order.filterMap Sent.event?).Perm c.events

/-- An event is not written while part of a reply has been written, nor after a
    write of replies has failed. -/
def BetweenReplies (c : Connection) : Sending → Prop
  | .send _ (.bytes _) => c.sock.wstart = 0 ∧ c.sock.wfail = false
  | _ => True

instance (c : Connection) (l : Sending) : Decidable (BetweenReplies c l) := by
  unfold BetweenReplies
  split <;> infer_instance

/-! ## The invariant -/

/-- The stream is whole messages, and the part of the first queued reply that
    has been written. -/
structure Connection.Whole (c : Connection) : Prop where
  counts : c.sock.Counts
  sent : ∃ done : List Sent,
    c.received = rawBytes (done.map Sent.message) ++
      (rawBytes c.sock.wqueue).take c.sock.wstart ∧
    done.filterMap Sent.reply? ++ c.sock.wqueue = c.replies ∧
    done.filterMap Sent.event? = c.events

/-- The invariant: while the process runs and no write has failed, the stream is
    at a place the counters tell. -/
structure StreamOk (c : Connection) : Prop where
  unmixed : c.Unmixed
  whole : c.ended = false → c.sock.wfail = false → c.Whole
  givenUp : c.sock.wfail = true → c.sock.wqueue = []

section Invariant

variable {c c' : Connection} {m : Message} {w : Written}

theorem map_message_reply (l : List Message) : (l.map Sent.reply).map Sent.message = l := by
  simp [Sent.message, Function.comp_def]

theorem reply_reply (l : List Message) : (l.map Sent.reply).filterMap Sent.reply? = l := by
  simp [Sent.reply?, List.filterMap_map, Function.comp_def]

theorem event_reply (l : List Message) : (l.map Sent.reply).filterMap Sent.event? = [] := by
  simp [Sent.event?]

/-- The queued replies follow what has been sent. -/
theorem Connection.Whole.unmixed (h : c.Whole) : c.Unmixed := by
  obtain ⟨done, hreceived, hreplies, hevents⟩ := h.sent
  refine ⟨done ++ c.sock.wqueue.map Sent.reply, ?_, ?_, ?_⟩
  · rw [List.map_append, map_message_reply, rawBytes_append, hreceived]
    exact (List.prefix_append_right_inj _).mpr (List.take_prefix _ _)
  · rw [List.filterMap_append, reply_reply, hreplies]
  · rw [List.filterMap_append, event_reply, List.append_nil, hevents]

theorem Connection.Whole.ok (h : c.Whole) (hfail : c.sock.wfail = false) : StreamOk c := by
  refine ⟨h.unmixed, fun _ _ => h, fun hcon => ?_⟩
  rw [hfail] at hcon
  cases hcon

/-- One more message to come mixes up nothing. -/
theorem Connection.Unmixed.later {s : Sent} (h : c.Unmixed) (hreceived : c'.received = c.received)
    (hreplies : c'.replies = c.replies ++ s.reply?.toList)
    (hevents : c'.events = c.events ++ s.event?.toList) : c'.Unmixed := by
  obtain ⟨order, hprefix, hreply, hevent⟩ := h
  refine ⟨order ++ [s], ?_, ?_, ?_⟩
  · rw [hreceived, List.map_append, rawBytes_append]
    exact hprefix.trans (List.prefix_append _ _)
  · rw [hreplies, List.filterMap_append, hreply]
    cases s <;> rfl
  · rw [hevents, List.filterMap_append]
    refine hevent.append ?_
    cases s <;> exact List.Perm.refl _

/-- `output` continues the stream. -/
theorem Connection.Whole.output (h : c.Whole) (hok : c.sock.wfail = false) {cbset : Bool}
    {sock : MsgSock} {bytes : List UInt8}
    (ho : c.sock.output cbset w = some (sock, bytes)) : StreamOk (c.wrote sock bytes) := by
  rcases MsgSock.output_spec h.counts ho with ⟨hfail, hempty, rfl⟩ |
    ⟨hsame, hcounts, gone, hgone, hbytes⟩
  · refine ⟨?_, fun _ hnot => ?_, fun _ => hempty⟩
    · obtain ⟨order, hprefix, hreply, hevent⟩ := h.unmixed
      exact ⟨order, by rwa [Connection.wrote, List.append_nil], hreply, hevent⟩
    · have hnot' : sock.wfail = false := hnot
      rw [hfail] at hnot'
      cases hnot'
  · obtain ⟨done, hreceived, hreplies, hevents⟩ := h.sent
    refine Connection.Whole.ok ⟨hcounts, done ++ gone.map Sent.reply, ?_, ?_, ?_⟩
      (hsame.trans hok)
    · show c.received ++ bytes = _
      rw [hreceived, List.append_assoc, hbytes, List.map_append, map_message_reply,
        rawBytes_append, List.append_assoc]
      rfl
    · show _ ++ sock.wqueue = c.replies
      rw [List.filterMap_append, reply_reply, List.append_assoc, ← hgone, hreplies]
    · show _ = c.events
      rw [List.filterMap_append, event_reply, List.append_nil, hevents]

theorem StreamOk.reply {xid : Xid} (h : StreamOk c) (hrun : c.ended = false)
    (hstep : c.reply xid m w = some c') : StreamOk c' := by
  unfold Connection.reply at hstep
  split_ifs at hstep with hxid
  · cases hstep
    exact h
  · obtain ⟨⟨sock, bytes⟩, hput, rfl⟩ := Option.map_eq_some_iff.mp hstep
    unfold MsgSock.putmsg at hput
    by_cases hfail : c.sock.wfail = true
    · rw [if_pos hfail] at hput
      cases hput
      refine ⟨h.unmixed.later (s := .reply m) ?_ rfl (List.append_nil _).symm, fun _ hnot => ?_,
        h.givenUp⟩
      · exact List.append_nil _
      · have hnot' : c.sock.wfail = false := hnot
        rw [hfail] at hnot'
        cases hnot'
    · rw [if_neg hfail] at hput
      have hok : c.sock.wfail = false := by simpa using hfail
      have hwhole := h.whole hrun hok
      -- the connection with the reply in the queue
      have hpushed : Connection.Whole
          { c with
            sock := { c.sock with
              wqueue := c.sock.wqueue ++ [m], wsize := c.sock.wsize + m.raw.length }
            replies := c.replies ++ [m] } := by
        obtain ⟨done, hreceived, hreplies, hevents⟩ := hwhole.sent
        refine ⟨hwhole.counts.push m, done, ?_, ?_, hevents⟩
        · have hsize := hwhole.counts.size
          show c.received = _ ++ (rawBytes (c.sock.wqueue ++ [m])).take c.sock.wstart
          rw [rawBytes_append, List.take_append_of_le_length (by omega), hreceived]
        · show _ ++ (c.sock.wqueue ++ [m]) = c.replies ++ [m]
          rw [← List.append_assoc, hreplies]
      dsimp only at hput
      split_ifs at hput
      · exact hpushed.output hok hput
      · cases hput
        refine Connection.Whole.ok ⟨hpushed.counts, ?_⟩ hok
        obtain ⟨done, hreceived, hrest⟩ := hpushed.sent
        exact ⟨done, (List.append_nil _).trans hreceived, hrest⟩

theorem StreamOk.send (h : StreamOk c) (hrun : c.ended = false)
    (hbetween : BetweenReplies c (.send m w)) (hstep : c.send m w = some c') : StreamOk c' := by
  cases w with
  | bytes n =>
    obtain ⟨hstart, hfail⟩ := hbetween
    have hwhole := h.whole hrun hfail
    obtain ⟨done, hreceived, hreplies, hevents⟩ := hwhole.sent
    rw [hstart, List.take_zero, List.append_nil] at hreceived
    unfold Connection.send at hstep
    dsimp only at hstep
    split_ifs at hstep with hlong
    cases hstep
    refine ⟨⟨done ++ .event m :: c.sock.wqueue.map Sent.reply, ?_, ?_, ?_⟩, fun hrunning _ => ?_,
      h.givenUp⟩
    · show c.received ++ m.raw.take n <+: _
      rw [List.map_append, rawBytes_append, hreceived, List.map_cons, rawBytes_cons]
      refine (List.prefix_append_right_inj _).mpr ?_
      exact (List.take_prefix _ _).trans (List.prefix_append _ _)
    · show _ = c.replies
      rw [← hreplies, List.filterMap_append, List.filterMap_cons, reply_reply]
      rfl
    · show List.Perm _ (c.events ++ [m])
      rw [← hevents, List.filterMap_append, List.filterMap_cons, event_reply]
      exact List.Perm.refl _
    · -- the event has been written as a whole
      have hall : n = m.raw.length := by simpa using hrunning
      refine ⟨hwhole.counts, done ++ [.event m], ?_, ?_, ?_⟩
      · show c.received ++ m.raw.take n = _ ++ (rawBytes c.sock.wqueue).take c.sock.wstart
        rw [hall, List.take_length, hreceived, hstart, List.take_zero, List.append_nil,
          List.map_append, rawBytes_append]
        simp [Sent.message]
      · show _ = c.replies
        rw [← hreplies, List.filterMap_append]
        simp [Sent.reply?]
      · show _ = c.events ++ [m]
        rw [← hevents, List.filterMap_append]
        rfl
  | again =>
    cases hstep
    refine ⟨h.unmixed.later (s := .event m) rfl (List.append_nil _).symm rfl,
      fun hrunning => ?_, h.givenUp⟩
    cases hrunning
  | failed =>
    cases hstep
    refine ⟨h.unmixed.later (s := .event m) rfl (List.append_nil _).symm rfl,
      fun hrunning => ?_, h.givenUp⟩
    cases hrunning

/-- A `msg_sock` that has given up writes nothing more. -/
theorem MsgSock.output_given_up {s s' : MsgSock} (hqueue : s.wqueue = []) {cbset : Bool}
    {bytes : List UInt8} (ho : s.output cbset w = some (s', bytes)) :
    bytes = [] ∧ s'.wqueue = [] ∧ (s.wfail = true → s'.wfail = true) := by
  cases w with
  | again =>
    cases ho
    exact ⟨rfl, hqueue, id⟩
  | failed =>
    cases ho
    exact ⟨rfl, rfl, fun _ => rfl⟩
  | bytes n =>
    have hiov : s.iov = [] := by simp [MsgSock.iov, hqueue]
    unfold MsgSock.output at ho
    dsimp only at ho
    by_cases hn : n = 0
    · rw [if_pos hn] at ho
      cases ho
      exact ⟨rfl, rfl, fun _ => rfl⟩
    · rw [hiov, if_neg hn, if_pos (by simpa using Nat.pos_of_ne_zero hn)] at ho
      cases ho

theorem StreamOk.ready (h : StreamOk c) (hrun : c.ended = false)
    (hstep : c.ready w = some c') : StreamOk c' := by
  unfold Connection.ready at hstep
  split_ifs at hstep
  obtain ⟨⟨sock, bytes⟩, ho, rfl⟩ := Option.map_eq_some_iff.mp hstep
  by_cases hfail : c.sock.wfail = true
  · obtain ⟨rfl, hempty, hkeep⟩ := MsgSock.output_given_up (h.givenUp hfail) ho
    refine ⟨?_, fun _ hnot => ?_, fun _ => hempty⟩
    · obtain ⟨order, hprefix, hreply, hevent⟩ := h.unmixed
      exact ⟨order, by rwa [Connection.wrote, List.append_nil], hreply, hevent⟩
    · have hnot' : sock.wfail = false := hnot
      rw [hkeep hfail] at hnot'
      cases hnot'
  · have hok : c.sock.wfail = false := by simpa using hfail
    exact (h.whole hrun hok).output hok ho

/-- Every step that writes no event into a reply keeps the invariant. -/
theorem StreamOk.step {l : Sending} (h : StreamOk c) (hl : BetweenReplies c l)
    (hstep : c.step l = some c') : StreamOk c' := by
  unfold Connection.step at hstep
  by_cases hended : c.ended = true
  · rw [if_pos hended] at hstep
    cases hstep
  · rw [if_neg hended] at hstep
    have hrun : c.ended = false := by simpa using hended
    cases l with
    | reply xid m w => exact h.reply hrun hstep
    | send m w => exact h.send hrun hl hstep
    | ready w => exact h.ready hrun hstep

theorem streamOk_fresh : StreamOk .fresh := by
  refine Connection.Whole.ok ⟨MsgSock.counts_fresh, [], rfl, rfl, rfl⟩ rfl

end Invariant

/-! ## The runs that write events between replies -/

/-- In the runs in which no event is written while a reply is half written, what
    the client has received is at all times the beginning of whole messages. -/
theorem unmixed_reachable (c : Connection) (h : connection.Reach BetweenReplies c) :
    c.Unmixed := by
  have hok : StreamOk c := by
    refine h.invariant ?_ ?_
    · rintro c rfl
      exact streamOk_fresh
    · intro c c' l _ hok hl hstep
      exact hok.step hl hstep
  exact hok.unmixed

/-- A reply of two bytes, and an event of one. -/
def aReply : Message := ⟨[1, 2], by decide⟩

/-- An event of one byte. -/
def anEvent : Message := ⟨[3], by decide⟩

theorem unmixed_between :
    ∃ c, connection.exec BetweenReplies
      [.reply 1 aReply (.bytes 5), .ready (.bytes 1), .send anEvent (.bytes 5),
        .reply 2 aReply (.bytes 2)] .fresh = some c ∧
      c.received = aReply.raw ++ anEvent.raw ++ [128, 0] ∧ c.Unmixed := by
  have hrun : ∃ c, connection.exec BetweenReplies
      [.reply 1 aReply (.bytes 5), .ready (.bytes 1), .send anEvent (.bytes 5),
        .reply 2 aReply (.bytes 2)] .fresh = some c ∧
      c.received = aReply.raw ++ anEvent.raw ++ [128, 0] := ⟨_, rfl, by decide⟩
  obtain ⟨c, hc, hreceived⟩ := hrun
  exact ⟨c, hc, hreceived, unmixed_reachable c (Lts.Reach.exec (.init rfl) hc)⟩

/-- An event is written after the first byte of a reply. -/
theorem not_unmixed :
    ¬ ∀ c, connection.Reach (fun _ _ => True) c → c.Unmixed := by
  intro hall
  have hrun : ∃ c, connection.exec (fun _ _ => True)
      [.reply 1 aReply (.bytes 1), .send anEvent (.bytes 5)] .fresh = some c ∧
        c.received = 128 :: anEvent.raw ∧ c.replies = [aReply] ∧ c.events = [anEvent] :=
    ⟨_, rfl, by decide, rfl, rfl⟩
  obtain ⟨c, hc, hreceived, hreplies, hevents⟩ := hrun
  obtain ⟨order, ⟨rest, hbytes⟩, hreply, hevent⟩ := hall c (Lts.Reach.exec (.init rfl) hc)
  rw [hreceived] at hbytes
  rw [hreplies] at hreply
  rw [hevents] at hevent
  -- the second byte is 128, and no message has that
  cases order with
  | nil => cases hbytes
  | cons s later =>
    have hsecond := congrArg (fun l => l[1]?) hbytes
    cases s with
    | reply m =>
      obtain rfl : m = aReply := (List.cons_eq_cons.mp hreply).1
      simp [aReply, anEvent, Sent.message, Message.raw, lengthField] at hsecond
      exact absurd hsecond (by decide)
    | event m =>
      obtain rfl : m = anEvent := by
        have hmem := hevent.subset (List.mem_cons_self (a := m))
        exact List.mem_singleton.mp hmem
      simp [anEvent, Sent.message, Message.raw, lengthField] at hsecond
      exact absurd hsecond (by decide)

end SimpleChubby
