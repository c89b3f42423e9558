import SimpleChubby.Lib.Lts
import SimpleChubby.Leader.Departure
import SimpleChubby.Session.Registry

/-!
# Replies and events only go to live sessions

`chubby_server` with `api_v1_server` registered: accepts, calls, failing
sockets, and a `disconnect` that closes one handle after the other while
nothing else happens. In the runs in which no close of a disconnect concerns
the session itself and no allocated session number is in use, every reply and
every event goes to a session that is registered, and the maps of the sessions
stay consistent.
-/

namespace SimpleChubby

/-- The server. `stray` is what a proof needs to know of its history. -/
structure ChubbyServer (δ : Type) where
  registry : Registry
  leader : Leader δ
  /-- The session whose `disconnect` runs, and the handles it has still to close. -/
  disconnecting : Option (SessionId × List FdRecord)
  /-- The process has ended. -/
  ended : Bool
  /-- The sessions passed to `reply` or `send` that were not registered then. -/
  stray : List SessionId

/-- What can happen to the server. `close` and `left` are the steps of the
    `disconnect` that a `failure` starts. -/
inductive ServerInput where
  | accept (fd : Nat) (clientId : Str)
  | rpc (session : SessionId) (xid : Xid) (request : Request)
  | increment (session : SessionId) (xid : Xid)
  | decrement (session : SessionId) (xid : Xid)
  | failure (session : SessionId)
  | close
  | left
  | initializeLeader
  deriving DecidableEq, Repr

namespace ChubbyServer

variable {δ : Type}

/-- The server before it has accepted anything. -/
def fresh (db : δ) (masterSequenceNumber : UInt64) : ChubbyServer δ where
  registry := .empty
  leader := .fresh db masterSequenceNumber
  disconnecting := none
  ended := false
  stray := []

/-- A session is passed to `reply` or `send`. -/
def noted (session : SessionId) (σ : ChubbyServer δ) : List SessionId :=
  if σ.registry.registered session then σ.stray else σ.stray ++ [session]

/-- `reply`, with an xid of its own. A null `msg_sock *` ends the process. -/
def replied (session : SessionId) (σ : ChubbyServer δ) : ChubbyServer δ :=
  if σ.ended then σ
  else
    { σ with
      registry := σ.registry.touchMsgsock session
      ended := (σ.registry.sessionidToMsgsockMap.get session).isNone
      stray := σ.noted session }

/-- `send`. -/
def notified (session : SessionId) (σ : ChubbyServer δ) : ChubbyServer δ :=
  if σ.ended then σ
  else { σ with registry := σ.registry.touchFd session, stray := σ.noted session }

/-- What the server does for an action of the leader. -/
def sent : Action → ChubbyServer δ → ChubbyServer δ
  | .reply session _ _, σ => σ.replied session
  | .event session _ _, σ => σ.notified session
  | _, σ => σ

/-- The actions of a handler, one after the other. -/
def sentAll (actions : List Action) (σ : ChubbyServer δ) : ChubbyServer δ :=
  actions.foldl (fun σ action => sent action σ) σ

/-- `increment` and `decrement`: a reply between two events. -/
def counted (session : SessionId) (xid : Xid) (σ : ChubbyServer δ) : ChubbyServer δ :=
  let σ₁ := σ.notified session
  let σ₂ := if xid = internalXid then σ₁ else σ₁.replied session
  σ₂.notified session

/-- Run a handler of the leader; a handler that stops ends the process. -/
def run (handler : Api δ Unit) (σ : ChubbyServer δ) : ChubbyServer δ :=
  match handler σ.leader with
  | .ret _ st => { σ.sentAll (st.log.drop σ.leader.log.length) with leader := st }
  | .stop _ st => { σ.sentAll (st.log.drop σ.leader.log.length) with leader := st, ended := true }

/-- No `disconnect` is running. -/
def idle (σ : ChubbyServer δ) : Bool := σ.disconnecting.isNone

/-- `accept_cb`: the kernel hands out a descriptor that is not in use. -/
def accept (fd : Nat) (clientId : Str) (σ : ChubbyServer δ) : Option (ChubbyServer δ) :=
  if σ.idle && !σ.registry.fdToSessionidMap.has fd then
    some { σ with registry := σ.registry.registerSession fd clientId }
  else none

/-- `receive_cb` without a message: `deregisterSession`, up to the loop of
    `disconnect` over a copy of the session's handles. -/
def failure (session : SessionId) (σ : ChubbyServer δ) : Option (ChubbyServer δ) :=
  if σ.idle && σ.registry.registered session then
    some { σ with
      registry := σ.registry.deregisterSession session
      leader := (σ.leader.logged [.disconnected session]).touchFds session
      disconnecting := some (session, σ.leader.fds session) }
  else none

variable (E : Service δ)

/-- `receive_cb` with the message of a call: its handler runs. -/
def rpc (session : SessionId) (xid : Xid) (request : Request) (σ : ChubbyServer δ) :
    Option (ChubbyServer δ) :=
  if σ.idle && σ.registry.registered session then
    some (σ.run (handle E (.rpc session xid request)))
  else none

/-- `receive_cb` with a call of `increment` or `decrement`. -/
def count (session : SessionId) (xid : Xid) (σ : ChubbyServer δ) : Option (ChubbyServer δ) :=
  if σ.idle && σ.registry.registered session then some (σ.counted session xid) else none

/-- The next handle in the loop of `disconnect` is closed. -/
def close (σ : ChubbyServer δ) : Option (ChubbyServer δ) :=
  match σ.disconnecting with
  | some (session, p :: rest) =>
    some { σ.run (fileClose E p.value session internalXid) with
      disconnecting := some (session, rest) }
  | _ => none

/-- The end of `disconnect`. -/
def left (σ : ChubbyServer δ) : Option (ChubbyServer δ) :=
  match σ.disconnecting with
  | some (session, []) =>
    some { σ with leader := σ.leader.left session, disconnecting := none }
  | _ => none

/-- The process takes a step. -/
def proceed (σ : ChubbyServer δ) : ServerInput → Option (ChubbyServer δ)
  | .accept fd clientId => σ.accept fd clientId
  | .rpc session xid request => σ.rpc E session xid request
  | .increment session xid => σ.count session xid
  | .decrement session xid => σ.count session xid
  | .failure session => σ.failure session
  | .close => σ.close E
  | .left => σ.left
  | .initializeLeader => if σ.idle then some (σ.run (handle E .initializeLeader)) else none

/-- One step of the server; there is none after the process has ended. -/
def step (input : ServerInput) (σ : ChubbyServer δ) : Option (ChubbyServer δ) :=
  if σ.ended then none else σ.proceed E input

end ChubbyServer

section Runs

variable {δ : Type} (E : Service δ)

/-- The server, over a fresh start on the database `db`. -/
def Service.server (db : δ) (masterSequenceNumber : UInt64) : Lts (ChubbyServer δ) ServerInput where
  init σ := σ = .fresh db masterSequenceNumber
  step := ChubbyServer.step E

/-- An accepted socket gets a session number that is not in use, and a handle
    that a disconnect closes does not concern the session itself. -/
def Quietly (σ : ChubbyServer δ) : ServerInput → Prop
  | .accept _ _ => σ.registry.registered (σ.registry.sessionIdAllocator + 1) = false
  | .close =>
    match σ.disconnecting with
    | some (session, p :: rest) => QuietClose E session rest p.value σ.leader
    | _ => True
  | _ => True

instance (σ : ChubbyServer δ) (input : ServerInput) : Decidable (Quietly E σ input) := by
  unfold Quietly
  split
  · infer_instance
  · split <;> infer_instance
  · infer_instance

/-! ## The steps of a disconnect are the handler's -/

variable {E}

theorem ChubbyServer.step_eq_some {σ σ' : ChubbyServer δ} {input : ServerInput} :
    σ.step E input = some σ' ↔ σ.ended = false ∧ σ.proceed E input = some σ' := by
  unfold step
  cases σ.ended <;> simp

/-- A handler after which the process goes on has returned. -/
theorem ChubbyServer.run_returned {σ : ChubbyServer δ} {m : Api δ Unit}
    (h : (σ.run m).ended = false) : m σ.leader = .ret () (σ.run m).leader := by
  unfold run at h ⊢
  cases hm : m σ.leader with
  | ret u st => rfl
  | stop e st =>
    rw [hm] at h
    cases h

/-- The closes of a disconnect, and its end, from a state in the loop. -/
theorem exec_closes {s : SessionId} {db : δ} {masterSequenceNumber : UInt64} {σ' : ChubbyServer δ} :
    ∀ (l : List FdRecord) (σ : ChubbyServer δ), σ.disconnecting = some (s, l) →
      (E.server db masterSequenceNumber).exec (fun _ _ => True)
        (List.replicate l.length .close ++ [.left]) σ = some σ' →
      ∃ st, Prog.forEach (fun p => fileClose E p.value s internalXid) l σ.leader = .ret () st ∧
        σ'.leader = st.left s
  | [], σ, hloop, h => by
    obtain ⟨_, σ₁, hstep, hdone⟩ := Lts.exec_cons h
    obtain rfl := Option.some.inj hdone
    have hleft : σ.left = some σ₁ := (ChubbyServer.step_eq_some.mp hstep).2
    unfold ChubbyServer.left at hleft
    rw [hloop] at hleft
    obtain rfl := Option.some.inj hleft
    exact ⟨σ.leader, rfl, rfl⟩
  | p :: rest, σ, hloop, h => by
    obtain ⟨_, σ₁, hstep, hrest⟩ := Lts.exec_cons h
    have hclose : σ.close E = some σ₁ := (ChubbyServer.step_eq_some.mp hstep).2
    unfold ChubbyServer.close at hclose
    rw [hloop] at hclose
    obtain rfl := Option.some.inj hclose
    obtain ⟨st, hall, hlast⟩ := exec_closes rest _ rfl hrest
    -- the process goes on, because there is a step after this one
    have hended : (σ.run (fileClose E p.value s internalXid)).ended = false := by
      cases rest with
      | nil =>
        obtain ⟨_, σ₂, hnext, _⟩ := Lts.exec_cons hrest
        exact (ChubbyServer.step_eq_some.mp hnext).1
      | cons q l =>
        obtain ⟨_, σ₂, hnext, _⟩ := Lts.exec_cons hrest
        exact (ChubbyServer.step_eq_some.mp hnext).1
    have hreturned := ChubbyServer.run_returned hended
    exact ⟨st, (Prog.bind_of_ret hreturned).trans hall, hlast⟩

/-- The steps of a disconnect leave the leader as `disconnect` does. -/
theorem exec_disconnect {s : SessionId} {db : δ} {masterSequenceNumber : UInt64}
    {σ σ' : ChubbyServer δ}
    (h : (E.server db masterSequenceNumber).exec (fun _ _ => True)
      (.failure s :: (List.replicate (σ.leader.fds s).length .close ++ [.left])) σ = some σ') :
    handle E (.disconnect s) σ.leader = .ret () σ'.leader := by
  obtain ⟨_, σ₁, hstep, hrest⟩ := Lts.exec_cons h
  have hfailure : σ.failure s = some σ₁ := (ChubbyServer.step_eq_some.mp hstep).2
  unfold ChubbyServer.failure at hfailure
  split_ifs at hfailure
  obtain rfl := Option.some.inj hfailure
  obtain ⟨st, hall, hlast⟩ := exec_closes _ _ rfl hrest
  have hread : ((σ.leader.logged [.disconnected s]).touchFds s).fds s = σ.leader.fds s :=
    UMap.get_touch _ _ _
  have hloop : disconnect E s (σ.leader.logged [.disconnected s]) = .ret () (st.left s) := by
    rw [disconnect, Prog.modify_bind, Prog.gets_bind, hread, Prog.bind_of_ret hall]
    rfl
  rw [hlast]
  exact hloop

end Runs

/-! ## The invariant -/

section Invariant

variable {δ : Type} {E : Service δ} {σ σ' : ChubbyServer δ}

/-- While the process runs: the leader knows of registered sessions only, and
    of the one whose disconnect runs, which is registered for the files of the
    handles it has still to close only. -/
structure ChubbyServer.Attended (σ : ChubbyServer δ) : Prop where
  indexed : σ.leader.Indexed
  subscribed : σ.leader.Subscribed
  known : σ.leader.Known fun w =>
    σ.registry.registered w = true ∨ ∃ rest, σ.disconnecting = some (w, rest)
  leaving : ∀ s rest, σ.disconnecting = some (s, rest) →
    ∀ f, σ.leader.Listens s f → f ∈ rest.map (·.value.fileName)

/-- The invariant. -/
structure LiveOk (σ : ChubbyServer δ) : Prop where
  stray : σ.stray = []
  consistent : σ.registry.Consistent
  attended : σ.ended = false → σ.Attended

/-- What changes is at most whether the process goes on. -/
structure ChubbyServer.Same (σ σ' : ChubbyServer δ) : Prop where
  registry : σ'.registry = σ.registry
  stray : σ'.stray = σ.stray
  disconnecting : σ'.disconnecting = σ.disconnecting

theorem ChubbyServer.Same.trans {σ₁ : ChubbyServer δ} (h : σ.Same σ₁) (h' : σ₁.Same σ') :
    σ.Same σ' where
  registry := h'.registry.trans h.registry
  stray := h'.stray.trans h.stray
  disconnecting := h'.disconnecting.trans h.disconnecting

/-- A reply to a registered session changes neither the maps nor the history. -/
theorem ChubbyServer.replied_live {s : SessionId} (hc : σ.registry.Consistent)
    (hs : σ.registry.registered s = true) : σ.Same (σ.replied s) := by
  unfold replied
  split_ifs
  · exact ⟨rfl, rfl, rfl⟩
  · exact ⟨hc.touchMsgsock hs, if_pos hs, rfl⟩

/-- An event for a registered session changes neither the maps nor the history. -/
theorem ChubbyServer.notified_live {s : SessionId} (hc : σ.registry.Consistent)
    (hs : σ.registry.registered s = true) : σ.Same (σ.notified s) := by
  unfold notified
  split_ifs
  · exact ⟨rfl, rfl, rfl⟩
  · exact ⟨hc.touchFd hs, if_pos hs, rfl⟩

theorem ChubbyServer.replied_leader (s : SessionId) : (σ.replied s).leader = σ.leader := by
  unfold replied
  cases σ.ended <;> rfl

theorem ChubbyServer.notified_leader (s : SessionId) : (σ.notified s).leader = σ.leader := by
  unfold notified
  cases σ.ended <;> rfl

/-- A reply between two events, all to a registered session. -/
theorem ChubbyServer.counted_live {s : SessionId} {x : Xid} (hc : σ.registry.Consistent)
    (hs : σ.registry.registered s = true) : σ.Same (σ.counted s x) := by
  have hfirst := σ.notified_live hc hs
  unfold counted
  split_ifs with hx
  · have hlast := (σ.notified s).notified_live (hfirst.registry.symm ▸ hc) (by
      rw [hfirst.registry]
      exact hs)
    exact hfirst.trans hlast
  · have hsecond := (σ.notified s).replied_live (hfirst.registry.symm ▸ hc) (by
      rw [hfirst.registry]
      exact hs)
    have hboth := hfirst.trans hsecond
    have hlast := ((σ.notified s).replied s).notified_live (hboth.registry.symm ▸ hc) (by
      rw [hboth.registry]
      exact hs)
    exact hboth.trans hlast

theorem ChubbyServer.counted_leader (s : SessionId) (x : Xid) :
    (σ.counted s x).leader = σ.leader := by
  unfold counted
  rw [ChubbyServer.notified_leader]
  split_ifs
  · exact σ.notified_leader s
  · exact ((σ.notified s).replied_leader s).trans (σ.notified_leader s)

theorem ChubbyServer.sent_live {a : Action} (hc : σ.registry.Consistent)
    (h : ∀ s ∈ a.recipient, σ.registry.registered s = true) : σ.Same (sent a σ) := by
  cases a with
  | reply s x body => exact σ.replied_live hc (h s rfl)
  | event s e f => exact σ.notified_live hc (h s rfl)
  | _ => exact ⟨rfl, rfl, rfl⟩

theorem ChubbyServer.sentAll_live {l : List Action} (hc : σ.registry.Consistent)
    (h : SentTo (fun s => σ.registry.registered s = true) l) : σ.Same (σ.sentAll l) := by
  induction l generalizing σ with
  | nil => exact ⟨rfl, rfl, rfl⟩
  | cons a rest ih =>
    have hfirst := σ.sent_live hc (h a List.mem_cons_self)
    have hrest : SentTo (fun s => (sent a σ).registry.registered s = true) rest := by
      rw [hfirst.registry]
      exact fun b hb => h b (List.mem_cons_of_mem _ hb)
    exact hfirst.trans (ih (hfirst.registry.symm ▸ hc) hrest)

/-- A handler that sends to registered sessions only. -/
theorem ChubbyServer.run_live {m : Api δ Unit} {I : Leader δ → Prop} (hc : σ.registry.Consistent)
    (h : Prog.wp m
      (fun _ st => I st ∧ σ.leader.Tells (fun s => σ.registry.registered s = true) st)
      (fun _ st => σ.leader.Tells (fun s => σ.registry.registered s = true) st) σ.leader) :
    σ.Same (σ.run m) ∧ ((σ.run m).ended = false → I (σ.run m).leader) := by
  unfold run
  cases hm : m σ.leader with
  | ret u st =>
    obtain ⟨hI, l, hl, hlog⟩ := Prog.wp_of_ret h hm
    have hsent : st.log.drop σ.leader.log.length = l := by
      rw [hlog, List.drop_left]
    have hsame := σ.sentAll_live hc hl
    rw [← hsent] at hsame
    exact ⟨⟨hsame.registry, hsame.stray, hsame.disconnecting⟩, fun _ => hI⟩
  | stop e st =>
    obtain ⟨l, hl, hlog⟩ := Prog.wp_of_stop h hm
    have hsent : st.log.drop σ.leader.log.length = l := by
      rw [hlog, List.drop_left]
    have hsame := σ.sentAll_live hc hl
    rw [← hsent] at hsame
    exact ⟨⟨hsame.registry, hsame.stray, hsame.disconnecting⟩, fun hended => by cases hended⟩

/-- While no disconnect runs, the leader knows of registered sessions only. -/
theorem ChubbyServer.Attended.idle (h : σ.Attended) (hidle : σ.disconnecting = none) :
    σ.leader.Known fun w => σ.registry.registered w = true := by
  refine h.known.mono fun w hw => ?_
  rcases hw with hw | ⟨rest, hrest⟩
  · exact hw
  · rw [hidle] at hrest
    cases hrest

theorem ChubbyServer.idle_iff : σ.idle = true ↔ σ.disconnecting = none := by
  unfold idle
  cases σ.disconnecting <;> simp

/-- An input of the leader, handled while no disconnect runs. -/
theorem LiveOk.handles {input : Input} (h : LiveOk σ) (hidle : σ.idle = true)
    (hended : σ.ended = false)
    (hdiscreet : Discreet (fun w => σ.registry.registered w = true) (handle E input)) :
    LiveOk (σ.run (handle E input)) := by
  have hat := h.attended hended
  have hloop := ChubbyServer.idle_iff.mp hidle
  have hwp := Prog.wp_and (hdiscreet σ.leader (hat.idle hloop))
    (Prog.wp_outcome.mpr (handle_ends E σ.leader input))
  obtain ⟨⟨hregistry, hstray, hlast⟩, hleader⟩ := σ.run_live
    (I := fun st => st.Known (fun w => σ.registry.registered w = true) ∧ st.Indexed ∧
      st.Subscribed) h.consistent
    (Prog.wp_mono hwp
      (fun _ st hst => ⟨⟨hst.1.1, hst.2.indexed hat.indexed,
        hst.2.subscribed hat.indexed hat.subscribed⟩, hst.1.2⟩)
      (fun _ st hst => hst.1))
  refine ⟨hstray.trans h.stray, hregistry.symm ▸ h.consistent, fun hgoes => ?_⟩
  obtain ⟨hknown, hindexed, hsubscribed⟩ := hleader hgoes
  refine ⟨hindexed, hsubscribed, ?_, ?_⟩
  · rw [hregistry]
    exact hknown.mono fun w hw => Or.inl hw
  · intro s rest hrest
    rw [hlast, hloop] at hrest
    cases hrest

/-- A call of `increment` or `decrement`. -/
theorem LiveOk.count {s : SessionId} {x : Xid} (h : LiveOk σ) (hended : σ.ended = false)
    (hstep : σ.count s x = some σ') : LiveOk σ' := by
  unfold ChubbyServer.count at hstep
  split_ifs at hstep with hguard
  obtain rfl := Option.some.inj hstep
  obtain ⟨_, hs⟩ := Bool.and_eq_true_iff.mp hguard
  have hsame := σ.counted_live (x := x) h.consistent hs
  have hat := h.attended hended
  refine ⟨hsame.stray.trans h.stray, hsame.registry.symm ▸ h.consistent, fun _ => ?_⟩
  constructor
  · rw [ChubbyServer.counted_leader]
    exact hat.indexed
  · rw [ChubbyServer.counted_leader]
    exact hat.subscribed
  · rw [ChubbyServer.counted_leader, hsame.registry, hsame.disconnecting]
    exact hat.known
  · rw [ChubbyServer.counted_leader, hsame.disconnecting]
    exact hat.leaving

theorem LiveOk.accept {fd : Nat} {clientId : Str} (h : LiveOk σ)
    (hq : Quietly E σ (.accept fd clientId)) (hended : σ.ended = false)
    (hstep : σ.accept fd clientId = some σ') : LiveOk σ' := by
  unfold ChubbyServer.accept at hstep
  split_ifs at hstep with hguard
  obtain rfl := Option.some.inj hstep
  obtain ⟨_, hfd⟩ := Bool.and_eq_true_iff.mp hguard
  have hfree : σ.registry.fdToSessionidMap.has fd = false := by simpa using hfd
  have hat := h.attended hended
  refine ⟨h.stray, h.consistent.registerSession hfree hq, fun _ => ?_⟩
  refine ⟨hat.indexed, hat.subscribed, hat.known.mono fun w hw => hw.imp_left fun hr => ?_,
    hat.leaving⟩
  rw [Registry.registered_registerSession, hr, Bool.or_true]

theorem LiveOk.failure {s : SessionId} (h : LiveOk σ) (hended : σ.ended = false)
    (hstep : σ.failure s = some σ') : LiveOk σ' := by
  unfold ChubbyServer.failure at hstep
  split_ifs at hstep with hguard
  obtain rfl := Option.some.inj hstep
  obtain ⟨hidle, hs⟩ := Bool.and_eq_true_iff.mp hguard
  have hat := h.attended hended
  have hknown := hat.idle (ChubbyServer.idle_iff.mp hidle)
  refine ⟨h.stray, h.consistent.deregisterSession hs, fun _ => ⟨?_, ?_, ?_, ?_⟩⟩
  · exact hat.indexed.of_get fun w => UMap.get_touch _ _ _
  · have hlogged : (σ.leader.logged [.disconnected s]).Subscribed := hat.subscribed
    exact hlogged.touchFds
  · have htouched : ((σ.leader.logged [.disconnected s]).touchFds s).Known
        fun w => σ.registry.registered w = true := hknown
    refine htouched.mono fun w hw => ?_
    by_cases hws : w = s
    · exact Or.inr ⟨_, by rw [hws]⟩
    · left
      rw [Registry.registered_deregisterSession, hw]
      simp [hws]
  · rintro w rest hloop f hlistens
    cases hloop
    obtain ⟨p, hp, hname⟩ := hat.subscribed s f hlistens
    exact List.mem_map.mpr ⟨p, hp, hname⟩

theorem LiveOk.close (h : LiveOk σ) (hq : Quietly E σ .close) (hended : σ.ended = false)
    (hstep : σ.close E = some σ') : LiveOk σ' := by
  unfold ChubbyServer.close at hstep
  cases hloop : σ.disconnecting with
  | none =>
    rw [hloop] at hstep
    cases hstep
  | some closing =>
    obtain ⟨s, _ | ⟨p, rest⟩⟩ := closing
    · rw [hloop] at hstep
      cases hstep
    · rw [hloop] at hstep
      obtain rfl := Option.some.inj hstep
      have hquiet : QuietClose E s rest p.value σ.leader := by
        unfold Quietly at hq
        rw [hloop] at hq
        exact hq
      have hat := h.attended hended
      -- everything goes to registered sessions or to the one that has gone, but not to that one
      have hdiscreet : Discreet (fun w => σ.registry.registered w = true ∨
          ∃ rest, σ.disconnecting = some (w, rest)) (fileClose E p.value s internalXid) :=
        .fileClose E internalXid p.value (Or.inr ⟨_, hloop⟩)
      have hends := Prog.wp_outcome.mpr (fileClose_ends E s internalXid σ.leader p.value)
      have hwp := Prog.wp_and (Prog.wp_and (hdiscreet σ.leader hat.known) hends)
        (fileClose_quiet hquiet)
      have htells : ∀ st, σ.leader.Tells (fun w => σ.registry.registered w = true ∨
          ∃ rest, σ.disconnecting = some (w, rest)) st → σ.leader.Avoids s st →
          σ.leader.Tells (fun w => σ.registry.registered w = true) st := by
        intro st hknown havoids
        refine (hknown.and havoids).mono fun w hw => ?_
        obtain ⟨hw | ⟨rest', hw⟩, hne⟩ := hw
        · exact hw
        · rw [hloop] at hw
          cases hw
          exact absurd rfl hne
      -- what the leader is like if the process goes on
      let I : Leader δ → Prop := fun st =>
        st.Known (fun w => σ.registry.registered w = true ∨
          ∃ rest, σ.disconnecting = some (w, rest)) ∧ st.Indexed ∧ st.Subscribed ∧
        ∀ f, st.Listens s f → f ∈ rest.map (·.value.fileName)
      have hlive := σ.run_live (I := I) h.consistent (Prog.wp_mono hwp
        (fun _ st hst => ?_) (fun _ st hst => htells st hst.1.1 hst.2))
      · obtain ⟨⟨hregistry, hstray, _⟩, hleader⟩ := hlive
        refine ⟨hstray.trans h.stray, hregistry.symm ▸ h.consistent, fun hgoes => ?_⟩
        obtain ⟨hknown, hindexed, hsubscribed, hlistens⟩ := hleader hgoes
        refine ⟨hindexed, hsubscribed, ?_, ?_⟩
        · refine hknown.mono fun w hw => ?_
          rw [hloop] at hw
          rcases hw with hw | ⟨_, hw⟩
          · rw [← hregistry] at hw
            exact Or.inl hw
          · cases hw
            exact Or.inr ⟨rest, rfl⟩
        · rintro w rest' hcons f hf
          cases hcons
          exact hlistens f hf
      · obtain ⟨⟨⟨hknown, htold⟩, hcloses⟩, havoids, hstays⟩ := hst
        refine ⟨⟨hknown, hcloses.indexed hat.indexed,
          hcloses.subscribed hat.indexed hat.subscribed, fun f hf => ?_⟩, htells st htold havoids⟩
        have hbefore := hat.leaving s _ hloop f (hcloses.listens hf).1
        rcases List.mem_cons.mp hbefore with rfl | hlater
        · exact hstays hf
        · exact hlater

theorem LiveOk.left (h : LiveOk σ) (hended : σ.ended = false) (hstep : σ.left = some σ') :
    LiveOk σ' := by
  unfold ChubbyServer.left at hstep
  cases hloop : σ.disconnecting with
  | none =>
    rw [hloop] at hstep
    cases hstep
  | some closing =>
    obtain ⟨s, _ | ⟨p, rest⟩⟩ := closing
    · rw [hloop] at hstep
      obtain rfl := Option.some.inj hstep
      have hat := h.attended hended
      have hsilent : ∀ f, ¬ σ.leader.Listens s f :=
        fun f hf => absurd (hat.leaving s [] hloop f hf) List.not_mem_nil
      have hothers : ∀ w, w ≠ s → (σ.registry.registered w = true ∨
          ∃ rest, σ.disconnecting = some (w, rest)) → σ.registry.registered w = true := by
        intro w hne hw
        rcases hw with hw | ⟨_, hw⟩
        · exact hw
        · rw [hloop] at hw
          cases hw
          exact absurd rfl hne
      refine ⟨h.stray, h.consistent, fun _ => ⟨hat.indexed, hat.subscribed, ⟨?_, ?_, ?_⟩, ?_⟩⟩
      · intro w hw
        rw [Leader.left_session2clientMap, UMap.get_erase] at hw
        split_ifs at hw with hws
        · exact absurd rfl hw
        · exact Or.inl (hothers w hws (hat.known.client w hw))
      · intro f w hw
        refine Or.inl (hothers w ?_ (hat.known.lock f w hw))
        rintro rfl
        exact hsilent f (Or.inl hw)
      · intro f w hw
        refine Or.inl (hothers w ?_ (hat.known.content f w hw))
        rintro rfl
        exact hsilent f (Or.inr hw)
      · intro w rest hcons
        cases hcons
    · rw [hloop] at hstep
      cases hstep

/-- Every allowed step keeps the invariant. -/
theorem LiveOk.step {input : ServerInput} (h : LiveOk σ) (hq : Quietly E σ input)
    (hstep : σ.step E input = some σ') : LiveOk σ' := by
  obtain ⟨hended, hstep⟩ := ChubbyServer.step_eq_some.mp hstep
  cases input with
  | accept fd clientId => exact h.accept hq hended hstep
  | rpc s x request =>
    have hrpc : σ.rpc E s x request = some σ' := hstep
    unfold ChubbyServer.rpc at hrpc
    split_ifs at hrpc with hguard
    obtain rfl := Option.some.inj hrpc
    obtain ⟨hidle, hs⟩ := Bool.and_eq_true_iff.mp hguard
    exact h.handles hidle hended (.rpc E x hs request)
  | increment s x => exact h.count hended hstep
  | decrement s x => exact h.count hended hstep
  | failure s => exact h.failure hended hstep
  | close => exact h.close hq hended hstep
  | left => exact h.left hended hstep
  | initializeLeader =>
    unfold ChubbyServer.proceed at hstep
    split_ifs at hstep with hidle
    obtain rfl := Option.some.inj hstep
    exact h.handles hidle hended (.initializeLeader E)

theorem liveOk_fresh (db : δ) (masterSequenceNumber : UInt64) :
    LiveOk (ChubbyServer.fresh db masterSequenceNumber) where
  stray := rfl
  consistent := Registry.consistent_empty
  attended _ :=
    { indexed := HandleIndex.empty
      subscribed := fun s f hs => by rcases hs with hs | hs <;> cases hs
      known :=
        { client := fun s hs => absurd rfl hs
          lock := fun f s hs => absurd hs List.not_mem_nil
          content := fun f s hs => absurd hs List.not_mem_nil }
      leaving := fun s rest hloop => by cases hloop }

end Invariant

/-! ## Every run -/

/-- In every run in which no disconnect concerns its own session and no session
    number in use is allocated, whoever is sent a reply or an event is registered
    then, and the maps of the sessions are consistent. -/
theorem liveSessions_reachable {δ : Type} (E : Service δ) (db : δ) (masterSequenceNumber : UInt64)
    (σ : ChubbyServer δ) (h : (E.server db masterSequenceNumber).Reach (Quietly E) σ) :
    σ.stray = [] ∧ σ.registry.Consistent := by
  have hok : LiveOk σ := by
    refine h.invariant ?_ ?_
    · rintro σ rfl
      exact liveOk_fresh db masterSequenceNumber
    · intro σ σ' input _ hok hq hstep
      exact hok.step hq hstep
  exact ⟨hok.stray, hok.consistent⟩

/-- Two sessions registered for the lock of a file. The first fails while the
    second holds the lock, which is released afterwards. -/
def failsAside : List ServerInput :=
  let fd : FileHandler := ⟨0, 0, ['/', 'f'], 1, false⟩
  [.accept 5 ['1'], .accept 6 ['2'], .rpc 1 1 (.startSession ['1']),
    .rpc 2 1 (.startSession ['2']),
    .rpc 1 2 (.fileOpen ['/', 'f'] (ModeFlag.createFile ||| ModeFlag.evLockChanged)),
    .rpc 2 2 (.fileOpen ['/', 'f'] ModeFlag.evLockChanged), .rpc 2 3 (.acquire fd),
    .failure 1, .close, .left, .rpc 2 4 (.release fd)]

theorem liveSessions_failsAside :
    ∃ σ, ((Service.paxos .refusing (fun _ => 0) inlineNamed).server .empty 0).exec
      (Quietly (Service.paxos .refusing (fun _ => 0) inlineNamed)) failsAside
        (.fresh .empty 0) = some σ ∧
        σ.stray = [] ∧ σ.registry.Consistent := by
  have hrun : (((Service.paxos .refusing (fun _ => 0) inlineNamed).server .empty 0).exec
      (Quietly (Service.paxos .refusing (fun _ => 0) inlineNamed)) failsAside
      (.fresh .empty 0)).isSome = true := by decide
  obtain ⟨σ, hσ⟩ := Option.isSome_iff_exists.mp hrun
  exact ⟨σ, hσ, liveSessions_reachable _ _ _ σ (Lts.Reach.exec (.init rfl) hσ)⟩

/-- A session registered for the lock of a file fails while it holds it. -/
def failsHolding : List ServerInput :=
  [.accept 5 ['1'], .rpc 1 1 (.startSession ['1']),
    .rpc 1 2 (.fileOpen ['/', 'f'] (ModeFlag.createFile ||| ModeFlag.evLockChanged)),
    .rpc 1 3 (.acquire ⟨0, 0, ['/', 'f'], 1, false⟩), .failure 1, .close]

/-- The release of the lock is announced to the session that has gone. -/
theorem not_liveSessions :
    ¬ ∀ σ, ((Service.paxos .refusing (fun _ => 0) inlineNamed).server .empty 0).Reach
      (fun _ _ => True) σ →
      σ.stray = [] ∧ σ.registry.Consistent := by
  intro hall
  have hrun : ∃ σ, ((Service.paxos .refusing (fun _ => 0) inlineNamed).server .empty 0).exec
      (fun _ _ => True) failsHolding (.fresh .empty 0) = some σ ∧ σ.stray = [1] := ⟨_, rfl, rfl⟩
  obtain ⟨σ, hσ, hstray⟩ := hrun
  have hnone := (hall σ (Lts.Reach.exec (.init rfl) hσ)).1
  rw [hstray] at hnone
  cases hnone

end SimpleChubby
