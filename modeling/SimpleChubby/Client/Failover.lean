import Mathlib
import SimpleChubby.Leader.OpenFiles
import SimpleChubby.Client.Backup

/-!
# Server failover

The leader and its clients, over any changes of the leader. What the clients have
open is kept twice: in the maps of the leader, and in the `event_bkup_` of each
`chubby_client`, from which `connect_server_and_recover` opens it again at the new
leader. A step is a call that the leader handles, a reply that reaches
`store_bkup_after_call`, or a change of the leader. A client has one call under
way at a time, that of the thread with `rpclk_`; a call that is lost on its way
to the leader has done nothing. The calls of a recovery are synchronous, and one
that is not answered ends the client, so they are one step with their replies.

Nothing but `fileClose` takes a file out of `event_bkup_`, and it takes out all
entries of the name; the leader closes one handle. So the copies stay in step
under a condition on each call.
-/

namespace SimpleChubby

variable {δ κ : Type}

/-- The leader, the client behind each session, and the clients. `failed` is the
    last leader before this one, with its sessions, until there is a new call. -/
structure Failover (δ κ : Type) where
  leader : Leader δ
  sessions : SessionId → Option κ
  callers : κ → Caller
  failed : Option (Leader δ × (SessionId → Option κ))

/-- The calls with which a client opens, closes and deletes files. -/
def Request.ofFiles : Request → Bool
  | .fileOpen _ _ => true
  | .fileClose _ => true
  | .fileDelete _ => true
  | _ => false

namespace Failover

/-- What can happen. `replica` is the new leader before it is initialised; `arrived`
    says whose replies have been received before the connection is lost. -/
inductive Label (δ κ : Type) where
  | startSession (k : κ) (session : SessionId) (xid : Xid)
  | fileReopen (session : SessionId) (xid : Xid)
  | invoke (session : SessionId) (xid : Xid) (request : Request)
  | storeBkupAfterCall (k : κ)
  | changeLeader (replica : Leader δ) (arrived : κ → Bool)

variable [DecidableEq κ] (E : Service δ) (id : κ → UInt64) (st : Failover δ κ)

/-- Change a client. -/
def setCaller (k : κ) (c : Caller) : Failover δ κ :=
  { st with callers := Function.update st.callers k c }

/-- A client connects, and its session starts. A refused attempt is made again. -/
def startSession (k : κ) (session : SessionId) (xid : Xid) : Option (Failover δ κ) :=
  if (st.callers k).connected ∨ (st.sessions session).isSome then none
  else
    (Leader.step E (.rpc session xid (.startSession (clientName (id k)))) st.leader).bind
      fun leader =>
        if st.leader.answer leader session xid = some (.bool true) then
          some ({ st with
            leader := leader
            sessions := Function.update st.sessions session (some k) }.setCaller k
              (st.callers k).started)
        else none

/-- `connect_server_and_recover` opens the next file again, and reads the reply. -/
def fileReopen (session : SessionId) (xid : Xid) : Option (Failover δ κ) :=
  match st.sessions session with
  | none => none
  | some k =>
    match (st.callers k).reopening with
    | [] => none
    | (fd, mode) :: rest =>
      (Leader.step E (.rpc session xid (.fileReopen fd mode)) st.leader).bind fun leader =>
        if (st.leader.answer leader session xid).isSome then
          some ({ st with leader := leader }.setCaller k { st.callers k with reopening := rest })
        else none

/-- The leader handles a call, and its reply is on its way. -/
def invoke (session : SessionId) (xid : Xid) (request : Request) : Option (Failover δ κ) :=
  match st.sessions session with
  | none => none
  | some k =>
    if (st.callers k).handled.isSome ∨ request.ofFiles = false then none
    else
      (Leader.step E (.rpc session xid request) st.leader).map fun leader =>
        { st with leader := leader, failed := none }.setCaller k
          { st.callers k with
            handled := some (request, st.leader.answer leader session xid) }

/-- The call returns. While files are opened again `bkup_lk_` is held; what returns
    between the start of the session and that might have returned before. -/
def storeBkupAfterCall (k : κ) : Option (Failover δ κ) :=
  match (st.callers k).handled with
  | some (request, some r) =>
    if Client.State.locksAfterCall request r ∧ (st.callers k).reopening ≠ [] then none
    else
      some (st.setCaller k ((st.callers k).returned request r))
  | _ => none

/-- The leader fails, and the replica that leads next is initialised. -/
def changeLeader (replica : Leader δ) (arrived : κ → Bool) : Option (Failover δ κ) :=
  (Leader.step E .initializeLeader (replica.setDb st.leader.db)).map fun leader =>
    { leader := leader
      sessions := fun _ => none
      callers := fun k => (st.callers k).disconnected (arrived k)
      failed := some (st.leader, st.sessions) }

/-- One step of the clients with the leader. -/
def step (l : Label δ κ) (st : Failover δ κ) : Option (Failover δ κ) :=
  match l with
  | .startSession k session xid => st.startSession E id k session xid
  | .fileReopen session xid => st.fileReopen E session xid
  | .invoke session xid request => st.invoke E session xid request
  | .storeBkupAfterCall k => st.storeBkupAfterCall k
  | .changeLeader replica arrived => st.changeLeader E replica arrived

/-- The client has completed `connect_server_and_recover`. -/
def Recovered (k : κ) : Prop := (st.callers k).connected = true ∧ (st.callers k).reopening = []

/-- Once the clients of the last leader have recovered, the new one is as that was,
    with the new sessions of the clients for the old ones. -/
def Rebuilt : Prop :=
  ∀ old sessions, st.failed = some (old, sessions) →
    (∀ s k, sessions s = some k → st.Recovered k) →
      ∃ rename, (∀ s k, sessions s = some k → st.sessions (rename s) = some k) ∧
        old.Rebuilds st.leader rename

end Failover

/-- A step moves a client as `chubby_client` can move. -/
theorem Failover.step_moves [DecidableEq κ] {E : Service δ} {id : κ → UInt64}
    {l : Failover.Label δ κ} {st st' : Failover δ κ} (h : Failover.step E id l st = some st')
    (j : κ) : (st.callers j).Moves (st'.callers j) := by
  have hmoved : ∀ {k c}, (st.callers k).Moves c →
      (st.callers j).Moves (Function.update st.callers k c j) := by
    intro k c hmoves
    by_cases hj : j = k
    · rw [hj, Function.update_self]
      exact hmoves
    · rw [Function.update_of_ne hj]
      exact .stays
  cases l with
  | startSession k session xid =>
    unfold Failover.step Failover.startSession at h
    dsimp only at h
    split_ifs at h with hguard
    obtain ⟨leader, _, hreply⟩ := Option.bind_eq_some_iff.mp h
    split_ifs at hreply
    obtain rfl := Option.some.inj hreply
    exact hmoved (.started (Bool.not_eq_true _ ▸ (not_or.mp hguard).1))
  | fileReopen session xid =>
    unfold Failover.step Failover.fileReopen at h
    dsimp only at h
    split at h
    · cases h
    · split at h
      · cases h
      · next hnext =>
        obtain ⟨leader, _, hreply⟩ := Option.bind_eq_some_iff.mp h
        split_ifs at hreply
        obtain rfl := Option.some.inj hreply
        exact hmoved (.next hnext)
  | invoke session xid request =>
    unfold Failover.step Failover.invoke at h
    dsimp only at h
    split at h
    · cases h
    · split_ifs at h with hguard
      obtain ⟨leader, _, rfl⟩ := Option.map_eq_some_iff.mp h
      exact hmoved (.handled (Option.not_isSome_iff_eq_none.mp (not_or.mp hguard).1))
  | storeBkupAfterCall k =>
    unfold Failover.step Failover.storeBkupAfterCall at h
    dsimp only at h
    split at h
    · next request r hhandled =>
      split_ifs at h with hlock
      obtain rfl := Option.some.inj h
      exact hmoved (.returned hhandled hlock)
    · cases h
  | changeLeader replica arrived =>
    obtain ⟨leader, _, rfl⟩ := Option.map_eq_some_iff.mp h
    exact .disconnected

/-- The clients with the identities `id`, and their leaders over the service. -/
def failover [DecidableEq κ] (E : Service δ) (id : κ → UInt64) :
    Lts (Failover δ κ) (Failover.Label δ κ) where
  init st := (∃ replica, Leader.step E .initializeLeader replica = some st.leader) ∧
    (∀ s, st.sessions s = none) ∧ (∀ k, st.callers k = .fresh) ∧ st.failed = none
  step := Failover.step E id

/-! ## The condition -/

/-- The files of the client behind a session, if there is one. -/
def ofSession (sessions : SessionId → Option κ) (files : κ → List (FileHandler × Mode))
    (s : SessionId) : List (FileHandler × Mode) :=
  match sessions s with
  | some k => files k
  | none => []

/-- What the call does to the maps of the leader is what `store_bkup_after_call`
    does to `event_bkup_`. -/
def KeepsInStep (E : Service δ) (st : Leader δ) (session : SessionId) : Request → Prop
  | .fileOpen fileName mode => MarksOpen E st session fileName mode
  | .fileClose fd => ClosesAll E st session fd
  | .fileDelete fd => DeletesNone E st session fd
  | _ => True

/-- Nothing of the client is under way. -/
def Caller.Settled (c : Caller) : Prop :=
  c.handled = none ∧ c.reopening = [] ∧ (c.connected = true ∨ c.eventBkup = [])

theorem Caller.Settled.opened {c : Caller} (h : c.Settled) : c.opened = c.eventBkup := by
  rw [Caller.opened_of_none h.1, Caller.reopened_of_nil h.2.1]

/-- A call closes no file that its client has still to open again. -/
def Failover.ClosesOpen (st : Failover δ κ) (session : SessionId) : Request → Prop
  | .fileClose fd => ∀ p ∈ ofSession st.sessions (fun k => (st.callers k).reopening) session,
    p.1.fileName ≠ fd.fileName
  | _ => True

/-- A call keeps the two copies in step, and closes nothing that is still to be
    opened again; the leader changes when nothing is under way. -/
def InStep (E : Service δ) (st : Failover δ κ) : Failover.Label δ κ → Prop
  | .invoke session xid request =>
    xid ≠ internalXid ∧ KeepsInStep E st.leader session request ∧ st.ClosesOpen session request
  | .changeLeader _ _ => ∀ k, (st.callers k).Settled
  | _ => True

/-! ## What a leader knows of its clients -/

/-- The leader knows what its clients have open: each has one session at most,
    started with its identity. -/
structure Knows (id : κ → UInt64) (st : Leader δ) (sessions : SessionId → Option κ)
    (openBy : κ → List (FileHandler × Mode)) : Prop where
  indexed : st.Indexed
  reflects : st.Reflects (ofSession sessions openBy)
  names : ∀ s k, sessions s = some k → st.client s = clientName (id k)
  alone : ∀ s s' k, sessions s = some k → sessions s' = some k → s = s'

section Knowing

variable {id : κ → UInt64} {st st' : Leader δ} {sessions sessions' : SessionId → Option κ}
  {openBy openBy' : κ → List (FileHandler × Mode)} {s session : SessionId} {k : κ}

theorem ofSession_some (h : sessions s = some k) : ofSession sessions openBy s = openBy k := by
  unfold ofSession
  rw [h]

theorem ofSession_none (h : sessions s = none) : ofSession sessions openBy s = [] := by
  unfold ofSession
  rw [h]

theorem exists_of_ofSession (h : ofSession sessions openBy s ≠ []) :
    ∃ k, sessions s = some k ∧ openBy k ≠ [] := by
  cases hs : sessions s with
  | none => exact absurd (ofSession_none hs) h
  | some k =>
    rw [ofSession_some hs] at h
    exact ⟨k, rfl, h⟩

/-- What the client of one session has open changes. -/
theorem ofSession_update [DecidableEq κ] (halone : ∀ s s' k, sessions s = some k →
      sessions s' = some k → s = s') (hs : sessions session = some k)
    (l : List (FileHandler × Mode)) :
    ofSession sessions (Function.update openBy k l) =
      Function.update (ofSession sessions openBy) session l := by
  funext s
  by_cases heq : s = session
  · rw [heq, ofSession_some hs, Function.update_self, Function.update_self]
  · rw [Function.update_of_ne heq]
    cases hs' : sessions s with
    | none => rw [ofSession_none hs', ofSession_none hs']
    | some j =>
      have hne : j ≠ k := by
        rintro rfl
        exact heq (halone s session j hs' hs)
      rw [ofSession_some hs', ofSession_some hs', Function.update_of_ne hne]

/-- A step of the leader that changes what one of its clients has open. -/
theorem Knows.step [DecidableEq κ] {E : Service δ} {input : Input} {l : List (FileHandler × Mode)}
    (h : Knows id st sessions openBy) (hstep : Leader.step E input st = some st')
    (hs : sessions session = some k) (hclients : ∀ s, st'.client s = st.client s)
    (hreflects : st'.Reflects (Function.update (ofSession sessions openBy) session l)) :
    Knows id st' sessions (Function.update openBy k l) where
  indexed := (step_ends E hstep).indexed h.indexed
  reflects := by
    rw [ofSession_update h.alone hs]
    exact hreflects
  names s j hj := (hclients s).trans (h.names s j hj)
  alone := h.alone

theorem update_eq_some_iff (hfree : sessions session = none) {j : κ} [DecidableEq κ] :
    Function.update sessions session (some k) s = some j ↔
      s = session ∧ j = k ∨ sessions s = some j := by
  by_cases hs : s = session
  · rw [hs, Function.update_self, hfree]
    simp [eq_comm]
  · rw [Function.update_of_ne hs]
    simp [hs]

/-- A client without a session starts one. -/
theorem Knows.started [DecidableEq κ] (h : Knows id st sessions openBy)
    (hfree : sessions session = none) (hnone : ∀ s, sessions s ≠ some k) (hindexed : st'.Indexed)
    (hreflects : st'.Reflects (ofSession sessions openBy))
    (hclients : ∀ s, st'.client s = if s = session then clientName (id k) else st.client s) :
    Knows id st' (Function.update sessions session (some k)) (Function.update openBy k []) := by
  refine ⟨hindexed, hreflects.perm fun s => ?_, fun s j hj => ?_, fun s s' j hj hj' => ?_⟩
  · cases hj : sessions s with
    | none =>
      rw [ofSession_none hj]
      by_cases hs : s = session
      · have hnew : Function.update sessions session (some k) s = some k :=
          (update_eq_some_iff hfree).mpr (Or.inl ⟨hs, rfl⟩)
        rw [ofSession_some hnew, Function.update_self]
      · rw [ofSession_none ((Function.update_of_ne hs _ _).trans hj)]
    | some j =>
      have hne : j ≠ k := by
        rintro rfl
        exact hnone s hj
      have hkept : Function.update sessions session (some k) s = some j :=
        (update_eq_some_iff hfree).mpr (Or.inr hj)
      rw [ofSession_some hj, ofSession_some hkept, Function.update_of_ne hne]
  · rcases (update_eq_some_iff hfree).mp hj with ⟨rfl, rfl⟩ | hold
    · rw [hclients, if_pos rfl]
    · have hs : s ≠ session := by
        rintro rfl
        rw [hfree] at hold
        cases hold
      rw [hclients, if_neg hs]
      exact h.names s j hold
  · rcases (update_eq_some_iff hfree).mp hj with ⟨rfl, rfl⟩ | hold
    · rcases (update_eq_some_iff hfree).mp hj' with ⟨rfl, _⟩ | hold'
      · rfl
      · exact absurd hold' (hnone s')
    · rcases (update_eq_some_iff hfree).mp hj' with ⟨rfl, rfl⟩ | hold'
      · exact absurd hold (hnone s)
      · exact h.alone s s' j hold hold'

/-- Two leaders that know the same of the clients are alike. -/
theorem Knows.rebuilds {old new : Leader δ} (hold : Knows id old sessions openBy)
    (hnew : Knows id new sessions' openBy') {rename : SessionId → SessionId}
    (hrename : ∀ s k, sessions s = some k → sessions' (rename s) = some k)
    (hsame : ∀ s k, sessions s = some k → openBy' k = openBy k)
    (hcovers : ∀ k, openBy' k ≠ [] → ∃ s, sessions s = some k) : old.Rebuilds new rename := by
  refine hold.reflects.rebuilds hnew.reflects hold.indexed hnew.indexed ?_
  refine ⟨fun s hs => ?_, fun s' hs' => ?_, fun s s' hs hs' heq => ?_, fun s hs => ?_⟩
  · obtain ⟨k, hk, _⟩ := exists_of_ofSession hs
    rw [ofSession_some (hrename s k hk), ofSession_some hk, hsame s k hk]
  · obtain ⟨k, hk, hne⟩ := exists_of_ofSession hs'
    obtain ⟨s, hs⟩ := hcovers k hne
    refine ⟨s, ?_, hnew.alone _ _ k (hrename s k hs) hk⟩
    rw [ofSession_some hs, ← hsame s k hs]
    exact hne
  · obtain ⟨k, hk, _⟩ := exists_of_ofSession hs
    obtain ⟨k', hk', _⟩ := exists_of_ofSession hs'
    have hcon := hrename s k hk
    rw [heq, hrename s' k' hk'] at hcon
    obtain rfl := Option.some.inj hcon
    exact hold.alone s s' k' hk hk'
  · obtain ⟨k, hk, _⟩ := exists_of_ofSession hs
    exact (hnew.names _ k (hrename s k hk)).trans (hold.names s k hk).symm

end Knowing

/-! ## The two copies stay in step -/

section Steps

open Client.State (eventBkupAfterCall)

variable {E : Service δ} {st st' : Leader δ} {opened : SessionId → List (FileHandler × Mode)}
  {session : SessionId} {xid : Xid} {request : Request}

/-- A call that keeps the copies in step changes what its session has open as
    `store_bkup_after_call` changes `event_bkup_`. -/
theorem KeepsInStep.reflects (hfiles : request.ofFiles = true) (hxid : xid ≠ internalXid)
    (hok : KeepsInStep E st session request) (h : st.Reflects opened) (hi : st.Indexed)
    (hstep : Leader.step E (.rpc session xid request) st = some st') :
    ∃ r, st.answer st' session xid = some r ∧
      st'.Reflects (Function.update opened session
        (eventBkupAfterCall request r (opened session))) := by
  cases request with
  | fileOpen fileName mode =>
    rcases fileOpen_reflects hxid h hok hstep with ⟨fd, hr, hreflects⟩ | ⟨code, hr, hreflects⟩
    · exact ⟨_, hr, hreflects⟩
    · refine ⟨_, hr, ?_⟩
      rw [show eventBkupAfterCall _ (.error code) (opened session) = opened session from rfl,
        Function.update_eq_self]
      exact hreflects
  | fileClose fd =>
    obtain ⟨r, hr⟩ := step_answers hxid (fun _ hcon => by cases hcon) hstep
    exact ⟨r, hr, fileClose_reflects h hi hok hstep⟩
  | fileDelete fd =>
    obtain ⟨r, hr⟩ := step_answers hxid (fun _ hcon => by cases hcon) hstep
    refine ⟨r, hr, ?_⟩
    rw [show eventBkupAfterCall (.fileDelete fd) r (opened session) = opened session from rfl,
      Function.update_eq_self]
    exact fileDelete_reflects h hi hok hstep
  | _ => cases hfiles

/-- These calls start no session. -/
theorem client_of_ofFiles (hfiles : request.ofFiles = true)
    (hstep : Leader.step E (.rpc session xid request) st = some st') (s : SessionId) :
    st'.client s = st.client s := by
  cases step_ends E hstep with
  | fileOpen hends =>
    cases hends with
    | badArg _ _ => exact UMap.get_touch _ _ _
    | failed _ _ _ => exact UMap.get_touch _ _ _
    | opened _ _ _ => exact UMap.get_touch _ _ _
  | fileClose hends =>
    unfold Leader.client
    rw [hends.sessions]
    rfl
  | fileDelete hends =>
    unfold Leader.client
    rw [hends.sessions]
    rfl
  | _ => cases hfiles

end Steps

/-- The last leader knew what is now in `event_bkup_`, and no call has been made since. -/
structure Remembered (id : κ → UInt64) (callers : κ → Caller) (old : Leader δ)
    (sessions : SessionId → Option κ) : Prop where
  knows : Knows id old sessions fun k => (callers k).eventBkup
  covers : ∀ k, (callers k).eventBkup ≠ [] → ∃ s, sessions s = some k
  quiet : ∀ k, (callers k).handled = none

/-- What holds in every run that keeps the copies in step. -/
structure Failover.Matched (id : κ → UInt64) (st : Failover δ κ) : Prop where
  knows : Knows id st.leader st.sessions fun k => (st.callers k).opened
  connected : ∀ k, (st.callers k).connected = true ↔ ∃ s, st.sessions s = some k
  callers : ∀ k, (st.callers k).Ok
  failed : ∀ old sessions, st.failed = some (old, sessions) →
    Remembered id st.callers old sessions

section Runs

variable {E : Service δ} {id : κ → UInt64} {st st' : Failover δ κ} {callers : κ → Caller}
  {old : Leader δ} {sessions : SessionId → Option κ} {session : SessionId} {xid : Xid} {k : κ}
  {c : Caller}

theorem Failover.Matched.changeLeader {replica : Leader δ} {arrived : κ → Bool} (h : st.Matched id)
    (hok : InStep E st (.changeLeader replica arrived))
    (hstep : st.changeLeader E replica arrived = some st') : st'.Matched id := by
  obtain ⟨leader, hleader, rfl⟩ := Option.map_eq_some_iff.mp hstep
  obtain ⟨hreflects, hindexed⟩ := initializeLeader_reflects hleader
  have hsettled : ∀ k, (st.callers k).Settled := hok
  have hidle : ∀ k, ((st.callers k).disconnected (arrived k)).handled = none := by
    intro k
    unfold Caller.disconnected
    rw [(hsettled k).1]
    exact ite_self _
  refine ⟨⟨hindexed, hreflects, (fun _ _ hcon => by cases hcon), fun _ _ _ hcon => by cases hcon⟩,
    fun k => ?_, fun k => ?_, fun old sessions hfailed => ?_⟩
  · refine iff_of_false Bool.false_ne_true ?_
    rintro ⟨s, hcon⟩
    cases hcon
  · refine ⟨List.nil_suffix, fun fd r hcon => ?_, fun _ => hidle k⟩
    cases (hidle k).symm.trans hcon
  · obtain ⟨rfl, rfl⟩ := Prod.mk.inj (Option.some.inj hfailed)
    refine ⟨?_, fun k hbkup => ?_, hidle⟩
    · have hopened : (fun k => (st.callers k).opened) = fun k => (st.callers k).eventBkup :=
        funext fun k => (hsettled k).opened
      rw [← show (fun k => (st.callers k).opened) = fun k =>
        ((st.callers k).disconnected (arrived k)).eventBkup from hopened]
      exact h.knows
    · have hon := (hsettled k).2.2.resolve_right hbkup
      exact (h.connected k).mp hon

/-- The new leader knows what the last one knew. -/
theorem Failover.Matched.rebuilt (h : st.Matched id) : st.Rebuilt := by
  intro old sessions hfailed hrecovered
  have hlast := h.failed old sessions hfailed
  have hopened : ∀ k, (st.callers k).opened = (st.callers k).reopened := fun k =>
    Caller.opened_of_none (hlast.quiet k)
  have hsession : ∀ s, ∃ s', ∀ k, sessions s = some k → st.sessions s' = some k := by
    intro s
    cases hs : sessions s with
    | none => exact ⟨s, fun k hcon => by cases hcon⟩
    | some j =>
      obtain ⟨s', hs'⟩ := (h.connected j).mp (hrecovered s j hs).1
      refine ⟨s', fun k hk => ?_⟩
      rw [← Option.some.inj hk]
      exact hs'
  choose rename hrename using hsession
  refine ⟨rename, hrename, hlast.knows.rebuilds h.knows hrename (fun s k hk => ?_) fun k hk => ?_⟩
  · rw [hopened, Caller.reopened_of_nil (hrecovered s k hk).2]
  · refine hlast.covers k fun hnil => hk ?_
    rw [hopened]
    unfold Caller.reopened
    rw [hnil, List.take_nil]

variable [DecidableEq κ]

theorem Remembered.update (h : Remembered id callers old sessions)
    (hbkup : c.eventBkup = (callers k).eventBkup) (hquiet : c.handled = (callers k).handled) :
    Remembered id (Function.update callers k c) old sessions := by
  have hsame : ∀ j, (Function.update callers k c j).eventBkup = (callers j).eventBkup := by
    intro j
    by_cases hj : j = k
    · rw [hj, Function.update_self, hbkup]
    · rw [Function.update_of_ne hj]
  refine ⟨?_, fun j => ?_, fun j => ?_⟩
  · simp only [hsame]
    exact h.knows
  · rw [hsame]
    exact h.covers j
  · by_cases hj : j = k
    · rw [hj, Function.update_self, hquiet]
      exact h.quiet k
    · rw [Function.update_of_ne hj]
      exact h.quiet j

theorem opened_update : (fun j => (Function.update callers k c j).opened) =
    Function.update (fun j => (callers j).opened) k c.opened := by
  funext j
  by_cases hj : j = k
  · rw [hj, Function.update_self, Function.update_self]
  · rw [Function.update_of_ne hj, Function.update_of_ne hj]

/-- What holds of the client that changes, and of the others. -/
theorem callers_update {P : κ → Caller → Prop} (h : ∀ j, j ≠ k → P j (callers j)) (hc : P k c)
    (j : κ) : P j (Function.update callers k c j) := by
  by_cases hj : j = k
  · rw [hj, Function.update_self]
    exact hc
  · rw [Function.update_of_ne hj]
    exact h j hj

/-- A step after which the clients have the sessions they had, and one of them has
    changed. -/
theorem Failover.Matched.changed (h : st.Matched id) {leader : Leader δ}
    {failed : Option (Leader δ × (SessionId → Option κ))}
    (hknows : Knows id leader st.sessions
      (Function.update (fun j => (st.callers j).opened) k c.opened))
    (hconnected : c.connected = (st.callers k).connected) (hok : c.Ok)
    (hfailed : ∀ old sessions, failed = some (old, sessions) →
      Remembered id (Function.update st.callers k c) old sessions) :
    ({ st with leader := leader, failed := failed }.setCaller k c).Matched id where
  knows := by
    rw [← opened_update] at hknows
    exact hknows
  connected := by
    refine callers_update (P := fun j c => c.connected = true ↔ ∃ s, st.sessions s = some j)
      (fun j _ => h.connected j) ?_
    rw [hconnected]
    exact h.connected k
  callers := callers_update (P := fun _ c => c.Ok) (fun j _ => h.callers j) hok
  failed := hfailed

theorem Failover.Matched.fileReopen (h : st.Matched id)
    (hstep : st.fileReopen E session xid = some st') : st'.Matched id := by
  unfold Failover.fileReopen at hstep
  cases hs : st.sessions session with
  | none =>
    rw [hs] at hstep
    cases hstep
  | some k =>
    rw [hs] at hstep
    dsimp only at hstep
    rcases hnext : (st.callers k).reopening with _ | ⟨⟨fd, mode⟩, rest⟩
    · rw [hnext] at hstep
      cases hstep
    · rw [hnext] at hstep
      obtain ⟨leader, hleader, hreply⟩ := Option.bind_eq_some_iff.mp hstep
      split_ifs at hreply
      obtain rfl := Option.some.inj hreply
      obtain ⟨hreflects, hclients⟩ := fileReopen_reflects h.knows.reflects hleader
      refine h.changed ?_ rfl ((h.callers k).next hnext) fun old sessions hfailed =>
        (h.failed old sessions hfailed).update rfl rfl
      refine h.knows.step hleader hs hclients (hreflects.perm fun s => ?_)
      by_cases heq : s = session
      · rw [heq, Function.update_self, Function.update_self, ofSession_some hs]
        exact ((h.callers k).opened_next hnext).symm
      · rw [Function.update_of_ne heq, Function.update_of_ne heq]

theorem Failover.Matched.invoke {request : Request} (h : st.Matched id)
    (hok : InStep E st (.invoke session xid request))
    (hstep : st.invoke E session xid request = some st') : st'.Matched id := by
  obtain ⟨hxid, hkeeps, hclose⟩ := hok
  unfold Failover.invoke at hstep
  cases hs : st.sessions session with
  | none =>
    rw [hs] at hstep
    cases hstep
  | some k =>
    rw [hs] at hstep
    dsimp only at hstep
    split_ifs at hstep with hguard
    rw [not_or, Option.not_isSome_iff_eq_none, Bool.not_eq_false] at hguard
    obtain ⟨hidle, hfiles⟩ := hguard
    obtain ⟨leader, hleader, rfl⟩ := Option.map_eq_some_iff.mp hstep
    obtain ⟨r, hr, hreflects⟩ :=
      hkeeps.reflects hfiles hxid h.knows.reflects h.knows.indexed hleader
    have hcaller := h.callers k
    refine h.changed ?_ rfl ⟨hcaller.suffix, fun fd r' hcon p hp => ?_, fun hoff => ?_⟩
      fun old sessions hfailed => by cases hfailed
    · refine h.knows.step hleader hs (client_of_ofFiles hfiles hleader) ?_
      rw [hr, Caller.opened_of_some rfl]
      rw [ofSession_some hs, Caller.opened_of_none hidle] at hreflects
      exact hreflects
    · obtain ⟨rfl, _⟩ := Prod.mk.inj (Option.some.inj hcon)
      have hopen : ∀ p ∈ ofSession st.sessions (fun k => (st.callers k).reopening) session,
          p.1.fileName ≠ fd.fileName := hclose
      rw [ofSession_some hs] at hopen
      exact hopen p hp
    · have hon := (h.connected k).mpr ⟨session, hs⟩
      rw [show (st.callers k).connected = false from hoff] at hon
      cases hon

theorem Failover.Matched.storeBkupAfterCall (h : st.Matched id)
    (hstep : st.storeBkupAfterCall k = some st') : st'.Matched id := by
  unfold Failover.storeBkupAfterCall at hstep
  rcases hhandled : (st.callers k).handled with _ | ⟨request, _ | r⟩
  · rw [hhandled] at hstep
    cases hstep
  · rw [hhandled] at hstep
    cases hstep
  · rw [hhandled] at hstep
    dsimp only at hstep
    split_ifs at hstep with hlock
    obtain rfl := Option.some.inj hstep
    have hopened := Caller.opened_returned hhandled hlock
    refine h.changed ?_ rfl ((h.callers k).returned hlock) fun old sessions hfailed => ?_
    · rw [hopened]
      have hsame : Function.update (fun j => (st.callers j).opened) k (st.callers k).opened =
          fun j => (st.callers j).opened := Function.update_eq_self k _
      rw [hsame]
      exact h.knows
    · have hquiet := (h.failed old sessions hfailed).quiet k
      rw [hhandled] at hquiet
      cases hquiet

theorem Failover.Matched.startSession (h : st.Matched id)
    (hstep : st.startSession E id k session xid = some st') : st'.Matched id := by
  unfold Failover.startSession at hstep
  split_ifs at hstep with hguard
  rw [not_or, Bool.not_eq_true, Option.not_isSome_iff_eq_none] at hguard
  obtain ⟨hoff, hfree⟩ := hguard
  obtain ⟨leader, hleader, hreply⟩ := Option.bind_eq_some_iff.mp hstep
  split_ifs at hreply with hyes
  obtain rfl := Option.some.inj hreply
  have hidle := (h.callers k).offline hoff
  have hnone : ∀ s, st.sessions s ≠ some k := by
    intro s hs
    have hon := (h.connected k).mpr ⟨s, hs⟩
    rw [hoff] at hon
    cases hon
  obtain ⟨hreflects, hclients⟩ :=
    startSession_reflects h.knows.reflects (ofSession_none hfree) hleader hyes
  -- nothing is open yet at this leader
  have hopened : (st.callers k).started.opened = [] := by
    have hcaller : (st.callers k).started.handled = none := hidle
    rw [Caller.opened_of_none hcaller]
    unfold Caller.reopened Caller.started
    rw [Nat.sub_self, List.take_zero]
  have hknows := h.knows.started hfree hnone ((step_ends E hleader).indexed h.knows.indexed)
    hreflects hclients
  rw [← hopened, ← opened_update] at hknows
  refine ⟨hknows, ?_, ?_, fun old sessions hfailed =>
    (h.failed old sessions hfailed).update rfl rfl⟩
  · refine callers_update (P := fun j c => c.connected = true ↔
      ∃ s, Function.update st.sessions session (some k) s = some j) (fun j hj => ?_) ?_
    · rw [h.connected]
      refine exists_congr fun s => ?_
      rw [update_eq_some_iff hfree]
      exact (or_iff_right fun hcon => hj hcon.2).symm
    · exact iff_of_true rfl ⟨session, Function.update_self _ _ _⟩
  · refine callers_update (P := fun _ c => c.Ok) (fun j _ => h.callers j)
      ⟨List.suffix_refl _, ?_, ?_⟩
    · intro fd r hcon
      cases hidle.symm.trans hcon
    · intro hcon
      cases hcon

theorem Failover.Matched.step {l : Failover.Label δ κ} (h : st.Matched id) (hok : InStep E st l)
    (hstep : Failover.step E id l st = some st') : st'.Matched id := by
  cases l with
  | startSession k session xid => exact h.startSession hstep
  | fileReopen session xid => exact h.fileReopen hstep
  | invoke session xid request => exact h.invoke hok hstep
  | storeBkupAfterCall k => exact h.storeBkupAfterCall hstep
  | changeLeader replica arrived => exact h.changeLeader hok hstep

/-- Nobody has anything open at the first leader. -/
theorem Failover.Matched.init (h : (failover E id).init st) : st.Matched id := by
  obtain ⟨⟨replica, hleader⟩, hsessions, hcallers, hfailed⟩ := h
  obtain ⟨hreflects, hindexed⟩ := initializeLeader_reflects hleader
  have hnone : ∀ {openBy : κ → List (FileHandler × Mode)} s, ofSession st.sessions openBy s = [] :=
    fun s => ofSession_none (hsessions s)
  refine ⟨⟨hindexed, hreflects.perm fun s => ?_, fun s k hk => ?_, fun s s' k hk => ?_⟩,
    fun k => ?_, fun k => ?_, fun old sessions hcon => ?_⟩
  · rw [hnone]
  · cases (hsessions s).symm.trans hk
  · cases (hsessions s).symm.trans hk
  · rw [hcallers]
    refine iff_of_false Bool.false_ne_true ?_
    rintro ⟨s, hs⟩
    cases (hsessions s).symm.trans hs
  · rw [hcallers]
    exact ⟨List.nil_suffix, (fun fd r hcon => by cases hcon), fun _ => rfl⟩
  · cases hfailed.symm.trans hcon

end Runs

/-- In every run whose calls keep the two copies in step, a new leader has the event
    lists, the ephemeral sets and the open handles of the one before, once the
    clients have recovered. -/
theorem failover_rebuilt [DecidableEq κ] (E : Service δ) (id : κ → UInt64) (st : Failover δ κ)
    (h : (failover E id).Reach (InStep E) st) : st.Rebuilt := by
  have hmatched : st.Matched id := by
    refine h.invariant (I := Failover.Matched id) (fun _ hinit => .init hinit) ?_
    intro st st' l _ hmatched hok hstep
    exact hmatched.step hok hstep
  exact hmatched.rebuilt

/-! ## Runs -/

section Decidable

variable (E : Service δ) (st : Leader δ) (session : SessionId)

instance {ε σ : Type} (o : Outcome ε σ Bool) : Decidable (∃ s, o = .ret true s) :=
  match o with
  | .ret true s => isTrue ⟨s, rfl⟩
  | .ret false _ => isFalse fun ⟨_, h⟩ => by cases h
  | .stop _ _ => isFalse fun ⟨_, h⟩ => by cases h

instance (fd : FileHandler) (db : δ) (queue : List (SessionId × Xid)) :
    Decidable (TidyEnd E session fd st db queue) := by
  unfold TidyEnd
  infer_instance

instance (fd : FileHandler) : Decidable (TidyClose E session fd st) := by
  unfold TidyClose
  split
  · split <;> infer_instance
  · infer_instance

instance (fd : FileHandler) : Decidable (DeletesNone E st session fd) := by
  unfold DeletesNone
  split <;> infer_instance

instance (fileName : Str) (mode : Mode) : Decidable (MarksOpen E st session fileName mode) := by
  unfold MarksOpen
  infer_instance

instance (fd : FileHandler) : Decidable (ClosesAll E st session fd) := by
  unfold ClosesAll
  infer_instance

instance : ∀ request, Decidable (KeepsInStep E st session request)
  | .fileOpen fileName mode => inferInstanceAs (Decidable (MarksOpen E st session fileName mode))
  | .fileClose fd => inferInstanceAs (Decidable (ClosesAll E st session fd))
  | .fileDelete fd => inferInstanceAs (Decidable (DeletesNone E st session fd))
  | .getContentsAndStat _ | .setContents _ _ | .acquire _ | .tryAcquire _ | .release _
  | .startSession _ | .fileReopen _ _ => inferInstanceAs (Decidable True)

instance (st : Failover δ κ) : ∀ request, Decidable (st.ClosesOpen session request)
  | .fileClose fd => inferInstanceAs (Decidable
      (∀ p ∈ ofSession st.sessions (fun k => (st.callers k).reopening) session,
        p.1.fileName ≠ fd.fileName))
  | .fileOpen _ _ | .fileDelete _ | .getContentsAndStat _ | .setContents _ _ | .acquire _
  | .tryAcquire _ | .release _ | .startSession _ | .fileReopen _ _ =>
    inferInstanceAs (Decidable True)

instance (c : Caller) : Decidable c.Settled :=
  inferInstanceAs (Decidable (c.handled = none ∧ c.reopening = [] ∧
    (c.connected = true ∨ c.eventBkup = [])))

instance [Fintype κ] (st : Failover δ κ) (l : Failover.Label δ κ) : Decidable (InStep E st l) := by
  unfold InStep
  split <;> infer_instance

end Decidable

/-- A leader before the first client connects. -/
def Failover.led (leader : Leader δ) : Failover δ κ where
  leader := leader
  sessions := fun _ => none
  callers := fun _ => .fresh
  failed := none

/-- Two clients open an ephemeral file for events, and one of them creates, closes and
    deletes another file; the leader changes, and the clients recover. -/
def opensAndRecovers : List (Failover.Label Store Bool) :=
  let f : FileHandler := ⟨0, 0, ['/', 'f'], 1, false⟩
  let g : FileHandler := ⟨0, 0, ['/', 'g'], 2, false⟩
  let mode := ModeFlag.createFile ||| ModeFlag.ephemeral ||| ModeFlag.evContentModified
  [.startSession false 1 1, .startSession true 2 1,
    .invoke 1 2 (.fileOpen f.fileName mode), .storeBkupAfterCall false,
    .invoke 2 2 (.fileOpen f.fileName ModeFlag.evLockChanged), .storeBkupAfterCall true,
    .invoke 2 3 (.fileOpen g.fileName ModeFlag.createFile), .storeBkupAfterCall true,
    .invoke 2 4 (.fileClose g), .storeBkupAfterCall true,
    .invoke 2 5 (.fileDelete g), .storeBkupAfterCall true,
    .changeLeader (.fresh .empty 0) fun _ => true,
    .startSession true 1 5, .startSession false 2 3, .fileReopen 1 6, .fileReopen 2 4]

theorem failover_rebuilt_run :
    ∃ leader st, Leader.step (Service.paxos .refusing (fun _ => 0) inlineNamed) .initializeLeader
        (.fresh .empty 0) = some leader ∧
      (failover (Service.paxos .refusing (fun _ => 0) inlineNamed) fun k : Bool =>
        if k then 8 else 7).exec
        (InStep (Service.paxos .refusing (fun _ => 0) inlineNamed)) opensAndRecovers
          (.led leader) = some st ∧
      st.failed.isSome = true ∧ (∀ k, st.Recovered k) ∧ st.Rebuilt := by
  have hrun : (((Leader.step (Service.paxos .refusing (fun _ => 0) inlineNamed) .initializeLeader
      (.fresh .empty 0)).bind fun leader =>
        (failover (Service.paxos .refusing (fun _ => 0) inlineNamed) fun k : Bool =>
          if k then 8 else 7).exec
          (InStep (Service.paxos .refusing (fun _ => 0) inlineNamed)) opensAndRecovers
            (.led leader)).map
      fun st => (st.failed.isSome, st.callers false, st.callers true)) =
    some (true, ⟨[(⟨0, 0, ['/', 'f'], 1, false⟩, 0x218)], true, [], none⟩,
      ⟨[(⟨0, 0, ['/', 'f'], 1, false⟩, 0x100)], true, [], none⟩) := by decide +kernel
  obtain ⟨st, hst, hread⟩ := Option.map_eq_some_iff.mp hrun
  obtain ⟨leader, hleader, hexec⟩ := Option.bind_eq_some_iff.mp hst
  obtain ⟨hfailed, hcallers⟩ := Prod.mk.inj hread
  obtain ⟨hfalse, htrue⟩ := Prod.mk.inj hcallers
  have hinit : (failover (Service.paxos .refusing (fun _ => 0) inlineNamed) fun k : Bool =>
      if k then 8 else 7).init
      (.led leader) := ⟨⟨_, hleader⟩, fun _ => rfl, fun _ => rfl, rfl⟩
  refine ⟨leader, st, hleader, hexec, hfailed, fun k => ?_,
    failover_rebuilt _ _ st (Lts.Reach.exec (.init hinit) hexec)⟩
  unfold Failover.Recovered
  cases k with
  | false =>
    rw [hfalse]
    exact ⟨rfl, rfl⟩
  | true =>
    rw [htrue]
    exact ⟨rfl, rfl⟩

/-- A client creates a file and is told of its events, and deletes it; the leader
    changes, and the client opens the file again all the same. -/
def opensAndDeletes : List (Failover.Label Store Unit) :=
  [.startSession () 1 1,
    .invoke 1 2 (.fileOpen ['/', 'f'] (ModeFlag.createFile ||| ModeFlag.evContentModified)),
    .storeBkupAfterCall (),
    .invoke 1 3 (.fileDelete ⟨0, 0, ['/', 'f'], 1, false⟩), .storeBkupAfterCall (),
    .changeLeader (.fresh .empty 0) fun _ => true, .startSession () 1 4, .fileReopen 1 5]

/-- The new leader has the client on the event list of the deleted file. -/
theorem not_rebuilt :
    ¬ ∀ st, (failover (Service.paxos .refusing (fun _ => 0) inlineNamed) fun _ : Unit => 7).Reach
      (fun _ _ => True) st → st.Rebuilt := by
  intro hall
  have hrun : (((Leader.step (Service.paxos .refusing (fun _ => 0) inlineNamed) .initializeLeader
      (.fresh .empty 0)).bind fun leader =>
        (failover (Service.paxos .refusing (fun _ => 0) inlineNamed) fun _ : Unit => 7).exec
          (fun _ _ => True) opensAndDeletes (.led leader)).map fun st =>
      (st.failed.map fun p => p.1.file2contentChangeMap.get ['/', 'f'],
        st.leader.file2contentChangeMap.get ['/', 'f'],
        (st.callers ()).connected, (st.callers ()).reopening)) =
    some (some [], [1], true, []) := by decide +kernel
  obtain ⟨st, hst, hread⟩ := Option.map_eq_some_iff.mp hrun
  obtain ⟨leader, hleader, hexec⟩ := Option.bind_eq_some_iff.mp hst
  obtain ⟨hfailed, hrest⟩ := Prod.mk.inj hread
  obtain ⟨hnew, hrest⟩ := Prod.mk.inj hrest
  obtain ⟨hconnected, hreopening⟩ := Prod.mk.inj hrest
  obtain ⟨⟨old, sessions⟩, hlast, hold⟩ := Option.map_eq_some_iff.mp hfailed
  have hinit : (failover (Service.paxos .refusing (fun _ => 0) inlineNamed) fun _ : Unit => 7).init
      (.led leader) := ⟨⟨_, hleader⟩, fun _ => rfl, fun _ => rfl, rfl⟩
  obtain ⟨rename, _, hrebuilds⟩ := hall st (Lts.Reach.exec (.init hinit) hexec) old sessions hlast
    fun _ _ _ => ⟨hconnected, hreopening⟩
  have hlength : (st.leader.file2contentChangeMap.get ['/', 'f']).length =
      ((old.file2contentChangeMap.get ['/', 'f']).map rename).length :=
    (hrebuilds.lists .contentModified ['/', 'f']).length_eq
  rw [show old.file2contentChangeMap.get ['/', 'f'] = [] from hold, hnew] at hlength
  cases hlength

end SimpleChubby
