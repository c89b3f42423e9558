import SimpleChubby.Leader.Authentication
import SimpleChubby.Leader.OpenFiles
import SimpleChubby.ServerDb.Quiet

/-!
# Refused requests

Every handler does its checks and its database call first, and answers at once
where they fail. What it has done by then is to look up the client, which is
noted already, and the handle, which `findFd` may have registered.
-/

namespace SimpleChubby

/-- The request is refused: with an error code, or with `false`. -/
def Reply.Refuses : Reply → Prop
  | .bool val => val = false
  | .error _ => True
  | .fd _ => False
  | .contents _ _ => False

/-- The requests that are refused in one place, in front of all they change. -/
def Request.Refusable : Request → Prop
  | .fileClose _ => False
  | .acquire _ => False
  | .fileReopen _ _ => False
  | _ => True

/-- The leader over a Paxos library. -/
def Service.over {δ : Type} (lib : PaxosLib δ) (strHash : Str → UInt64)
    (stillNamed : FdRecord → Bool) : Service δ where
  db := serverDbPaxos lib
  strHash := strHash
  stillNamed := stillNamed

section Statement

variable {δ σ : Type} (view : δ → σ)

/-- The store, the clients, the locks, the ephemeral files and the subscriptions are
    as they were. -/
structure Leader.Keeps (st st' : Leader δ) : Prop where
  store : view st'.db = view st.db
  clients : st'.session2clientMap = st.session2clientMap
  queues : st'.file2lockQueueMap = st.file2lockQueueMap
  held : st'.client2heldLockMap = st.client2heldLockMap
  ephemeral : st'.client2ephemeralMap = st.client2ephemeralMap
  lockChanges : st'.file2lockChangeMap = st.file2lockChangeMap
  contentChanges : st'.file2contentChangeMap = st.file2contentChangeMap

/-- The handles are as they were, or the one presented has been registered for the
    session, which did not have it. -/
inductive Leader.KeepsHandles (st st' : Leader δ) (session : SessionId) :
    Option FileHandler → Prop
  | kept {presented : Option FileHandler} : (∀ s, st'.fds s = st.fds s) →
      (∀ f, st'.file2fdMap.get f = st.file2fdMap.get f) →
      KeepsHandles st st' session presented
  | registered {p : FdRecord} : (∀ q ∈ st.fds session, q.value ≠ p.value) →
      (∀ s, st'.fds s = if s = session then st.fds s ++ [p] else st.fds s) →
      (∀ f, st'.file2fdMap.get f =
        if f = p.value.fileName then st.file2fdMap.get f ++ [⟨session, p⟩]
        else st.file2fdMap.get f) →
      KeepsHandles st st' session (some p.value)

/-- A handler replies first; where it refuses the request, that is all it does. -/
def Leader.RefusesOnly (session : SessionId) (xid : Xid) (presented : Option FileHandler)
    (st st' : Leader δ) : Prop :=
  ∃ body after, st'.log = st.log ++ (Leader.replyOf session xid body ++ after) ∧ Chatter after ∧
    (body.Refuses → after = [] ∧ st.Keeps view st' ∧ st.KeepsHandles st' session presented)

end Statement

/-! ## Looking up -/

section Lookup

variable {δ σ : Type} {view : δ → σ} {st st' st₁ : Leader δ} {session : SessionId} {xid : Xid}
  {fd : FileHandler} {presented : Option FileHandler}

theorem Leader.KeepsHandles.congr (h : st.KeepsHandles st' session presented)
    (hfds : ∀ s, st₁.fds s = st'.fds s)
    (hfiles : ∀ f, st₁.file2fdMap.get f = st'.file2fdMap.get f) :
    st.KeepsHandles st₁ session presented := by
  cases h with
  | kept hfds' hfiles' =>
    exact .kept (fun s => (hfds s).trans (hfds' s)) fun f => (hfiles f).trans (hfiles' f)
  | registered hnew hfds' hfiles' =>
    exact .registered hnew (fun s => (hfds s).trans (hfds' s)) fun f => (hfiles f).trans (hfiles' f)

theorem Leader.KeepsHandles.of_logged {l : List Action}
    (h : (st.logged l).KeepsHandles st' session presented) :
    st.KeepsHandles st' session presented := by
  cases h with
  | kept hfds hfiles => exact .kept hfds hfiles
  | registered hnew hfds hfiles => exact .registered hnew hfds hfiles

/-- `findFd` finds the handle, or registers it. -/
theorem Leader.keepsHandles_foundFd :
    st.KeepsHandles (st.foundFd session fd) session (some fd) := by
  cases hfound : (st.fds session).find? (sameFd fd) with
  | some p =>
    refine .kept (fun s => ?_) fun f => ?_
    · unfold Leader.fds
      rw [Leader.foundFd_session2fdMap, hfound]
      exact UMap.get_touch _ _ _
    · rw [Leader.foundFd_file2fdMap, hfound]
      rfl
  | none =>
    have hnew : ∀ q ∈ st.fds session, q.value ≠ fd := by
      intro q hq heq
      exact List.find?_eq_none.mp hfound q hq (sameFd_iff.mpr heq)
    refine .registered (p := ⟨st.nextAddress, fd⟩) hnew (fun s => ?_) fun f => ?_
    · unfold Leader.fds
      rw [Leader.foundFd_session2fdMap, hfound]
      simp only [Option.isSome_none, Bool.false_eq_true, if_false, UMap.get_alter, UMap.get_touch]
      split_ifs with hs
      · rw [hs]
      · rfl
    · rw [Leader.foundFd_file2fdMap, hfound]
      simp only [Option.isSome_none, Bool.false_eq_true, if_false, UMap.get_alter]
      split_ifs with hf
      · rw [hf]
      · rfl

/-- A reply, and no more. -/
theorem Leader.RefusesOnly.replied {body : Reply} (hlog : st₁.log = st.log)
    (h : body.Refuses → st.Keeps view st₁ ∧ st.KeepsHandles st₁ session presented) :
    st.RefusesOnly view session xid presented
      (st₁.logged (Leader.replyOf session xid body)) := by
  refine ⟨body, [], ?_, .nil, fun hbody => ⟨rfl, ?_, ?_⟩⟩
  · rw [Leader.logged_log, hlog, List.append_nil]
  · obtain ⟨hkeeps, _⟩ := h hbody
    exact ⟨hkeeps.store, hkeeps.clients, hkeeps.queues, hkeeps.held, hkeeps.ephemeral,
      hkeeps.lockChanges, hkeeps.contentChanges⟩
  · exact (h hbody).2.congr (fun _ => rfl) fun _ => rfl

/-- A request that is not refused. -/
theorem Leader.RefusesOnly.granted {body : Reply} (hbody : ¬ body.Refuses) {after : List Action}
    (hlog : st'.log = st.log ++ (Leader.replyOf session xid body ++ after))
    (hafter : Chatter after) : st.RefusesOnly view session xid presented st' :=
  ⟨body, after, hlog, hafter, fun hcon => absurd hcon hbody⟩

/-- The client and the handle have been looked up, and the call to the database has
    had no effect. -/
theorem Leader.keeps_entered (hclient : st.client session ≠ []) {db : δ}
    (hdb : view db = view st.db) :
    st.Keeps view ((st.entered session fd).setDb db) ∧
      st.KeepsHandles ((st.entered session fd).setDb db) session (some fd) :=
  ⟨⟨hdb, Leader.touchClient_sessions hclient, rfl, rfl, rfl, rfl, rfl⟩,
    Leader.keepsHandles_foundFd.congr (fun _ => rfl) fun _ => rfl⟩

theorem Leader.keeps_foundFd {db : δ} (hdb : view db = view st.db) :
    st.Keeps view ((st.foundFd session fd).setDb db) ∧
      st.KeepsHandles ((st.foundFd session fd).setDb db) session (some fd) :=
  ⟨⟨hdb, rfl, rfl, rfl, rfl, rfl, rfl⟩,
    Leader.keepsHandles_foundFd.congr (fun _ => rfl) fun _ => rfl⟩

theorem Leader.keeps_touchClient (hclient : st.client session ≠ []) {db : δ}
    (hdb : view db = view st.db) :
    st.Keeps view ((st.touchClient session).setDb db) ∧
      st.KeepsHandles ((st.touchClient session).setDb db) session none :=
  ⟨⟨hdb, Leader.touchClient_sessions hclient, rfl, rfl, rfl, rfl, rfl⟩,
    .kept (fun _ => rfl) fun _ => rfl⟩

end Lookup

/-! ## The handlers -/

section Handlers

variable {δ σ : Type} {E : Service δ} {view : δ → σ} {st st' : Leader δ} {session : SessionId}
  {xid : Xid} {fd : FileHandler}

open Prog

/-- A call that returns the answer with which it refuses, or throws. -/
theorem LeavesAlone.refused {α : Type} {no : α → Prop} {m : Prog Fault δ α} {s s' : δ} {a : α}
    (h : LeavesAlone view no m) (hm : m s = .ret a s') (hno : no a) : view s' = view s :=
  wp_of_ret (h s) hm hno

theorem LeavesAlone.threw {α : Type} {no : α → Prop} {m : Prog Fault δ α} {s s' : δ}
    (h : LeavesAlone view no m) (hm : m s = .stop .exception s') : view s' = view s :=
  wp_of_stop (h s) hm rfl

theorem not_refuses_true : ¬ (Reply.bool true).Refuses := Bool.noConfusion

theorem finishOpen_refuses {fileName : Str} {mode : Mode} {n : UInt64} {st₁ : Leader δ}
    (hlog : st₁.log = st.log) :
    wp (finishOpen E fileName mode n session xid)
      (fun _ st' => st.RefusesOnly view session xid none st') (fun _ _ => True) st₁ := by
  have hgranted : ∀ (fd : FileHandler) (l : List Action), Chatter l →
      st.RefusesOnly view session xid none
        (((((st₁.openFd session fd).subscribed session fileName mode)).logged
          (Leader.replyOf session xid (.fd fd))).logged l) := by
    intro fd l hl
    have hfd : ¬ (Reply.fd fd).Refuses := id
    refine .granted hfd ?_ hl
    rw [Leader.logged_logged, Leader.logged_log]
    exact congrArg (· ++ _) hlog
  simp only [finishOpen, addFd, sendParentEvent, sendContentChangeEvent, wp_bind, wp_gets,
    wp_modify, wp_reply, wp_ite, wp_pure]
  split_ifs
  · have h := hgranted (signFd E fileName mode n st₁.masterSequenceNumber) [] .nil
    rwa [Leader.logged_nil] at h
  · exact hgranted _ _ (chatter_contentEvents _ _)

theorem fileOpen_refuses (hdb : E.db.RefusesQuietly view) (fileName : Str) (mode : Mode) :
    wp (fileOpen E fileName mode session xid)
      (fun _ st' => st.RefusesOnly view session xid none st') (fun _ _ => True) st := by
  unfold fileOpen
  refine wp_client (fun _ _ => trivial) (fun hclient => ?_)
  have hkept : ∀ (db : δ) {body : Reply}, view db = view st.db →
      st.RefusesOnly view session xid none
        (((st.touchClient session).setDb db).logged (Leader.replyOf session xid body)) :=
    fun _ _ hsame => .replied rfl fun _ => Leader.keeps_touchClient hclient hsame
  simp only [wp_bind, wp_ite, wp_reply]
  by_cases hname : checkName fileName = true
  · simp only [hname, not_true_eq_false, if_false]
    split_ifs
    · exact hkept st.db rfl
    · refine wp_callDb (fun r db hcall => ?_)
        (fun db hcall => hkept db ((hdb.checkAndCreate _ _).threw hcall)) (fun _ _ => trivial)
      cases r with
      | none => exact hkept db ((hdb.checkAndCreate _ _).refused hcall rfl)
      | some n =>
        simp only [wp_bind, wp_modify]
        exact finishOpen_refuses rfl
    · refine wp_callDb (fun r db hcall => ?_)
        (fun db hcall => hkept db ((hdb.checkAndOpen _).threw hcall)) (fun _ _ => trivial)
      cases r with
      | none => exact hkept db ((hdb.checkAndOpen _).refused hcall rfl)
      | some n => exact finishOpen_refuses rfl
  · rw [if_pos hname]
    exact hkept st.db rfl

theorem getContentsAndStat_refuses (hdb : E.db.RefusesQuietly view) :
    wp (getContentsAndStat E fd session xid)
      (fun _ st' => st.RefusesOnly view session xid (some fd) st') (fun _ _ => True) st := by
  have hread := hdb.checkAndRead fd.fileName fd.instanceNumber
  unfold getContentsAndStat
  simp only [wp_bind, wp_findFd, Leader.findFd_value]
  refine wp_callDb (fun r db hcall => ?_) (fun db hcall => ?_) (fun _ _ => trivial)
  · cases r with
    | none => exact .replied rfl fun _ => Leader.keeps_foundFd (hread.refused hcall rfl)
    | some contents => exact .replied rfl False.elim
  · exact .replied rfl fun _ => Leader.keeps_foundFd (hread.threw hcall)

theorem setContents_refuses (hdb : E.db.RefusesQuietly view) (content : Str) :
    wp (setContents E fd content session xid)
      (fun _ st' => st.RefusesOnly view session xid (some fd) st') (fun _ _ => True) st := by
  have hupdate := hdb.checkAndUpdate fd.fileName fd.instanceNumber content
  unfold setContents
  simp only [wp_bind, wp_findFd, Leader.findFd_value]
  refine wp_callDb (fun done db hcall => ?_) (fun db hcall => ?_) (fun _ _ => trivial)
  · cases done with
    | false => exact .replied rfl fun _ => Leader.keeps_foundFd (hupdate.refused hcall rfl)
    | true =>
      simp only [wp_bind, wp_reply, sendContentChangeEvent, wp_modify]
      exact .granted not_refuses_true (List.append_assoc _ _ _) (chatter_contentEvents _ _)
  · exact .replied rfl fun _ => Leader.keeps_foundFd (hupdate.threw hcall)

theorem DeleteEnds.refuses {r : Except Unit Unit} (h : DeleteEnds E session xid fd st (.ret r st'))
    (hdb : E.db.RefusesQuietly view) : st.RefusesOnly view session xid (some fd) st' := by
  have hdelete := hdb.checkAndDelete fd.fileName fd.instanceNumber
  cases h with
  | threw hclient hcall =>
    exact .replied rfl fun _ => Leader.keeps_entered hclient (hdelete.threw hcall)
  | refused hclient hcall =>
    exact .replied rfl fun _ => Leader.keeps_entered hclient (hdelete.refused hcall rfl)
  | deleted _ _ =>
    exact .granted not_refuses_true (List.append_assoc _ _ _)
      ((chatter_contentEvents _ _).append (chatter_parentEvents _ _))

theorem AcquireEnds.refuses
    (h : AcquireEnds E session xid fd (·.logged (Leader.replyOf session xid (.bool false))) st
      (.ret () st'))
    (hdb : E.db.RefusesQuietly view) : st.RefusesOnly view session xid (some fd) st' := by
  have htake := hdb.testAndSetLockOwner fd.fileName fd.instanceNumber (st.client session)
  cases h with
  | threw hclient hcall =>
    exact .replied rfl fun _ => Leader.keeps_entered hclient (htake.threw hcall)
  | busy hclient hcall =>
    exact .replied rfl fun _ => Leader.keeps_entered hclient (htake.refused hcall rfl)
  | taken _ _ _ =>
    exact .granted not_refuses_true (List.append_assoc _ _ _) (chatter_lockEvents _ _)

theorem ReleaseEnds.refuses (h : ReleaseEnds E session xid fd st (.ret () st'))
    (hdb : E.db.RefusesQuietly view) : st.RefusesOnly view session xid (some fd) st' := by
  have hreset := hdb.resetLockOwner fd.fileName fd.instanceNumber
  cases h with
  | threw hclient hcall =>
    exact .replied rfl fun _ => Leader.keeps_entered hclient (hreset.threw hcall)
  | refused hclient hcall =>
    exact .replied rfl fun _ => Leader.keeps_entered hclient (hreset.refused hcall rfl)
  | @released db st₁ _ _ hoff =>
    obtain ⟨l, hl, hlog⟩ := hoff.adds
    have hafter : Chatter (l ++ st₁.lockEvents fd.fileName) := hl.append (chatter_lockEvents _ _)
    refine .granted not_refuses_true ?_ hafter
    rw [Leader.logged_log, hlog]
    simp only [Leader.logged_log, List.append_assoc]
    rfl

theorem StartEnds.refuses {clientId : Str}
    (h : StartEnds E session xid clientId st (.ret () st')) :
    st.RefusesOnly view session xid none st' := by
  cases h with
  | refused _ =>
    exact .replied rfl fun _ =>
      ⟨⟨rfl, rfl, rfl, rfl, rfl, rfl, rfl⟩, .kept (fun _ => rfl) fun _ => rfl⟩
  | started _ => exact .replied rfl fun hcon => absurd hcon not_refuses_true

theorem dispatch_refuses {request : Request} (hdb : E.db.RefusesQuietly view)
    (hreq : request.Refusable) (h : dispatch E session xid request st = .ret () st') :
    st.RefusesOnly view session xid request.lookedUp st' := by
  cases request with
  | fileOpen name mode =>
    have hopen := wp_of_ret (fileOpen_refuses hdb name mode) h
    exact hopen
  | fileDelete fd =>
    have hrun : wp (dispatch E session xid (.fileDelete fd))
        (fun _ st' => st.RefusesOnly view session xid (some fd) st') (fun _ _ => True) st := by
      simp only [dispatch, wp_bind]
      refine wp_of_outcome (fileDelete_ends E session xid st fd) (fun r st₁ hr => ?_)
        (fun _ _ _ => trivial)
      cases r with
      | ok u => exact hr.refuses hdb
      | error u => cases hr
    have hdelete := wp_of_ret hrun h
    exact hdelete
  | getContentsAndStat fd =>
    have hread := wp_of_ret (getContentsAndStat_refuses hdb) h
    exact hread
  | setContents fd content =>
    have hwrite := wp_of_ret (setContents_refuses hdb content) h
    exact hwrite
  | tryAcquire fd =>
    have hends := tryAcquire_ends E session xid st fd
    rw [show tryAcquire E fd session xid st = _ from h] at hends
    exact hends.refuses hdb
  | release fd =>
    have hends := release_ends E session xid st fd
    rw [show release E fd session xid st = _ from h] at hends
    exact hends.refuses hdb
  | startSession clientId =>
    have hends := startSession_ends E session xid st clientId
    rw [show startSession E clientId session xid st = _ from h] at hends
    exact hends.refuses
  | fileClose fd => exact hreq.elim
  | acquire fd => exact hreq.elim
  | fileReopen fd mode => exact hreq.elim

/-- Internal calls have no answer, so the call has been made by a client. -/
theorem Leader.RefusesOnly.refused {request : Request} {presented : Option FileHandler}
    {body : Reply}
    (h : (st.logged [.call session xid request]).RefusesOnly view session xid presented st')
    (hanswer : st.answer st' session xid = some body) (hbody : body.Refuses) :
    st.Keeps view st' ∧ st.KeepsHandles st' session presented ∧
      st'.log = st.log ++ [.call session xid request, .reply session xid body] := by
  obtain ⟨body', after, hlog, hafter, hrefuses⟩ := h
  by_cases hxid : xid = internalXid
  · subst hxid
    have hlog' : st'.log = st.log ++ (.call session internalXid request :: after) := by
      rw [hlog, Leader.logged_log, List.append_assoc]
      rfl
    rw [Leader.answer_eq hlog'] at hanswer
    have hnone : replyTo session internalXid after = none := hafter.replyTo_internal
    cases hnone.symm.trans hanswer
  · rw [Leader.answer_call hxid hlog] at hanswer
    cases Option.some.inj hanswer
    obtain ⟨rfl, hkeeps, hhandles⟩ := hrefuses hbody
    refine ⟨?_, hhandles.of_logged, ?_⟩
    · exact ⟨hkeeps.store, hkeeps.clients, hkeeps.queues, hkeeps.held, hkeeps.ephemeral,
        hkeeps.lockChanges, hkeeps.contentChanges⟩
    · rw [hlog, Leader.logged_log, List.append_assoc, Leader.replyOf, if_neg hxid]
      rfl

end Handlers

/-- A request that is refused changes nothing, in any state of the leader: what is
    logged is the call and its answer. -/
theorem refused_unchanged {δ : Type} {lib : PaxosLib δ} {sq : Engine} {strHash : Str → UInt64}
    {stillNamed : FdRecord → Bool} {view : δ → Store} (hlib : lib.Applies sq strHash view)
    {st st' : Leader δ}
    {session : SessionId} {xid : Xid} {request : Request} (hreq : request.Refusable) {body : Reply}
    (hstep : Leader.step (Service.over lib strHash stillNamed) (.rpc session xid request) st =
      some st')
    (hanswer : st.answer st' session xid = some body) (hbody : body.Refuses) :
    st.Keeps view st' ∧ st.KeepsHandles st' session request.lookedUp ∧
      st'.log = st.log ++ [.call session xid request, .reply session xid body] := by
  have hrefuses := dispatch_refuses hlib.quiet hreq (dispatch_of_step hstep)
  exact hrefuses.refused hanswer hbody

/-- Two sessions, and a file that the first one creates. -/
def oneCreates : List Input :=
  [.rpc 1 1 (.startSession ['1']), .rpc 2 1 (.startSession ['2']),
    .rpc 1 2 (.fileOpen ['/', 'f'] ModeFlag.createFile)]

/-- The second session writes to the file by a handle it did not open, and the call to
    the database is lost. -/
theorem refused_unchanged_lost : ∃ st st',
    let E := Service.over (failingPaxos (leaderPaxos .refusing fun _ => 0) fun _ => true)
      (fun _ => 0) inlineNamed
    let request : Request := .setContents ⟨0, 0, ['/', 'f'], 1, true⟩ ['x']
    (E.leader (.empty, [.answered, .lost]) 0).exec (fun _ _ => True) oneCreates
        (.fresh (.empty, [.answered, .lost]) 0) = some st ∧
      Leader.step E (.rpc 2 2 request) st = some st' ∧
      st.Keeps Prod.fst st' ∧ st.KeepsHandles st' 2 (some ⟨0, 0, ['/', 'f'], 1, true⟩) ∧
      st'.log = st.log ++ [.call 2 2 request, .reply 2 2 (.error .paxosError)] := by
  let E := Service.over (failingPaxos (leaderPaxos .refusing fun _ => 0) fun _ => true)
    (fun _ => 0) inlineNamed
  have hrun : ∃ st st',
      (E.leader (.empty, [.answered, .lost]) 0).exec (fun _ _ => True) oneCreates
        (.fresh (.empty, [.answered, .lost]) 0) = some st ∧
      Leader.step E (.rpc 2 2 (.setContents ⟨0, 0, ['/', 'f'], 1, true⟩ ['x'])) st = some st' ∧
      st.answer st' 2 2 = some (.error .paxosError) := ⟨_, _, rfl, rfl, rfl⟩
  obtain ⟨st, st', hst, hstep, hanswer⟩ := hrun
  have hreq : Request.Refusable (.setContents ⟨0, 0, ['/', 'f'], 1, true⟩ ['x']) := trivial
  have hbody : (Reply.error .paxosError).Refuses := trivial
  have hunchanged := refused_unchanged (failingPaxos_applies fun _ => true) hreq hstep hanswer hbody
  exact ⟨st, st', hst, hstep, hunchanged⟩

end SimpleChubby
