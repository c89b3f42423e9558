import SimpleChubby.Leader.OpenFiles

/-!
# What a deletion leaves

`fileDelete` walks the list of its file in `file2fd_map` and removes each record
from the list of its session. The list of a session is not looked at, so the
handles on the file are all gone only because the two indexes list the same
records.
-/

namespace SimpleChubby

variable {δ : Type}

/-- The leader knows nothing of the file any more, and of the other files what it
    knew. -/
structure Leader.Purged (f : Str) (st st' : Leader δ) : Prop where
  unopened : ∀ s, ∀ p ∈ st'.fds s, p.value.fileName ≠ f
  noFile : st'.file2fdMap.has f = false
  noQueue : st'.file2lockQueueMap.has f = false
  noLockChange : st'.file2lockChangeMap.has f = false
  noContentChange : st'.file2contentChangeMap.has f = false
  handles : ∀ s, st'.fds s = (st.fds s).filter fun p => p.value.fileName ≠ f
  files : ∀ g, g ≠ f → st'.file2fdMap.find g = st.file2fdMap.find g
  queues : ∀ g, g ≠ f → st'.queue g = st.queue g
  lockChanges : ∀ g, g ≠ f → st'.file2lockChangeMap.find g = st.file2lockChangeMap.find g
  contentChanges : ∀ g, g ≠ f → st'.file2contentChangeMap.find g = st.file2contentChangeMap.find g

section Calls

variable (E : Service δ) (st : Leader δ)

/-- The states in which `fileClose` is called while an input is handled: for the RPC,
    or by `disconnect` after the handles that stand before it in the session's list. -/
inductive Closing : SessionId → Xid → FileHandler → Leader δ → Prop
  | rpc {session : SessionId} {xid : Xid} {fd : FileHandler} :
      Closing session xid fd (st.logged [.call session xid (.fileClose fd)])
  | disconnect {session : SessionId} {before rest : List FdRecord} {p : FdRecord}
      {st₁ : Leader δ} : st.fds session = before ++ p :: rest →
      Prog.forEach (fun fd => fileClose E fd.value session internalXid) before
        ((st.logged [.disconnected session]).touchFds session) = .ret () st₁ →
      Closing session internalXid p.value st₁

/-- The states in which `fileDelete` is called while an input is handled: for the RPC,
    or by `fileClose` for an ephemeral file, after it has released a lock it held. -/
inductive Deleting : SessionId → Xid → FileHandler → Leader δ → Prop
  | rpc {session : SessionId} {xid : Xid} {fd : FileHandler} :
      Deleting session xid fd (st.logged [.call session xid (.fileDelete fd)])
  | close {session : SessionId} {xid : Xid} {fd : FileHandler} {st₀ st₁ : Leader δ} :
      Closing E st session xid fd st₀ →
      (if fd.fileName ∈ st₀.held (st₀.client session) then
        release E fd session internalXid (st₀.entered session fd) = .ret () st₁
      else st₁ = st₀.entered session fd) →
      fd.fileName ∈ st₁.ephemeral (st₀.client session) →
      Deleting session internalXid fd (st₁.touchEphemeral (st₀.client session))

/-- The database deletes the node of the handle. -/
def DeleteSucceeds (fd : FileHandler) : Prop :=
  ∃ db, E.db.checkAndDelete fd.fileName fd.instanceNumber st.db = .ret true db

end Calls

/-! ## The deletion -/

section Delete

variable {E : Service δ} {st st' : Leader δ} {session : SessionId} {xid : Xid} {fd : FileHandler}

/-- A look-up leaves the lists of the other files as they are. -/
theorem Leader.find_foundFd {g : Str} (hg : g ≠ fd.fileName) :
    (st.foundFd session fd).file2fdMap.find g = st.file2fdMap.find g := by
  rw [Leader.foundFd_file2fdMap]
  split_ifs
  · rfl
  · rw [UMap.find_alter, if_neg hg]

theorem Leader.purged_deleted (hi : st.Indexed) {db : δ} {l : List Action} :
    st.Purged fd.fileName
      (((st.deleted E session xid fd db).logged l).dropEvents fd.fileName) := by
  have hindexed : (st.entered session fd).Indexed := hi.foundFd session fd
  have hfds : ∀ s, (((st.deleted E session xid fd db).logged l).dropEvents fd.fileName).fds s =
      (st.fds s).filter fun p => p.value.fileName ≠ fd.fileName := by
    intro s
    have hdropped : ((st.entered session fd).dropRecords fd.fileName).fds s = _ :=
      Leader.fds_dropRecords hindexed fd.fileName
    have hfound : ((st.entered session fd).fds s).filter
        (fun p => p.value.fileName ≠ fd.fileName) = _ := Leader.filter_foundFd
    rw [← hdropped] at hfound
    exact hfound
  refine
    { unopened := fun s p hp => ?_
      noFile := ?_
      noQueue := ?_
      noLockChange := ?_
      noContentChange := ?_
      handles := hfds
      files := fun g hg => ?_
      queues := fun g hg => ?_
      lockChanges := fun g hg => ?_
      contentChanges := fun g hg => ?_ }
  · rw [hfds] at hp
    exact decide_eq_true_iff.mp (List.mem_filter.mp hp).2
  · exact UMap.has_erase_self _ _
  · exact UMap.has_erase_self _ _
  · exact UMap.has_erase_self _ _
  · exact UMap.has_erase_self _ _
  · have herased :
      (((st.deleted E session xid fd db).logged l).dropEvents fd.fileName).file2fdMap.find
        g = (((st.entered session fd).dropRecords fd.fileName).file2fdMap).find g :=
      UMap.find_erase_of_ne hg
    rw [herased, Leader.dropRecords_file2fdMap, UMap.find_touch, if_neg hg]
    exact Leader.find_foundFd hg
  · exact UMap.find_erase_of_ne hg
  · exact UMap.find_erase_of_ne hg
  · exact UMap.find_erase_of_ne hg

theorem DeleteEnds.purged {r : Except Unit Unit} (h : DeleteEnds E session xid fd st (.ret r st'))
    (hi : st.Indexed) (hyes : DeleteSucceeds E st fd) : st.Purged fd.fileName st' := by
  obtain ⟨db, hdb⟩ := hyes
  cases h with
  | threw _ hdb' => cases hdb.symm.trans hdb'
  | refused _ hdb' => cases hdb.symm.trans hdb'
  | deleted _ _ => exact Leader.purged_deleted hi

/-- A deletion is answered with `true` if and only if the database deletes the node. -/
theorem fileDelete_true_iff (hxid : xid ≠ internalXid)
    (h : Leader.step E (.rpc session xid (.fileDelete fd)) st = some st') :
    st.answer st' session xid = some (.bool true) ↔ DeleteSucceeds E st fd := by
  cases step_ends E h with
  | fileDelete hends =>
    cases hends with
    | threw _ hdb =>
      rw [Leader.answer_call hxid (congrArg _ (List.append_nil _).symm)]
      refine iff_of_false (by simp) ?_
      rintro ⟨db', hdb'⟩
      cases hdb'.symm.trans hdb
    | refused _ hdb =>
      rw [Leader.answer_call hxid (congrArg _ (List.append_nil _).symm)]
      refine iff_of_false (by simp) ?_
      rintro ⟨db', hdb'⟩
      cases hdb'.symm.trans hdb
    | @deleted db _ hdb =>
      refine iff_of_true ?_ ⟨db, hdb⟩
      exact Leader.answer_call hxid (List.append_assoc _ _ _)

end Delete

/-! ## The states in which it is called -/

section Reachable

variable {E : Service δ} {st st₁ : Leader δ} {session : SessionId} {xid : Xid} {fd : FileHandler}

theorem Closing.indexed (h : Closing E st session xid fd st₁) (hi : st.Indexed) :
    st₁.Indexed := by
  cases h with
  | rpc => exact hi
  | @disconnect before rest p _ _ hrun =>
    have hends := closeAll_ends E session before
      ((st.logged [.disconnected session]).touchFds session)
    have htouched : ((st.logged [.disconnected session]).touchFds session).Indexed :=
      hi.of_get fun s => UMap.get_touch _ _ _
    rw [hrun] at hends
    exact hends.indexed htouched rfl

theorem Deleting.indexed (h : Deleting E st session xid fd st₁) (hi : st.Indexed) :
    st₁.Indexed := by
  cases h with
  | rpc => exact hi
  | @close _ _ st₀ st₁ hclosing hrelease _ =>
    have hentered : (st₀.entered session fd).Indexed := (hclosing.indexed hi).foundFd session fd
    split_ifs at hrelease with hheld
    · have hends := release_ends E session internalXid (st₀.entered session fd) fd
      rw [hrelease] at hends
      exact hends.indexed hentered
    · subst hrelease
      exact hentered

end Reachable

/-- Whenever the leader deletes a file, over any database and after any inputs, it
    forgets what it knew of that file and nothing else. -/
theorem fileDelete_purges {E : Service δ} {db : δ} {masterSequenceNumber : UInt64} {st : Leader δ}
    (h : (E.leader db masterSequenceNumber).Reach (fun _ _ => True) st) {session : SessionId}
    {xid : Xid} {fd : FileHandler} {st₁ st' : Leader δ} {r : Except Unit Unit}
    (hcalled : Deleting E st session xid fd st₁) (hyes : DeleteSucceeds E st₁ fd)
    (hrun : fileDelete E fd session xid st₁ = .ret r st') : st₁.Purged fd.fileName st' := by
  have hends := fileDelete_ends E session xid st₁ fd
  rw [hrun] at hends
  exact hends.purged (hcalled.indexed (indexed_reach h)) hyes

/-- A file that two sessions have open, the second of them with its events, beside
    another one. -/
def sharedFile : List Input :=
  [.rpc 1 1 (.startSession ['1']), .rpc 2 1 (.startSession ['2']),
    .rpc 1 2 (.fileOpen ['/', 'f'] ModeFlag.createFile),
    .rpc 2 2 (.fileOpen ['/', 'f'] (ModeFlag.evLockChanged ||| ModeFlag.evContentModified)),
    .rpc 2 3 (.fileOpen ['/', 'g'] (ModeFlag.createFile ||| ModeFlag.evContentModified))]

theorem fileDelete_purges_shared : ∃ st st',
    ((Service.paxos .refusing (fun _ => 0) inlineNamed).leader .empty 0).exec
      (fun _ _ => True) sharedFile
      (.fresh .empty 0) = some st ∧
    fileDelete (Service.paxos .refusing (fun _ => 0) inlineNamed) ⟨0, 0, ['/', 'f'], 1, false⟩ 1 3
      (st.logged [.call 1 3 (.fileDelete ⟨0, 0, ['/', 'f'], 1, false⟩)]) = .ret (.ok ()) st' ∧
    (st.logged [.call 1 3 (.fileDelete ⟨0, 0, ['/', 'f'], 1, false⟩)]).Purged ['/', 'f'] st' := by
  have hrun : ∃ st st',
      ((Service.paxos .refusing (fun _ => 0) inlineNamed).leader .empty 0).exec
        (fun _ _ => True) sharedFile
        (.fresh .empty 0) = some st ∧
      DeleteSucceeds (Service.paxos .refusing (fun _ => 0) inlineNamed) st
        ⟨0, 0, ['/', 'f'], 1, false⟩ ∧
      fileDelete (Service.paxos .refusing (fun _ => 0) inlineNamed) ⟨0, 0, ['/', 'f'], 1, false⟩ 1 3
        (st.logged [.call 1 3 (.fileDelete ⟨0, 0, ['/', 'f'], 1, false⟩)]) = .ret (.ok ()) st' :=
    ⟨_, _, rfl, ⟨_, rfl⟩, rfl⟩
  obtain ⟨st, st', hst, hyes, hdelete⟩ := hrun
  exact ⟨st, st', hst, hdelete,
    fileDelete_purges (Lts.Reach.exec (.init rfl) hst) .rpc hyes hdelete⟩

end SimpleChubby
