import SimpleChubby.Leader.OpenFiles

/-!
# When a close returns, and what its reply says

`fileClose` scans the lock queue of the file in a loop that does not advance, so
whether it returns is decided by who waits first once the lock is reclaimed. Its
reply is `true` whenever it returns: what the release and the delete that it
makes itself have answered is thrown away.
-/

namespace SimpleChubby

variable {δ : Type}

/-! ## The condition -/

section Condition

variable (E : Service δ) (session : SessionId) (fd : FileHandler) (st : Leader δ)

/-- The queue of a file after its lock has been handed to the first waiter; `none`
    where the hand-off fails an assertion. -/
def Leader.handsOff (fileName : Str) : Option (Option (List (SessionId × Xid))) :=
  match st.queue fileName with
  | none => some none
  | some [] => none
  | some (waiter :: rest) =>
    if st.client waiter.1 = [] then none else some (if rest = [] then none else some rest)

/-- The database and the queue of the file after `fileClose` has reclaimed the
    lock; `none` where that ends the process. -/
def reclaims : Option (δ × Option (List (SessionId × Xid))) :=
  if fd.fileName ∈ st.held (st.client session) then
    match E.db.resetLockOwner fd.fileName fd.instanceNumber st.db with
    | .ret true db => (st.handsOff fd.fileName).map fun queue => (db, queue)
    | .ret false db => some (db, st.queue fd.fileName)
    | .stop .exception db => some (db, st.queue fd.fileName)
    | .stop .assertion _ => none
  else some (st.db, st.queue fd.fileName)

/-- The close of a handle returns: the session has started, no assertion fails on
    the way, and unless the file is deleted the session itself waits first for its
    lock, or nobody does. -/
def Closable : Prop :=
  st.client session ≠ [] ∧ ∃ r ∈ reclaims E session fd st,
    if fd.fileName ∈ st.ephemeral (st.client session) then
      ∀ db, E.db.checkAndDelete fd.fileName fd.instanceNumber r.1 ≠ .stop .assertion db
    else ∀ w rest, r.2 = some (w :: rest) → w.1 = session

end Condition

/-! ## What reclaiming the lock comes to -/

section Returns

variable {E : Service δ} {session : SessionId} {xid : Xid} {fd : FileHandler} {st : Leader δ}
  {fileName : Str} {o : Outcome Stop (Leader δ) Unit}

theorem HandOffEnds.handsOff (h : HandOffEnds fileName st o) :
    o.returned.map (·.queue fileName) = st.handsOff fileName := by
  unfold Leader.handsOff
  cases h with
  | noQueue hq =>
    rw [hq]
    exact congrArg some hq
  | emptyQueue hq => rw [hq]; rfl
  | deadWaiter hq hw =>
    rw [hq]
    exact (if_pos hw).symm
  | @lastWaiter w x hq hw =>
    rw [hq]
    show some (((st.file2lockQueueMap.set fileName []).erase fileName).find fileName) =
      if st.client w = [] then none else some none
    rw [if_neg hw, UMap.find_erase, if_pos rfl]
  | @moreWaiters w x rest hq hrest hw =>
    rw [hq]
    show some ((st.file2lockQueueMap.set fileName rest).find fileName) =
      if st.client w = [] then none else some (if rest = [] then none else some rest)
    rw [if_neg hw, if_neg hrest, UMap.find_set, if_pos rfl]

/-- The hand-off reads the queue and the clients of the sessions. -/
theorem Leader.handsOff_congr {st' : Leader δ} (hqueue : st'.queue fileName = st.queue fileName)
    (hclients : ∀ s, st'.client s = st.client s) :
    st'.handsOff fileName = st.handsOff fileName := by
  unfold Leader.handsOff
  rw [hqueue]
  simp only [hclients]

/-- The state in which the lock has been reclaimed, read off the state before. -/
theorem ReclaimEnds.reclaims (hc : st.client session ≠ [])
    (h : ReclaimEnds E session fd (st.client session) (st.entered session fd) o) :
    o.returned.map (fun st' => (st'.db, st'.queue fd.fileName)) = reclaims E session fd st := by
  have hclient : (st.entered session fd).client session = st.client session := UMap.get_touch _ _ _
  unfold SimpleChubby.reclaims
  cases h with
  | notHeld hheld =>
    rw [if_neg (show fd.fileName ∉ st.held (st.client session) from hheld)]
    rfl
  | held hheld hr =>
    rw [if_pos (show fd.fileName ∈ st.held (st.client session) from hheld)]
    have hdb : ∀ {result}, E.db.resetLockOwner fd.fileName fd.instanceNumber
        (st.entered session fd).db = result →
        E.db.resetLockOwner fd.fileName fd.instanceNumber st.db = result := id
    have hread : ∀ db, ((st.entered session fd).released session internalXid fd db).handsOff
        fd.fileName = st.handsOff fd.fileName := by
      intro db
      apply Leader.handsOff_congr
      · rfl
      · intro s
        show ((st.session2clientMap.touch session).touch session).get s = _
        rw [UMap.get_touch, UMap.get_touch]
        rfl
    cases hr with
    | noClient hnone => exact absurd (hclient ▸ hnone) hc
    | crashed hcrash => rw [hdb hcrash]; rfl
    | threw _ hthrow => rw [hdb hthrow]; rfl
    | refused _ hrefuse => rw [hdb hrefuse]; rfl
    | @stopped db e st' _ hreset hoff =>
      rw [hdb hreset, ← hread db, ← hoff.handsOff]
      rfl
    | @released db st' _ hreset hoff =>
      have hlast := hoff.db
      rw [hdb hreset, ← hread db, ← hoff.handsOff]
      show some (st'.db, st'.queue fd.fileName) = some (db, st'.queue fd.fileName)
      rw [hlast]
      rfl

theorem ClearsQueue.ends {o : Option (Leader δ)} (h : ClearsQueue session fileName st o) :
    o.isSome = true ↔ ∀ w rest, st.queue fileName = some (w :: rest) → w.1 = session := by
  have hscan : ∀ queue, scanQueue session queue ≠ none ↔
      ∀ w rest, queue = w :: rest → w.1 = session := by
    intro queue
    cases queue with
    | nil => simp [scanQueue]
    | cons w rest =>
      by_cases hw : w.1 = session
      · simp [scanQueue, hw]
      · simp [scanQueue, hw]
  cases h with
  | noQueue hq => simp [hq]
  | endless hq hnone =>
    simp only [hq, Option.some.injEq, ← hscan]
    simp [hnone]
  | kept hq hsome _ =>
    simp only [hq, Option.some.injEq, ← hscan]
    simp [hsome]
  | dropped hq hsome =>
    simp only [hq, Option.some.injEq, ← hscan]
    simp [hsome]

theorem DeleteEnds.ends {r : Outcome Stop (Leader δ) (Except Unit Unit)}
    (h : DeleteEnds E session xid fd st r) (hc : st.client session ≠ []) :
    r.returned.isSome = true ↔
      ∀ db, E.db.checkAndDelete fd.fileName fd.instanceNumber st.db ≠ .stop .assertion db := by
  cases h with
  | noClient hnone => exact absurd hnone hc
  | crashed hdb => exact iff_of_false nofun fun hcon => hcon _ hdb
  | threw _ hdb => exact iff_of_true rfl fun db hcon => nomatch hdb.symm.trans hcon
  | refused _ hdb => exact iff_of_true rfl fun db hcon => nomatch hdb.symm.trans hcon
  | deleted _ hdb => exact iff_of_true rfl fun db hcon => nomatch hdb.symm.trans hcon

/-- The condition, read off the state in which the lock has been reclaimed. -/
theorem ReclaimEnds.closable {st₁ : Leader δ} (hc : st.client session ≠ [])
    (h : ReclaimEnds E session fd (st.client session) (st.entered session fd) (.ret () st₁)) :
    Closable E session fd st ↔
      if fd.fileName ∈ st₁.ephemeral (st.client session) then
        ∀ db, E.db.checkAndDelete fd.fileName fd.instanceNumber st₁.db ≠ .stop .assertion db
      else ∀ w rest, st₁.queue fd.fileName = some (w :: rest) → w.1 = session := by
  unfold Closable
  rw [and_iff_right hc, ← h.reclaims hc]
  simp only [Outcome.returned, Option.map_some, Option.mem_def, Option.some.injEq,
    exists_eq_left', h.mem_ephemeral]

/-- Whether a close returns is decided by its condition. -/
theorem CloseEnds.returns (h : CloseEnds E session xid fd st o) :
    o.returned.isSome = true ↔ Closable E session fd st := by
  cases h with
  | noClient hc => exact iff_of_false nofun fun hcon => hcon.1 hc
  | reclaimStops hc hreclaim =>
    refine iff_of_false nofun fun hcon => ?_
    obtain ⟨_, r, hr, _⟩ := hcon
    rw [← hreclaim.reclaims hc] at hr
    cases hr
  | @deleteStops e st₁ st' hc hreclaim heph hdelete =>
    rw [hreclaim.closable hc, if_pos heph]
    exact hdelete.ends (ne_of_eq_of_ne (hreclaim.client session) hc)
  | @deletes st₁ st₂ hc hreclaim heph hdelete =>
    rw [hreclaim.closable hc, if_pos heph]
    exact hdelete.ends (ne_of_eq_of_ne (hreclaim.client session) hc)
  | @endless st₁ st' hc hreclaim heph hclear =>
    rw [hreclaim.closable hc, if_neg heph]
    exact hclear.ends
  | @closes st₁ st₂ hc hreclaim heph hclear =>
    rw [hreclaim.closable hc, if_neg heph]
    exact hclear.ends

theorem isSome_returned : o.returned.isSome = true ↔ ∃ st', o = .ret () st' := by
  rw [Option.isSome_iff_exists]
  refine exists_congr fun st' => ?_
  rw [Outcome.returned_eq_some]
  exact ⟨fun ⟨_, h⟩ => h, fun h => ⟨(), h⟩⟩

theorem fileClose_returns (E : Service δ) (session : SessionId) (xid : Xid) (fd : FileHandler)
    (st : Leader δ) :
    (∃ st', fileClose E fd session xid st = .ret () st') ↔ Closable E session fd st := by
  rw [← isSome_returned]
  exact (fileClose_ends E session xid st fd).returns

end Returns

section Reply

variable (E : Service δ) (owner : δ → Str → Option Str) (session : SessionId) (xid : Xid)
  (fd : FileHandler) (st : Leader δ)

/-- One of the calls to the database that the close makes throws. -/
def CloseThrows : Prop :=
  (fd.fileName ∈ st.held (st.client session) ∧
    ∃ db, E.db.resetLockOwner fd.fileName fd.instanceNumber st.db = .stop .exception db) ∨
  (fd.fileName ∈ st.ephemeral (st.client session) ∧ ∃ r ∈ reclaims E session fd st,
    ∃ db, E.db.checkAndDelete fd.fileName fd.instanceNumber r.1 = .stop .exception db)

/-- The handle that `fd` finds before the close is closed; `owner` reads the lock
    owner of a node off a database, if the node is there. -/
structure HandleClosed (st' : Leader δ) : Prop where
  handles : ∀ s, st.findFd session fd ∉ st'.fds s
  files : ∀ f, ∀ q ∈ st'.file2fdMap.get f, q.fd ≠ st.findFd session fd
  events : ∀ e, session ∉ (st'.listeners e).get fd.fileName
  lock : owner st'.db fd.fileName ≠ some (st.client session)
  node : fd.fileName ∈ st.ephemeral (st.client session) → owner st'.db fd.fileName = none

/-- A close that answers `true` has closed the handle, and one during which a call
    to the database throws answers with that error. -/
def SaysClosed : Prop :=
  ∀ st', fileClose E fd session xid st = .ret () st' →
    (st.answer st' session xid = some (.bool true) → HandleClosed owner session fd st st') ∧
      (CloseThrows E session fd st → st.answer st' session xid = some (.error .paxosError))

/-- The close ends with the handle closed, `db` being the database once the lock is
    reclaimed: an ephemeral node is deleted, and of another one the client does not
    own the lock. -/
def EndsClosed (db : δ) : Prop :=
  if fd.fileName ∈ st.ephemeral (st.client session) then
    ∃ db', E.db.checkAndDelete fd.fileName fd.instanceNumber db = .ret true db' ∧
      owner db' fd.fileName = none
  else owner db fd.fileName ≠ some (st.client session)

/-- If the close returns, no call to the database throws, and a close that has a
    reply ends with the handle closed. -/
def ClosesCleanly : Prop :=
  Closable E session fd st → ¬ CloseThrows E session fd st ∧
    (xid ≠ internalXid → ∃ r ∈ reclaims E session fd st, EndsClosed E owner session fd st r.1)

end Reply

section Replies

variable {E : Service δ} {owner : δ → Str → Option Str} {session : SessionId} {xid : Xid}
  {fd : FileHandler} {st st' : Leader δ}

/-- Chatter answers with `true` only, whoever it answers. -/
theorem Chatter.replyTo_true {l : List Action} (h : Chatter l) (hxid : xid ≠ internalXid)
    (after : List Action) :
    replyTo session xid (l ++ (Leader.replyOf session xid (.bool true) ++ after)) =
      some (.bool true) := by
  induction h with
  | nil => exact replyTo_replyOf hxid (.bool true) after
  | event _ ih => exact ih
  | @handOff f s x rest _ ih =>
    show replyTo session xid (Leader.replyOf s x (.bool true) ++ rest ++
      (Leader.replyOf session xid (.bool true) ++ after)) = _
    rw [List.append_assoc]
    by_cases hx : x = internalXid
    · rw [Leader.replyOf, if_pos hx]
      exact ih
    · by_cases hsame : s = session ∧ x = xid
      · obtain ⟨rfl, rfl⟩ := hsame
        rw [replyTo_replyOf hx]
      · rw [Leader.replyOf, if_neg hx, ← ih]
        unfold replyTo
        rw [List.singleton_append, List.findSome?_cons]
        simp only [if_neg hsame]

/-- A reply `true` among chatter is the answer, for the calls that have one. -/
theorem AnswersBy.replyTo {l : List Action} (h : AnswersBy (· = .bool true) session xid l) :
    replyTo session xid l = if xid = internalXid then none else some (.bool true) := by
  by_cases hxid : xid = internalXid
  · subst hxid
    rw [if_pos rfl]
    exact h.answers.internal.replyTo_internal
  · obtain ⟨before, body, after, rfl, hbefore, _, rfl⟩ := h
    rw [if_neg hxid, List.append_assoc]
    exact hbefore.replyTo_true hxid after

/-- Whatever happens on the way, a close that returns answers `true`. -/
theorem CloseEnds.answer (h : CloseEnds E session xid fd st (.ret () st')) :
    st.answer st' session xid = if xid = internalXid then none else some (.bool true) := by
  obtain ⟨l, hl, hlog⟩ := h.answersBy
  rw [Leader.answer_eq hlog]
  exact hl.replyTo

/-- A record that is with no session is with no file. -/
theorem Leader.Indexed.not_filed (hi : st'.Indexed) {p : FdRecord} (h : ∀ s, p ∉ st'.fds s) :
    ∀ f, ∀ q ∈ st'.file2fdMap.get f, q.fd ≠ p := by
  rintro f q hq rfl
  exact h q.session (hi.mem_session hq)

/-- A delete that is granted leaves nothing of a handle on the file, and one that is
    not leaves the handle. -/
theorem DeleteEnds.forgets {r : Except Unit Unit} (h : DeleteEnds E session xid fd st (.ret r st'))
    (hi : st.Indexed) {p : FdRecord} (hp : p ∈ st.fds session) (hvalue : p.value = fd) :
    (E.db.checkAndDelete fd.fileName fd.instanceNumber st.db = .ret true st'.db ∧
        (∀ s, p ∉ st'.fds s) ∧ ∀ e, (st'.listeners e).get fd.fileName = []) ∨
      (∀ db, E.db.checkAndDelete fd.fileName fd.instanceNumber st.db ≠ .ret true db) ∧
        p ∈ st'.fds session := by
  have hfound : p ∈ (st.entered session fd).fds session := st.mem_foundFd session fd hp
  have hindexed : (st.entered session fd).Indexed := hi.foundFd session fd
  cases h with
  | threw _ hdb => exact Or.inr ⟨fun db hcon => (nomatch hdb.symm.trans hcon), hfound⟩
  | refused _ hdb => exact Or.inr ⟨fun db hcon => (nomatch hdb.symm.trans hcon), hfound⟩
  | deleted _ hdb =>
    refine Or.inl ⟨hdb, fun s hmem => ?_, fun e => ?_⟩
    · have hleft := (Leader.mem_dropRecords hindexed).mp hmem
      rw [hvalue] at hleft
      exact hleft.2 rfl
    · rw [Leader.get_listeners_dropEvents, if_pos rfl]

/-- The end of a close that deletes nothing leaves nothing of the handle. -/
theorem ClearsQueue.forgets {st₁ st₂ : Leader δ} {p : FdRecord} (hi : st₁.Indexed)
    (hp : p ∈ st₁.fds session)
    (h : ClearsQueue session fd.fileName (st₁.removeFd session p) (some st₂)) :
    (∀ s, p ∉ st₂.fds s) ∧
      ∀ e, session ∉ ((st₂.unsubscribed session fd.fileName).listeners e).get fd.fileName := by
  constructor
  · intro s hmem
    rw [h.fds_eq] at hmem
    obtain ⟨hold, haddress⟩ := Leader.mem_removeFd.mp hmem
    obtain ⟨hs, _⟩ := hi.owned s session p p hold hp rfl
    exact haddress hs rfl
  · intro e
    rw [Leader.get_listeners_unsubscribed, if_pos rfl, List.mem_filter]
    simp

/-- Whether a close has closed its handle is decided by what the database answers. -/
theorem CloseEnds.closed_iff (h : CloseEnds E session xid fd st (.ret () st')) (hi : st.Indexed) :
    HandleClosed owner session fd st st' ↔
      ∃ r ∈ reclaims E session fd st, EndsClosed E owner session fd st r.1 := by
  have hindexed : (st.entered session fd).Indexed := hi.foundFd session fd
  have hlast : st'.Indexed := h.indexed hi
  have hmem : ∀ st₁ : Leader δ,
      ReclaimEnds E session fd (st.client session) (st.entered session fd) (.ret () st₁) →
      st.findFd session fd ∈ st₁.fds session := by
    intro st₁ hreclaim
    rw [hreclaim.fds session]
    exact st.findFd_mem session fd
  have hreclaimed : ∀ st₁ : Leader δ, st.client session ≠ [] →
      ReclaimEnds E session fd (st.client session) (st.entered session fd) (.ret () st₁) →
      ((∃ r ∈ reclaims E session fd st, EndsClosed E owner session fd st r.1) ↔
        EndsClosed E owner session fd st st₁.db) := by
    intro st₁ hc hreclaim
    rw [← hreclaim.reclaims hc]
    simp only [Outcome.returned, Option.map_some, Option.mem_def, Option.some.injEq,
      exists_eq_left']
  cases h with
  | @deletes st₁ st₂ hc hreclaim heph hdelete =>
    have hmarked : fd.fileName ∈ st.ephemeral (st.client session) := hreclaim.mem_ephemeral.mp heph
    rw [hreclaimed st₁ hc hreclaim, EndsClosed, if_pos hmarked]
    rcases hdelete.forgets (hreclaim.indexed hindexed) (hmem st₁ hreclaim)
      (st.findFd_value session fd) with ⟨hdb, hgone, hlists⟩ | ⟨hnot, hkept⟩
    · constructor
      · exact fun hclosed => ⟨st₂.db, hdb, hclosed.node hmarked⟩
      · rintro ⟨db, hdb', hnone⟩
        cases hdb.symm.trans hdb'
        refine ⟨hgone, hlast.not_filed hgone, fun e => ?_, ?_, fun _ => hnone⟩
        · have hlist := hlists e
          cases e with
          | lockChanged => exact hlist ▸ List.not_mem_nil
          | contentModified => exact hlist ▸ List.not_mem_nil
        · show owner st₂.db fd.fileName ≠ _
          rw [hnone]
          exact (Option.some_ne_none _).symm
    · refine iff_of_false (fun hclosed => hclosed.handles session hkept) ?_
      rintro ⟨db, hdb, _⟩
      exact hnot db hdb
  | @closes st₁ st₂ hc hreclaim heph hclear =>
    have hunmarked : fd.fileName ∉ st.ephemeral (st.client session) :=
      fun hcon => heph (hreclaim.mem_ephemeral.mpr hcon)
    rw [hreclaimed st₁ hc hreclaim, EndsClosed, if_neg hunmarked]
    have hi₁ : (st₁.touchEphemeral (st.client session)).Indexed := hreclaim.indexed hindexed
    have hdb : st₂.db = st₁.db := hclear.db
    obtain ⟨hgone, hlists⟩ := hclear.forgets hi₁ (hmem st₁ hreclaim)
    constructor
    · intro hclosed
      rw [← hdb]
      exact hclosed.lock
    · intro hfree
      rw [← hdb] at hfree
      refine ⟨hgone, hlast.not_filed hgone, fun e => ?_, hfree, fun hcon => absurd hcon hunmarked⟩
      have hlist := hlists e
      cases e with
      | lockChanged => exact hlist
      | contentModified => exact hlist

end Replies

/-- In every state the leader can reach, over any database and whatever its calls
    answer: a close answers as it should if and only if its condition is met. -/
theorem saysClosed_iff (E : Service δ) (owner : δ → Str → Option Str) (db : δ)
    (masterSequenceNumber : UInt64) (st : Leader δ)
    (hreach : (E.leader db masterSequenceNumber).Reach (fun _ _ => True) st) (session : SessionId)
    (xid : Xid) (fd : FileHandler) :
    SaysClosed E owner session xid fd st ↔ ClosesCleanly E owner session xid fd st := by
  have hi : st.Indexed := handleIndex_reachable E db masterSequenceNumber st hreach
  unfold SaysClosed ClosesCleanly
  rw [← fileClose_returns E session xid fd st]
  have hends : ∀ st', fileClose E fd session xid st = .ret () st' →
      ((st.answer st' session xid = some (.bool true) → HandleClosed owner session fd st st') ↔
        (xid ≠ internalXid →
          ∃ r ∈ reclaims E session fd st, EndsClosed E owner session fd st r.1)) ∧
      ((CloseThrows E session fd st → st.answer st' session xid = some (.error .paxosError)) ↔
        ¬ CloseThrows E session fd st) := by
    intro st' hrun
    have h : CloseEnds E session xid fd st (.ret () st') := by
      rw [← hrun]
      exact fileClose_ends E session xid st fd
    rw [h.answer, h.closed_iff hi]
    by_cases hxid : xid = internalXid
    · simp [hxid]
    · simp [hxid]
  constructor
  · rintro hall ⟨st', hrun⟩
    obtain ⟨hreply, hthrows⟩ := hends st' hrun
    obtain ⟨htrue, herror⟩ := hall st' hrun
    exact ⟨hthrows.mp herror, hreply.mp htrue⟩
  · intro hall st' hrun
    obtain ⟨hreply, hthrows⟩ := hends st' hrun
    obtain ⟨hnone, hclosed⟩ := hall ⟨st', hrun⟩
    exact ⟨hreply.mpr hclosed, hthrows.mpr hnone⟩

/-- The lock owner of a node. -/
def Store.ownerOf (db : Store) (name : Str) : Option Str := (db.row name).map FsRow.lockOwner

/-- A session with an ephemeral directory and a file in it. -/
def fullDirectory : List Input :=
  [.rpc 1 1 (.startSession ['1']),
    .rpc 1 2 (.fileOpen ['/', 'd'] (ModeFlag.createDirectory ||| ModeFlag.ephemeral)),
    .rpc 1 3 (.fileOpen ['/', 'd', '/', 'f'] ModeFlag.createFile)]

theorem saysClosed_fullDirectory :
    ∃ st, ((Service.paxos .refusing (fun _ => 0) inlineNamed).leader .empty 0).exec
      (fun _ _ => True) fullDirectory (.fresh .empty 0) = some st ∧ ∀ session xid fd,
        SaysClosed (Service.paxos .refusing (fun _ => 0) inlineNamed) Store.ownerOf
          session xid fd st ↔
          ClosesCleanly (Service.paxos .refusing (fun _ => 0) inlineNamed) Store.ownerOf session
            xid fd st := by
  have hrun :
      (((Service.paxos .refusing (fun _ => 0) inlineNamed).leader .empty 0).exec (fun _ _ => True)
      fullDirectory (.fresh .empty 0)).isSome = true := by decide +kernel
  obtain ⟨st, hst⟩ := Option.isSome_iff_exists.mp hrun
  exact ⟨st, hst, saysClosed_iff _ Store.ownerOf _ _ st (Lts.Reach.exec (.init rfl) hst)⟩

/-- The close of an ephemeral directory with a file in it answers `true`, and the
    directory is still there. -/
theorem not_saysClosed :
    ¬ ∀ st, ((Service.paxos .refusing (fun _ => 0) inlineNamed).leader .empty 0).Reach
      (fun _ _ => True) st →
      ∀ session, ∀ p ∈ st.fds session,
        SaysClosed (Service.paxos .refusing (fun _ => 0) inlineNamed) Store.ownerOf session 4
          p.value st := by
  intro hall
  let E := Service.paxos .refusing (fun _ => 0) inlineNamed
  have hrun : (((E.leader .empty 0).exec (fun _ _ => True) fullDirectory
      (.fresh .empty 0)).bind fun st => (st.fds 1).head?.bind fun p =>
        (fileClose E p.value 1 4 st).returned.map fun st' =>
          (p.value.fileName, decide (['/', 'd'] ∈ st.ephemeral (st.client 1)),
            st.answer st' 1 4, st'.db.ownerOf ['/', 'd'])) =
      some (['/', 'd'], true, some (.bool true), some noOwner) := by decide +kernel
  obtain ⟨st, hst, hends⟩ := Option.bind_eq_some_iff.mp hrun
  obtain ⟨p, hp, hends⟩ := Option.bind_eq_some_iff.mp hends
  obtain ⟨st', hst', heq⟩ := Option.map_eq_some_iff.mp hends
  obtain ⟨_, hclose⟩ := Outcome.returned_eq_some.mp hst'
  simp only [Prod.mk.injEq, decide_eq_true_eq] at heq
  obtain ⟨hname, hmarked, hanswer, howner⟩ := heq
  have hclosed := (hall st (Lts.Reach.exec (.init rfl) hst) 1 p (List.mem_of_mem_head? hp) st'
    hclose).1 hanswer
  have hnone := hclosed.node (by rw [hname]; exact hmarked)
  rw [hname, howner] at hnone
  cases hnone

end SimpleChubby
