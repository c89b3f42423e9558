import SimpleChubby.ServerDb.Unreliable
import SimpleChubby.ServerDb.Selection
import SimpleChubby.Leader.Closing

/-!
# Who waits for a lock, and who releases it

`acquire` queues a request whenever the database refuses it the lock, and the
database refuses it for a node that is gone, for one that has been made anew,
for a lock that another client holds, and for one that the client holds itself.
`release` resets the owner of any node whose number its handle has.
-/

namespace SimpleChubby

open SqlText

/-- The leader over the replicated database, the calls of which meet their fates. -/
def Service.unreliable (sq : Engine) (strHash : Str → UInt64) : Service (Store × List Fate) where
  db := serverDbPaxos (unreliablePaxos (leaderPaxos sq strHash))
  strHash := strHash
  stillNamed := inlineNamed

/-! ## Waiting -/

section Waits

variable (sq : Engine) (strHash : Str → UInt64) (session : SessionId) (xid : Xid)
  (fd : FileHandler) (st : Leader (Store × List Fate))

/-- The node of the handle exists, with the handle's number, and a client other
    than `clientId` has its lock. -/
def HeldByOther (db : Store) (clientId : Str) : Prop :=
  ∃ l ∈ db.lock fd.fileName,
    l.instanceNumber = fd.instanceNumber ∧ l.owner ≠ noOwner ∧ l.owner ≠ clientId

/-- There is no node with the name and the number of the handle. -/
def Stale (db : Store) : Prop :=
  ∀ l ∈ db.lock fd.fileName, l.instanceNumber ≠ fd.instanceNumber

/-- An `acquire` is queued only for a lock that another client holds, and on a stale
    handle it is answered with an error. -/
def WaitsForHeld : Prop :=
  ∀ st', acquire (Service.unreliable sq strHash) fd session xid st = .ret () st' →
    (st'.queue fd.fileName ≠ st.queue fd.fileName →
      HeldByOther fd st'.db.1 (st.client session)) ∧
    (Stale fd st.db.1 → xid ≠ internalXid →
      ∃ code, st.answer st' session xid = some (.error code))

/-- The columns that `testAndSetLockOwner` reads. -/
def lockColumns : Str := "instance_number, lock_owner, lock_generation_number".toList

/-- What the database finds is no node, or one that has another number on the wire,
    or one whose lock somebody has. -/
def LockRefused (db : Store) : Prop :=
  ∃ found, query sq lockColumns fd.fileName db = .ok found ∧
    ∀ r ∈ found, UInt64.ofInt r.instanceNumber ≠ wire fd.instanceNumber ∨ r.lockOwner ≠ noOwner

/-- Where the database finds a free node that has the handle's number on the wire, the
    lock cannot be taken: a transaction is open, or the name or the client id breaks
    the text of the update and what SQLite makes of it does not go through. -/
def LockWithheld (db : Store) (clientId : Str) : Prop :=
  db.inTransaction = false → ∀ row, query sq lockColumns fd.fileName db = .ok (some row) →
    UInt64.ofInt row.instanceNumber = wire fd.instanceNumber → row.lockOwner = noOwner →
    match quoted clientId, quoted fd.fileName with
    | some _, some _ => False
    | _, _ => Prog.wp (updateLockOwner sq clientId (UInt64.ofInt row.lockGenerationNumber + 1)
        fd.fileName) (fun _ db' => db'.inTransaction = false) (fun _ _ => True) db.begun

/-- Where the session has started and the call to the database is answered: a lock
    that is refused is one that another client holds, and one without a queue is
    withheld from a stale handle. -/
def RefusesHeld : Prop :=
  st.client session ≠ [] → nextFate st.db = .answered →
    (LockRefused sq fd st.db.1 → HeldByOther fd st.db.1 (st.client session)) ∧
    (Stale fd st.db.1 → xid ≠ internalXid → st.queue fd.fileName = none →
      LockWithheld sq fd st.db.1 (st.client session))

end Waits

section Refusals

variable {sq : Engine} {strHash : Str → UInt64} {name : Str}

theorem lockFound_refused_iff {row : FsRow} {st st' : Store} {clientId : Str} :
    lockFound sq name clientId row st = .ret false st' ↔ st' = st ∧ row.lockOwner ≠ noOwner := by
  unfold lockFound
  by_cases hfree : row.lockOwner = noOwner
  · rw [if_neg (not_not.mpr hfree)]
    have hgranted : Prog.wp (do
        sqlBegin
        updateLockOwner sq clientId (UInt64.ofInt row.lockGenerationNumber + 1) name
        sqlCommit
        return true) (fun done _ => done = true) (fun _ _ => True) st := by
      refine Prog.wp_bind_rest fun _ _ => Prog.wp_bind_rest fun _ _ => ?_
      exact Prog.wp_bind_rest fun _ _ => rfl
    refine iff_of_false (fun hcon => ?_) fun hcon => hcon.2 hfree
    exact absurd (Prog.wp_of_ret hgranted hcon) (by decide)
  · rw [if_pos hfree]
    constructor
    · intro h
      obtain ⟨_, rfl⟩ := Outcome.ret.inj h
      exact ⟨rfl, hfree⟩
    · rintro ⟨rfl, _⟩
      rfl

theorem testAndSetLockOwner_refused_iff {st st' : Store} {n : UInt64} {clientId : Str} :
    ServerDb.testAndSetLockOwner sq name n clientId st = .ret false st' ↔
      st' = st ∧ ∃ found, query sq lockColumns name st = .ok found ∧
        ∀ r ∈ found, UInt64.ofInt r.instanceNumber ≠ n ∨ r.lockOwner ≠ noOwner := by
  rw [testAndSetLockOwner_checked]
  show checked st false _ n (query sq lockColumns name st) = _ ↔ _
  rcases query sq lockColumns name st with e | _ | row
  · simp [checked]
  · simp [checked, eq_comm]
  · by_cases hn : UInt64.ofInt row.instanceNumber = n
    · rw [checked, if_pos hn, lockFound_refused_iff]
      simp [hn]
    · rw [checked, if_neg hn]
      simp [hn, eq_comm (a := st)]

/-- The calls of the leader meet their fates one by one. -/
theorem unreliable_testAndSetLockOwner (n : UInt64) (clientId : Str) :
    (Service.unreliable sq strHash).db.testAndSetLockOwner name n clientId =
      facing (ServerDb.testAndSetLockOwner sq name (wire n) clientId) := by
  rw [← leaderDb_testAndSetLockOwner sq strHash]
  exact unreliablePaxos_testAndSetLockOwner _ _ _ _

theorem lockRefused_iff {fd : FileHandler} {clientId : Str} {s s' : Store × List Fate} :
    (Service.unreliable sq strHash).db.testAndSetLockOwner fd.fileName fd.instanceNumber
      clientId s =
        .ret false s' ↔
      nextFate s = .answered ∧ LockRefused sq fd s.1 ∧ s' = (s.1, s.2.tail) := by
  rw [unreliable_testAndSetLockOwner, facing_eq_ret, testAndSetLockOwner_refused_iff, Prod.ext_iff]
  constructor
  · rintro ⟨hfate, ⟨hdb, hfound⟩, hfates⟩
    exact ⟨hfate, hfound, hdb, hfates⟩
  · rintro ⟨hfate, hfound, hdb, hfates⟩
    exact ⟨hfate, ⟨hdb, hfound⟩, hfates⟩

theorem lockWithheld_iff {fd : FileHandler} {clientId : Str} {st : Store} :
    (∀ st', ServerDb.testAndSetLockOwner sq fd.fileName (wire fd.instanceNumber) clientId st ≠
        .ret true st') ↔ LockWithheld sq fd st clientId := by
  have hupdate : ∀ generation : UInt64,
      Prog.wp (updateLockOwner sq clientId generation fd.fileName)
        (fun _ st' => st'.inTransaction = true → False) (fun _ _ => True) st.begun ↔
      match quoted clientId, quoted fd.fileName with
      | some _, some _ => False
      | _, _ => Prog.wp (updateLockOwner sq clientId generation fd.fileName)
          (fun _ db' => db'.inTransaction = false) (fun _ _ => True) st.begun := by
    intro generation
    split
    · next value token hvalue htoken =>
      unfold Prog.wp updateLockOwner
      simp only [hvalue, htoken]
      exact ⟨fun h => h rfl, False.elim⟩
    · simp only [imp_false, Bool.not_eq_true]
  unfold LockWithheld
  have hreturns : (∀ st', ServerDb.testAndSetLockOwner sq fd.fileName (wire fd.instanceNumber)
      clientId st = .ret true st' → False) ↔ _ := wp_returns_true
  refine hreturns.trans ?_
  rw [wp_checked_true (testAndSetLockOwner_checked sq _ clientId)]
  simp only [lockFound, Prog.wp_ite, wp_transaction, hupdate]
  constructor
  · intro h hidle row hrow hn hfree
    have hrow' := h row hrow hn
    rw [if_neg (not_not.mpr hfree)] at hrow'
    exact hrow' hidle
  · intro h row hrow hn
    split_ifs with howner
    · exact nofun
    · exact fun hidle => h hidle row hrow hn (not_not.mp howner)

theorem lockGranted_iff {fd : FileHandler} {clientId : Str} {s : Store × List Fate} :
    (∀ s', (Service.unreliable sq strHash).db.testAndSetLockOwner fd.fileName fd.instanceNumber
        clientId s ≠ .ret true s') ↔
      (nextFate s = .answered → LockWithheld sq fd s.1 clientId) := by
  rw [unreliable_testAndSetLockOwner, ← lockWithheld_iff]
  simp only [ne_eq, facing_eq_ret]
  constructor
  · intro h hfate st' hdb
    exact h (st', s.2.tail) ⟨hfate, hdb, rfl⟩
  · rintro h s' ⟨hfate, hdb, _⟩
    exact h hfate s'.1 hdb

end Refusals

section Acquires

variable {δ : Type} {E : Service δ} {session : SessionId} {xid : Xid} {fd : FileHandler}
  {st : Leader δ} {db : δ}

theorem acquire_refused (hc : st.client session ≠ [])
    (hdb : E.db.testAndSetLockOwner fd.fileName fd.instanceNumber (st.client session) st.db =
      .ret false db) :
    acquire E fd session xid st =
      .ret () (((st.entered session fd).setDb db).enqueue fd.fileName session xid) := by
  have hends := acquire_ends E session xid st fd
  generalize acquire E fd session xid st = o at hends ⊢
  cases hends with
  | noClient hnone => exact absurd hnone hc
  | crashed hdb' => cases hdb.symm.trans hdb'
  | threw _ hdb' => cases hdb.symm.trans hdb'
  | queued hdb' _ => cases hdb.symm.trans hdb'
  | taken _ hdb' _ => cases hdb.symm.trans hdb'
  | busy _ hdb' =>
    cases hdb.symm.trans hdb'
    rfl

theorem acquire_granted (hc : st.client session ≠ [])
    (hdb : E.db.testAndSetLockOwner fd.fileName fd.instanceNumber (st.client session) st.db =
      .ret true db) (hq : st.queue fd.fileName = none) :
    acquire E fd session xid st = .ret () ((st.taken session xid fd db).logged
      ((st.taken session xid fd db).lockEvents fd.fileName)) := by
  have hends := acquire_ends E session xid st fd
  generalize acquire E fd session xid st = o at hends ⊢
  cases hends with
  | noClient hnone => exact absurd hnone hc
  | crashed hdb' => cases hdb.symm.trans hdb'
  | threw _ hdb' => cases hdb.symm.trans hdb'
  | queued _ hsome => exact absurd hq hsome
  | taken _ hdb' _ =>
    cases hdb.symm.trans hdb'
    rfl
  | busy _ hdb' => cases hdb.symm.trans hdb'

/-- A queue with a waiter more is another one. -/
theorem Leader.queue_enqueue_ne (st : Leader δ) (fileName : Str) :
    (st.enqueue fileName session xid).queue fileName ≠ st.queue fileName := by
  have hget : (st.enqueue fileName session xid).queue fileName =
      some (st.file2lockQueueMap.get fileName ++ [(session, xid)]) := by
    unfold Leader.queue
    rw [Leader.enqueue_file2lockQueueMap, UMap.find_alter, if_pos rfl]
  intro heq
  rw [hget] at heq
  have hsame := UMap.get_of_find_some heq.symm
  simp at hsame

/-- A reply that a handler adds first is its answer. -/
theorem Leader.answer_reply {st' : Leader δ} {r : Reply} {l : List Action}
    (hxid : xid ≠ internalXid) (hlog : st'.log = (st.log ++ Leader.replyOf session xid r) ++ l) :
    st.answer st' session xid = some r := by
  rw [List.append_assoc] at hlog
  rw [Leader.answer_eq hlog, replyTo_replyOf hxid]

end Acquires

/-- In every state, whatever becomes of the calls to the database: an `acquire`
    waits only for a lock that is held, and is answered with an error on a stale
    handle, if and only if the condition is met. -/
theorem waitsForHeld_iff (sq : Engine) (strHash : Str → UInt64) (session : SessionId) (xid : Xid)
    (fd : FileHandler) (st : Leader (Store × List Fate)) :
    WaitsForHeld sq strHash session xid fd st ↔ RefusesHeld sq session xid fd st := by
  constructor
  · intro hwaits hc hfate
    refine ⟨fun hrefused => ?_, fun hstale hxid hq => ?_⟩
    · have hdb : (Service.unreliable sq strHash).db.testAndSetLockOwner fd.fileName
          fd.instanceNumber (st.client session) st.db = .ret false (st.db.1, st.db.2.tail) :=
        lockRefused_iff.mpr ⟨hfate, hrefused, rfl⟩
      exact (hwaits _ (acquire_refused hc hdb)).1 (Leader.queue_enqueue_ne _ fd.fileName)
    · have hnever : ∀ db, (Service.unreliable sq strHash).db.testAndSetLockOwner fd.fileName
          fd.instanceNumber (st.client session) st.db ≠ .ret true db := by
        intro db hdb
        obtain ⟨code, hcode⟩ := (hwaits _ (acquire_granted hc hdb hq)).2 hstale hxid
        have hlog : ((st.taken session xid fd db).logged
            ((st.taken session xid fd db).lockEvents fd.fileName)).log =
              (st.log ++ Leader.replyOf session xid (.bool true)) ++
                (st.taken session xid fd db).lockEvents fd.fileName := rfl
        rw [Leader.answer_reply hxid hlog] at hcode
        cases hcode
      exact lockGranted_iff.mp hnever hfate
  · intro hcond st' hret
    have hends := acquire_ends (Service.unreliable sq strHash) session xid st fd
    rw [hret] at hends
    cases hends with
    | threw hc hdb =>
      refine ⟨fun hqueue => absurd rfl hqueue, fun _ hxid => ⟨.paxosError, ?_⟩⟩
      exact Leader.answer_reply hxid (List.append_nil _).symm
    | @taken db hc hdb hq =>
      refine ⟨fun hqueue => absurd rfl hqueue, fun hstale hxid => absurd hdb ?_⟩
      exact lockGranted_iff.mpr (fun hfate => (hcond hc hfate).2 hstale hxid hq) db
    | @busy db hc hdb =>
      obtain ⟨hfate, hrefused, rfl⟩ := lockRefused_iff.mp hdb
      have hheld := (hcond hc hfate).1 hrefused
      refine ⟨fun _ => hheld, fun hstale _ => ?_⟩
      obtain ⟨l, hl, hn, _⟩ := hheld
      exact absurd hn (hstale l hl)

/-- A session that deletes the file it has open. -/
def deletesOpen : List Input :=
  [.rpc 1 1 (.startSession ['1']), .rpc 1 2 (.fileOpen ['/', 'f'] ModeFlag.createFile),
    .rpc 1 3 (.fileDelete ⟨0, 0, ['/', 'f'], 1, false⟩)]

/-- An `acquire` with the handle of a deleted file waits for ever. -/
theorem not_waitsForHeld :
    ¬ ∀ st, ((Service.unreliable .refusing fun _ => 0).leader (.empty, []) 0).Reach
      (fun _ _ => True) st → ∀ session xid fd,
        WaitsForHeld .refusing (fun _ => 0) session xid fd st := by
  intro hall
  let E := Service.unreliable .refusing fun _ => 0
  let fd : FileHandler := ⟨0, 0, ['/', 'f'], 1, false⟩
  have hrun : (((E.leader (.empty, []) 0).exec (fun _ _ => True) deletesOpen
      (.fresh (.empty, []) 0)).bind fun st => (acquire E fd 1 4 st).returned.map fun st' =>
        (st.queue ['/', 'f'], st'.queue ['/', 'f'], st'.db.1.lock ['/', 'f'])) =
          some (none, some [(1, 4)], none) := by decide +kernel
  obtain ⟨st, hst, hends⟩ := Option.bind_eq_some_iff.mp hrun
  obtain ⟨st', hret, hread⟩ := Option.map_eq_some_iff.mp hends
  obtain ⟨_, hacquire⟩ := Outcome.returned_eq_some.mp hret
  simp only [Prod.mk.injEq] at hread
  obtain ⟨hbefore, hafter, hnone⟩ := hread
  have hwaits := hall st (Lts.Reach.exec (.init rfl) hst) 1 4 fd st' hacquire
  obtain ⟨l, hl, _⟩ := hwaits.1 (by
    show st'.queue ['/', 'f'] ≠ st.queue ['/', 'f']
    rw [hbefore, hafter]
    exact Option.some_ne_none _)
  rw [show st'.db.1.lock fd.fileName = none from hnone] at hl
  cases hl

/-! ## Releasing -/

section Releases

variable (sq : Engine) (strHash : Str → UInt64) (session : SessionId) (xid : Xid)
  (fd : FileHandler) (st : Leader (Store × List Fate))

/-- The lock of the node is free, or a client other than `clientId` has it. -/
def NonHolder (db : Store) (clientId : Str) : Prop :=
  ∀ l ∈ db.lock fd.fileName, l.owner = noOwner ∨ l.owner ≠ clientId

/-- The owner of the file's lock is as it was. -/
def KeepsOwner (db db' : Store) : Prop := db'.ownerOf fd.fileName = db.ownerOf fd.fileName

/-- The lock of the file, what is noted for its holder, and the queue are as they
    were, and no waiter has been popped and answered. -/
structure LockSpared (st' : Leader (Store × List Fate)) : Prop where
  owner : KeepsOwner fd st.db.1 st'.db.1
  held : ∀ l ∈ st.db.1.lock fd.fileName, l.owner ≠ noOwner → st'.held l.owner = st.held l.owner
  queue : st'.queue fd.fileName = st.queue fd.fileName
  popped : ∀ f s x, .dequeue f s x ∉ st'.log.drop st.log.length

/-- A `release` by a client that does not hold the lock leaves it alone. -/
def HolderReleases : Prop :=
  NonHolder fd st.db.1 (st.client session) →
    ∀ st', release (Service.unreliable sq strHash) fd session xid st = .ret () st' →
      LockSpared fd st st'

/-- A reset that the database runs leaves the lock alone: it finds what it writes
    (`kept`) and, if its answer comes, nobody waits; or the answer comes and the
    hand-off fails an assertion. -/
def ResetSpares (kept : Prop) : Prop :=
  (kept ∧ (nextFate st.db = .answered → st.queue fd.fileName = none)) ∨
    nextFate st.db = .answered ∧ st.handsOff fd.fileName = none

/-- Where the client does not hold the lock and the database runs the reset on a node
    with the handle's number on the wire, the reset leaves the lock alone. -/
def ResetsFree : Prop :=
  st.client session ≠ [] → NonHolder fd st.db.1 (st.client session) → nextFate st.db ≠ .lost →
    ∀ row, query sq "instance_number".toList fd.fileName st.db.1 = .ok (some row) →
      UInt64.ofInt row.instanceNumber = wire fd.instanceNumber →
      match quoted fd.fileName with
      | some token => st.db.1.inTransaction = false → ResetSpares fd st
          (∀ r ∈ st.db.1.row fd.fileName, nameIs sq token r = true → r.lockOwner = noOwner)
      | none => Prog.wp (unlockFound sq fd.fileName)
          (fun _ db' => ResetSpares fd st (KeepsOwner fd st.db.1 db'))
          (fun e db' => e = .exception → KeepsOwner fd st.db.1 db') st.db.1

end Releases

section Resets

variable {sq : Engine} {strHash : Str → UInt64} {name : Str} {st : Store}
  {F : Fault → Store → Prop}

/-- The owner of a node after an update of the rows that a condition selects. -/
theorem ownerOf_reset {p : FsRow → Bool} :
    (st.updateWhere p FsRow.withoutOwner).ownerOf name = st.ownerOf name ↔
      ∀ r ∈ st.row name, p r = true → r.lockOwner = noOwner := by
  have hrow : (st.updateWhere p FsRow.withoutOwner).row name =
      (st.row name).map fun r => if p r then r.withoutOwner else r := by
    unfold Store.row Store.updateWhere
    rw [List.find?_map]
    congr 2
    funext r
    simp only [Function.comp_apply]
    split_ifs <;> rfl
  unfold Store.ownerOf
  rw [hrow]
  cases st.row name with
  | none => exact iff_of_true rfl nofun
  | some r =>
    simp only [Option.map_some, Option.some.injEq, Option.mem_def, forall_eq']
    by_cases hp : p r = true
    · rw [if_pos hp, forall_prop_of_true hp]
      exact eq_comm
    · rw [if_neg hp]
      exact iff_of_true rfl fun hcon => absurd hcon hp

theorem unreliable_resetLockOwner (n : UInt64) :
    (Service.unreliable sq strHash).db.resetLockOwner name n =
      facing (ServerDb.resetLockOwner sq name (wire n)) := by
  rw [← leaderDb_resetLockOwner sq strHash]
  exact unreliablePaxos_resetLockOwner _ _ _

/-- The statements of a reset never return `false`. -/
theorem wp_unlockFound {Q Q' : Store → Prop} :
    Prog.wp (unlockFound sq name) (fun done st' => if done then Q st' else Q' st') F st ↔
      Prog.wp (unlockFound sq name) (fun _ st' => Q st') F st := by
  have hdone : Prog.wp (unlockFound sq name) (fun done _ => done = true) (fun _ _ => True) st := by
    refine Prog.wp_bind_rest fun _ _ => Prog.wp_bind_rest fun _ _ => ?_
    exact Prog.wp_bind_rest fun _ _ => rfl
  unfold Prog.wp
  cases hrun : unlockFound sq name st with
  | stop e st' => exact Iff.rfl
  | ret done st' =>
    have htrue := Prog.wp_of_ret hdone hrun
    obtain rfl : done = true := htrue
    exact Iff.rfl

/-- A name that is one token leaves nothing of the statements to chance. -/
theorem wp_unlockFound_token {Q : Store → Prop} {token : Str} (htoken : quoted name = some token)
    (hstop : F .exception st) :
    Prog.wp (unlockFound sq name) (fun _ st' => Q st') F st ↔
      (st.inTransaction = false → Q { st.updateWhere (nameIs sq token) FsRow.withoutOwner with
        inTransaction := false }) := by
  simp only [unlockFound, Prog.wp_bind]
  by_cases hidle : st.inTransaction = false
  · have hvalue : quoted noOwner = some noOwner := rfl
    rw [wp_sqlBegin hidle, forall_prop_of_true hidle, Prog.wp_bind]
    unfold Prog.wp clearLockOwner
    simp only [htoken, hvalue]
    exact Iff.rfl
  · refine iff_of_true ?_ fun hcon => absurd hcon hidle
    unfold Prog.wp sqlBegin
    rw [if_pos (by simpa using hidle)]
    exact hstop

end Resets

section Spares

variable {E : Service (Store × List Fate)} {session : SessionId} {xid : Xid} {fd : FileHandler}
  {st st' : Leader (Store × List Fate)}

/-- A release that is refused, or whose call throws, touches the database only. -/
theorem lockSpared_replied (st : Leader (Store × List Fate)) (db : Store × List Fate) (r : Reply) :
    LockSpared fd st (((st.entered session fd).setDb db).logged (Leader.replyOf session xid r)) ↔
      KeepsOwner fd st.db.1 db.1 := by
  refine ⟨fun h => h.owner, fun hkept => ⟨hkept, fun _ _ _ => rfl, rfl, fun f s x hmem => ?_⟩⟩
  have hlog : (((st.entered session fd).setDb db).logged (Leader.replyOf session xid r)).log.drop
      st.log.length = Leader.replyOf session xid r := List.drop_left
  rw [hlog] at hmem
  cases (mem_replyOf hmem).1

/-- A hand-off leaves the queue as it is just if there is none. -/
theorem HandOffEnds.queue_eq_iff {δ : Type} {st st' : Leader δ} {fileName : Str}
    (h : HandOffEnds fileName st (.ret () st')) :
    st'.queue fileName = st.queue fileName ↔ st.queue fileName = none := by
  have hread : some (st'.queue fileName) = st.handsOff fileName := h.handsOff
  unfold Leader.handsOff at hread
  cases h with
  | noQueue hq => exact iff_of_true rfl hq
  | lastWaiter hq hw =>
    rw [hq] at hread ⊢
    simp only [if_neg hw, if_true] at hread
    rw [Option.some.inj hread]
    exact iff_of_false nofun nofun
  | moreWaiters hq hrest hw =>
    rw [hq] at hread ⊢
    simp only [if_neg hw, if_neg hrest] at hread
    rw [Option.some.inj hread, Option.some.injEq]
    exact iff_of_false List.ne_cons_self nofun

/-- A release that goes through leaves the lock alone just if it finds it free and
    without a queue. -/
theorem lockSpared_released {db : Store × List Fate}
    (hnon : NonHolder fd st.db.1 (st.client session))
    (h : HandOffEnds fd.fileName (st.released session xid fd db) (.ret () st')) :
    LockSpared fd st (st'.logged (st'.lockEvents fd.fileName)) ↔
      KeepsOwner fd st.db.1 db.1 ∧ st.queue fd.fileName = none := by
  have hdb : st'.db = db := h.db
  constructor
  · intro hspared
    have howner : KeepsOwner fd st.db.1 st'.db.1 := hspared.owner
    rw [hdb] at howner
    exact ⟨howner, h.queue_eq_iff.mp hspared.queue⟩
  · rintro ⟨hkept, hnone⟩
    have hqueue : (st.released session xid fd db).queue fd.fileName = none := hnone
    cases h with
    | lastWaiter hq _ => cases hqueue.symm.trans hq
    | moreWaiters hq _ _ => cases hqueue.symm.trans hq
    | noQueue _ =>
      refine ⟨hkept, fun l hl howner => ?_, rfl, fun f s x hmem => ?_⟩
      · have hother : l.owner ≠ st.client session := (hnon l hl).resolve_left howner
        ext g
        have hmem : g ∈ (((st.entered session fd).setDb db).unhold (st.client session)
            fd.fileName).held l.owner ↔ _ := Leader.mem_unhold
        refine hmem.trans (and_iff_left fun hcon => hother hcon.1)
      · have hlog : ((st.released session xid fd db).logged
            ((st.released session xid fd db).lockEvents fd.fileName)).log = st.log ++
              (Leader.replyOf session xid (.bool true) ++
                (st.released session xid fd db).lockEvents fd.fileName) := by
          rw [← List.append_assoc]
          rfl
        rw [hlog, List.drop_left] at hmem
        rcases List.mem_append.mp hmem with hmem | hmem
        · cases (mem_replyOf hmem).1
        · obtain ⟨_, _, heq⟩ := List.mem_map.mp hmem
          cases heq

/-- Whether a release leaves the lock alone is decided by how the database ends. -/
theorem release_spares (hc : st.client session ≠ [])
    (hnon : NonHolder fd st.db.1 (st.client session)) :
    (∀ st', release E fd session xid st = .ret () st' → LockSpared fd st st') ↔
      Prog.wp (E.db.resetLockOwner fd.fileName fd.instanceNumber)
        (fun done db => if done then
            KeepsOwner fd st.db.1 db.1 ∧ st.queue fd.fileName = none ∨
              st.handsOff fd.fileName = none
          else KeepsOwner fd st.db.1 db.1)
        (fun e db => e = .exception → KeepsOwner fd st.db.1 db.1) st.db := by
  have hread : ∀ db, (st.released session xid fd db).handsOff fd.fileName =
      st.handsOff fd.fileName := by
    intro db
    apply Leader.handsOff_congr
    · rfl
    · exact fun s => UMap.get_touch _ _ _
  have hone : ∀ st₁ : Leader (Store × List Fate),
      (∀ st', Outcome.ret () st₁ = (.ret () st' : Outcome Stop _ Unit) → LockSpared fd st st') ↔
        LockSpared fd st st₁ := by
    intro st₁
    constructor
    · exact fun h => h st₁ rfl
    · rintro h _ ⟨⟩
      exact h
  have hends := release_ends E session xid st fd
  generalize release E fd session xid st = o at hends ⊢
  unfold Prog.wp
  cases hends with
  | noClient hnone => exact absurd hnone hc
  | crashed hdb =>
    rw [hdb]
    exact iff_of_true nofun nofun
  | @threw db _ hdb =>
    rw [hdb]
    refine (hone _).trans ((lockSpared_replied st db _).trans ?_)
    exact ⟨fun h _ => h, fun h => h rfl⟩
  | @refused db _ hdb =>
    rw [hdb]
    exact (hone _).trans (lockSpared_replied st db _)
  | @stopped db e st' _ hdb hoff =>
    rw [hdb]
    have hnone := hoff.handsOff
    rw [hread db] at hnone
    exact iff_of_true nofun (Or.inr hnone.symm)
  | @released db st' _ hdb hoff =>
    rw [hdb]
    refine (hone _).trans ((lockSpared_released hnon hoff).trans (or_iff_left fun hnone => ?_).symm)
    -- the hand-off has ended
    have hsome := hoff.handsOff
    rw [hread db, hnone] at hsome
    cases hsome

variable {sq : Engine} {strHash : Str → UInt64}

theorem resetSpares_answered (hfate : nextFate st.db = .answered) (kept : Prop) :
    ResetSpares fd st kept ↔
      kept ∧ st.queue fd.fileName = none ∨ st.handsOff fd.fileName = none := by
  simp [ResetSpares, hfate]

theorem resetSpares_unanswered (hfate : nextFate st.db = .unanswered) (kept : Prop) :
    ResetSpares fd st kept ↔ kept := by
  simp [ResetSpares, hfate]

/-- The reset of the lock, from the rows of the database. -/
theorem reset_spares (st : Leader (Store × List Fate)) :
    Prog.wp (ServerDb.resetLockOwner sq fd.fileName (wire fd.instanceNumber))
        (fun done db => if done then ResetSpares fd st (KeepsOwner fd st.db.1 db)
          else KeepsOwner fd st.db.1 db)
        (fun e db => e = .exception → KeepsOwner fd st.db.1 db) st.db.1 ↔
      ∀ row, query sq "instance_number".toList fd.fileName st.db.1 = .ok (some row) →
        UInt64.ofInt row.instanceNumber = wire fd.instanceNumber →
        match quoted fd.fileName with
        | some token => st.db.1.inTransaction = false → ResetSpares fd st
            (∀ r ∈ st.db.1.row fd.fileName, nameIs sq token r = true → r.lockOwner = noOwner)
        | none => Prog.wp (unlockFound sq fd.fileName)
            (fun _ db' => ResetSpares fd st (KeepsOwner fd st.db.1 db'))
            (fun e db' => e = .exception → KeepsOwner fd st.db.1 db') st.db.1 := by
  have hstop : ∀ e : Fault, e = .exception → KeepsOwner fd st.db.1 st.db.1 := fun _ _ => rfl
  rw [wp_checked (resetLockOwner_checked sq _) ((if_neg Bool.false_ne_true).mpr rfl) hstop]
  refine forall_congr' fun row => forall_congr' fun _ => forall_congr' fun _ => ?_
  rw [wp_unlockFound]
  cases htoken : quoted fd.fileName with
  | none => exact Iff.rfl
  | some token =>
    rw [wp_unlockFound_token htoken fun _ => rfl]
    refine forall_congr' fun _ => ?_
    have hreset : KeepsOwner fd st.db.1 { st.db.1.updateWhere (nameIs sq token)
        FsRow.withoutOwner with inTransaction := false } ↔ _ := ownerOf_reset
    rw [hreset]

end Spares

/-- In every state, whatever becomes of the calls to the database: a `release` by a
    client that does not hold the lock leaves it alone if and only if the reset that
    it makes finds the lock free and nobody waiting. -/
theorem holderReleases_iff (sq : Engine) (strHash : Str → UInt64) (session : SessionId)
    (xid : Xid) (fd : FileHandler) (st : Leader (Store × List Fate)) :
    HolderReleases sq strHash session xid fd st ↔ ResetsFree sq session fd st := by
  unfold HolderReleases ResetsFree
  by_cases hc : st.client session = []
  · refine iff_of_true (fun _ st' hret => ?_) fun hcon => absurd hc hcon
    have hends := release_ends (Service.unreliable sq strHash) session xid st fd
    rw [hret] at hends
    cases hends with
    | threw hc' _ => exact absurd hc hc'
    | refused hc' _ => exact absurd hc hc'
    | released hc' _ _ => exact absurd hc hc'
  rw [forall_prop_of_true hc]
  by_cases hnon : NonHolder fd st.db.1 (st.client session)
  · rw [forall_prop_of_true hnon, forall_prop_of_true hnon, release_spares hc hnon,
      unreliable_resetLockOwner, wp_facing]
    cases hfate : nextFate st.db with
    | lost => exact iff_of_true (fun _ => rfl) fun hcon => absurd rfl hcon
    | answered =>
      have hrun : Fate.answered ≠ .lost := nofun
      rw [forall_prop_of_true hrun, ← reset_spares]
      simp only [resetSpares_answered hfate]
    | unanswered =>
      have hrun : Fate.unanswered ≠ .lost := nofun
      rw [forall_prop_of_true hrun, ← reset_spares]
      simp only [resetSpares_unanswered hfate, ite_self, forall_true_left]
  · exact iff_of_true (fun hcon => absurd hcon hnon) fun hcon => absurd hcon hnon

/-- The second session has the file open that the first has locked. -/
def opensLocked : List Input :=
  let fd : FileHandler := ⟨0, 0, ['/', 'f'], 1, false⟩
  [.rpc 1 1 (.startSession ['1']), .rpc 2 1 (.startSession ['2']),
    .rpc 1 2 (.fileOpen ['/', 'f'] ModeFlag.createFile), .rpc 2 2 (.fileOpen ['/', 'f'] 0),
    .rpc 1 3 (.acquire fd)]

/-- A client releases the lock that another client holds. -/
theorem not_holderReleases :
    ¬ ∀ st, ((Service.unreliable .refusing fun _ => 0).leader (.empty, []) 0).Reach
      (fun _ _ => True) st → ∀ session xid fd,
        HolderReleases .refusing (fun _ => 0) session xid fd st := by
  intro hall
  let E := Service.unreliable .refusing fun _ => 0
  let fd : FileHandler := ⟨0, 0, ['/', 'f'], 1, false⟩
  have hrun : (((E.leader (.empty, []) 0).exec (fun _ _ => True) opensLocked
      (.fresh (.empty, []) 0)).bind fun st => (release E fd 2 4 st).returned.map fun st' =>
        (st.client 2, st.db.1.lock ['/', 'f'], st.db.1.ownerOf ['/', 'f'],
          st'.db.1.ownerOf ['/', 'f'])) =
            some (['2'], some ⟨1, ['1']⟩, some ['1'], some noOwner) := by decide +kernel
  obtain ⟨st, hst, hends⟩ := Option.bind_eq_some_iff.mp hrun
  obtain ⟨st', hret, hread⟩ := Option.map_eq_some_iff.mp hends
  obtain ⟨_, hrelease⟩ := Outcome.returned_eq_some.mp hret
  simp only [Prod.mk.injEq] at hread
  obtain ⟨hclient, hlock, hbefore, hafter⟩ := hread
  have hnon : NonHolder fd st.db.1 (st.client 2) := by
    intro l hl
    obtain rfl : ⟨1, ['1']⟩ = l := Option.some.inj (hlock.symm.trans hl)
    rw [hclient]
    exact Or.inr (by decide)
  have hspared := hall st (Lts.Reach.exec (.init rfl) hst) 2 4 fd hnon st' hrelease
  have howner : st'.db.1.ownerOf ['/', 'f'] = st.db.1.ownerOf ['/', 'f'] := hspared.owner
  rw [hbefore, hafter] at howner
  exact absurd howner (by decide)

end SimpleChubby
