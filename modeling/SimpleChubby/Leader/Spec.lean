import SimpleChubby.Lib.Lts
import SimpleChubby.Leader.Handlers

/-!
# What each handler can do

One relation for each handler between the state it starts in and how it ends,
with a constructor for each way through the handler and the guards on that way.
Every handler is shown to stay inside its relation, and later modules argue by
cases on the relations without unfolding a handler.
-/

namespace SimpleChubby

variable {δ : Type}

/-! ## The shared helpers -/

theorem Leader.findFd_value (st : Leader δ) (session : SessionId) (fd : FileHandler) :
    (st.findFd session fd).value = fd := by
  unfold Leader.findFd
  cases h : (st.fds session).find? (sameFd fd) with
  | none => rfl
  | some p => exact sameFd_iff.mp (List.find?_some h)

section Rules

variable {α : Type} {Q : α → Leader δ → Prop} {F : Stop → Leader δ → Prop} {st : Leader δ}

open Prog

/-- A database call returns, throws, or fails an assertion. -/
theorem wp_callDb {op : Prog Fault δ α} {Q : Option α → Leader δ → Prop}
    (hret : ∀ a db, op st.db = .ret a db → Q (some a) (st.setDb db))
    (hthrow : ∀ db, op st.db = .stop .exception db → Q none (st.setDb db))
    (hcrash : ∀ db, op st.db = .stop .assertion db → F .database (st.setDb db)) :
    wp (callDb op) Q F st := by
  unfold callDb
  simp only [wp_bind, wp_embed]
  unfold wp
  cases h : op st.db with
  | ret a db => exact hret a db h
  | stop e db =>
    cases e with
    | exception => exact hthrow db h
    | assertion => exact hcrash db h

@[simp] theorem wp_record {action : Action} {Q : Unit → Leader δ → Prop} :
    wp (record action) Q F st ↔ Q () (st.logged [action]) := Iff.rfl

@[simp] theorem wp_reply {session : SessionId} {xid : Xid} {body : Reply}
    {Q : Unit → Leader δ → Prop} :
    wp (reply session xid body) Q F st ↔ Q () (st.logged (Leader.replyOf session xid body)) :=
  Iff.rfl

@[simp] theorem wp_clientOf {session : SessionId} {Q : Str → Leader δ → Prop} :
    wp (clientOf session) Q F st ↔ Q (st.client session) (st.touchClient session) := by
  have h : (st.touchClient session).client session = st.client session := UMap.get_touch _ _ _
  simp only [clientOf, wp_bind, wp_modify, wp_gets, h]

@[simp] theorem wp_check {c : Bool} {site : Assertion} {Q : Unit → Leader δ → Prop} :
    wp (check c site) Q F st ↔ if c then Q () st else F (.assertion site) st := by
  simp only [check, wp_ite, wp_pure, wp_halt]

/-- The first two lines of most handlers. -/
theorem wp_client {session : SessionId} {k : Str → Api δ α}
    (hno : st.client session = [] → ∀ st', F (.assertion .clientId) st')
    (hk : st.client session ≠ [] → wp (k (st.client session)) Q F (st.touchClient session)) :
    wp (do
      let clientId ← clientOf session
      check (clientId ≠ []) .clientId
      k clientId) Q F st := by
  simp only [wp_bind, wp_clientOf, wp_check]
  by_cases hc : st.client session = []
  · simpa [hc] using hno hc _
  · simpa [hc] using hk hc

@[simp] theorem wp_findFd {session : SessionId} {fd : FileHandler}
    {Q : Option FdRecord → Leader δ → Prop} :
    wp (findFd session fd) Q F st ↔
      Q (some (st.findFd session fd)) (st.foundFd session fd) := by
  have hfds : (st.touchFds session).fds session = st.fds session := UMap.get_touch _ _ _
  simp only [findFd, wp_bind, wp_modify, wp_gets, hfds]
  cases h : (st.fds session).find? (sameFd fd) with
  | none => simp [addFd, Leader.findFd, Leader.foundFd, Leader.openFd, Leader.touchFds, h]
  | some p => simp [Leader.findFd, Leader.foundFd, Leader.touchFds, h]

end Rules

/-! ## How the handlers end -/

section Ends

variable (E : Service δ) (session : SessionId) (xid : Xid)

/-- `db'` is the database after a call that did not fail an assertion; `r` is
    its result, or `none` when it threw. -/
inductive Called {α : Type} (op : Prog Fault δ α) (db : δ) : Option α → δ → Prop
  | returned {a : α} {db' : δ} : op db = .ret a db' → Called op db (some a) db'
  | threw {db' : δ} : op db = .stop .exception db' → Called op db none db'

/-- The database call of `fileOpen`. -/
def openCall (fileName : Str) (mode : Mode) : Prog Fault δ (Option UInt64) :=
  if mode.has ModeFlag.createDirectory || mode.has ModeFlag.createFile then
    E.db.checkAndCreate fileName (mode.has ModeFlag.createDirectory)
  else E.db.checkAndOpen fileName

/-- The mode under which `fileOpen` marks the file ephemeral: only a file it creates. -/
def ephemeralMode (mode : Mode) : Mode :=
  if mode.has ModeFlag.createDirectory || mode.has ModeFlag.createFile then mode else 0

/-- The state after a successful `fileOpen`, up to the events of the parent. -/
abbrev Leader.opened (st : Leader δ) (fileName : Str) (mode : Mode) (n : UInt64) (db : δ) :
    Leader δ :=
  let fd := signFd E fileName mode n st.masterSequenceNumber
  ((((((st.touchClient session).setDb db).markedEphemeral (st.client session) fileName
    (ephemeralMode mode)).openFd session fd).subscribed session fileName mode).logged
      (Leader.replyOf session xid (.fd fd)))

/-- How `fileOpen` ends. -/
inductive OpenEnds (fileName : Str) (mode : Mode) (st : Leader δ) :
    Outcome Stop (Leader δ) Unit → Prop
  | noClient {st' : Leader δ} : st.client session = [] →
      OpenEnds fileName mode st (.stop (.assertion .clientId) st')
  | badArg : st.client session ≠ [] →
      (checkName fileName = false ∨
        (mode.has ModeFlag.createDirectory && mode.has ModeFlag.createFile) = true) →
      OpenEnds fileName mode st
        (.ret () ((st.touchClient session).logged (Leader.replyOf session xid (.error .badArg))))
  | crashed {db : δ} {st' : Leader δ} : openCall E fileName mode st.db = .stop .assertion db →
      OpenEnds fileName mode st (.stop .database st')
  | failed {r : Option (Option UInt64)} {db : δ} {code : ClientError} :
      st.client session ≠ [] → checkName fileName = true →
      Called (openCall E fileName mode) st.db r db →
      OpenEnds fileName mode st
        (.ret () (((st.touchClient session).setDb db).logged
          (Leader.replyOf session xid (.error code))))
  | opened {n : UInt64} {db : δ} :
      st.client session ≠ [] → checkName fileName = true →
      openCall E fileName mode st.db = .ret (some n) db →
      OpenEnds fileName mode st
        (.ret () ((st.opened E session xid fileName mode n db).logged
          ((st.opened E session xid fileName mode n db).parentEvents fileName)))

variable (fd : FileHandler)

/-- The state after a successful `fileDelete`, up to the events. -/
abbrev Leader.deleted (st : Leader δ) (db : δ) : Leader δ :=
  ((((((st.entered session fd).setDb db).dropRecords fd.fileName).dropFile fd.fileName).dropQueue
    fd.fileName).unmarkEphemeral (st.client session) (E.freedName (st.findFd session fd))).logged
      (Leader.replyOf session xid (.bool true))

/-- How `fileDelete` ends. It never throws. -/
inductive DeleteEnds (st : Leader δ) : Outcome Stop (Leader δ) (Except Unit Unit) → Prop
  | noClient {st' : Leader δ} : st.client session = [] →
      DeleteEnds st (.stop (.assertion .clientId) st')
  | crashed {db : δ} {st' : Leader δ} :
      E.db.checkAndDelete fd.fileName fd.instanceNumber st.db = .stop .assertion db →
      DeleteEnds st (.stop .database st')
  | threw {db : δ} : st.client session ≠ [] →
      E.db.checkAndDelete fd.fileName fd.instanceNumber st.db = .stop .exception db →
      DeleteEnds st (.ret (.ok ()) (((st.entered session fd).setDb db).logged
        (Leader.replyOf session xid (.error .paxosError))))
  | refused {db : δ} : st.client session ≠ [] →
      E.db.checkAndDelete fd.fileName fd.instanceNumber st.db = .ret false db →
      DeleteEnds st (.ret (.ok ()) (((st.entered session fd).setDb db).logged
        (Leader.replyOf session xid (.bool false))))
  | deleted {db : δ} : st.client session ≠ [] →
      E.db.checkAndDelete fd.fileName fd.instanceNumber st.db = .ret true db →
      DeleteEnds st (.ret (.ok ()) (((st.deleted E session xid fd db).logged
        ((st.deleted E session xid fd db).contentEvents fd.fileName ++
          (st.deleted E session xid fd db).parentEvents fd.fileName)).dropEvents fd.fileName))

/-- How `getContentsAndStat` ends. -/
inductive ReadEnds (st : Leader δ) : Outcome Stop (Leader δ) Unit → Prop
  | crashed {db : δ} {st' : Leader δ} :
      E.db.checkAndRead fd.fileName fd.instanceNumber st.db = .stop .assertion db →
      ReadEnds st (.stop .database st')
  | answered {r : Option (Option (Str × MetaData))} {db : δ} {body : Reply} :
      Called (E.db.checkAndRead fd.fileName fd.instanceNumber) st.db r db → body ≠ .bool true →
      (∀ h, body ≠ .fd h) →
      ReadEnds st (.ret () (((st.foundFd session fd).setDb db).logged
        (Leader.replyOf session xid body)))

/-- How `setContents` ends. -/
inductive WriteEnds (content : Str) (st : Leader δ) : Outcome Stop (Leader δ) Unit → Prop
  | crashed {db : δ} {st' : Leader δ} :
      E.db.checkAndUpdate fd.fileName fd.instanceNumber content st.db = .stop .assertion db →
      WriteEnds content st (.stop .database st')
  | failed {r : Option Bool} {db : δ} {code : ClientError} :
      Called (E.db.checkAndUpdate fd.fileName fd.instanceNumber content) st.db r db →
      WriteEnds content st (.ret () (((st.foundFd session fd).setDb db).logged
        (Leader.replyOf session xid (.error code))))
  | written {db : δ} :
      E.db.checkAndUpdate fd.fileName fd.instanceNumber content st.db = .ret true db →
      WriteEnds content st (.ret () (((st.foundFd session fd).setDb db).logged
        (Leader.replyOf session xid (.bool true) ++ st.contentEvents fd.fileName)))

/-- The state after a lock has been taken, up to the events. -/
abbrev Leader.taken (st : Leader δ) (db : δ) : Leader δ :=
  (((st.entered session fd).setDb db).hold (st.client session) fd.fileName).logged
    (Leader.replyOf session xid (.bool true))

/-- How `acquire` and `tryAcquire` end; `busy` is what they do when the database
    refuses the lock. -/
inductive AcquireEnds (busy : Leader δ → Leader δ) (st : Leader δ) :
    Outcome Stop (Leader δ) Unit → Prop
  | noClient {st' : Leader δ} : st.client session = [] →
      AcquireEnds busy st (.stop (.assertion .clientId) st')
  | crashed {db : δ} {st' : Leader δ} :
      E.db.testAndSetLockOwner fd.fileName fd.instanceNumber (st.client session) st.db =
        .stop .assertion db →
      AcquireEnds busy st (.stop .database st')
  | threw {db : δ} : st.client session ≠ [] →
      E.db.testAndSetLockOwner fd.fileName fd.instanceNumber (st.client session) st.db =
        .stop .exception db →
      AcquireEnds busy st (.ret () (((st.entered session fd).setDb db).logged
        (Leader.replyOf session xid (.error .paxosError))))
  | queued {db : δ} {st' : Leader δ} :
      E.db.testAndSetLockOwner fd.fileName fd.instanceNumber (st.client session) st.db =
        .ret true db →
      st.queue fd.fileName ≠ none →
      AcquireEnds busy st (.stop (.assertion .queueAbsent) st')
  | taken {db : δ} : st.client session ≠ [] →
      E.db.testAndSetLockOwner fd.fileName fd.instanceNumber (st.client session) st.db =
        .ret true db →
      st.queue fd.fileName = none →
      AcquireEnds busy st (.ret () ((st.taken session xid fd db).logged
        ((st.taken session xid fd db).lockEvents fd.fileName)))
  | busy {db : δ} : st.client session ≠ [] →
      E.db.testAndSetLockOwner fd.fileName fd.instanceNumber (st.client session) st.db =
        .ret false db →
      AcquireEnds busy st (.ret () (busy ((st.entered session fd).setDb db)))

/-- The state after a waiter has been answered and `rest` keeps waiting. -/
abbrev Leader.granted (st : Leader δ) (fileName : Str) (rest : List (SessionId × Xid)) :
    Leader δ :=
  (((st.dequeue fileName session xid rest).touchClient session).hold (st.client session)
    fileName).logged (Leader.replyOf session xid (.bool true))

/-- How `handOff` ends. -/
inductive HandOffEnds (fileName : Str) (st : Leader δ) : Outcome Stop (Leader δ) Unit → Prop
  | noQueue : st.queue fileName = none → HandOffEnds fileName st (.ret () st)
  | emptyQueue {st' : Leader δ} : st.queue fileName = some [] →
      HandOffEnds fileName st (.stop (.assertion .queueNonempty) st')
  | deadWaiter {session : SessionId} {xid : Xid} {rest : List (SessionId × Xid)}
      {st' : Leader δ} :
      st.queue fileName = some ((session, xid) :: rest) → st.client session = [] →
      HandOffEnds fileName st (.stop (.assertion .waiterClient) st')
  | lastWaiter {session : SessionId} {xid : Xid} :
      st.queue fileName = some [(session, xid)] → st.client session ≠ [] →
      HandOffEnds fileName st (.ret () ((st.granted session xid fileName []).dropQueue fileName))
  | moreWaiters {session : SessionId} {xid : Xid} {rest : List (SessionId × Xid)} :
      st.queue fileName = some ((session, xid) :: rest) → rest ≠ [] → st.client session ≠ [] →
      HandOffEnds fileName st (.ret () (st.granted session xid fileName rest))

/-- The state after the lock has been given up, up to the hand-off. -/
abbrev Leader.released (st : Leader δ) (db : δ) : Leader δ :=
  (((st.entered session fd).setDb db).unhold (st.client session) fd.fileName).logged
    (Leader.replyOf session xid (.bool true))

/-- How `release` ends. -/
inductive ReleaseEnds (st : Leader δ) : Outcome Stop (Leader δ) Unit → Prop
  | noClient {st' : Leader δ} : st.client session = [] →
      ReleaseEnds st (.stop (.assertion .clientId) st')
  | crashed {db : δ} {st' : Leader δ} :
      E.db.resetLockOwner fd.fileName fd.instanceNumber st.db = .stop .assertion db →
      ReleaseEnds st (.stop .database st')
  | threw {db : δ} : st.client session ≠ [] →
      E.db.resetLockOwner fd.fileName fd.instanceNumber st.db = .stop .exception db →
      ReleaseEnds st (.ret () (((st.entered session fd).setDb db).logged
        (Leader.replyOf session xid (.error .paxosError))))
  | refused {db : δ} : st.client session ≠ [] →
      E.db.resetLockOwner fd.fileName fd.instanceNumber st.db = .ret false db →
      ReleaseEnds st (.ret () (((st.entered session fd).setDb db).logged
        (Leader.replyOf session xid (.error .fsFail))))
  | stopped {db : δ} {e : Stop} {st' : Leader δ} : st.client session ≠ [] →
      E.db.resetLockOwner fd.fileName fd.instanceNumber st.db = .ret true db →
      HandOffEnds fd.fileName (st.released session xid fd db) (.stop e st') →
      ReleaseEnds st (.stop e st')
  | released {db : δ} {st' : Leader δ} : st.client session ≠ [] →
      E.db.resetLockOwner fd.fileName fd.instanceNumber st.db = .ret true db →
      HandOffEnds fd.fileName (st.released session xid fd db) (.ret () st') →
      ReleaseEnds st (.ret () (st'.logged (st'.lockEvents fd.fileName)))

/-- How `fileClose` ends its reclaiming of the lock. -/
inductive ReclaimEnds (clientId : Str) (st : Leader δ) : Outcome Stop (Leader δ) Unit → Prop
  | notHeld : fd.fileName ∉ st.held clientId → ReclaimEnds clientId st (.ret () st)
  | held {o : Outcome Stop (Leader δ) Unit} : fd.fileName ∈ st.held clientId →
      ReleaseEnds E session internalXid fd st o → ReclaimEnds clientId st o

/-- How the lock queue ends up after "clear lock queue": `none` when the scan
    of it never ends. -/
inductive ClearsQueue (fileName : Str) (st : Leader δ) : Option (Leader δ) → Prop
  | noQueue : st.queue fileName = none → ClearsQueue fileName st (some st)
  | endless {queue : List (SessionId × Xid)} : st.queue fileName = some queue →
      scanQueue session queue = none → ClearsQueue fileName st none
  | kept {queue copy : List (SessionId × Xid)} : st.queue fileName = some queue →
      scanQueue session queue = some copy → copy ≠ [] → ClearsQueue fileName st (some st)
  | dropped {queue : List (SessionId × Xid)} : st.queue fileName = some queue →
      scanQueue session queue = some [] → ClearsQueue fileName st (some (st.dropQueue fileName))

/-- How `fileClose` ends; `p` is the record it closes. -/
inductive CloseEnds (st : Leader δ) : Outcome Stop (Leader δ) Unit → Prop
  | noClient {st' : Leader δ} : st.client session = [] →
      CloseEnds st (.stop (.assertion .clientId) st')
  | reclaimStops {e : Stop} {st' : Leader δ} :
      st.client session ≠ [] →
      ReclaimEnds E session fd (st.client session) (st.entered session fd) (.stop e st') →
      CloseEnds st (.stop e st')
  | deleteStops {e : Stop} {st₁ st' : Leader δ} : st.client session ≠ [] →
      ReclaimEnds E session fd (st.client session) (st.entered session fd) (.ret () st₁) →
      fd.fileName ∈ st₁.ephemeral (st.client session) →
      DeleteEnds E session internalXid fd (st₁.touchEphemeral (st.client session)) (.stop e st') →
      CloseEnds st (.stop e st')
  | deletes {st₁ st₂ : Leader δ} : st.client session ≠ [] →
      ReclaimEnds E session fd (st.client session) (st.entered session fd) (.ret () st₁) →
      fd.fileName ∈ st₁.ephemeral (st.client session) →
      DeleteEnds E session internalXid fd (st₁.touchEphemeral (st.client session))
        (.ret (.ok ()) st₂) →
      CloseEnds st (.ret () (st₂.logged (Leader.replyOf session xid (.bool true))))
  | endless {st₁ st' : Leader δ} : st.client session ≠ [] →
      ReclaimEnds E session fd (st.client session) (st.entered session fd) (.ret () st₁) →
      fd.fileName ∉ st₁.ephemeral (st.client session) →
      ClearsQueue session fd.fileName ((st₁.touchEphemeral (st.client session)).removeFd session
        ((st.touchClient session).findFd session fd)) none →
      CloseEnds st (.stop .endless st')
  | closes {st₁ st₂ : Leader δ} : st.client session ≠ [] →
      ReclaimEnds E session fd (st.client session) (st.entered session fd) (.ret () st₁) →
      fd.fileName ∉ st₁.ephemeral (st.client session) →
      ClearsQueue session fd.fileName ((st₁.touchEphemeral (st.client session)).removeFd session
        ((st.touchClient session).findFd session fd)) (some st₂) →
      CloseEnds st (.ret () ((st₂.unsubscribed session fd.fileName).logged
        (Leader.replyOf session xid (.bool true))))

/-- How `startSession` ends. -/
inductive StartEnds (clientId : Str) (st : Leader δ) : Outcome Stop (Leader δ) Unit → Prop
  | refused : E.db.isLeaderAndInitialized st.db = false →
      StartEnds clientId st (.ret () (st.logged (Leader.replyOf session xid (.bool false))))
  | started : E.db.isLeaderAndInitialized st.db = true →
      StartEnds clientId st (.ret () ((st.started session clientId).logged
        (Leader.replyOf session xid (.bool true))))

/-- The state `fileReopen` leaves. -/
abbrev Leader.reopened (st : Leader δ) (mode : Mode) : Leader δ :=
  ((((st.openFd session fd).subscribed session fd.fileName mode).touchClient
    session).markedEphemeral (st.client session) fd.fileName mode).logged
      (Leader.replyOf session xid (.bool true))

/-- How the loop of `disconnect` over a list of records ends. -/
inductive CloseAllEnds : List FdRecord → Leader δ → Outcome Stop (Leader δ) Unit → Prop
  | done {st : Leader δ} : CloseAllEnds [] st (.ret () st)
  | stopped {p : FdRecord} {rest : List FdRecord} {st st' : Leader δ} {e : Stop} :
      CloseEnds E session internalXid p.value st (.stop e st') →
      CloseAllEnds (p :: rest) st (.stop e st')
  | next {p : FdRecord} {rest : List FdRecord} {st st₁ : Leader δ}
      {o : Outcome Stop (Leader δ) Unit} :
      CloseEnds E session internalXid p.value st (.ret () st₁) →
      CloseAllEnds rest st₁ o → CloseAllEnds (p :: rest) st o

/-- How `disconnect` ends. -/
inductive DisconnectEnds (st : Leader δ) : Outcome Stop (Leader δ) Unit → Prop
  | stopped {e : Stop} {st' : Leader δ} :
      CloseAllEnds E session (st.fds session) (st.touchFds session) (.stop e st') →
      DisconnectEnds st (.stop e st')
  | left {st' : Leader δ} :
      CloseAllEnds E session (st.fds session) (st.touchFds session) (.ret () st') →
      DisconnectEnds st (.ret () (st'.left session))

/-- The locks recovered by `initializeLeader`. -/
def Leader.recovered (st : Leader δ) (files : List (Str × Str)) : Leader δ :=
  files.foldl (fun st p => st.hold p.2 p.1) st

/-- Only the locks noted change. -/
theorem Leader.recovered_eq (files : List (Str × Str)) (st : Leader δ) :
    ∃ held, st.recovered files = { st with client2heldLockMap := held } := by
  induction files generalizing st with
  | nil => exact ⟨_, rfl⟩
  | cons p rest ih => exact ih (st.hold p.2 p.1)

/-- How `initializeLeader` ends. -/
inductive InitializeEnds (st : Leader δ) : Outcome Stop (Leader δ) Unit → Prop
  | crashed {db : δ} {st' : Leader δ} : E.db.getStates st.db = .stop .assertion db →
      InitializeEnds st (.stop .database st')
  | threw {db : δ} {st' : Leader δ} : E.db.getStates st.db = .stop .exception db →
      InitializeEnds st (.stop .uncaught st')
  | initialized {files : List (Str × Str)} {db : δ} : E.db.getStates st.db = .ret files db →
      InitializeEnds st (.ret () ((st.cleared.setDb db).recovered files))

end Ends

/-! ## Every handler stays inside its relation -/

section Specs

variable (E : Service δ) (session : SessionId) (xid : Xid) (st : Leader δ)

open Prog

theorem handOff_ends (fileName : Str) : HandOffEnds fileName st (handOff fileName st) := by
  apply wp_outcome.mp
  unfold handOff
  simp only [wp_bind, wp_gets]
  cases hq : st.queue fileName with
  | none => exact .noQueue hq
  | some queue =>
    cases queue with
    | nil => exact .emptyQueue hq
    | cons waiter rest =>
      obtain ⟨session, xid⟩ := waiter
      have hclient : (st.dequeue fileName session xid rest).client session = st.client session :=
        rfl
      simp only [wp_bind, wp_modify, wp_clientOf, wp_check, wp_reply, hclient]
      by_cases hc : st.client session = []
      · simp only [hc, ne_eq, not_true_eq_false, decide_false, Bool.false_eq_true, if_false]
        exact .deadWaiter hq hc
      · simp only [hc, ne_eq, not_false_eq_true, decide_true, if_true, wp_ite, wp_modify, wp_pure]
        cases rest with
        | nil => exact .lastWaiter hq hc
        | cons w ws => exact .moreWaiters hq (List.cons_ne_nil _ _) hc

theorem release_ends (fd : FileHandler) :
    ReleaseEnds E session xid fd st (release E fd session xid st) := by
  apply wp_outcome.mp
  refine wp_client (fun hc _ => .noClient hc) (fun hc => ?_)
  simp only [wp_bind, wp_findFd, Leader.findFd_value]
  refine wp_callDb (fun reset db hdb => ?_) (fun db hdb => .threw hc hdb)
    (fun db hdb => .crashed hdb)
  cases reset with
  | false => exact .refused hc hdb
  | true =>
    simp only [finishRelease, wp_bind, wp_modify, wp_reply]
    refine wp_of_outcome (handOff_ends _ _) (fun _ st' h => ?_) (fun e st' h => ?_)
    · exact .released hc hdb h
    · exact .stopped hc hdb h

theorem finishAcquire_ends {busy : Leader δ → Leader δ} {fd : FileHandler} {db : δ}
    (hc : st.client session ≠ [])
    (hdb : E.db.testAndSetLockOwner fd.fileName fd.instanceNumber (st.client session) st.db =
      .ret true db) :
    wp (finishAcquire fd.fileName (st.client session) session xid)
      (fun _ st' => AcquireEnds E session xid fd busy st (.ret () st'))
      (fun e st' => AcquireEnds E session xid fd busy st (.stop e st'))
      ((st.entered session fd).setDb db) := by
  simp only [finishAcquire, wp_bind, wp_gets, wp_check, wp_modify, wp_reply]
  cases hq : st.queue fd.fileName with
  | none =>
    have hhas : st.file2lockQueueMap.has fd.fileName = false := UMap.has_eq_false.mpr hq
    simp only [Leader.setDb_file2lockQueueMap, Leader.foundFd_file2lockQueueMap,
      Leader.touchClient_file2lockQueueMap, hhas]
    exact .taken hc hdb hq
  | some queue =>
    have hhas : st.file2lockQueueMap.has fd.fileName = true := UMap.has_eq_true.mpr ⟨_, hq⟩
    simp only [Leader.setDb_file2lockQueueMap, Leader.foundFd_file2lockQueueMap,
      Leader.touchClient_file2lockQueueMap, hhas]
    exact .queued hdb (by simp [hq])

theorem acquire_ends (fd : FileHandler) :
    AcquireEnds E session xid fd (·.enqueue fd.fileName session xid) st
      (acquire E fd session xid st) := by
  apply wp_outcome.mp
  refine wp_client (fun hc _ => .noClient hc) (fun hc => ?_)
  simp only [wp_bind, wp_findFd, Leader.findFd_value]
  refine wp_callDb (fun free db hdb => ?_) (fun db hdb => .threw hc hdb)
    (fun db hdb => .crashed hdb)
  cases free with
  | false => exact .busy hc hdb
  | true => exact finishAcquire_ends E session xid st hc hdb

theorem tryAcquire_ends (fd : FileHandler) :
    AcquireEnds E session xid fd (·.logged (Leader.replyOf session xid (.bool false))) st
      (tryAcquire E fd session xid st) := by
  apply wp_outcome.mp
  refine wp_client (fun hc _ => .noClient hc) (fun hc => ?_)
  simp only [wp_bind, wp_findFd, Leader.findFd_value]
  refine wp_callDb (fun free db hdb => ?_) (fun db hdb => .threw hc hdb)
    (fun db hdb => .crashed hdb)
  cases free with
  | false => exact .busy hc hdb
  | true => exact finishAcquire_ends E session xid st hc hdb

theorem finishOpen_ends {fileName : Str} {mode : Mode} {n : UInt64} {db : δ}
    (hc : st.client session ≠ []) (hname : checkName fileName = true)
    (hdb : openCall E fileName mode st.db = .ret (some n) db) :
    wp (finishOpen E fileName mode n session xid)
      (fun _ st' => OpenEnds E session xid fileName mode st (.ret () st'))
      (fun e st' => OpenEnds E session xid fileName mode st (.stop e st'))
      (((st.touchClient session).setDb db).markedEphemeral (st.client session) fileName
        (ephemeralMode mode)) := by
  have h : OpenEnds E session xid fileName mode st _ := .opened hc hname hdb
  unfold Leader.parentEvents at h
  simp only [finishOpen, addFd, sendParentEvent, sendContentChangeEvent, wp_bind, wp_gets,
    wp_modify, wp_reply, wp_ite, wp_pure]
  split_ifs at h ⊢ with hroot
  · rw [Leader.logged_nil] at h
    exact h
  · exact h

theorem fileOpen_ends (fileName : Str) (mode : Mode) :
    OpenEnds E session xid fileName mode st (fileOpen E fileName mode session xid st) := by
  apply wp_outcome.mp
  refine wp_client (fun hc _ => .noClient hc) (fun hc => ?_)
  simp only [wp_bind, wp_ite, wp_reply]
  by_cases hname : checkName fileName = true
  · simp only [hname, not_true_eq_false, if_false]
    split_ifs with hboth hcreate
    · exact .badArg hc (Or.inr hboth)
    · have hcall : openCall E fileName mode =
          E.db.checkAndCreate fileName (mode.has ModeFlag.createDirectory) := if_pos hcreate
      have hmode : ephemeralMode mode = mode := if_pos hcreate
      refine wp_callDb (fun r db hdb => ?_) (fun db hdb => ?_) (fun db hdb => ?_)
      · rw [Leader.touchClient_db, ← hcall] at hdb
        cases r with
        | none => exact .failed hc hname (.returned hdb)
        | some n =>
          have h := finishOpen_ends E session xid st hc hname hdb
          rw [hmode] at h
          simpa only [wp_bind, wp_modify] using h
      · rw [Leader.touchClient_db, ← hcall] at hdb
        exact .failed hc hname (.threw hdb)
      · rw [Leader.touchClient_db, ← hcall] at hdb
        exact .crashed hdb
    · have hcall : openCall E fileName mode = E.db.checkAndOpen fileName := if_neg hcreate
      have hmode : ephemeralMode mode = 0 := if_neg hcreate
      refine wp_callDb (fun r db hdb => ?_) (fun db hdb => ?_) (fun db hdb => ?_)
      · rw [Leader.touchClient_db, ← hcall] at hdb
        cases r with
        | none => exact .failed hc hname (.returned hdb)
        | some n =>
          have h := finishOpen_ends E session xid st hc hname hdb
          rw [hmode] at h
          exact h
      · rw [Leader.touchClient_db, ← hcall] at hdb
        exact .failed hc hname (.threw hdb)
      · rw [Leader.touchClient_db, ← hcall] at hdb
        exact .crashed hdb
  · simp only [hname]
    exact .badArg hc (Or.inl (by simpa using hname))

theorem fileDelete_ends (fd : FileHandler) :
    DeleteEnds E session xid fd st (fileDelete E fd session xid st) := by
  apply wp_outcome.mp
  refine wp_client (fun hc _ => .noClient hc) (fun hc => ?_)
  simp only [wp_bind, wp_findFd, Leader.findFd_value]
  refine wp_callDb (fun gone db hdb => ?_) (fun db hdb => ?_) (fun db hdb => .crashed hdb)
  · cases gone with
    | false => exact .refused hc hdb
    | true =>
      have h : DeleteEnds E session xid fd st _ := .deleted hc hdb
      have hhas : ∀ st₁ : Leader δ,
          (st₁.dropRecords fd.fileName).file2fdMap.has fd.fileName = true := by
        intro st₁
        simp [UMap.has]
      simp only [finishDelete, Leader.findFd_value, wp_bind, wp_modify, wp_gets, wp_check, hhas,
        if_true, wp_reply, sendContentChangeEvent, sendParentEvent, wp_ite, wp_pure]
      unfold Leader.parentEvents at h
      split_ifs at h ⊢ with hroot
      · rw [List.append_nil] at h
        exact h
      · rw [← Leader.logged_logged] at h
        exact h
  · have hxid : xid.toUInt64 ≠ 0xFFFFFFFFFFFFFFFF := by
      intro heq
      have := congrArg UInt64.toNat heq
      rw [UInt32.toNat_toUInt64] at this
      have hlt := xid.toNat_lt
      have hbig : (0xFFFFFFFFFFFFFFFF : UInt64).toNat = 18446744073709551615 := rfl
      omega
    simp only [hxid, ne_eq, not_false_eq_true, if_true, wp_bind, wp_reply, wp_pure]
    exact .threw hc hdb

theorem getContentsAndStat_ends (fd : FileHandler) :
    ReadEnds E session xid fd st (getContentsAndStat E fd session xid st) := by
  apply wp_outcome.mp
  unfold getContentsAndStat
  simp only [wp_bind, wp_findFd, Leader.findFd_value]
  refine wp_callDb (fun r db hdb => ?_) (fun db hdb => ?_) (fun db hdb => .crashed hdb)
  · cases r with
    | none => exact .answered (.returned hdb) (by simp) (by simp)
    | some content => exact .answered (.returned hdb) (by simp) (by simp)
  · exact .answered (.threw hdb) (by simp) (by simp)

theorem setContents_ends (fd : FileHandler) (content : Str) :
    WriteEnds E session xid fd content st (setContents E fd content session xid st) := by
  apply wp_outcome.mp
  unfold setContents
  simp only [wp_bind, wp_findFd, Leader.findFd_value]
  refine wp_callDb (fun done db hdb => ?_) (fun db hdb => .failed (.threw hdb))
    (fun db hdb => .crashed hdb)
  cases done with
  | false => exact .failed (.returned hdb)
  | true =>
    have h : WriteEnds E session xid fd content st _ := .written hdb
    rw [← Leader.logged_logged] at h
    exact h

theorem startSession_ends (clientId : Str) :
    StartEnds E session xid clientId st (startSession E clientId session xid st) := by
  apply wp_outcome.mp
  unfold startSession
  simp only [wp_bind, wp_gets, wp_ite, wp_reply, wp_modify]
  cases h : E.db.isLeaderAndInitialized st.db with
  | false => exact .refused h
  | true => exact .started h

theorem fileReopen_eq (fd : FileHandler) (mode : Mode) :
    fileReopen fd mode session xid st = .ret () (st.reopened session xid fd mode) := by
  have h : wp (fileReopen fd mode session xid) (fun _ st' => st' = st.reopened session xid fd mode)
      (fun _ _ => False) st := by
    simp only [fileReopen, addFd, wp_bind, wp_modify, wp_clientOf, wp_reply]
    rfl
  cases hr : fileReopen fd mode session xid st with
  | ret _ st' => rw [wp_of_ret h hr]
  | stop e st' => exact (wp_of_stop h hr).elim

theorem clearLockQueue_ends (fileName : Str) :
    wp (clearLockQueue session fileName)
      (fun _ st' => ClearsQueue session fileName st (some st'))
      (fun e _ => e = .endless ∧ ClearsQueue session fileName st none) st := by
  simp only [clearLockQueue, wp_bind, wp_gets]
  cases hq : st.queue fileName with
  | none => exact .noQueue hq
  | some queue =>
    cases hs : scanQueue session queue with
    | none =>
      simp only [hs, wp_halt]
      exact ⟨trivial, .endless hq hs⟩
    | some copy =>
      simp only [hs, wp_ite, wp_modify, wp_pure]
      cases copy with
      | nil => exact .dropped hq hs
      | cons w ws => exact .kept hq hs (List.cons_ne_nil _ _)

/-- `fileClose` from where the lock has been released; `p` is the record of `fd`. -/
def closeReclaimed (clientId : Str) (fd : FileHandler) (p : FdRecord) : Api δ Unit := do
  Prog.modify (·.touchEphemeral clientId)
  if ← Prog.gets fun st => decide (fd.fileName ∈ st.ephemeral clientId) then
    match ← fileDelete E fd session internalXid with
    | .error () => reply session xid (.error .paxosError)
    | .ok () => reply session xid (.bool true)
  else
    finishClose p session xid

theorem closeReclaimed_ends {fd : FileHandler} {st₁ : Leader δ} (hc : st.client session ≠ [])
    (h : ReclaimEnds E session fd (st.client session) (st.entered session fd) (.ret () st₁)) :
    wp (closeReclaimed E session xid (st.client session) fd
        ((st.touchClient session).findFd session fd))
      (fun _ st' => CloseEnds E session xid fd st (.ret () st'))
      (fun e st' => CloseEnds E session xid fd st (.stop e st')) st₁ := by
  have hread : (st₁.touchEphemeral (st.client session)).ephemeral (st.client session) =
      st₁.ephemeral (st.client session) := UMap.get_touch _ _ _
  simp only [closeReclaimed, wp_bind, wp_modify, wp_gets, wp_ite, hread, decide_eq_true_eq]
  split_ifs with heph
  · refine wp_of_outcome (fileDelete_ends E session internalXid _ fd) (fun r st₂ h₂ => ?_)
      (fun e st₂ h₂ => .deleteStops hc h heph h₂)
    cases r with
    | error u => cases h₂
    | ok u => exact .deletes hc h heph h₂
  · simp only [finishClose, wp_bind, wp_modify, Leader.findFd_value]
    refine wp_mono (clearLockQueue_ends session _ fd.fileName) (fun _ st₂ h₂ => ?_)
      (fun e st₂ h₂ => ?_)
    · exact .closes hc h heph h₂
    · obtain ⟨rfl, h₂⟩ := h₂
      exact .endless hc h heph h₂

theorem fileClose_ends (fd : FileHandler) :
    CloseEnds E session xid fd st (fileClose E fd session xid st) := by
  apply wp_outcome.mp
  refine wp_client (fun hc _ => .noClient hc) (fun hc => ?_)
  simp only [wp_bind, wp_findFd, Leader.findFd_value, wp_gets]
  by_cases hheld : fd.fileName ∈ st.held (st.client session)
  · have hmem : fd.fileName ∈ (st.entered session fd).held (st.client session) := hheld
    simp only [hmem, decide_true, if_true, wp_bind]
    refine wp_of_outcome (release_ends E session internalXid _ fd) (fun _ st₁ h => ?_)
      (fun e st₁ h => .reclaimStops hc (.held hheld h))
    exact closeReclaimed_ends E session xid st hc (.held hheld h)
  · have hmem : fd.fileName ∉ (st.entered session fd).held (st.client session) := hheld
    simp only [hmem, decide_false, Bool.false_eq_true, if_false]
    exact closeReclaimed_ends E session xid st hc (.notHeld hheld)

theorem closeAll_ends : ∀ (l : List FdRecord) (st : Leader δ), CloseAllEnds E session l st
    (Prog.forEach (fun p => fileClose E p.value session internalXid) l st)
  | [], _ => .done
  | p :: rest, st => by
    apply wp_outcome.mp
    rw [wp_forEach_cons]
    refine wp_of_outcome (fileClose_ends E session internalXid st p.value) (fun _ st₁ h => ?_)
      (fun e st₁ h => .stopped h)
    exact wp_of_outcome (closeAll_ends rest st₁) (fun _ st' h' => .next h h')
      (fun e st' h' => .next h h')

theorem disconnect_ends : DisconnectEnds E session st (disconnect E session st) := by
  apply wp_outcome.mp
  have hfds : (st.touchFds session).fds session = st.fds session := UMap.get_touch _ _ _
  simp only [disconnect, wp_bind, wp_modify, wp_gets, hfds]
  exact wp_of_outcome (closeAll_ends E session _ _) (fun _ st' h => .left h)
    (fun e st' h => .stopped h)

theorem wp_recover (files : List (Str × Str)) {Q : Unit → Leader δ → Prop}
    {F : Stop → Leader δ → Prop} :
    wp (Prog.forEach (fun p => Prog.modify (·.hold p.2 p.1)) files) Q F st ↔
      Q () (st.recovered files) := by
  induction files generalizing st with
  | nil => rfl
  | cons p rest ih =>
    rw [wp_forEach_cons, wp_modify, ih]
    rfl

theorem initializeLeader_ends : InitializeEnds E st (initializeLeader E st) := by
  apply wp_outcome.mp
  simp only [initializeLeader, wp_bind, wp_modify]
  refine wp_callDb (fun files db hdb => ?_) (fun db hdb => .threw hdb) (fun db hdb => .crashed hdb)
  rw [wp_recover]
  exact .initialized hdb

end Specs

/-! ## The leader as a transition system -/

section Handling

variable (E : Service δ)

/-- How the handling of an input ends. -/
inductive Handles (st : Leader δ) : Input → Outcome Stop (Leader δ) Unit → Prop
  | fileOpen {s : SessionId} {x : Xid} {name : Str} {mode : Mode}
      {o : Outcome Stop (Leader δ) Unit} :
      OpenEnds E s x name mode (st.logged [.call s x (.fileOpen name mode)]) o →
      Handles st (.rpc s x (.fileOpen name mode)) o
  | fileClose {s : SessionId} {x : Xid} {fd : FileHandler} {o : Outcome Stop (Leader δ) Unit} :
      CloseEnds E s x fd (st.logged [.call s x (.fileClose fd)]) o →
      Handles st (.rpc s x (.fileClose fd)) o
  | fileDelete {s : SessionId} {x : Xid} {fd : FileHandler} {st' : Leader δ} :
      DeleteEnds E s x fd (st.logged [.call s x (.fileDelete fd)]) (.ret (.ok ()) st') →
      Handles st (.rpc s x (.fileDelete fd)) (.ret () st')
  | fileDeleteStops {s : SessionId} {x : Xid} {fd : FileHandler} {e : Stop} {st' : Leader δ} :
      DeleteEnds E s x fd (st.logged [.call s x (.fileDelete fd)]) (.stop e st') →
      Handles st (.rpc s x (.fileDelete fd)) (.stop e st')
  | getContentsAndStat {s : SessionId} {x : Xid} {fd : FileHandler}
      {o : Outcome Stop (Leader δ) Unit} :
      ReadEnds E s x fd (st.logged [.call s x (.getContentsAndStat fd)]) o →
      Handles st (.rpc s x (.getContentsAndStat fd)) o
  | setContents {s : SessionId} {x : Xid} {fd : FileHandler} {content : Str}
      {o : Outcome Stop (Leader δ) Unit} :
      WriteEnds E s x fd content (st.logged [.call s x (.setContents fd content)]) o →
      Handles st (.rpc s x (.setContents fd content)) o
  | acquire {s : SessionId} {x : Xid} {fd : FileHandler} {o : Outcome Stop (Leader δ) Unit} :
      AcquireEnds E s x fd (·.enqueue fd.fileName s x) (st.logged [.call s x (.acquire fd)]) o →
      Handles st (.rpc s x (.acquire fd)) o
  | tryAcquire {s : SessionId} {x : Xid} {fd : FileHandler} {o : Outcome Stop (Leader δ) Unit} :
      AcquireEnds E s x fd (·.logged (Leader.replyOf s x (.bool false)))
        (st.logged [.call s x (.tryAcquire fd)]) o →
      Handles st (.rpc s x (.tryAcquire fd)) o
  | release {s : SessionId} {x : Xid} {fd : FileHandler} {o : Outcome Stop (Leader δ) Unit} :
      ReleaseEnds E s x fd (st.logged [.call s x (.release fd)]) o →
      Handles st (.rpc s x (.release fd)) o
  | startSession {s : SessionId} {x : Xid} {clientId : Str} {o : Outcome Stop (Leader δ) Unit} :
      StartEnds E s x clientId (st.logged [.call s x (.startSession clientId)]) o →
      Handles st (.rpc s x (.startSession clientId)) o
  | fileReopen {s : SessionId} {x : Xid} {fd : FileHandler} {mode : Mode} :
      Handles st (.rpc s x (.fileReopen fd mode))
        (.ret () ((st.logged [.call s x (.fileReopen fd mode)]).reopened s x fd mode))
  | disconnect {s : SessionId} {o : Outcome Stop (Leader δ) Unit} :
      DisconnectEnds E s (st.logged [.disconnected s]) o → Handles st (.disconnect s) o
  | initializeLeader {o : Outcome Stop (Leader δ) Unit} :
      InitializeEnds E (st.logged [.initialized]) o → Handles st .initializeLeader o

theorem handle_ends (st : Leader δ) (input : Input) :
    Handles E st input (handle E input st) := by
  apply Prog.wp_outcome.mp
  cases input with
  | disconnect s =>
    simp only [handle, Prog.wp_bind, wp_record]
    exact Prog.wp_outcome.mpr (.disconnect (disconnect_ends E s _))
  | initializeLeader =>
    simp only [handle, Prog.wp_bind, wp_record]
    exact Prog.wp_outcome.mpr (.initializeLeader (initializeLeader_ends E _))
  | rpc s x request =>
    simp only [handle, Prog.wp_bind, wp_record]
    cases request with
    | fileOpen name mode => exact Prog.wp_outcome.mpr (.fileOpen (fileOpen_ends E s x _ name mode))
    | fileClose fd => exact Prog.wp_outcome.mpr (.fileClose (fileClose_ends E s x _ fd))
    | fileDelete fd =>
      simp only [dispatch, Prog.wp_bind]
      refine Prog.wp_of_outcome (fileDelete_ends E s x _ fd) (fun r st' h => ?_)
        (fun e st' h => .fileDeleteStops h)
      cases r with
      | error u => cases h
      | ok u => exact .fileDelete h
    | getContentsAndStat fd =>
      exact Prog.wp_outcome.mpr (.getContentsAndStat (getContentsAndStat_ends E s x _ fd))
    | setContents fd content =>
      exact Prog.wp_outcome.mpr (.setContents (setContents_ends E s x _ fd content))
    | acquire fd => exact Prog.wp_outcome.mpr (.acquire (acquire_ends E s x _ fd))
    | tryAcquire fd => exact Prog.wp_outcome.mpr (.tryAcquire (tryAcquire_ends E s x _ fd))
    | release fd => exact Prog.wp_outcome.mpr (.release (release_ends E s x _ fd))
    | startSession clientId =>
      exact Prog.wp_outcome.mpr (.startSession (startSession_ends E s x _ clientId))
    | fileReopen fd mode =>
      refine Prog.wp_outcome.mpr ?_
      rw [dispatch, fileReopen_eq]
      exact .fileReopen

theorem step_ends {st st' : Leader δ} {input : Input} (h : Leader.step E input st = some st') :
    Handles E st input (.ret () st') := by
  have hends := handle_ends E st input
  unfold Leader.step at h
  cases hrun : handle E input st with
  | ret u t =>
    rw [hrun] at h hends
    rw [← Option.some.inj h]
    exact hends
  | stop e t =>
    rw [hrun] at h
    cases h

/-- A request is handled by its handler. -/
theorem dispatch_of_step {E : Service δ} {st st' : Leader δ} {s : SessionId} {x : Xid}
    {request : Request}
    (h : Leader.step E (.rpc s x request) st = some st') :
    dispatch E s x request (st.logged [.call s x request]) = .ret () st' := by
  have hrun : handle E (.rpc s x request) st =
      dispatch E s x request (st.logged [.call s x request]) := rfl
  unfold Leader.step at h
  rw [hrun] at h
  cases hdispatch : dispatch E s x request (st.logged [.call s x request]) with
  | ret u t =>
    rw [hdispatch] at h
    rw [← Option.some.inj h]
  | stop e t =>
    rw [hdispatch] at h
    cases h

theorem disconnect_of_step {E : Service δ} {st st' : Leader δ} {s : SessionId}
    (h : Leader.step E (.disconnect s) st = some st') :
    disconnect E s (st.logged [.disconnected s]) = .ret () st' := by
  have hrun : handle E (.disconnect s) st = disconnect E s (st.logged [.disconnected s]) := rfl
  unfold Leader.step at h
  rw [hrun] at h
  cases hdisconnect : disconnect E s (st.logged [.disconnected s]) with
  | ret u t =>
    rw [hdisconnect] at h
    rw [← Option.some.inj h]
  | stop e t =>
    rw [hdisconnect] at h
    cases h

/-- The leader over the replicated database, every Paxos call succeeding. -/
def Service.paxos (sq : Engine) (strHash : Str → UInt64) (stillNamed : FdRecord → Bool) :
    Service Store where
  db := serverDbPaxos (leaderPaxos sq strHash)
  strHash := strHash
  stillNamed := stillNamed

/-- The leader over a fresh start on the database `db`. -/
def Service.leader (db : δ) (masterSequenceNumber : UInt64) : Lts (Leader δ) Input where
  init st := st = Leader.fresh db masterSequenceNumber
  step := Leader.step E

end Handling

/-- Two sessions that want one lock: the second waits until the first is gone. -/
def contention : List Input :=
  let fd : FileHandler := ⟨0, 0, ['/', 'f'], 1, false⟩
  [.rpc 1 1 (.startSession ['1']), .rpc 2 1 (.startSession ['2']),
    .rpc 1 2 (.fileOpen ['/', 'f'] ModeFlag.createFile), .rpc 1 3 (.acquire fd),
    .rpc 2 2 (.acquire fd), .disconnect 1]

end SimpleChubby
