import SimpleChubby.Leader.Frame
import SimpleChubby.ServerDb.Locks

/-!
# No orphaned locks

A lock that the database records for a client is also noted in memory for that
client, and one of the client's sessions has the node open under its current
instance number. The latter is what makes `disconnect` give the lock back: the
loop closes every handle of the session, and closing that one resets the owner.
-/

namespace SimpleChubby

/-- The handle an RPC presents. -/
def Request.handle : Request → Option FileHandler
  | .fileOpen _ _ => none
  | .startSession _ => none
  | .fileClose fd => some fd
  | .fileDelete fd => some fd
  | .getContentsAndStat fd => some fd
  | .setContents fd _ => some fd
  | .acquire fd => some fd
  | .tryAcquire fd => some fd
  | .release fd => some fd
  | .fileReopen fd _ => some fd

/-- The content an RPC stores. -/
def Request.content : Request → Str
  | .setContents _ content => content
  | _ => []

/-- The client id an RPC registers its session with. -/
def Request.starts : Request → Option Str
  | .startSession clientId => some clientId
  | _ => none

/-- A session starts once, before anything else, with a decimal client id.
    Handles have names that `checkName` accepts, and contents no double quote.
    The leader is not initialised again. -/
def Orderly (st : Leader Store) : Input → Prop
  | .rpc session _ request =>
    (∀ clientId ∈ request.starts,
      st.session2clientMap.find session = none ∧ Decimal clientId) ∧
    (request.starts = none → st.session2clientMap.find session ≠ none) ∧
    (∀ fd ∈ request.handle, checkName fd.fileName = true) ∧ '"' ∉ request.content
  | .disconnect _ => True
  | .initializeLeader => False

instance (st : Leader Store) : ∀ input, Decidable (Orderly st input)
  | .rpc session _ request => inferInstanceAs (Decidable (
      (∀ clientId ∈ request.starts,
        st.session2clientMap.find session = none ∧ Decimal clientId) ∧
      (request.starts = none → st.session2clientMap.find session ≠ none) ∧
      (∀ fd ∈ request.handle, checkName fd.fileName = true) ∧ '"' ∉ request.content))
  | .disconnect _ => inferInstanceAs (Decidable True)
  | .initializeLeader => inferInstanceAs (Decidable False)

section Invariant

/-- The lock of a node is noted for its owner, and a session of the owner has
    the node open under its current instance number. -/
def Leader.Owned (st : Leader Store) (fileName : Str) (l : NodeLock) : Prop :=
  l.owner ≠ [] ∧ fileName ∈ st.held l.owner ∧ ∃ s, st.client s = l.owner ∧
    ∃ p ∈ st.fds s, p.value.fileName = fileName ∧ wire p.value.instanceNumber = l.instanceNumber

/-- The invariant of orderly runs. -/
structure LocksOk (st : Leader Store) : Prop where
  ready : st.db.Ready
  indexed : st.Indexed
  clients : ∀ s c, st.session2clientMap.find s = some c → Decimal c
  names : ∀ s, ∀ p ∈ st.fds s, NameOk p.value.fileName
  owned : ∀ f l, st.db.lock f = some l → l.owner ≠ noOwner → st.Owned f l

variable {st st' : Leader Store} {session : SessionId} {xid : Xid} {fd : FileHandler}
  {fileName : Str} {l : NodeLock}

theorem Leader.find_of_client (hc : st.client session ≠ []) :
    st.session2clientMap.find session = some (st.client session) :=
  UMap.find_of_get_ne hc

theorem LocksOk.decimal (h : LocksOk st) (hc : st.client session ≠ []) :
    Decimal (st.client session) :=
  h.clients session _ (Leader.find_of_client hc)

/-- What is enough for a lock to stay in order. -/
theorem Leader.Owned.keep (h : st.Owned fileName l)
    (hsessions : st'.session2clientMap = st.session2clientMap)
    (hheld : fileName ∈ st.held l.owner → fileName ∈ st'.held l.owner)
    (hfds : ∀ s, st.client s = l.owner → ∀ p ∈ st.fds s, p.value.fileName = fileName →
      wire p.value.instanceNumber = l.instanceNumber → p ∈ st'.fds s) : st'.Owned fileName l := by
  obtain ⟨hne, hin, s, hs, p, hp, hname, hn⟩ := h
  refine ⟨hne, hheld hin, s, ?_, p, hfds s hs p hp hname hn, hname, hn⟩
  unfold Leader.client at hs ⊢
  rw [hsessions]
  exact hs

/-- The invariant reads the database, the handles, the sessions and the notes. -/
theorem LocksOk.of_eq (h : LocksOk st) (hdb : st'.db = st.db)
    (hfile : st'.file2fdMap = st.file2fdMap) (hfds : st'.session2fdMap = st.session2fdMap)
    (hnext : st'.nextAddress = st.nextAddress)
    (hsessions : st'.session2clientMap = st.session2clientMap)
    (hheld : st'.client2heldLockMap = st.client2heldLockMap) : LocksOk st' := by
  obtain ⟨hready, hindexed, hclients, hnames, howned⟩ := h
  unfold Leader.Indexed at hindexed
  unfold Leader.Owned Leader.held Leader.client Leader.fds at howned
  unfold Leader.fds at hnames
  rw [← hdb] at hready howned
  rw [← hfile, ← hfds, ← hnext] at hindexed
  rw [← hfds] at hnames howned
  rw [← hsessions] at hclients howned
  rw [← hheld] at howned
  exact ⟨hready, hindexed, hclients, hnames, howned⟩

/-- The state after the client and the handle have been looked up. -/
theorem LocksOk.entered (h : LocksOk st) (hc : st.client session ≠ [])
    (hname : NameOk fd.fileName) : LocksOk (st.entered session fd) where
  ready := h.ready
  indexed := Leader.Indexed.foundFd h.indexed session fd
  clients := by
    show ∀ s c, (st.touchClient session).session2clientMap.find s = some c → Decimal c
    rw [Leader.touchClient_sessions hc]
    exact h.clients
  names := by
    intro s p hp
    rcases Leader.mem_of_foundFd hp with hp | ⟨_, rfl⟩
    · exact h.names s p hp
    · exact hname
  owned := by
    intro f l hl howner
    exact (h.owned f l hl howner).keep (Leader.touchClient_sessions hc) id fun s _ p hp _ _ =>
      Leader.mem_foundFd (st.touchClient session) session fd hp

end Invariant

/-! ## The handlers keep the invariant -/

section Handlers

variable {sq : Engine} {strHash : Str → UInt64} {stillNamed : FdRecord → Bool}
  {session : SessionId} {xid : Xid}
  {fd : FileHandler} {st st' : Leader Store}

/-- The handle is not the one that holds the lock for the client. -/
def Leader.Closed (st : Leader Store) (clientId : Str) (fd : FileHandler) : Prop :=
  ∀ l, st.db.lock fd.fileName = some l → l.instanceNumber = wire fd.instanceNumber →
    l.owner ≠ clientId

/-- No lock is taken between two states. -/
def Leader.LocksFrom (st st' : Leader Store) : Prop :=
  ∀ f l, st'.db.lock f = some l → l.owner ≠ noOwner → st.db.lock f = some l

theorem Leader.LocksFrom.trans {st₁ : Leader Store} (h : st.LocksFrom st₁)
    (h' : st₁.LocksFrom st') : st.LocksFrom st' := by
  intro f l hl howner
  exact h f l (h' f l hl howner) howner

/-- A handle that has no lock gets none unless one is taken. -/
theorem Leader.Closed.mono {clientId : Str} (h : st.Closed clientId fd)
    (hid : clientId ≠ noOwner) (hfrom : st.LocksFrom st') : st'.Closed clientId fd := by
  rintro l hl hn rfl
  exact h l (hfrom _ l hl hid) hn rfl

/-- Releasing a lock; afterwards the handle has none. -/
theorem ReleaseEnds.locksOk
    (h : ReleaseEnds (Service.paxos sq strHash stillNamed) session xid fd st (.ret () st'))
    (hok : LocksOk st) (hname : NameOk fd.fileName) :
    LocksOk st' ∧ st.LocksFrom st' ∧ ∀ clientId, clientId ≠ noOwner → st'.Closed clientId fd := by
  have hspec := lock_resetLockOwner sq strHash hok.ready hname fd.instanceNumber
  have hsessions := h.sessions
  have hindexed := h.indexed hok.indexed
  have hnames : ∀ s, ∀ p ∈ st'.fds s, NameOk p.value.fileName := by
    intro s p hp
    rcases h.mem_of_fds hp with hp | ⟨_, rfl⟩
    · exact hok.names s p hp
    · exact hname
  have hfds : ∀ s p, p ∈ st.fds s → p ∈ st'.fds s := fun s p hp => h.mem_fds hp
  cases h with
  | threw hc hdb =>
    have hthrew : LockResets fd.fileName fd.instanceNumber st.db (.stop .exception _) :=
      hdb ▸ hspec
    cases hthrew
  | refused hc hdb =>
    have hrefused : LockResets fd.fileName fd.instanceNumber st.db (.ret false _) := hdb ▸ hspec
    cases hrefused with
    | refused hwhy =>
      refine ⟨(hok.entered hc hname).of_eq rfl rfl rfl rfl rfl rfl, fun _ _ hl _ => hl, ?_⟩
      intro clientId _ l hl hn
      exact absurd hn (hwhy l hl)
  | @released db st₁ hc hdb hoff =>
    have hreset : LockResets fd.fileName fd.instanceNumber st.db (.ret true db) := hdb ▸ hspec
    cases hreset with
    | reset hready hlock hupdate =>
      obtain ⟨o, hheld, _⟩ := hoff.moves
      have hdb₁ : st₁.db = db := hoff.db
      rw [← hdb₁] at hready hupdate
      -- the entry of the node is free, the others are as they were
      have hother : ∀ f l, st₁.db.lock f = some l → l.owner ≠ noOwner →
          f ≠ fd.fileName ∧ st.db.lock f = some l := by
        intro f l hl howner
        rw [hupdate] at hl
        by_cases hf : f = fd.fileName
        · subst hf
          rw [Function.update_self] at hl
          cases hl
          exact absurd rfl howner
        · rw [Function.update_of_ne hf] at hl
          exact ⟨hf, hl⟩
      refine ⟨⟨hready, hindexed, ?_, hnames, ?_⟩, fun f l hl howner => (hother f l hl howner).2, ?_⟩
      · rw [hsessions]
        exact hok.clients
      · intro f l hl howner
        obtain ⟨hf, hl⟩ := hother f l hl howner
        refine (hok.owned f l hl howner).keep hsessions (fun hin => ?_) fun s _ p hp _ _ =>
          hfds s p hp
        refine (hheld _ f).mpr (Or.inl (Leader.mem_unhold.mpr ⟨hin, ?_⟩))
        exact fun hcon => hf hcon.2
      · rintro clientId hid l hl hn rfl
        exact (hother _ l hl hid).1 rfl

/-- Reclaiming the lock; afterwards the handle has none for the session's client. -/
theorem ReclaimEnds.locksOk
    (h : ReclaimEnds (Service.paxos sq strHash stillNamed) session fd (st.client session)
      (st.entered session fd) (.ret () st'))
    (hok : LocksOk st) (hc : st.client session ≠ []) (hname : NameOk fd.fileName) :
    LocksOk st' ∧ st.LocksFrom st' ∧ st'.Closed (st.client session) fd := by
  have hid := (hok.decimal hc).ne_noOwner
  have hentered : LocksOk (st.entered session fd) := hok.entered hc hname
  cases h with
  | notHeld hnot =>
    refine ⟨hentered, fun _ _ hl _ => hl, ?_⟩
    intro l hl _ howner
    have howned := hok.owned _ l hl (by rw [howner]; exact hid)
    have hin := howned.2.1
    rw [howner] at hin
    exact hnot hin
  | held _ hr =>
    obtain ⟨hok', hfrom, hclosed⟩ := hr.locksOk hentered hname
    exact ⟨hok', hfrom, hclosed _ hid⟩

theorem DeleteEnds.locksOk {r : Except Unit Unit}
    (h : DeleteEnds (Service.paxos sq strHash stillNamed) session xid fd st (.ret r st'))
    (hok : LocksOk st) (hname : NameOk fd.fileName) : LocksOk st' ∧ st.LocksFrom st' := by
  have hspec := lock_checkAndDelete sq strHash hok.ready hname fd.instanceNumber
  have hindexed := h.indexed hok.indexed
  have hnames : ∀ s, ∀ p ∈ st'.fds s, NameOk p.value.fileName := by
    intro s p hp
    rcases h.mem_of_fds hp with hp | ⟨_, rfl⟩
    · exact hok.names s p hp
    · exact hname
  have hsessions := h.sessions
  cases h with
  | threw hc hdb =>
    have hthrew : LockDeletes fd.fileName fd.instanceNumber st.db (.stop .exception _) :=
      hdb ▸ hspec
    cases hthrew
  | refused hc hdb =>
    have hrefused : LockDeletes fd.fileName fd.instanceNumber st.db (.ret false _) := hdb ▸ hspec
    cases hrefused with
    | refused =>
      exact ⟨(hok.entered hc hname).of_eq rfl rfl rfl rfl rfl rfl, fun _ _ hl _ => hl⟩
  | @deleted db hc hdb =>
    have hdeleted : LockDeletes fd.fileName fd.instanceNumber st.db (.ret true db) := hdb ▸ hspec
    cases hdeleted with
    | deleted hready hlock hupdate =>
      have hother : ∀ f l, db.lock f = some l → f ≠ fd.fileName ∧ st.db.lock f = some l := by
        intro f l hl
        rw [hupdate] at hl
        by_cases hf : f = fd.fileName
        · subst hf
          rw [Function.update_self] at hl
          cases hl
        · rw [Function.update_of_ne hf] at hl
          exact ⟨hf, hl⟩
      refine ⟨⟨hready, hindexed, ?_, hnames, ?_⟩, fun f l hl _ => (hother f l hl).2⟩
      · rw [hsessions]
        exact hok.clients
      · intro f l hl howner
        obtain ⟨hf, hl⟩ := hother f l hl
        refine (hok.owned f l hl howner).keep hsessions id fun s _ p hp hpname _ => ?_
        have hfound : (st.entered session fd).Indexed :=
          Leader.Indexed.foundFd hok.indexed session fd
        have hin := Leader.mem_foundFd (st.touchClient session) session fd hp
        exact (Leader.mem_dropRecords hfound).mpr ⟨hin, by rw [hpname]; exact hf⟩

/-- Removing a record whose handle has no lock for the session's client. -/
theorem LocksOk.removeFd (hok : LocksOk st) {q : FdRecord} (hq : q ∈ st.fds session)
    (hclosed : st.Closed (st.client session) q.value) : LocksOk (st.removeFd session q) where
  ready := hok.ready
  indexed := HandleIndex.removed hok.indexed hq
  clients := hok.clients
  names s p hp := hok.names s p (Leader.mem_removeFd.mp hp).1
  owned f l hl howner := by
    refine (hok.owned f l hl howner).keep rfl id fun s hs p hp hpname hn => ?_
    refine Leader.mem_removeFd.mpr ⟨hp, ?_⟩
    rintro rfl haddress
    obtain ⟨_, rfl⟩ := hok.indexed.owned s s p q hp hq haddress
    rw [← hpname] at hl
    exact hclosed l hl hn.symm hs.symm

theorem ClearsQueue.locksOk {fileName : Str} (h : ClearsQueue session fileName st (some st'))
    (hok : LocksOk st) : LocksOk st' ∧ st'.db = st.db := by
  cases h with
  | noQueue _ => exact ⟨hok, rfl⟩
  | kept _ _ _ => exact ⟨hok, rfl⟩
  | dropped _ _ => exact ⟨hok.of_eq rfl rfl rfl rfl rfl rfl, rfl⟩

theorem CloseEnds.locksOk
    (h : CloseEnds (Service.paxos sq strHash stillNamed) session xid fd st (.ret () st'))
    (hok : LocksOk st) (hname : NameOk fd.fileName) :
    LocksOk st' ∧ st.LocksFrom st' ∧ st'.Closed (st.client session) fd := by
  cases h with
  | @deletes st₁ st₂ hc hreclaim _ hdelete =>
    obtain ⟨hok₁, hfrom₁, hclosed⟩ := hreclaim.locksOk hok hc hname
    have htouched : LocksOk (st₁.touchEphemeral (st.client session)) :=
      hok₁.of_eq rfl rfl rfl rfl rfl rfl
    obtain ⟨hok₂, hfrom₂⟩ := hdelete.locksOk htouched hname
    have hid := (hok.decimal hc).ne_noOwner
    refine ⟨hok₂.of_eq rfl rfl rfl rfl rfl rfl, hfrom₁.trans hfrom₂, ?_⟩
    exact hclosed.mono hid hfrom₂
  | @closes st₁ st₂ hc hreclaim _ hclear =>
    obtain ⟨hok₁, hfrom₁, hclosed⟩ := hreclaim.locksOk hok hc hname
    have htouched : LocksOk (st₁.touchEphemeral (st.client session)) :=
      hok₁.of_eq rfl rfl rfl rfl rfl rfl
    have hmem := hreclaim.mem_fds ((st.touchClient session).findFd_mem session fd)
    have hvalue := Leader.findFd_value (st.touchClient session) session fd
    have hclient : st₁.client session = st.client session := hreclaim.client session
    have hremoved := htouched.removeFd hmem (by
      rw [hvalue]
      show st₁.Closed (st₁.client session) fd
      rw [hclient]
      exact hclosed)
    obtain ⟨hok₂, hdb⟩ := hclear.locksOk hremoved
    have hdb₁ : st₂.db = st₁.db := hdb
    refine ⟨hok₂.of_eq rfl rfl rfl rfl rfl rfl, ?_, ?_⟩
    · intro f l hl howner
      have hl' : st₂.db.lock f = some l := hl
      rw [hdb₁] at hl'
      exact hfrom₁ f l hl' howner
    · intro l hl
      have hl' : st₂.db.lock fd.fileName = some l := hl
      rw [hdb₁] at hl'
      exact hclosed l hl'

/-- After the loop of `disconnect` no handle it closed has a lock for the client. -/
theorem CloseAllEnds.locksOk {l : List FdRecord} {o : Outcome Stop (Leader Store) Unit}
    (h : CloseAllEnds (Service.paxos sq strHash stillNamed) session l st o) (ho : o = .ret () st')
    (hok : LocksOk st) (hnames : ∀ p ∈ l, NameOk p.value.fileName) :
    LocksOk st' ∧ st.LocksFrom st' ∧ ∀ p ∈ l, st'.Closed (st.client session) p.value := by
  induction h with
  | done =>
    cases ho
    exact ⟨hok, fun _ _ hl _ => hl, fun p hp => by cases hp⟩
  | stopped _ => cases ho
  | @next q rest st st₁ o hclose hrest ih =>
    obtain ⟨hok₁, hfrom₁, hclosed⟩ := hclose.locksOk hok (hnames q List.mem_cons_self)
    have hc : st.client session ≠ [] := by
      cases hclose with
      | deletes hc _ _ _ => exact hc
      | closes hc _ _ _ => exact hc
    have hid := (hok.decimal hc).ne_noOwner
    have hclient : st₁.client session = st.client session := by
      unfold Leader.client
      rw [hclose.sessions]
    obtain ⟨hok', hfrom', hclosed'⟩ := ih ho hok₁ fun p hp => hnames p (List.mem_cons_of_mem _ hp)
    refine ⟨hok', hfrom₁.trans hfrom', fun p hp => ?_⟩
    rcases List.mem_cons.mp hp with rfl | hp
    · exact hclosed.mono hid hfrom'
    · rw [← hclient]
      exact hclosed' p hp

/-- What is enough where no lock moves and no handle goes. -/
theorem LocksOk.grow (hok : LocksOk st) (hready : st'.db.Ready) (hfrom : st.LocksFrom st')
    (hindexed : st'.Indexed) (hsessions : st'.session2clientMap = st.session2clientMap)
    (hheld : st'.client2heldLockMap = st.client2heldLockMap)
    (hnames : ∀ s, ∀ p ∈ st'.fds s, p ∈ st.fds s ∨ NameOk p.value.fileName)
    (hfds : ∀ s, ∀ p ∈ st.fds s, p ∈ st'.fds s) : LocksOk st' where
  ready := hready
  indexed := hindexed
  clients := by
    rw [hsessions]
    exact hok.clients
  names s p hp := by
    rcases hnames s p hp with hp | hname
    · exact hok.names s p hp
    · exact hname
  owned f l hl howner := by
    refine (hok.owned f l (hfrom f l hl howner) howner).keep hsessions (fun hin => ?_)
      fun s _ p hp _ _ => hfds s p hp
    unfold Leader.held at hin ⊢
    rw [hheld]
    exact hin

/-- The call of `fileOpen` takes no lock. -/
theorem lockOpens_openCall (hready : st.db.Ready) {fileName : Str} (hname : NameOk fileName)
    (mode : Mode) :
    LockOpens fileName st.db
      (openCall (Service.paxos sq strHash stillNamed) fileName mode st.db) := by
  unfold openCall
  split_ifs
  · exact lock_checkAndCreate sq strHash hready hname _
  · exact lock_checkAndOpen sq strHash hready hname

theorem LockOpens.locksFrom {fileName : Str} {r : Option UInt64} {db : Store}
    (h : LockOpens fileName st.db (.ret r db)) :
    db.Ready ∧ ∀ f l, db.lock f = some l → l.owner ≠ noOwner → st.db.lock f = some l := by
  cases h with
  | kept hready hlock =>
    refine ⟨hready, fun f l hl _ => ?_⟩
    rw [hlock] at hl
    exact hl
  | created hready hnone hlock =>
    refine ⟨hready, fun f l hl howner => ?_⟩
    rw [hlock] at hl
    by_cases hf : f = fileName
    · subst hf
      rw [Function.update_self] at hl
      cases hl
      exact absurd rfl howner
    · rw [Function.update_of_ne hf] at hl
      exact hl

theorem OpenEnds.locksOk {fileName : Str} {mode : Mode}
    (h : OpenEnds (Service.paxos sq strHash stillNamed) session xid fileName mode st (.ret () st'))
    (hok : LocksOk st) : LocksOk st' := by
  have hspec : checkName fileName = true →
      LockOpens fileName st.db
        (openCall (Service.paxos sq strHash stillNamed) fileName mode st.db) :=
    fun hname => lockOpens_openCall hok.ready (checkName_iff.mp hname) mode
  cases h with
  | badArg hc _ =>
    exact hok.grow hok.ready (fun _ _ hl _ => hl) hok.indexed (Leader.touchClient_sessions hc) rfl
      (fun _ _ hp => Or.inl hp) fun _ _ hp => hp
  | @failed r db code hc hname hcall =>
    cases hcall with
    | threw hdb =>
      have hthrew : LockOpens fileName st.db (.stop .exception db) := hdb ▸ hspec hname
      cases hthrew
    | @returned r _ hdb =>
      have hopens : LockOpens fileName st.db (.ret r db) := hdb ▸ hspec hname
      obtain ⟨hready, hfrom⟩ := hopens.locksFrom
      exact hok.grow hready hfrom hok.indexed (Leader.touchClient_sessions hc) rfl
        (fun _ _ hp => Or.inl hp) fun _ _ hp => hp
  | @opened n db hc hname hdb =>
    have hopens : LockOpens fileName st.db (.ret (some n) db) := hdb ▸ hspec hname
    obtain ⟨hready, hfrom⟩ := hopens.locksFrom
    refine hok.grow hready hfrom (HandleIndex.opened hok.indexed _ _)
      (Leader.touchClient_sessions hc) rfl (fun s p hp => ?_) fun s p hp => ?_
    · rcases Leader.mem_openFd.mp hp with hp | ⟨_, rfl⟩
      · exact Or.inl hp
      · exact Or.inr (checkName_iff.mp hname)
    · exact Leader.mem_openFd.mpr (Or.inl hp)

/-- A handler that looks a handle up and makes a call that has nothing to do with locks. -/
theorem LocksOk.found (hok : LocksOk st) (hname : NameOk fd.fileName) {α : Type} {r : α}
    {db : Store} (hkeeps : LockKeeps st.db (.ret r db)) :
    LocksOk ((st.foundFd session fd).setDb db) := by
  cases hkeeps with
  | kept hready hlock =>
    refine hok.grow hready (fun f l hl _ => ?_) (Leader.Indexed.foundFd hok.indexed session fd)
      rfl rfl (fun s p hp => ?_) fun s p hp => st.mem_foundFd session fd hp
    · have hl' : db.lock f = some l := hl
      rw [hlock] at hl'
      exact hl'
    · rcases Leader.mem_of_foundFd hp with hp | ⟨_, rfl⟩
      · exact Or.inl hp
      · exact Or.inr hname

/-- A read that returns leaves every lock as it is. -/
theorem ReadEnds.keeps (h : ReadEnds (Service.paxos sq strHash stillNamed) session xid fd st
    (.ret () st'))
    (hready : st.db.Ready) (hname : NameOk fd.fileName) :
    ∃ r db body, LockKeeps (α := Option (Str × MetaData)) st.db (.ret r db) ∧
      st' = ((st.foundFd session fd).setDb db).logged (Leader.replyOf session xid body) := by
  have hspec := lock_checkAndRead sq strHash hready hname fd.instanceNumber
  cases h with
  | @answered r db body hcall _ _ =>
    cases hcall with
    | threw hdb =>
      have hthrew : LockKeeps (α := Option (Str × MetaData)) st.db (.stop .exception db) :=
        hdb ▸ hspec
      cases hthrew
    | @returned r _ hdb => exact ⟨r, db, body, hdb ▸ hspec, rfl⟩

/-- And so does an update of the content. -/
theorem WriteEnds.keeps {content : Str}
    (h : WriteEnds (Service.paxos sq strHash stillNamed) session xid fd content st (.ret () st'))
    (hready : st.db.Ready) (hname : NameOk fd.fileName) (hquote : '"' ∉ content) :
    ∃ (r : Bool) (db : Store) (body : Reply) (after : List Action),
      LockKeeps st.db (.ret r db) ∧ (after = [] ∨ after = st.contentEvents fd.fileName) ∧
      st' =
        ((st.foundFd session fd).setDb db).logged (Leader.replyOf session xid body ++ after) := by
  have hspec := lock_checkAndUpdate sq strHash hready hname fd.instanceNumber hquote
  cases h with
  | @failed r db code hcall =>
    cases hcall with
    | threw hdb =>
      have hthrew : LockKeeps (α := Bool) st.db (.stop .exception db) := hdb ▸ hspec
      cases hthrew
    | @returned r _ hdb =>
      exact ⟨r, db, .error code, [], hdb ▸ hspec, Or.inl rfl, by rw [List.append_nil]⟩
  | @written db hdb => exact ⟨true, db, .bool true, _, hdb ▸ hspec, Or.inr rfl, rfl⟩

theorem ReadEnds.locksOk (h : ReadEnds (Service.paxos sq strHash stillNamed) session xid fd st
    (.ret () st'))
    (hok : LocksOk st) (hname : NameOk fd.fileName) : LocksOk st' := by
  obtain ⟨r, db, body, hkeeps, rfl⟩ := h.keeps hok.ready hname
  exact (hok.found hname hkeeps).of_eq rfl rfl rfl rfl rfl rfl

theorem WriteEnds.locksOk {content : Str}
    (h : WriteEnds (Service.paxos sq strHash stillNamed) session xid fd content st (.ret () st'))
    (hok : LocksOk st) (hname : NameOk fd.fileName) (hquote : '"' ∉ content) : LocksOk st' := by
  obtain ⟨r, db, body, after, hkeeps, _, rfl⟩ := h.keeps hok.ready hname hquote
  exact (hok.found hname hkeeps).of_eq rfl rfl rfl rfl rfl rfl

/-- A lock taken is noted, and the handle it was taken with is open. -/
theorem AcquireEnds.locksOk {busy : Leader Store → Leader Store}
    (h : AcquireEnds (Service.paxos sq strHash stillNamed) session xid fd busy st (.ret () st'))
    (hok : LocksOk st) (hname : NameOk fd.fileName)
    (hbusy : ∀ st₁, LocksOk st₁ → LocksOk (busy st₁)) : LocksOk st' := by
  have hspec : st.client session ≠ [] →
      LockTakes fd.fileName fd.instanceNumber (st.client session) st.db _ := fun hc =>
    lock_testAndSetLockOwner sq strHash hok.ready hname fd.instanceNumber (hok.decimal hc).quote
  cases h with
  | @threw db hc hdb =>
    have hthrew : LockTakes fd.fileName fd.instanceNumber (st.client session) st.db
      (.stop .exception db) := hdb ▸ hspec hc
    cases hthrew
  | @busy db hc hdb =>
    have hrefused : LockTakes fd.fileName fd.instanceNumber (st.client session) st.db
      (.ret false db) := hdb ▸ hspec hc
    cases hrefused with
    | refused _ => exact hbusy _ ((hok.entered hc hname).of_eq rfl rfl rfl rfl rfl rfl)
  | @taken db hc hdb hq =>
    have htaken : LockTakes fd.fileName fd.instanceNumber (st.client session) st.db
      (.ret true db) := hdb ▸ hspec hc
    have hin := hok.entered hc hname
    cases htaken with
    | @taken _ stored hready hlock hupdate hstored =>
      obtain rfl := hstored (hok.decimal hc)
      refine ⟨hready, hin.indexed, hin.clients, hin.names, fun f l hl howner => ?_⟩
      have hl' : db.lock f = some l := hl
      rw [hupdate] at hl'
      by_cases hf : f = fd.fileName
      · subst hf
        rw [Function.update_self] at hl'
        cases hl'
        refine ⟨hc, Leader.mem_hold.mpr (Or.inr ⟨rfl, rfl⟩), session, ?_,
          (st.touchClient session).findFd session fd, ?_, ?_, ?_⟩
        · exact UMap.get_touch _ _ _
        · exact Leader.findFd_mem (st.touchClient session) session fd
        · rw [Leader.findFd_value]
        · rw [Leader.findFd_value]
      · rw [Function.update_of_ne hf] at hl'
        exact (hin.owned f l hl' howner).keep rfl
          (fun hheld => Leader.mem_hold.mpr (Or.inl hheld)) fun _ _ _ hp _ _ => hp

theorem StartEnds.locksOk {clientId : Str}
    (h : StartEnds (Service.paxos sq strHash stillNamed) session xid clientId st (.ret () st'))
    (hok : LocksOk st) (hfresh : st.session2clientMap.find session = none)
    (hid : Decimal clientId) : LocksOk st' := by
  cases h with
  | refused hl => cases hl
  | started _ =>
    refine ⟨hok.ready, hok.indexed, fun s c hs => ?_, hok.names, fun f l hl howner => ?_⟩
    · have hset : (st.session2clientMap.set session clientId).find s = some c := hs
      rw [UMap.find_set] at hset
      split_ifs at hset
      · cases hset
        exact hid
      · exact hok.clients s c hset
    · obtain ⟨hne, hin, s, hs, p, hp, hpname, hn⟩ := hok.owned f l hl howner
      refine ⟨hne, hin, s, ?_, p, hp, hpname, hn⟩
      show (st.session2clientMap.set session clientId).get s = l.owner
      rw [UMap.get_set, if_neg]
      · exact hs
      · rintro rfl
        unfold Leader.client at hs
        rw [UMap.get_of_find_none hfresh] at hs
        exact hne hs.symm

/-- When the session has left, the locks that remain belong to other sessions. -/
theorem DisconnectEnds.locksOk
    (h : DisconnectEnds (Service.paxos sq strHash stillNamed) session st (.ret () st'))
    (hok : LocksOk st) : LocksOk st' := by
  cases h with
  | @left st₁ hall =>
    have htouch : ∀ s, (st.touchFds session).fds s = st.fds s := fun s => UMap.get_touch _ _ _
    have htouched : LocksOk (st.touchFds session) := by
      refine hok.grow hok.ready (fun _ _ hl _ => hl) (hok.indexed.of_get htouch) rfl rfl
        (fun s p hp => ?_) fun s p hp => ?_
      · rw [htouch] at hp
        exact Or.inl hp
      · rw [htouch]
        exact hp
    obtain ⟨hok₁, hfrom, hclosed⟩ := hall.locksOk rfl htouched (hok.names session)
    have hsessions : st₁.session2clientMap = st.session2clientMap := hall.sessions rfl
    refine ⟨hok₁.ready, hok₁.indexed, fun s c hs => ?_, hok₁.names, fun f l hl howner => ?_⟩
    · have herase : (st₁.session2clientMap.erase session).find s = some c := hs
      rw [UMap.find_erase] at herase
      split_ifs at herase
      exact hok₁.clients s c herase
    · obtain ⟨hne, hin, s, hs, p, hp, hpname, hn⟩ := hok₁.owned f l hl howner
      refine ⟨hne, hin, s, ?_, p, hp, hpname, hn⟩
      show (st₁.session2clientMap.erase session).get s = l.owner
      rw [UMap.get_erase, if_neg]
      · exact hs
      · -- every handle the session has left was closed by the loop
        rintro rfl
        have hvalue : ∃ q ∈ st.fds s, p.value = q.value := by
          rcases hall.mem_of_fds rfl hp with hp | ⟨_, hq⟩
          · rw [htouch] at hp
            exact ⟨p, hp, rfl⟩
          · exact hq
        obtain ⟨q, hq, hpq⟩ := hvalue
        rw [hpq] at hpname hn
        rw [← hpname] at hl
        refine hclosed q hq l hl hn.symm ?_
        unfold Leader.client at hs ⊢
        rw [← hs, hsessions]
        rfl

/-- `fileReopen` adds a handle. -/
theorem LocksOk.reopened (hok : LocksOk st) (hc : st.client session ≠ [])
    (hname : NameOk fd.fileName) (mode : Mode) : LocksOk (st.reopened session xid fd mode) := by
  refine hok.grow hok.ready (fun _ _ hl _ => hl) (HandleIndex.opened hok.indexed _ _)
    (Leader.touchClient_sessions hc) rfl (fun s p hp => ?_) fun s p hp => ?_
  · rcases Leader.mem_openFd.mp hp with hp | ⟨_, rfl⟩
    · exact Or.inl hp
    · exact Or.inr hname
  · exact Leader.mem_openFd.mpr (Or.inl hp)

/-- One orderly input keeps the invariant. -/
theorem Handles.locksOk {input : Input}
    (h : Handles (Service.paxos sq strHash stillNamed) st input (.ret () st')) (hok : LocksOk st)
    (horderly : Orderly st input) : LocksOk st' := by
  have hlogged : ∀ actions, LocksOk (st.logged actions) :=
    fun _ => hok.of_eq rfl rfl rfl rfl rfl rfl
  cases h with
  | fileOpen ho => exact ho.locksOk (hlogged _)
  | fileClose ho =>
    obtain ⟨_, _, hname, _⟩ := horderly
    exact (ho.locksOk (hlogged _) (checkName_iff.mp (hname _ rfl))).1
  | fileDelete ho =>
    obtain ⟨_, _, hname, _⟩ := horderly
    exact (ho.locksOk (hlogged _) (checkName_iff.mp (hname _ rfl))).1
  | getContentsAndStat ho =>
    obtain ⟨_, _, hname, _⟩ := horderly
    exact ho.locksOk (hlogged _) (checkName_iff.mp (hname _ rfl))
  | setContents ho =>
    obtain ⟨_, _, hname, hquote⟩ := horderly
    exact ho.locksOk (hlogged _) (checkName_iff.mp (hname _ rfl)) hquote
  | acquire ho =>
    obtain ⟨_, _, hname, _⟩ := horderly
    exact ho.locksOk (hlogged _) (checkName_iff.mp (hname _ rfl)) fun st₁ h₁ =>
      h₁.of_eq rfl rfl rfl rfl rfl rfl
  | tryAcquire ho =>
    obtain ⟨_, _, hname, _⟩ := horderly
    exact ho.locksOk (hlogged _) (checkName_iff.mp (hname _ rfl)) fun st₁ h₁ =>
      h₁.of_eq rfl rfl rfl rfl rfl rfl
  | release ho =>
    obtain ⟨_, _, hname, _⟩ := horderly
    exact (ho.locksOk (hlogged _) (checkName_iff.mp (hname _ rfl))).1
  | startSession ho =>
    obtain ⟨hfresh, hid⟩ := horderly.1 _ rfl
    exact ho.locksOk (hlogged _) hfresh hid
  | @fileReopen s x fd mode =>
    obtain ⟨_, hregistered, hname, _⟩ := horderly
    obtain ⟨c, hfind⟩ := Option.ne_none_iff_exists'.mp (hregistered rfl)
    have hc : st.client s ≠ [] := by
      have hclient : st.client s = c := UMap.get_of_find_some hfind
      rw [hclient]
      exact (hok.clients s c hfind).1
    exact (hlogged _).reopened hc (checkName_iff.mp (hname _ rfl)) mode
  | disconnect ho => exact ho.locksOk (hlogged _)
  | initializeLeader _ => exact horderly.elim

end Handlers

/-! ## Orderly runs -/

/-- No lock is orphaned: a lock the database records for a client is noted for
    it, and a live session of the client has the node open; no lock is recorded
    for a client without a session. -/
structure NoOrphans (st : Leader Store) : Prop where
  owned : ∀ r ∈ st.db.fs, r.lockOwner ≠ noOwner → r.name ∈ st.held r.lockOwner ∧
    ∃ s, st.session2clientMap.find s = some r.lockOwner ∧
      ∃ p ∈ st.fds s, p.value.fileName = r.name
  gone : ∀ c, c ≠ noOwner → (∀ s, st.session2clientMap.find s ≠ some c) →
    ∀ r ∈ st.db.fs, r.lockOwner ≠ c

theorem LocksOk.noOrphans {st : Leader Store} (hok : LocksOk st) : NoOrphans st := by
  have howned : ∀ r ∈ st.db.fs, r.lockOwner ≠ noOwner → r.name ∈ st.held r.lockOwner ∧
      ∃ s, st.session2clientMap.find s = some r.lockOwner ∧
        ∃ p ∈ st.fds s, p.value.fileName = r.name := by
    intro r hr howner
    obtain ⟨hne, hheld, s, hs, p, hp, hname, _⟩ :=
      hok.owned r.name r.lock (Store.lock_of_mem hok.ready hr) howner
    rw [← hs] at hne
    have hfind := Leader.find_of_client hne
    rw [hs] at hfind
    exact ⟨hheld, s, hfind, p, hp, hname⟩
  refine ⟨howned, ?_⟩
  rintro c hc hnone r hr rfl
  obtain ⟨_, s, hs, _⟩ := howned r hr hc
  exact hnone s hs

theorem LocksOk.fresh (masterSequenceNumber : UInt64) :
    LocksOk (Leader.fresh .empty masterSequenceNumber) where
  ready := Store.ready_empty
  indexed := HandleIndex.empty
  clients s c hs := by cases hs
  names s p hp := by cases hp
  owned f l hl := by cases hl

/-- In every state of an orderly run from an empty store no lock is orphaned. -/
theorem noOrphans_reachable (sq : Engine) (strHash : Str → UInt64)
    (stillNamed : FdRecord → Bool)
    (masterSequenceNumber : UInt64) (st : Leader Store)
    (h : ((Service.paxos sq strHash stillNamed).leader .empty masterSequenceNumber).Reach
      Orderly st) :
    NoOrphans st := by
  have hok : LocksOk st := by
    refine h.invariant ?_ ?_
    · rintro st rfl
      exact LocksOk.fresh masterSequenceNumber
    · intro st st' input _ hok horderly hstep
      exact (step_ends _ hstep).locksOk hok horderly
  exact hok.noOrphans

theorem noOrphans_contention :
    ∃ st, ((Service.paxos .refusing (fun _ => 0) inlineNamed).leader .empty 0).exec Orderly
      contention.dropLast
      (.fresh .empty 0) = some st ∧ (∃ r ∈ st.db.fs, r.lockOwner = ['1']) ∧ NoOrphans st := by
  have hrun :
      ∃ st, ((Service.paxos .refusing (fun _ => 0) inlineNamed).leader .empty 0).exec Orderly
      contention.dropLast (.fresh .empty 0) = some st ∧ ∃ r ∈ st.db.fs, r.lockOwner = ['1'] := by
    refine ⟨_, rfl, ?_⟩
    decide
  obtain ⟨st, hst, howned⟩ := hrun
  have hreach := Lts.Reach.exec (.init rfl) hst
  exact ⟨st, hst, howned, noOrphans_reachable _ _ _ _ st hreach⟩

end SimpleChubby
