import SimpleChubby.Leader.Locks

/-!
# The assertions of the leader

A file with a lock queue is meant to be locked in the database, and a waiter to
have a session. Both fail after a hand-off that leaves a second waiter, after
`acquire` on a node that is gone, and after a waiter has left. Runs without
such steps fail no assertion.
-/

namespace SimpleChubby

/-- The handle of an `acquire`, which waits in a queue when the lock is busy. -/
def Request.queues : Request → Option FileHandler
  | .acquire fd => some fd
  | _ => none

/-- The handle of a lock that an RPC gives up. -/
def Leader.givesUp (st : Leader Store) (session : SessionId) : Request → Option FileHandler
  | .release fd => some fd
  | .fileClose fd => if fd.fileName ∈ st.held (st.client session) then some fd else none
  | _ => none

/-- At most one session waits for the lock that resetting the owner with the
    handle would free. -/
def Leader.Lone (st : Leader Store) (fd : FileHandler) : Prop :=
  ∀ l ∈ st.db.lock fd.fileName, l.instanceNumber = wire fd.instanceNumber →
    (st.file2lockQueueMap.get fd.fileName).length ≤ 1

instance (st : Leader Store) (fd : FileHandler) : Decidable (st.Lone fd) :=
  inferInstanceAs (Decidable (∀ l ∈ st.db.lock fd.fileName,
    l.instanceNumber = wire fd.instanceNumber →
      (st.file2lockQueueMap.get fd.fileName).length ≤ 1))

/-- The session waits for no lock, except alone and with the file open that its
    client has not marked ephemeral. -/
def Leader.WaitsAlone (st : Leader Store) (session : SessionId) : Prop :=
  ∀ f, ∀ w ∈ st.file2lockQueueMap.get f, w.1 = session →
    (st.file2lockQueueMap.get f).length ≤ 1 ∧ f ∉ st.ephemeral (st.client session) ∧
      ∃ p ∈ st.fds session, p.value.fileName = f

/-- A session sends `startSession` before anything else, and presents handles
    that were sent to some session. The leader is not initialised again. -/
def Registered (st : Leader Store) : Input → Prop
  | .rpc s _ request =>
    (request.starts = none → st.session2clientMap.find s ≠ none) ∧
    ∀ fd ∈ request.handle, fd ∈ (handlesSent st.log).map Prod.snd
  | .disconnect s => st.session2clientMap.find s ≠ none ∨ st.fds s = []
  | .initializeLeader => False

instance (st : Leader Store) : ∀ input, Decidable (Registered st input)
  | .rpc s _ request => inferInstanceAs (Decidable (
      (request.starts = none → st.session2clientMap.find s ≠ none) ∧
      ∀ fd ∈ request.handle, fd ∈ (handlesSent st.log).map Prod.snd))
  | .disconnect s =>
    inferInstanceAs (Decidable (st.session2clientMap.find s ≠ none ∨ st.fds s = []))
  | .initializeLeader => inferInstanceAs (Decidable False)

/-- Client ids are not empty and texts hold no double quote; `acquire` presents
    the current instance of a node; a lock that is given up has one waiter at
    most; and a session that leaves waits for nothing that others wait for. -/
def Careful (st : Leader Store) : Input → Prop
  | .rpc s _ request =>
    (∀ clientId ∈ request.starts, clientId ≠ [] ∧ '"' ∉ clientId) ∧
    '"' ∉ request.content ∧
    (∀ fd ∈ request.queues, ∃ l ∈ st.db.lock fd.fileName,
      l.instanceNumber = wire fd.instanceNumber) ∧
    ∀ fd ∈ st.givesUp s request, st.Lone fd
  | .disconnect s =>
    (∀ p ∈ st.fds s, p.value.fileName ∈ st.held (st.client s) → st.Lone p.value) ∧
    st.WaitsAlone s
  | .initializeLeader => True

instance (st : Leader Store) (s : SessionId) (x : Xid) (request : Request) :
    Decidable (Careful st (.rpc s x request)) :=
  inferInstanceAs (Decidable (
    (∀ clientId ∈ request.starts, clientId ≠ [] ∧ '"' ∉ clientId) ∧
    '"' ∉ request.content ∧
    (∀ fd ∈ request.queues, ∃ l ∈ st.db.lock fd.fileName,
      l.instanceNumber = wire fd.instanceNumber) ∧
    ∀ fd ∈ st.givesUp s request, st.Lone fd))

/-- The leader, or the assertion that has ended it. -/
abbrev Watched : Type := Except Assertion (Leader Store)

section Runs

variable (sq : Engine) (strHash : Str → UInt64) (stillNamed : FdRecord → Bool)

/-- One input. -/
def Watched.step (input : Input) : Watched → Option Watched
  | .error _ => none
  | .ok st =>
    match handle (Service.paxos sq strHash stillNamed) input st with
    | .ret _ st' => some (.ok st')
    | .stop (.assertion site) _ => some (.error site)
    | .stop _ _ => none

/-- The runs of the leader over an empty store, each up to a failed assertion. -/
def Watched.lts (masterSequenceNumber : UInt64) : Lts Watched Input where
  init w := w = .ok (.fresh .empty masterSequenceNumber)
  step := Watched.step sq strHash stillNamed

end Runs

/-- A condition on the inputs of a running leader. -/
def Watched.Meets (P : Leader Store → Input → Prop) : Watched → Input → Prop
  | .ok st, input => P st input
  | .error _, _ => True

instance (st : Leader Store) (s : SessionId) (x : Xid) (request : Request) :
    Decidable (Watched.Meets Careful (.ok st) (.rpc s x request)) :=
  inferInstanceAs (Decidable (Careful st (.rpc s x request)))

instance : ∀ (w : Watched) input, Decidable (w.Meets Registered input)
  | .ok st, input => inferInstanceAs (Decidable (Registered st input))
  | .error _, _ => inferInstanceAs (Decidable True)

/-! ## The invariant -/

/-- What the assertions rely on: ids and names are in order, a file with a queue
    is locked, and every waiter has a client. -/
structure QueuesOk (st : Leader Store) : Prop where
  fifo : st.Fifo
  ready : st.db.Ready
  ids : ∀ s c, st.session2clientMap.find s = some c → c ≠ [] ∧ '"' ∉ c
  names : ∀ s, ∀ p ∈ st.fds s, NameOk p.value.fileName
  locked : ∀ f, st.queue f ≠ none → ∃ l, st.db.lock f = some l ∧ l.owner ≠ noOwner
  waiting : ∀ f, ∀ w ∈ st.file2lockQueueMap.get f, st.client w.1 ≠ []

/-- How a handler ends that fails no assertion; the state it returns meets `P`. -/
def Sound {α : Type} (P : Leader Store → Prop) : Outcome Stop (Leader Store) α → Prop
  | .ret _ st => P st
  | .stop e _ => ∀ site, e ≠ .assertion site

theorem Sound.mono {α : Type} {P Q : Leader Store → Prop} {o : Outcome Stop (Leader Store) α}
    (h : Sound P o) (hPQ : ∀ st, P st → Q st) : Sound Q o := by
  cases o with
  | ret a st => exact hPQ st h
  | stop e st => exact h

section Invariant

variable {st st' : Leader Store} {session : SessionId} {xid : Xid} {fd : FileHandler}

theorem QueuesOk.quote (h : QueuesOk st) (hc : st.client session ≠ []) :
    '"' ∉ st.client session :=
  (h.ids session _ (Leader.find_of_client hc)).2

/-- What is enough where no lock is taken and no session moves: a queue that is
    left is as it was, and its file stays locked. -/
theorem QueuesOk.keep (h : QueuesOk st) (hfifo : st'.Fifo) (hready : st'.db.Ready)
    (hsessions : st'.session2clientMap = st.session2clientMap)
    (hnames : ∀ s, ∀ p ∈ st'.fds s, p ∈ st.fds s ∨ NameOk p.value.fileName)
    (hqueues : ∀ f, st'.queue f ≠ none → st'.queue f = st.queue f ∧ st'.db.lock f = st.db.lock f) :
    QueuesOk st' where
  fifo := hfifo
  ready := hready
  ids := by
    rw [hsessions]
    exact h.ids
  names s p hp := by
    rcases hnames s p hp with hp | hname
    · exact h.names s p hp
    · exact hname
  locked f hf := by
    obtain ⟨hqueue, hlock⟩ := hqueues f hf
    rw [hlock]
    rw [hqueue] at hf
    exact h.locked f hf
  waiting f w hw := by
    have hf : st'.queue f ≠ none := by
      intro hnone
      rw [UMap.get_of_find_none hnone] at hw
      cases hw
    have hget : st'.file2lockQueueMap.get f = st.file2lockQueueMap.get f := by
      unfold UMap.get
      rw [show st'.file2lockQueueMap.find f = st.file2lockQueueMap.find f from (hqueues f hf).1]
    rw [hget] at hw
    unfold Leader.client
    rw [hsessions]
    exact h.waiting f w hw

/-- The state after the client and the handle have been looked up. -/
theorem QueuesOk.entered (h : QueuesOk st) (hc : st.client session ≠ [])
    (hname : NameOk fd.fileName) : QueuesOk (st.entered session fd) := by
  refine h.keep h.fifo h.ready (Leader.touchClient_sessions hc) (fun s p hp => ?_)
    fun f _ => ⟨rfl, rfl⟩
  rcases Leader.mem_of_foundFd hp with hp | ⟨_, rfl⟩
  · exact Or.inl hp
  · exact Or.inr hname

end Invariant

/-! ## The handlers keep it -/

/-- What a release of a file may change, besides the session table and the handles. -/
structure Leader.Freed (st : Leader Store) (fileName : Str) (st' : Leader Store) : Prop where
  queues : ∀ f, st'.queue f = st.queue f ∨ f = fileName ∧ st'.queue f = none
  nodes : ∀ f l, st'.db.lock f = some l →
    ∃ l₀, st.db.lock f = some l₀ ∧ l₀.instanceNumber = l.instanceNumber
  held : ∀ c f, f ∈ st'.held c → f ∈ st.held c ∨ f = fileName
  ephemeral : ∀ c f, f ∈ st'.ephemeral c → f ∈ st.ephemeral c

section Handlers

variable {sq : Engine} {strHash : Str → UInt64} {stillNamed : FdRecord → Bool}
  {session : SessionId} {xid : Xid}
  {fd : FileHandler} {st st' : Leader Store}

/-- With one waiter at most the hand-off finds its client and leaves no queue. -/
theorem HandOffEnds.sound {fileName : Str} {o : Outcome Stop (Leader Store) Unit}
    (h : HandOffEnds fileName st o) (hnonempty : st.queue fileName ≠ some [])
    (hlone : (st.file2lockQueueMap.get fileName).length ≤ 1)
    (hwaiting : ∀ w ∈ st.file2lockQueueMap.get fileName, st.client w.1 ≠ []) :
    Sound (fun st' => st'.db = st.db ∧ st'.session2fdMap = st.session2fdMap ∧
      st'.client2ephemeralMap = st.client2ephemeralMap ∧
      ∀ f, st'.queue f = if f = fileName then none else st.queue f) o := by
  cases h with
  | noQueue hq =>
    refine ⟨rfl, rfl, rfl, fun f => ?_⟩
    split_ifs with hf
    · rw [hf]
      exact hq
    · rfl
  | emptyQueue hq => exact absurd hq hnonempty
  | deadWaiter hq hw =>
    rw [UMap.get_of_find_some hq] at hwaiting
    exact absurd hw (hwaiting _ List.mem_cons_self)
  | lastWaiter hq hw =>
    refine ⟨rfl, rfl, rfl, fun f => ?_⟩
    show UMap.find (UMap.erase _ fileName) f = _
    rw [UMap.find_erase]
    split_ifs with hf
    · rfl
    · show UMap.find (UMap.set _ fileName _) f = _
      rw [UMap.find_set, if_neg hf]
      rfl
  | moreWaiters hq hrest hw =>
    rw [UMap.get_of_find_some hq] at hlone
    refine absurd (List.length_pos_iff.mpr hrest) ?_
    rw [List.length_cons] at hlone
    omega

/-- A release that frees no lock with two waiters. -/
theorem ReleaseEnds.sound {o : Outcome Stop (Leader Store) Unit}
    (h : ReleaseEnds (Service.paxos sq strHash stillNamed) session xid fd st o) (hok : QueuesOk st)
    (hc : st.client session ≠ []) (hname : NameOk fd.fileName) (hlone : st.Lone fd) :
    Sound (fun st' => QueuesOk st' ∧ st.Freed fd.fileName st') o := by
  have hspec := lock_resetLockOwner sq strHash hok.ready hname fd.instanceNumber
  have hfifo :
      ∀ st', ReleaseEnds (Service.paxos sq strHash stillNamed) session xid fd st (.ret () st') →
      st'.Fifo := fun st' h' => h'.fifo hok.fifo
  have hnames :
      ∀ st', ReleaseEnds (Service.paxos sq strHash stillNamed) session xid fd st (.ret () st') →
      ∀ s, ∀ p ∈ st'.fds s, p ∈ st.fds s ∨ NameOk p.value.fileName := by
    intro st' h' s p hp
    rcases h'.mem_of_fds hp with hp | ⟨_, rfl⟩
    · exact Or.inl hp
    · exact Or.inr hname
  -- what holds of the state in which the waiters are looked at
  have hoffered : ∀ {db : Store} {o : Outcome Stop (Leader Store) Unit},
      (Service.paxos sq strHash stillNamed).db.resetLockOwner fd.fileName fd.instanceNumber st.db =
        .ret true db → HandOffEnds fd.fileName (st.released session xid fd db) o →
      Sound (fun st' => st'.db = db ∧ st'.session2fdMap = (st.foundFd session fd).session2fdMap ∧
        st'.client2ephemeralMap = st.client2ephemeralMap ∧
        ∀ f, st'.queue f = if f = fd.fileName then none else st.queue f) o := by
    intro db o hdb hoff
    have hreset : LockResets fd.fileName fd.instanceNumber st.db (.ret true db) := hdb ▸ hspec
    cases hreset with
    | reset _ hlock _ =>
      refine hoff.sound (hok.fifo.nonempty fd.fileName) (hlone _ hlock rfl) fun w hw => ?_
      have hclient : (st.released session xid fd db).client w.1 = st.client w.1 :=
        UMap.get_touch _ _ _
      rw [hclient]
      exact hok.waiting _ w hw
  cases h with
  | noClient hno => exact absurd hno hc
  | crashed _ => exact fun site heq => by cases heq
  | @threw db _ hdb =>
    have hthrew : LockResets fd.fileName fd.instanceNumber st.db (.stop .exception db) :=
      hdb ▸ hspec
    cases hthrew
  | @refused db _ hdb =>
    have hrefused : LockResets fd.fileName fd.instanceNumber st.db (.ret false db) := hdb ▸ hspec
    cases hrefused with
    | refused _ =>
      refine ⟨hok.keep (hfifo _ (.refused hc hdb)) hok.ready (Leader.touchClient_sessions hc)
        (hnames _ (.refused hc hdb)) fun f _ => ⟨rfl, rfl⟩, ?_⟩
      exact ⟨fun f => Or.inl rfl, fun f l hl => ⟨l, hl, rfl⟩, fun c f hf => Or.inl hf,
        fun c f hf => hf⟩
  | stopped _ hdb hoff => exact hoffered hdb hoff
  | @released db st₁ _ hdb hoff =>
    obtain ⟨hdb₁, _, hephemeral, hqueue⟩ := hoffered hdb hoff
    obtain ⟨o, hheld, _⟩ := hoff.moves
    have hends : ReleaseEnds (Service.paxos sq strHash stillNamed) session xid fd st _ :=
      .released hc hdb hoff
    have hreset : LockResets fd.fileName fd.instanceNumber st.db (.ret true db) := hdb ▸ hspec
    cases hreset with
    | @reset _ owner hready hlock hupdate =>
      rw [← hdb₁] at hready hupdate
      refine ⟨hok.keep (hfifo _ hends) hready hends.sessions (hnames _ hends) fun f hf => ?_, ?_⟩
      · have hq : st₁.queue f = if f = fd.fileName then none else st.queue f := hqueue f
        have hne : f ≠ fd.fileName := by
          intro heq
          rw [if_pos heq] at hq
          exact hf hq
        rw [if_neg hne] at hq
        refine ⟨hq, ?_⟩
        show st₁.db.lock f = st.db.lock f
        rw [hupdate, Function.update_of_ne hne]
      · refine ⟨fun f => ?_, fun f l hl => ?_, fun c f hf => ?_, fun c f hf => ?_⟩
        · have hq : st₁.queue f = if f = fd.fileName then none else st.queue f := hqueue f
          by_cases hf : f = fd.fileName
          · rw [if_pos hf] at hq
            exact Or.inr ⟨hf, hq⟩
          · rw [if_neg hf] at hq
            exact Or.inl hq
        · have hl' : st₁.db.lock f = some l := hl
          rw [hupdate] at hl'
          by_cases hf : f = fd.fileName
          · subst hf
            rw [Function.update_self] at hl'
            cases hl'
            exact ⟨_, hlock, rfl⟩
          · rw [Function.update_of_ne hf] at hl'
            exact ⟨l, hl', rfl⟩
        · rcases (hheld c f).mp hf with hf | ⟨_, hf⟩
          · exact Or.inl (Leader.mem_unhold.mp hf).1
          · exact Or.inr hf
        · have hf' : f ∈ st₁.client2ephemeralMap.get c := hf
          rw [hephemeral] at hf'
          exact hf'

/-- Reclaiming the lock; what is noted for the session's client does not grow. -/
theorem ReclaimEnds.sound {o : Outcome Stop (Leader Store) Unit}
    (h : ReclaimEnds (Service.paxos sq strHash stillNamed) session fd (st.client session)
      (st.entered session fd) o) (hok : QueuesOk st) (hc : st.client session ≠ [])
    (hname : NameOk fd.fileName)
    (hlone : fd.fileName ∈ st.held (st.client session) → st.Lone fd) :
    Sound (fun st' => QueuesOk st' ∧ st.Freed fd.fileName st' ∧
      st'.held (st.client session) ⊆ st.held (st.client session)) o := by
  have hentered : QueuesOk (st.entered session fd) := hok.entered hc hname
  cases h with
  | notHeld _ =>
    refine ⟨hentered, ?_, fun f hf => hf⟩
    exact ⟨fun f => Or.inl rfl, fun f l hl => ⟨l, hl, rfl⟩, fun c f hf => Or.inl hf,
        fun c f hf => hf⟩
  | held hheld hr =>
    have hc' : (st.entered session fd).client session ≠ [] := by
      have hclient : (st.entered session fd).client session = st.client session :=
        UMap.get_touch _ _ _
      rw [hclient]
      exact hc
    refine (hr.sound hentered hc' hname (hlone hheld)).mono ?_
    rintro st₁ ⟨hok₁, hfreed⟩
    refine ⟨hok₁, ⟨hfreed.queues, hfreed.nodes, hfreed.held, hfreed.ephemeral⟩, fun f hf => ?_⟩
    rcases hfreed.held _ f hf with hf | rfl
    · exact hf
    · exact hheld

/-- A deletion fails no assertion of the leader; the queue of the node goes with it. -/
theorem DeleteEnds.sound {o : Outcome Stop (Leader Store) (Except Unit Unit)}
    (h : DeleteEnds (Service.paxos sq strHash stillNamed) session xid fd st o) (hok : QueuesOk st)
    (hc : st.client session ≠ []) (hname : NameOk fd.fileName) :
    Sound (fun st' => QueuesOk st' ∧ st.Freed fd.fileName st') o := by
  have hspec := lock_checkAndDelete sq strHash hok.ready hname fd.instanceNumber
  have hnames : ∀ st', DeleteEnds (Service.paxos sq strHash stillNamed) session xid fd st
      (.ret (.ok ()) st') → ∀ s, ∀ p ∈ st'.fds s, p ∈ st.fds s ∨ NameOk p.value.fileName := by
    intro st' h' s p hp
    rcases h'.mem_of_fds hp with hp | ⟨_, rfl⟩
    · exact Or.inl hp
    · exact Or.inr hname
  cases h with
  | noClient hno => exact absurd hno hc
  | crashed _ => exact fun site heq => by cases heq
  | @threw db _ hdb =>
    have hthrew : LockDeletes fd.fileName fd.instanceNumber st.db (.stop .exception db) :=
      hdb ▸ hspec
    cases hthrew
  | @refused db _ hdb =>
    have hends : DeleteEnds (Service.paxos sq strHash stillNamed) session xid fd st _ :=
      .refused hc hdb
    have hrefused : LockDeletes fd.fileName fd.instanceNumber st.db (.ret false db) := hdb ▸ hspec
    cases hrefused with
    | refused =>
      refine ⟨hok.keep (hends.fifo hok.fifo) hok.ready hends.sessions (hnames _ hends)
        fun f _ => ⟨rfl, rfl⟩, ?_⟩
      exact ⟨fun f => Or.inl rfl, fun f l hl => ⟨l, hl, rfl⟩, fun c f hf => Or.inl hf,
        fun c f hf => hf⟩
  | @deleted db _ hdb =>
    have hends : DeleteEnds (Service.paxos sq strHash stillNamed) session xid fd st _ :=
      .deleted hc hdb
    have hdeleted : LockDeletes fd.fileName fd.instanceNumber st.db (.ret true db) := hdb ▸ hspec
    cases hdeleted with
    | deleted hready hlock hupdate =>
      have hqueue :
          ∀ f, (st.deleted (Service.paxos sq strHash stillNamed) session xid fd db).queue f =
          if f = fd.fileName then none else st.queue f := fun f => UMap.find_erase _ _ _
      refine ⟨hok.keep (hends.fifo hok.fifo) hready hends.sessions (hnames _ hends)
        fun f hf => ?_, ?_⟩
      · have hne : f ≠ fd.fileName := by
          intro heq
          exact hf ((hqueue f).trans (if_pos heq))
        refine ⟨(hqueue f).trans (if_neg hne), ?_⟩
        show db.lock f = st.db.lock f
        rw [hupdate, Function.update_of_ne hne]
      · refine ⟨fun f => ?_, fun f l hl => ?_, fun c f hf => Or.inl hf, fun c f hf => ?_⟩
        · by_cases hf : f = fd.fileName
          · exact Or.inr ⟨hf, (hqueue f).trans (if_pos hf)⟩
          · exact Or.inl ((hqueue f).trans (if_neg hf))
        · have hl' : db.lock f = some l := hl
          rw [hupdate] at hl'
          by_cases hf : f = fd.fileName
          · subst hf
            rw [Function.update_self] at hl'
            cases hl'
          · rw [Function.update_of_ne hf] at hl'
            exact ⟨l, hl', rfl⟩
        · exact ((Leader.mem_ephemeral_deleted rfl).mp hf).1

/-- Nothing of it changes but the ephemeral marks that have been read. -/
theorem Leader.Freed.same {fileName : Str} (hdb : st'.db = st.db)
    (hqueues : st'.file2lockQueueMap = st.file2lockQueueMap)
    (hheld : st'.client2heldLockMap = st.client2heldLockMap)
    (heph : ∀ c, st'.ephemeral c = st.ephemeral c) : st.Freed fileName st' where
  queues f := Or.inl (congrArg (UMap.find · f) hqueues)
  nodes f l hl := by
    rw [hdb] at hl
    exact ⟨l, hl, rfl⟩
  held c f hf := by
    unfold Leader.held at hf
    rw [hheld] at hf
    exact Or.inl hf
  ephemeral c f hf := by
    rw [heph] at hf
    exact hf

theorem Leader.Freed.trans {st₁ : Leader Store} {fileName : Str} (h : st.Freed fileName st₁)
    (h' : st₁.Freed fileName st') : st.Freed fileName st' where
  queues f := by
    rcases h'.queues f with hsame | hnone
    · rw [hsame]
      exact h.queues f
    · exact Or.inr hnone
  nodes f l hl := by
    obtain ⟨l₁, hl₁, hn₁⟩ := h'.nodes f l hl
    obtain ⟨l₀, hl₀, hn₀⟩ := h.nodes f l₁ hl₁
    exact ⟨l₀, hl₀, hn₀.trans hn₁⟩
  held c f hf := by
    rcases h'.held c f hf with hf | hf
    · exact h.held c f hf
    · exact Or.inr hf
  ephemeral c f hf := h.ephemeral c f (h'.ephemeral c f hf)

/-- A queue that has waiters left is as it was. -/
theorem Leader.Freed.waiters {fileName f : Str} {w : SessionId × Xid} (h : st.Freed fileName st')
    (hw : w ∈ st'.file2lockQueueMap.get f) :
    st'.file2lockQueueMap.get f = st.file2lockQueueMap.get f := by
  unfold UMap.get
  rcases h.queues f with hsame | ⟨_, hnone⟩
  · rw [show st'.file2lockQueueMap.find f = st.file2lockQueueMap.find f from hsame]
  · rw [UMap.get_of_find_none hnone] at hw
    cases hw

theorem Leader.Freed.lone {fileName : Str} (h : st.Freed fileName st') (hlone : st.Lone fd) :
    st'.Lone fd := by
  intro l hl hn
  obtain ⟨l₀, hl₀, hn₀⟩ := h.nodes _ l hl
  have hlength := hlone l₀ hl₀ (hn₀.trans hn)
  unfold UMap.get at hlength ⊢
  rcases h.queues fd.fileName with hsame | ⟨_, hnone⟩
  · rw [show st'.file2lockQueueMap.find _ = st.file2lockQueueMap.find _ from hsame]
    exact hlength
  · rw [show st'.file2lockQueueMap.find _ = none from hnone]
    exact Nat.zero_le 1

theorem ClearsQueue.freed {fileName : Str} (h : ClearsQueue session fileName st (some st')) :
    st.Freed fileName st' ∧ st'.db = st.db := by
  have hsame : st.Freed fileName st := .same rfl rfl rfl fun _ => rfl
  cases h with
  | noQueue _ => exact ⟨hsame, rfl⟩
  | kept _ _ _ => exact ⟨hsame, rfl⟩
  | dropped _ _ =>
    have hqueue : ∀ f, (st.dropQueue fileName).queue f =
        if f = fileName then none else st.queue f := fun f => UMap.find_erase _ _ _
    refine ⟨⟨fun f => ?_, hsame.nodes, hsame.held, hsame.ephemeral⟩, rfl⟩
    by_cases hf : f = fileName
    · exact Or.inr ⟨hf, (hqueue f).trans (if_pos hf)⟩
    · exact Or.inl ((hqueue f).trans (if_neg hf))

/-- A session that waits alone waits no more after the cleanup of the queue. -/
theorem ClearsQueue.gone {fileName : Str} (h : ClearsQueue session fileName st (some st'))
    (hlone : ∀ w ∈ st.file2lockQueueMap.get fileName, w.1 = session →
      (st.file2lockQueueMap.get fileName).length ≤ 1) :
    ∀ w ∈ st'.file2lockQueueMap.get fileName, w.1 ≠ session := by
  intro w hw
  cases h with
  | noQueue hq =>
    rw [UMap.get_of_find_none hq] at hw
    cases hw
  | @kept queue copy hq hscan hcopy =>
    -- the scan stopped at the session itself, and somebody waits behind it
    cases queue with
    | nil => exact absurd (Option.some.inj hscan).symm hcopy
    | cons waiter rest =>
      simp only [scanQueue] at hscan
      split_ifs at hscan with hmine
      rw [UMap.get_of_find_some hq] at hlone
      have hlength := hlone waiter List.mem_cons_self hmine
      rw [List.length_cons, Option.some.inj hscan] at hlength
      have := List.length_pos_iff.mpr hcopy
      omega
  | dropped _ _ =>
    rw [Leader.dropQueue_file2lockQueueMap, UMap.get_erase, if_pos rfl] at hw
    cases hw

/-- Closing a handle; a session that waited for the file alone, and had not
    marked it ephemeral, waits no more. -/
theorem CloseEnds.sound {o : Outcome Stop (Leader Store) Unit}
    (h : CloseEnds (Service.paxos sq strHash stillNamed) session xid fd st o) (hok : QueuesOk st)
    (hc : st.client session ≠ []) (hname : NameOk fd.fileName)
    (hlone : fd.fileName ∈ st.held (st.client session) → st.Lone fd) :
    Sound (fun st' => QueuesOk st' ∧ st.Freed fd.fileName st' ∧
      st'.held (st.client session) ⊆ st.held (st.client session) ∧
      ((∀ w ∈ st.file2lockQueueMap.get fd.fileName, w.1 = session →
        (st.file2lockQueueMap.get fd.fileName).length ≤ 1 ∧
          fd.fileName ∉ st.ephemeral (st.client session)) →
        ∀ w ∈ st'.file2lockQueueMap.get fd.fileName, w.1 ≠ session)) o := by
  have hreclaimed :
      ∀ st₁, ReclaimEnds (Service.paxos sq strHash stillNamed) session fd (st.client session)
      (st.entered session fd) (.ret () st₁) → QueuesOk st₁ ∧ st.Freed fd.fileName st₁ ∧
        st₁.held (st.client session) ⊆ st.held (st.client session) :=
    fun st₁ hreclaim => hreclaim.sound hok hc hname hlone
  -- reading the map of the ephemeral files changes nothing
  have htouch : ∀ st₁ : Leader Store, QueuesOk st₁ →
      QueuesOk (st₁.touchEphemeral (st.client session)) ∧
        st₁.Freed fd.fileName (st₁.touchEphemeral (st.client session)) :=
    fun st₁ hok₁ => ⟨hok₁.keep hok₁.fifo hok₁.ready rfl (fun s p hp => Or.inl hp)
      fun f _ => ⟨rfl, rfl⟩, .same rfl rfl rfl fun c => UMap.get_touch _ _ _⟩
  have hclient :
      ∀ st₁, ReclaimEnds (Service.paxos sq strHash stillNamed) session fd (st.client session)
      (st.entered session fd) (.ret () st₁) →
      (st₁.touchEphemeral (st.client session)).client session ≠ [] :=
    fun st₁ hreclaim => ne_of_eq_of_ne (hreclaim.client session) hc
  cases h with
  | noClient hno => exact absurd hno hc
  | reclaimStops _ hreclaim => exact hreclaim.sound hok hc hname hlone
  | deleteStops _ hreclaim _ hdelete =>
    obtain ⟨hok₁, _, _⟩ := hreclaimed _ hreclaim
    exact hdelete.sound (htouch _ hok₁).1 (hclient _ hreclaim) hname
  | @deletes st₁ st₂ _ hreclaim heph hdelete =>
    obtain ⟨hok₁, hfreed₁, hheld₁⟩ := hreclaimed _ hreclaim
    obtain ⟨hok₂, hfreed₂⟩ := hdelete.sound (htouch _ hok₁).1 (hclient _ hreclaim) hname
    have hends : CloseEnds (Service.paxos sq strHash stillNamed) session xid fd st _ :=
      .deletes hc hreclaim heph hdelete
    have hfreed : st.Freed fd.fileName
        (st₂.logged (Leader.replyOf session xid (.bool true))) :=
      hfreed₁.trans ((htouch _ hok₁).2.trans (hfreed₂.trans (.same rfl rfl rfl fun _ => rfl)))
    refine ⟨hok₂.keep (hends.fifo hok.fifo) hok₂.ready rfl (fun s p hp => Or.inl hp)
      fun f _ => ⟨rfl, rfl⟩, hfreed, fun f hf => hheld₁ ?_, fun hwaits w hw hmine => ?_⟩
    · have hf' : f ∈ st₂.client2heldLockMap.get (st.client session) := hf
      rw [hdelete.held] at hf'
      exact hf'
    · rw [hfreed.waiters hw] at hw
      exact (hwaits w hw hmine).2 (hfreed₁.ephemeral _ _ heph)
  | endless _ _ _ _ => exact fun site heq => by cases heq
  | @closes st₁ st₂ _ hreclaim heph hclear =>
    obtain ⟨hok₁, hfreed₁, hheld₁⟩ := hreclaimed _ hreclaim
    have hends : CloseEnds (Service.paxos sq strHash stillNamed) session xid fd st _ :=
      .closes hc hreclaim heph hclear
    have hremoved : st.Freed fd.fileName ((st₁.touchEphemeral (st.client session)).removeFd session
        ((st.touchClient session).findFd session fd)) :=
      hfreed₁.trans ((htouch _ hok₁).2.trans (.same rfl rfl rfl fun _ => rfl))
    obtain ⟨hfreed₂, hdb₂⟩ := hclear.freed
    have hdb : st₂.db = st₁.db := hdb₂
    have hfreed : st.Freed fd.fileName ((st₂.unsubscribed session fd.fileName).logged
        (Leader.replyOf session xid (.bool true))) :=
      hremoved.trans (hfreed₂.trans (.same rfl rfl rfl fun _ => rfl))
    refine ⟨hok₁.keep (hends.fifo hok.fifo) (hdb.symm ▸ hok₁.ready) hclear.sessions
      (fun s p hp => ?_) (fun f hf => ⟨?_, congrArg (Store.lock · f) hdb⟩), hfreed,
      fun f hf => hheld₁ ?_, fun hwaits => hclear.gone fun w hw hmine => ?_⟩
    · have hp' : p ∈ st₂.fds s := hp
      rw [hclear.fds_eq] at hp'
      exact Or.inl (Leader.mem_removeFd.mp hp').1
    · rcases hfreed₂.queues f with hsame | ⟨_, hnone⟩
      · exact hsame
      · exact absurd hnone hf
    · have hf' : f ∈ st₂.client2heldLockMap.get (st.client session) := hf
      rw [hclear.held] at hf'
      exact hf'
    · have hsame := hremoved.waiters hw
      rw [hsame] at hw ⊢
      exact (hwaits w hw hmine).1

/-- The loop of `disconnect`, after which a session that waited alone waits no more. -/
theorem CloseAllEnds.sound {l : List FdRecord} {o : Outcome Stop (Leader Store) Unit}
    (h : CloseAllEnds (Service.paxos sq strHash stillNamed) session l st o) (hok : QueuesOk st)
    (hc : l ≠ [] → st.client session ≠ []) (hnames : ∀ p ∈ l, NameOk p.value.fileName)
    (hlone : ∀ p ∈ l, p.value.fileName ∈ st.held (st.client session) → st.Lone p.value)
    (hwaits : ∀ f, ∀ w ∈ st.file2lockQueueMap.get f, w.1 = session →
      (st.file2lockQueueMap.get f).length ≤ 1 ∧ f ∉ st.ephemeral (st.client session) ∧
        ∃ p ∈ l, p.value.fileName = f) :
    Sound (fun st' => QueuesOk st' ∧
      ∀ f, ∀ w ∈ st'.file2lockQueueMap.get f, w.1 ≠ session) o := by
  induction h with
  | done =>
    refine ⟨hok, fun f w hw hmine => ?_⟩
    obtain ⟨_, _, p, hp, _⟩ := hwaits f w hw hmine
    cases hp
  | @stopped p rest st st' e hclose =>
    exact hclose.sound hok (hc (List.cons_ne_nil _ _)) (hnames p List.mem_cons_self)
      (hlone p List.mem_cons_self)
  | @next p rest st st₁ o hclose _ ih =>
    have hclient : st₁.client session = st.client session := by
      unfold Leader.client
      rw [hclose.sessions]
    obtain ⟨hok₁, hfreed, hheld, hgone⟩ := hclose.sound hok (hc (List.cons_ne_nil _ _))
      (hnames p List.mem_cons_self) (hlone p List.mem_cons_self)
    have hmine := hgone fun w hw hmine =>
      ⟨(hwaits _ w hw hmine).1, (hwaits _ w hw hmine).2.1⟩
    refine ih hok₁ (fun _ => ?_) (fun q hq => hnames q (List.mem_cons_of_mem p hq))
      (fun q hq hin => ?_) fun f w hw hs => ?_
    · rw [hclient]
      exact hc (List.cons_ne_nil _ _)
    · rw [hclient] at hin
      exact hfreed.lone (hlone q (List.mem_cons_of_mem p hq) (hheld hin))
    · rw [hclient]
      have hsame := hfreed.waiters hw
      obtain ⟨hlength, heph, q, hq, hqf⟩ := hwaits f w (hsame ▸ hw) hs
      refine ⟨hsame.symm ▸ hlength, fun hcon => heph (hfreed.ephemeral _ _ hcon), ?_⟩
      rcases List.mem_cons.mp hq with rfl | hq
      · rw [← hqf] at hw
        exact absurd hs (hmine w hw)
      · exact ⟨q, hq, hqf⟩

theorem DisconnectEnds.sound {o : Outcome Stop (Leader Store) Unit}
    (h : DisconnectEnds (Service.paxos sq strHash stillNamed) session st o) (hok : QueuesOk st)
    (hc : st.fds session ≠ [] → st.client session ≠ [])
    (hlone : ∀ p ∈ st.fds session, p.value.fileName ∈ st.held (st.client session) →
      st.Lone p.value) (halone : st.WaitsAlone session) : Sound QueuesOk o := by
  have htouched : QueuesOk (st.touchFds session) := by
    refine hok.keep hok.fifo hok.ready rfl (fun s p hp => ?_) fun f _ => ⟨rfl, rfl⟩
    have hfds : (st.touchFds session).fds s = st.fds s := UMap.get_touch _ _ _
    rw [hfds] at hp
    exact Or.inl hp
  cases h with
  | stopped hall => exact hall.sound htouched hc (hok.names session) hlone halone
  | @left st₁ hall =>
    obtain ⟨hok₁, hgone⟩ := hall.sound htouched hc (hok.names session) hlone halone
    refine ⟨hok₁.fifo, hok₁.ready, fun s c hs => ?_, hok₁.names, hok₁.locked, fun f w hw => ?_⟩
    · have herase : (st₁.session2clientMap.erase session).find s = some c := hs
      rw [UMap.find_erase] at herase
      split_ifs at herase
      exact hok₁.ids s c herase
    · show (st₁.session2clientMap.erase session).get w.1 ≠ []
      rw [UMap.get_erase, if_neg (hgone f w hw)]
      exact hok₁.waiting f w hw

/-- A node that is created has no queue. -/
theorem LockOpens.queued {fileName : Str} {r : Option UInt64} {db : Store}
    (h : LockOpens fileName st.db (.ret r db)) (hok : QueuesOk st) :
    db.Ready ∧ ∀ f, st.queue f ≠ none → db.lock f = st.db.lock f := by
  cases h with
  | kept hready hlock => exact ⟨hready, fun f _ => congrFun hlock f⟩
  | created hready hnone hlock =>
    refine ⟨hready, fun f hf => ?_⟩
    have hne : f ≠ fileName := by
      rintro rfl
      obtain ⟨l, hl, _⟩ := hok.locked f hf
      rw [hnone] at hl
      cases hl
    rw [hlock, Function.update_of_ne hne]

theorem OpenEnds.sound {fileName : Str} {mode : Mode} {o : Outcome Stop (Leader Store) Unit}
    (h : OpenEnds (Service.paxos sq strHash stillNamed) session xid fileName mode st o)
    (hok : QueuesOk st)
    (hc : st.client session ≠ []) : Sound QueuesOk o := by
  have hspec : checkName fileName = true →
      LockOpens fileName st.db
        (openCall (Service.paxos sq strHash stillNamed) fileName mode st.db) :=
    fun hname => lockOpens_openCall hok.ready (checkName_iff.mp hname) mode
  cases h with
  | noClient hno => exact absurd hno hc
  | crashed _ => exact fun site heq => by cases heq
  | badArg _ _ =>
    exact hok.keep (hok.fifo.logged quiet_replyOf) hok.ready (Leader.touchClient_sessions hc)
      (fun s p hp => Or.inl hp) fun f _ => ⟨rfl, rfl⟩
  | @failed r db code _ hname hcall =>
    cases hcall with
    | threw hdb =>
      have hthrew : LockOpens fileName st.db (.stop .exception db) := hdb ▸ hspec hname
      cases hthrew
    | @returned r _ hdb =>
      have hopens : LockOpens fileName st.db (.ret r db) := hdb ▸ hspec hname
      obtain ⟨hready, hlock⟩ := hopens.queued hok
      exact hok.keep (hok.fifo.logged quiet_replyOf) hready (Leader.touchClient_sessions hc)
        (fun s p hp => Or.inl hp) fun f hf => ⟨rfl, hlock f hf⟩
  | @opened n db _ hname hdb =>
    have hopens : LockOpens fileName st.db (.ret (some n) db) := hdb ▸ hspec hname
    obtain ⟨hready, hlock⟩ := hopens.queued hok
    refine hok.keep ((hok.fifo.logged quiet_replyOf).logged quiet_parentEvents) hready
      (Leader.touchClient_sessions hc) (fun s p hp => ?_) fun f hf => ⟨rfl, hlock f hf⟩
    rcases Leader.mem_openFd.mp hp with hp | ⟨_, rfl⟩
    · exact Or.inl hp
    · exact Or.inr (checkName_iff.mp hname)

/-- A handler that looks a handle up and makes a call that has nothing to do with locks. -/
theorem QueuesOk.found (hok : QueuesOk st) (hname : NameOk fd.fileName) {α : Type} {r : α}
    {db : Store} (hkeeps : LockKeeps st.db (.ret r db)) {l : List Action}
    (hl : ∀ a ∈ l, a.quiet = true) :
    QueuesOk (((st.foundFd session fd).setDb db).logged l) := by
  cases hkeeps with
  | kept hready hlock =>
    refine hok.keep (hok.fifo.logged hl) hready rfl (fun s p hp => ?_)
      fun f _ => ⟨rfl, congrFun hlock f⟩
    rcases Leader.mem_of_foundFd hp with hp | ⟨_, rfl⟩
    · exact Or.inl hp
    · exact Or.inr hname

theorem ReadEnds.sound {o : Outcome Stop (Leader Store) Unit}
    (h : ReadEnds (Service.paxos sq strHash stillNamed) session xid fd st o) (hok : QueuesOk st)
    (hname : NameOk fd.fileName) : Sound QueuesOk o := by
  cases o with
  | stop e s =>
    cases h with
    | crashed _ => exact fun site heq => by cases heq
  | ret u s =>
    obtain ⟨r, db, body, hkeeps, rfl⟩ := h.keeps hok.ready hname
    exact hok.found hname hkeeps quiet_replyOf

theorem WriteEnds.sound {content : Str} {o : Outcome Stop (Leader Store) Unit}
    (h : WriteEnds (Service.paxos sq strHash stillNamed) session xid fd content st o)
    (hok : QueuesOk st)
    (hname : NameOk fd.fileName) (hquote : '"' ∉ content) : Sound QueuesOk o := by
  cases o with
  | stop e s =>
    cases h with
    | crashed _ => exact fun site heq => by cases heq
  | ret u s =>
    obtain ⟨r, db, body, after, hkeeps, hafter, rfl⟩ := h.keeps hok.ready hname hquote
    refine hok.found hname hkeeps fun a ha => ?_
    rcases List.mem_append.mp ha with ha | ha
    · exact quiet_replyOf a ha
    · rcases hafter with rfl | rfl
      · cases ha
      · exact quiet_contentEvents a ha

/-- A lock that is granted has no queue; one that is refused for the current
    instance of the node is taken. -/
theorem AcquireEnds.sound {busy : Leader Store → Leader Store}
    {o : Outcome Stop (Leader Store) Unit}
    (h : AcquireEnds (Service.paxos sq strHash stillNamed) session xid fd busy st o)
    (hok : QueuesOk st)
    (hc : st.client session ≠ []) (hname : NameOk fd.fileName)
    (hbusy : ∀ st₁, QueuesOk st₁ → st₁.client session ≠ [] →
      (∀ l, st₁.db.lock fd.fileName = some l → l.instanceNumber = wire fd.instanceNumber →
        l.owner ≠ noOwner) → st₁.db = st.db → QueuesOk (busy st₁)) : Sound QueuesOk o := by
  have hspec :=
    lock_testAndSetLockOwner sq strHash hok.ready hname fd.instanceNumber (hok.quote hc)
  have hentered : QueuesOk (st.entered session fd) := hok.entered hc hname
  cases h with
  | noClient hno => exact absurd hno hc
  | crashed _ => exact fun site heq => by cases heq
  | @threw db _ hdb =>
    have hthrew : LockTakes fd.fileName fd.instanceNumber (st.client session) st.db
      (.stop .exception db) := hdb ▸ hspec
    cases hthrew
  | @queued db st' hdb hq =>
    have htaken : LockTakes fd.fileName fd.instanceNumber (st.client session) st.db
      (.ret true db) := hdb ▸ hspec
    cases htaken with
    | taken _ hlock _ _ =>
      obtain ⟨l, hl, howner⟩ := hok.locked _ hq
      rw [hlock] at hl
      cases hl
      exact absurd rfl howner
  | @taken db _ hdb hq =>
    have htaken : LockTakes fd.fileName fd.instanceNumber (st.client session) st.db
      (.ret true db) := hdb ▸ hspec
    cases htaken with
    | @taken _ stored hready hlock hupdate _ =>
      refine hentered.keep ((hok.fifo.logged quiet_replyOf).logged quiet_lockEvents) hready rfl
        (fun s p hp => Or.inl hp) fun f hf => ⟨rfl, ?_⟩
      have hne : f ≠ fd.fileName := by
        rintro rfl
        exact hf hq
      show db.lock f = st.db.lock f
      rw [hupdate, Function.update_of_ne hne]
  | @busy db _ hdb =>
    have hrefused : LockTakes fd.fileName fd.instanceNumber (st.client session) st.db
      (.ret false db) := hdb ▸ hspec
    have hclient : (st.entered session fd).client session = st.client session :=
      UMap.get_touch _ _ _
    cases hrefused with
    | refused htaken => exact hbusy _ hentered (hclient ▸ hc) htaken rfl

/-- A waiter joins the queue of a lock that is taken. -/
theorem QueuesOk.enqueue (hok : QueuesOk st) (hc : st.client session ≠ [])
    {fileName : Str} (hlocked : ∃ l, st.db.lock fileName = some l ∧ l.owner ≠ noOwner) :
    QueuesOk (st.enqueue fileName session xid) where
  fifo := hok.fifo.enqueue
  ready := hok.ready
  ids := hok.ids
  names := hok.names
  locked f hf := by
    by_cases hname : f = fileName
    · rw [hname]
      exact hlocked
    · have hqueue : (st.enqueue fileName session xid).queue f = st.queue f := if_neg hname
      rw [hqueue] at hf
      exact hok.locked f hf
  waiting f w hw := by
    rw [Leader.enqueue_file2lockQueueMap, UMap.get_alter] at hw
    split_ifs at hw with hname
    · rcases List.mem_append.mp hw with hw | hw
      · exact hok.waiting _ w hw
      · rw [List.mem_singleton.mp hw]
        exact hc
    · exact hok.waiting f w hw

theorem StartEnds.sound {clientId : Str} {o : Outcome Stop (Leader Store) Unit}
    (h : StartEnds (Service.paxos sq strHash stillNamed) session xid clientId st o)
    (hok : QueuesOk st)
    (hid : clientId ≠ [] ∧ '"' ∉ clientId) : Sound QueuesOk o := by
  cases h with
  | refused _ =>
    exact hok.keep (hok.fifo.logged quiet_replyOf) hok.ready rfl (fun s p hp => Or.inl hp)
      fun f _ => ⟨rfl, rfl⟩
  | started _ =>
    refine ⟨hok.fifo.logged quiet_replyOf, hok.ready, fun s c hs => ?_, hok.names, hok.locked,
      fun f w hw => ?_⟩
    · have hset : (st.session2clientMap.set session clientId).find s = some c := hs
      rw [UMap.find_set] at hset
      split_ifs at hset
      · cases hset
        exact hid
      · exact hok.ids s c hset
    · show (st.session2clientMap.set session clientId).get w.1 ≠ []
      rw [UMap.get_set]
      split_ifs
      · exact hid.1
      · exact hok.waiting f w hw

theorem QueuesOk.reopened (hok : QueuesOk st) (hc : st.client session ≠ [])
    (hname : NameOk fd.fileName) (mode : Mode) :
    QueuesOk (st.reopened session xid fd mode) := by
  refine hok.keep (hok.fifo.logged quiet_replyOf) hok.ready (Leader.touchClient_sessions hc)
    (fun s p hp => ?_) fun f _ => ⟨rfl, rfl⟩
  rcases Leader.mem_openFd.mp hp with hp | ⟨_, rfl⟩
  · exact Or.inl hp
  · exact Or.inr hname

/-- A registered session has a client id. -/
theorem QueuesOk.client (hok : QueuesOk st)
    (hregistered : st.session2clientMap.find session ≠ none) : st.client session ≠ [] := by
  obtain ⟨c, hfind⟩ := Option.ne_none_iff_exists'.mp hregistered
  have hclient : st.client session = c := UMap.get_of_find_some hfind
  rw [hclient]
  exact (hok.ids session c hfind).1

/-- No input fails an assertion, and the invariant holds after it. -/
theorem Handles.sound {input : Input} {o : Outcome Stop (Leader Store) Unit}
    (h : Handles (Service.paxos sq strHash stillNamed) st input o) (hok : QueuesOk st)
    (hsent : SendsAccepted st.log) (hregistered : Registered st input)
    (hcareful : Careful st input) : Sound QueuesOk o := by
  have hcall : ∀ session xid request, QueuesOk (st.logged [.call session xid request]) :=
    fun _ _ _ => hok.keep (hok.fifo.logged (by simp [Action.quiet])) hok.ready rfl
      (fun s p hp => Or.inl hp) fun f _ => ⟨rfl, rfl⟩
  have hname : ∀ fd ∈ (handlesSent st.log).map Prod.snd, NameOk fd.fileName := by
    intro fd hfd
    obtain ⟨⟨s, fd⟩, hsome, rfl⟩ := List.mem_map.mp hfd
    exact name_of_handlesSent hsent hsome
  cases h with
  | fileOpen ho => exact ho.sound (hcall _ _ _) (hok.client (hregistered.1 rfl))
  | @fileClose s x fd _ ho =>
    have hfd := hname fd (hregistered.2 fd rfl)
    refine (ho.sound (hcall _ _ _) (hok.client (hregistered.1 rfl)) hfd fun hheld => ?_).mono
      fun _ h => h.1
    exact hcareful.2.2.2 fd (if_pos hheld)
  | @fileDelete s x fd _ ho =>
    have hfd := hname fd (hregistered.2 fd rfl)
    exact (ho.sound (hcall _ _ _) (hok.client (hregistered.1 rfl)) hfd).1
  | @fileDeleteStops s x fd _ _ ho =>
    have hfd := hname fd (hregistered.2 fd rfl)
    exact ho.sound (hcall _ _ _) (hok.client (hregistered.1 rfl)) hfd
  | @getContentsAndStat s x fd _ ho =>
    exact ho.sound (hcall _ _ _) (hname fd (hregistered.2 fd rfl))
  | @setContents s x fd _ _ ho =>
    exact ho.sound (hcall _ _ _) (hname fd (hregistered.2 fd rfl)) hcareful.2.1
  | @acquire s x fd _ ho =>
    have hfd := hname fd (hregistered.2 fd rfl)
    refine ho.sound (hcall _ _ _) (hok.client (hregistered.1 rfl)) hfd
      fun st₁ hok₁ hc₁ htaken hdb => hok₁.enqueue hc₁ ?_
    -- the node is still there, so the lock was refused because it is taken
    obtain ⟨l, hl, hn⟩ := hcareful.2.2.1 fd rfl
    have hl₁ : st₁.db.lock fd.fileName = some l := by
      rw [hdb]
      exact hl
    exact ⟨l, hl₁, htaken l hl₁ hn⟩
  | @tryAcquire s x fd _ ho =>
    have hfd := hname fd (hregistered.2 fd rfl)
    exact ho.sound (hcall _ _ _) (hok.client (hregistered.1 rfl)) hfd fun st₁ hok₁ _ _ _ =>
      hok₁.keep (hok₁.fifo.logged quiet_replyOf) hok₁.ready rfl (fun s p hp => Or.inl hp)
        fun f _ => ⟨rfl, rfl⟩
  | @release s x fd _ ho =>
    have hfd := hname fd (hregistered.2 fd rfl)
    exact (ho.sound (hcall _ _ _) (hok.client (hregistered.1 rfl)) hfd
      (hcareful.2.2.2 fd rfl)).mono fun _ h => h.1
  | startSession ho => exact ho.sound (hcall _ _ _) (hcareful.1 _ rfl)
  | @fileReopen s x fd mode =>
    exact (hcall _ _ _).reopened (hok.client (hregistered.1 rfl))
      (hname fd (hregistered.2 fd rfl)) mode
  | @disconnect s _ ho =>
    have hstart : QueuesOk (st.logged [.disconnected s]) :=
      hok.keep (hok.fifo.logged (by simp [Action.quiet])) hok.ready rfl
        (fun s p hp => Or.inl hp) fun f _ => ⟨rfl, rfl⟩
    refine ho.sound hstart (fun hfds => ?_) hcareful.1 hcareful.2
    rcases hregistered with hfind | hnone
    · exact hok.client hfind
    · exact absurd hnone hfds
  | initializeLeader _ => exact hregistered.elim

end Handlers

/-! ## Careful runs -/

/-- What holds in the runs of registered and careful sessions: the leader is
    running, its invariant holds, and the handles it sent have accepted names. -/
def Watched.Ok : Watched → Prop
  | .ok st => QueuesOk st ∧ SendsAccepted st.log
  | .error _ => False

section Runs

variable {sq : Engine} {strHash : Str → UInt64} {stillNamed : FdRecord → Bool}

theorem QueuesOk.fresh (masterSequenceNumber : UInt64) :
    QueuesOk (Leader.fresh .empty masterSequenceNumber) where
  fifo := QueueHistory.empty
  ready := Store.ready_empty
  ids s c hs := by cases hs
  names s p hp := by cases hp
  locked f hf := absurd rfl hf
  waiting f w hw := by cases hw

theorem Watched.Ok.step {w w' : Watched} {input : Input} (h : w.Ok)
    (hregistered : w.Meets Registered input) (hcareful : w.Meets Careful input)
    (hstep : Watched.step sq strHash stillNamed input w = some w') : w'.Ok := by
  cases w with
  | error site => exact h.elim
  | ok st =>
    have hends := handle_ends (Service.paxos sq strHash stillNamed) st input
    have hsound := hends.sound h.1 h.2 hregistered hcareful
    unfold Watched.step at hstep
    cases hrun : handle (Service.paxos sq strHash stillNamed) input st with
    | ret u st' =>
      rw [hrun] at hends hsound
      simp only [hrun] at hstep
      cases hstep
      refine ⟨hsound, fun a ha => ?_⟩
      obtain ⟨l, hl, hlog⟩ := hends.sendsAccepted
      rw [hlog] at ha
      rcases List.mem_append.mp ha with ha | ha
      · exact h.2 a ha
      · exact hl a ha
    | stop e st' =>
      rw [hrun] at hsound
      simp only [hrun] at hstep
      cases e with
      | assertion site => exact absurd rfl (hsound site)
      | database => cases hstep
      | uncaught => cases hstep
      | endless => cases hstep

end Runs

/-- In every run of registered sessions whose inputs are careful, no assertion fails. -/
theorem noAssertion_reachable (sq : Engine) (strHash : Str → UInt64)
    (stillNamed : FdRecord → Bool)
    (masterSequenceNumber : UInt64) (w : Watched)
    (h : (Watched.lts sq strHash stillNamed masterSequenceNumber).Reach
      (fun w input => w.Meets Registered input ∧ w.Meets Careful input) w) (site : Assertion) :
    w ≠ .error site := by
  have hok : w.Ok := by
    refine h.invariant ?_ ?_
    · rintro w rfl
      exact ⟨QueuesOk.fresh masterSequenceNumber, fun a ha => absurd ha List.not_mem_nil⟩
    · intro w w' input _ hok hgood hstep
      exact hok.step hgood.1 hgood.2 hstep
  rintro rfl
  exact hok

theorem noAssertion_handOff : ∃ w, (Watched.lts .refusing (fun _ => 0) inlineNamed 0).Reach
    (fun w input => w.Meets Registered input ∧ w.Meets Careful input) w ∧
      (∃ st, w = .ok st ∧ ['/', 'f'] ∈ st.held ['2']) ∧ w ≠ .error .queueAbsent := by
  have hstart : (Watched.lts .refusing (fun _ => 0) inlineNamed 0).Reach
      (fun w input => w.Meets Registered input ∧ w.Meets Careful input)
      (.ok (.fresh .empty 0)) := .init rfl
  have hone := hstart.step (l := .rpc 1 1 (.startSession ['1'])) ⟨by decide, by decide⟩ rfl
  have htwo := hone.step (l := .rpc 2 1 (.startSession ['2'])) ⟨by decide, by decide⟩ rfl
  have hopened := htwo.step (l := .rpc 1 2 (.fileOpen ['/', 'f'] ModeFlag.createFile))
    ⟨by decide, by decide⟩ rfl
  have hacquired := hopened.step (l := .rpc 1 3 (.acquire ⟨0, 0, ['/', 'f'], 1, false⟩))
    ⟨by decide, by decide⟩ rfl
  have hwaits := hacquired.step (l := .rpc 2 2 (.acquire ⟨0, 0, ['/', 'f'], 1, false⟩))
    ⟨by decide, by decide⟩ rfl
  have hreleased := hwaits.step (l := .rpc 1 4 (.release ⟨0, 0, ['/', 'f'], 1, false⟩))
    ⟨by decide, by decide⟩ rfl
  refine ⟨_, hreleased, ⟨_, rfl, by decide⟩, ?_⟩
  exact noAssertion_reachable _ _ _ _ _ hreleased .queueAbsent

/-- The lock is handed to the first of two waiters, and a newcomer asks for it. -/
def handOverToTwo : List Input :=
  let fd : FileHandler := ⟨0, 0, ['/', 'f'], 1, false⟩
  [.rpc 1 1 (.startSession ['1']), .rpc 2 1 (.startSession ['2']),
    .rpc 3 1 (.startSession ['3']), .rpc 4 1 (.startSession ['4']),
    .rpc 1 2 (.fileOpen ['/', 'f'] ModeFlag.createFile), .rpc 1 3 (.acquire fd),
    .rpc 2 2 (.acquire fd), .rpc 3 2 (.acquire fd), .rpc 1 4 (.release fd),
    .rpc 4 2 (.tryAcquire fd)]

/-- Registered sessions alone can make an assertion fail. -/
theorem not_noAssertion : ¬ ∀ w, (Watched.lts .refusing (fun _ => 0) inlineNamed 0).Reach
    (fun w input => w.Meets Registered input) w → ∀ site, w ≠ .error site := by
  intro hall
  have hrun : (Watched.lts .refusing (fun _ => 0) inlineNamed 0).exec
      (fun w input => w.Meets Registered input)
      handOverToTwo (.ok (.fresh .empty 0)) = some (.error .queueAbsent) := rfl
  exact hall _ (Lts.Reach.exec (.init rfl) hrun) .queueAbsent rfl

end SimpleChubby
